import SqlLayout.Layout.Indent
import SqlLayout.Statement

/-!
# Right margin

A line is broken before a token that would end beyond the margin; the new line
starts with the blanks that the line before started with.  Identifiers, calls and
typed literals are kept whole.
-/

namespace SqlLayout

structure Margin where
  width : Nat
  /-- The line written so far. -/
  line : Text := []
deriving DecidableEq, Repr

namespace Margin

def hasBreak (text : Text) : Bool := text.any fun c => c == '\n' || c == '\r'

def keepsTogether (tree : Tree) (id : NodeId) : Bool :=
  tree.isKindIn id [.identifier, .function, .typedLiteral] && !hasBreak (tree.value id)

def overflows (m : Margin) (value : Text) : Bool :=
  m.width < m.line.length + value.length && !m.line.trim.isEmpty

def lineIndent (m : Margin) : Text := m.line.takeWhile Text.isBlank

/-- Breaks before a child: the blank before it becomes the break, or a new one is
inserted.  The second part is the position of the child after that. -/
def breakBefore (list : NodeId) (idx : Nat) (newline : Text) (tree : Tree) : Tree × Nat :=
  match (if idx = 0 then none else tree.child? list (idx - 1)) with
  | some prev =>
      if tree.isWhitespace prev then (tree.setValue prev newline, idx)
      else (tree.insertBlank list idx newline, idx + 1)
  | none => (tree.insertBlank list idx newline, idx + 1)

/-- Writes at most `budget` children of a list, given what to do with a group. -/
def writeChildren (visit : NodeId -> Margin × Tree -> Margin × Tree) (list : NodeId) :
    Nat -> Nat -> Margin × Tree -> Margin × Tree
  | 0, _, state => state
  | budget + 1, idx, (m, tree) =>
      match tree.child? list idx with
      | none => (m, tree)
      | some id =>
          let value := tree.value id
          if tree.isWhitespace id && hasBreak value then
            let m := { m with line := (Text.lineTail? value).getD [] }
            writeChildren visit list budget (idx + 1) (m, tree)
          else if tree.isGroup id && !keepsTogether tree id then
            writeChildren visit list budget (idx + 1) (visit id (m, tree))
          else if m.overflows value && !tree.isWhitespace id then
            let (tree, idx) := breakBefore list idx ('\n' :: m.lineIndent) tree
            let m := { m with line := m.lineIndent ++ value }
            writeChildren visit list budget (idx + 1) (m, tree)
          else
            let m := { m with line := m.line ++ value }
            writeChildren visit list budget (idx + 1) (m, tree)

def writeList : Nat -> NodeId -> Margin × Tree -> Margin × Tree
  | 0, _, state => state
  | depth + 1, list, state =>
      writeChildren (writeList depth) list (state.2.childCount list) 0 state

end Margin

/-- Breaks the lines of a statement; the margin remembers the line it ends in. -/
def Statement.breakLines (s : Statement) (m : Margin) : Statement × Margin :=
  let (m, tree) := Margin.writeList s.tree.size s.root (m, s.tree)
  ({ s with tree := tree }, m)

end SqlLayout
