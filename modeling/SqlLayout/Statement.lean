import SqlLayout.Grouping.Binary
import SqlLayout.Grouping.Pass
import SqlLayout.Grouping.Scans
import SqlLayout.Tree.Edit
import SqlLayout.Tree.Parts

/-!
# Statements

A statement is a tree together with its root.  A flat statement has its tokens
as the children of the root.
-/

namespace SqlLayout

structure Statement where
  tree : Tree
  root : NodeId
deriving DecidableEq, Repr

namespace Statement

/-- The flat statement over tokens: the tokens are numbered in order and the
root comes after them. -/
def ofTokens (tokens : List Token) : Statement :=
  let tree : Tree := { nodes := (tokens.map fun token => { content := .token token }).toArray }
  let (root, tree) := tree.addGroup .statement (List.range tokens.length)
  ⟨tree, root⟩

def tokens (s : Statement) : List Token := s.tree.tokens s.root

def text (s : Statement) : Text := s.tree.value s.root

def isBlank (s : Statement) : Bool := s.tokens.all Token.isWhitespace

def type (s : Statement) : Text := s.tree.statementType s.root

end Statement

/-!
# Grouping a statement

All passes in order.  A later pass sees the groups that the earlier ones made.
-/

def Pass.all : List Pass :=
  [.comments, .pairs .squareBrackets, .pairs .parenthesis, .functions, .whereClauses,
   .pairs .caseBlock, .binary .period, .binary .subscript, .identifiers, .typedLiterals,
   .binary .operator, .orderings, .binary .typecast, .binary .aliasWithAs, .aliases,
   .binary .assignment, .binary .comparison, .trailingComments, .binary .identifierList,
   .pairs .ifBlock, .pairs .forBlock, .pairs .beginBlock]

def defaultMaxDepth : Nat := 256

namespace Statement

/-- Runs all passes; the statement is the one that the passes done so far leave,
also when one of them fails. -/
def groupInPlace (s : Statement) (limit : Nat) : Except Error Unit × Statement :=
  let (result, tree) :=
    (Pass.all.forM fun pass => pass.run limit limit s.root : Grouping Unit).run.run s.tree
  (result, { s with tree := tree })

def group (s : Statement) (limit : Nat := defaultMaxDepth) : Except Error Statement :=
  let (result, s) := s.groupInPlace limit
  result.map fun _ => s

end Statement

end SqlLayout
