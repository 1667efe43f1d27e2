import SqlLayout.Statement
import SqlLayout.Tree.Edit

/-!
# Comments and blanks
-/

namespace SqlLayout

/-!
# Stripping comments

Comments are taken out; a space takes the place of a comment where two tokens
would join.
-/

namespace Tree

/-- Whether nothing has to take the place of the child at a position: the list
starts or ends there, or a blank or a bracket stands beside it. -/
def leavesNoGap (tree : Tree) (list : NodeId) (idx : Nat) : Bool :=
  let opens :=
    match idx with
    | 0 => true
    | idx + 1 =>
        match tree.child? list idx with
        | some prev => tree.isWhitespace prev || tree.isPunctuationIn prev [['(']]
        | none => true
  let closes :=
    match tree.child? list (idx + 1) with
    | some next => tree.isWhitespace next || tree.isPunctuationIn next [[')']]
    | none => true
  opens || closes

def stripNextComment (list : NodeId) (tree : Tree) (idx : Nat) : Option (Tree × Nat) :=
  match tree.nextBy list idx tree.isComment with
  | none => none
  | some (place, _) =>
      let stripped := tree.removeAt list place
      if tree.leavesNoGap list place then some (stripped, place)
      else some (stripped.insertBlank list place [' '], place + 1)

def stripCommentsWithin : Nat -> NodeId -> Tree -> Tree
  | 0, _, tree => tree
  | depth + 1, list, tree =>
      let sublists := (tree.sublists list).filter fun id => !tree.isKind id .comment
      let tree := sublists.foldl (fun tree sublist => stripCommentsWithin depth sublist tree) tree
      tree.sweepList list (stripNextComment list)

end Tree

def Statement.stripComments (s : Statement) : Statement :=
  { s with tree := s.tree.stripCommentsWithin s.tree.size s.root }

/-!
# Blanks

Stripping blanks leaves one space where there was a run of them; putting spaces
around operators adds one on each side that has none.
-/

namespace Tree

/-!
# Stripping
-/

def blanksBeforeCommas (tree : Tree) (list : NodeId) : List Nat :=
  let children := tree.children list
  ((children.zip (children.drop 1)).zipIdx.filter fun ((blank, comma), _) =>
    tree.isWhitespace blank && tree.isPunctuationIn comma [[',']]).map Prod.snd

def removeBlank (tree : Tree) (list : NodeId) (idx : Nat) : Tree :=
  if tree.childHas list idx tree.isWhitespace then tree.removeAt list idx else tree

def stripInside (tree : Tree) (list : NodeId) : Tree :=
  let tree := tree.removeBlank list 1
  let length := tree.childCount list
  if 2 < length then tree.removeBlank list (length - 2) else tree

/-- Makes the first blank of each run of children a space and the others empty;
blanks at the start of the list are emptied too. -/
def collapseBlanks : Tree -> Bool -> List NodeId -> Tree
  | tree, _, [] => tree
  | tree, afterBlank, id :: rest =>
      if tree.isWhitespace id then
        collapseBlanks (tree.setValue id (if afterBlank then [] else [' '])) true rest
      else collapseBlanks tree false rest

def stripBlanksWithin : Nat -> Bool -> NodeId -> Tree -> Tree
  | 0, _, _, tree => tree
  | depth + 1, isRoot, list, tree =>
      let tree :=
        (tree.sublists list).foldl (fun tree sublist => stripBlanksWithin depth false sublist tree)
          tree
      let tree :=
        match tree.kind? list with
        | some .identifierList =>
            (tree.blanksBeforeCommas list).reverse.foldl
              (fun (tree : Tree) idx => tree.removeAt list idx) tree
        | some .parenthesis => tree.stripInside list
        | _ => tree
      let tree := tree.collapseBlanks true (tree.children list)
      if isRoot then tree.removeBlank list (tree.childCount list - 1) else tree

/-!
# Operators
-/

def spaceNextOperator (list : NodeId) (tree : Tree) (idx : Nat) : Option (Tree × Nat) :=
  match tree.nextBy list idx fun id => tree.isA id .operator with
  | none => none
  | some (place, _) =>
      let isSolid (tree : Tree) (id : NodeId) : Bool := !tree.isWhitespace id
      let tree :=
        if tree.childHas list (place + 1) (isSolid tree) then
          tree.insertBlank list (place + 1) [' ']
        else tree
      if 0 < place && tree.childHas list (place - 1) (isSolid tree) then
        some (tree.insertBlank list place [' '], place + 2)
      else some (tree, place + 1)

def spaceOperatorsWithin : Nat -> NodeId -> Tree -> Tree
  | 0, _, tree => tree
  | depth + 1, list, tree =>
      let tree :=
        (tree.sublists list).foldl (fun tree sublist => spaceOperatorsWithin depth sublist tree)
          tree
      tree.sweepList list (spaceNextOperator list)

end Tree

namespace Statement

def stripBlanks (s : Statement) : Statement :=
  { s with tree := s.tree.stripBlanksWithin s.tree.size true s.root }

def spaceOperators (s : Statement) : Statement :=
  { s with tree := s.tree.spaceOperatorsWithin s.tree.size s.root }

end Statement

end SqlLayout
