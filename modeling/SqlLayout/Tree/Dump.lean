import SqlLayout.Text.Quoted
import SqlLayout.Tree.Traverse

/-!
# Showing trees

A tree is shown as its outline: the nodes in pre-order, each with its level, its position
among its siblings, the label of its kind and its text in quotes.
-/

namespace SqlLayout

/-!
# Labels of kinds
-/

namespace GroupKind

def all : List GroupKind :=
  [statement, parenthesis, squareBrackets, identifier, identifierList, typedLiteral, function,
   operation, comparison, whereClause, caseBlock, beginBlock, forBlock, ifBlock, comment,
   assignment]

def label : GroupKind -> String
  | statement => "Statement"
  | parenthesis => "Parenthesis"
  | squareBrackets => "SquareBrackets"
  | identifier => "Identifier"
  | identifierList => "IdentifierList"
  | typedLiteral => "TypedLiteral"
  | function => "Function"
  | operation => "Operation"
  | comparison => "Comparison"
  | whereClause => "Where"
  | caseBlock => "Case"
  | beginBlock => "Begin"
  | forBlock => "For"
  | ifBlock => "If"
  | comment => "Comment"
  | assignment => "Assignment"

def ofLabel? (s : String) : Option GroupKind :=
  all.find? fun kind => kind.label == s

end GroupKind

/-!
# Outlines
-/

namespace Tree

variable (tree : Tree)

def outlineWithin : Nat -> Nat -> NodeId -> List (Nat × Nat × NodeId)
  | 0, _, _ => []
  | depth + 1, level, id =>
      (tree.children id).zipIdx.flatMap fun (child, idx) =>
        (level, idx, child) :: outlineWithin depth (level + 1) child

def outline (id : NodeId) : List (Nat × Nat × NodeId) :=
  (0, 0, id) :: tree.outlineWithin tree.size 1 id

def label (id : NodeId) : Text :=
  match tree.content? id with
  | some (.group kind _) => Text.of kind.label
  | some (.token token) => Text.of token.category.label
  | none => []

def describe (id : NodeId) : Text :=
  tree.label id ++ ['#'] ++ Text.ofNat id ++ [' '] ++ (tree.value id).quoted

/-- A node and all below it, one on a line, indented by level and headed by the
position among the siblings. -/
def pretty (id : NodeId) : Text :=
  (tree.outline id).flatMap fun (level, idx, node) =>
    Text.fill ' ' (level * 2) ++ Text.ofNat idx ++ [' '] ++ tree.label node ++ [' ']
      ++ (tree.value node).quoted ++ ['\n']

end Tree
end SqlLayout
