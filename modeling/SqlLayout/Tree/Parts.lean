import SqlLayout.Tree.Basic
import SqlLayout.Tree.Traverse

/-!
# Parts of groups

The items of a list, the arguments of a call, the arms of a CASE, the subscripts
of an identifier, the two sides of a comparison, and the type of a statement.
-/

namespace SqlLayout
namespace Tree

variable (tree : Tree)

def arrayIndices (id : NodeId) : List (List NodeId) :=
  ((tree.children id).filter fun child => tree.isKind child .squareBrackets).map fun brackets =>
    ((tree.children brackets).drop 1).dropLast

/-- The children that are neither blanks nor commas. -/
def identifiers (id : NodeId) : List NodeId :=
  (tree.children id).filter fun child =>
    !(tree.isWhitespace child || tree.isPunctuationIn child [[',']])

/-- The arguments of a call, read off its last parenthesis: the items of a list,
or the first child that is a literal, a call or an identifier. -/
def parameters (id : NodeId) : List NodeId :=
  match (tree.children id).reverse.find? fun child => tree.isKind child .parenthesis with
  | none => []
  | some parens =>
      let ofChild (child : NodeId) : Option (List NodeId) :=
        if tree.isKind child .identifierList then some (tree.identifiers child)
        else if tree.isA child .literal || tree.isKindIn child [.function, .identifier] then
          some [child]
        else none
      ((tree.children parens).findSome? ofChild).getD []

def left? (id : NodeId) : Option NodeId := (tree.children id).head?

def right? (id : NodeId) : Option NodeId := (tree.children id).getLast?

/-!
# Arms of a CASE
-/

/-- An arm; only ELSE has no condition. -/
structure CaseArm where
  condition : Option (List NodeId)
  value : List NodeId
deriving DecidableEq, Repr

/-- Which part of an arm the next child belongs to. -/
inductive ArmPart where
  | condition
  | value
  | done
deriving DecidableEq, Repr

namespace CaseArm

def opened : CaseArm := ⟨some [], []⟩

def push (arm : CaseArm) (part : ArmPart) (child : NodeId) : CaseArm :=
  match part with
  | .condition => { arm with condition := some (arm.condition.getD [] ++ [child]) }
  | .value => { arm with value := arm.value ++ [child] }
  | .done => arm

end CaseArm

/-- The arms after one more child.  WHEN and ELSE open an arm, THEN goes over to
its value, END ends them; without an arm the child opens one. -/
def stepCase (arms : List CaseArm) (part : ArmPart) (child : NodeId) :
    List CaseArm × ArmPart :=
  let (arms, part) :=
    if tree.isKeywordIn child [Text.of "WHEN"] then (arms ++ [CaseArm.opened], ArmPart.condition)
    else if tree.isKeywordIn child [Text.of "THEN"] then (arms, .value)
    else if tree.isKeywordIn child [Text.of "ELSE"] then (arms ++ [⟨none, []⟩], .value)
    else if tree.isKeywordIn child [Text.of "END"] then (arms, .done)
    else (arms, part)
  let arms := if part != .done && arms.isEmpty then [CaseArm.opened] else arms
  match arms.getLast? with
  | none => (arms, part)
  | some arm => (arms.dropLast ++ [arm.push part child], part)

/-- The arms of a CASE in order; the CASE keyword, and blanks if asked, are
passed over. -/
def cases (id : NodeId) (skipBlank : Bool) : List CaseArm :=
  let passed (child : NodeId) : Bool :=
    tree.isKeywordIn child [Text.of "CASE"] || (skipBlank && tree.isWhitespace child)
  let step (state : List CaseArm × ArmPart) (child : NodeId) : List CaseArm × ArmPart :=
    if passed child then state else tree.stepCase state.1 state.2 child
  ((tree.children id).foldl step ([], .condition)).1

/-!
# Type of a statement
-/

/-- The leading keyword of a statement that selects, changes or defines, looked
for behind a WITH clause too. -/
def statementType? (id : NodeId) : Option Text := do
  let (idx, first) ← tree.first id true true
  match tree.category? first with
  | some .dml => return tree.normalized first
  | some .ddl => return tree.normalized first
  | some .cte =>
      let (clause, names) ← tree.next id idx true
      guard (tree.isKindIn names [.identifier, .identifierList])
      let (_, keyword) ← tree.next id clause true
      guard (tree.isCategory keyword .dml)
      return tree.normalized keyword
  | _ => none

def statementType (id : NodeId) : Text :=
  (tree.statementType? id).getD (Text.of "UNKNOWN")

end Tree
end SqlLayout
