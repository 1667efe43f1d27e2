import SqlLayout.Grouping.Pass

/-!
# Constructs around an operator

An operator token or group with what stands before it and after it.  A rule says
what is an operator, which neighbours it takes, and which span becomes the
group.
-/

namespace SqlLayout

/-- The positions of an operator and of its neighbours. -/
structure Operands where
  prev : Nat
  op : Nat
  next : Option Nat

structure BinaryRule where
  kind : GroupKind
  extend : Bool
  isOp : Tree -> NodeId -> Bool
  acceptsPrev : Tree -> NodeId -> Bool
  acceptsNext : Tree -> Option NodeId -> Bool
  /-- First and last position of the group. -/
  span : Tree -> NodeId -> Operands -> Nat × Nat
  /-- The category of the operator once it is grouped. -/
  retag : Option Category := none

namespace BinaryRule

/-!
# Operands
-/

def fromPrevToNext (_ : Tree) (_ : NodeId) (operands : Operands) : Nat × Nat :=
  (operands.prev, operands.next.getD operands.op)

def some? (p : Tree -> NodeId -> Bool) (tree : Tree) (next : Option NodeId) : Bool :=
  match next with
  | some id => p tree id
  | none => false

def operandCategories : List Category := [.number, .string, .name]

def isOperatorOperand (tree : Tree) (id : NodeId) : Bool :=
  tree.isAIn id operandCategories
    || tree.isKindIn id
      [.squareBrackets, .parenthesis, .function, .identifier, .operation, .typedLiteral]
    || tree.isKeywordIn id
      [Text.of "CURRENT_DATE", Text.of "CURRENT_TIME", Text.of "CURRENT_TIMESTAMP"]

/-- What a cast or an alias can belong to: no keyword but NULL, and no block. -/
def isExpression (tree : Tree) (id : NodeId) : Bool :=
  (!tree.isKeyword id || tree.normalized id == Text.of "NULL")
    && !tree.isKindIn id [.ifBlock, .forBlock, .beginBlock]

def isComparisonOperand (tree : Tree) (id : NodeId) : Bool :=
  tree.isAIn id operandCategories
    || tree.isKindIn id [.parenthesis, .function, .identifier, .operation, .typedLiteral]
    || tree.isKeywordIn id [Text.of "NULL"]

def isListItem (tree : Tree) (id : NodeId) : Bool :=
  tree.isKindIn id
      [.function, .caseBlock, .identifier, .comparison, .identifierList, .operation, .comment]
    || tree.isCategory id .keyword
    || tree.isAIn id [.number, .string, .name, .comment, .wildcard]

/-!
# The rules
-/

/-- Qualified names. -/
def period : BinaryRule where
  kind := .identifier
  extend := true
  isOp := fun tree id => tree.isPunctuationIn id [['.']]
  acceptsPrev := fun tree id =>
    tree.isKindIn id [.squareBrackets, .identifier] || tree.isAIn id [.name, .doubleQuoted]
  acceptsNext := fun _ _ => true
  span := fun tree list operands =>
    match operands.next with
    | none => (operands.prev, operands.op)
    | some next =>
        let isQualified :=
          match tree.child? list next with
          | some id =>
              tree.isKindIn id [.squareBrackets, .function]
                || tree.isAIn id [.name, .doubleQuoted, .wildcard, .singleQuoted]
          | none => false
        (operands.prev, if isQualified then next else operands.op)

def subscript : BinaryRule where
  kind := .identifier
  extend := true
  isOp := fun tree id => tree.isKind id .squareBrackets
  acceptsPrev := fun tree id =>
    tree.isKindIn id [.squareBrackets, .identifier, .function]
      || tree.isAIn id [.name, .doubleQuoted]
  acceptsNext := fun _ _ => true
  span := fun _ _ operands => (operands.prev, operands.op)

/-- Arithmetic and other operators; a wildcard between operands is one too. -/
def operator : BinaryRule where
  kind := .operation
  extend := false
  isOp := fun tree id => tree.isCategory id .operator || tree.isCategory id .wildcard
  acceptsPrev := isOperatorOperand
  acceptsNext := some? isOperatorOperand
  span := fromPrevToNext
  retag := some .operator

/-- Type casts; an ordering keyword after the type goes along. -/
def typecast : BinaryRule where
  kind := .identifier
  extend := true
  isOp := fun tree id => tree.isPunctuationIn id [[':', ':']]
  acceptsPrev := isExpression
  acceptsNext := fun _ next => next.isSome
  span := fun tree list operands =>
    match operands.next with
    | none => (operands.prev, operands.op)
    | some next =>
        match tree.next list next true with
        | some (idx, id) => (operands.prev, if tree.isCategory id .order then idx else next)
        | none => (operands.prev, next)

def aliasWithAs : BinaryRule where
  kind := .identifier
  extend := true
  isOp := fun tree id => tree.isKeyword id && tree.normalized id == Text.of "AS"
  acceptsPrev := isExpression
  acceptsNext := some? fun tree id =>
    !(tree.isCategory id .dml || tree.isCategory id .ddl || tree.isCategory id .cte)
  span := fromPrevToNext

/-- Assignments, up to the semicolon after them if there is one. -/
def assignment : BinaryRule where
  kind := .assignment
  extend := true
  isOp := fun tree id => tree.hits id ⟨.assignment, [[':', '=']]⟩
  acceptsPrev := fun tree id => !tree.isKeyword id
  acceptsNext := some? fun tree id => !tree.isKeyword id
  span := fun tree list operands =>
    let next := operands.next.getD operands.op
    match tree.nextBy list (next + 1) fun id => tree.isPunctuationIn id [[';']] with
    | some (idx, _) => (operands.prev, idx)
    | none => (operands.prev, next)

def comparison : BinaryRule where
  kind := .comparison
  extend := false
  isOp := fun tree id => tree.isCategory id .comparison
  acceptsPrev := isComparisonOperand
  acceptsNext := some? isComparisonOperand
  span := fromPrevToNext

def identifierList : BinaryRule where
  kind := .identifierList
  extend := true
  isOp := fun tree id => tree.isPunctuationIn id [[',']]
  acceptsPrev := isListItem
  acceptsNext := some? isListItem
  span := fromPrevToNext

/-!
# The pass of a rule
-/

/-- The span that an operator at `idx` makes with its neighbours, if they are
accepted. -/
def span? (rule : BinaryRule) (tree : Tree) (list : NodeId) (prev : Option Nat) (idx : Nat) :
    Option (Nat × Nat) :=
  match prev with
  | none => none
  | some prev =>
      let next := tree.next list idx true
      let prevFits :=
        match tree.child? list prev with
        | some id => rule.acceptsPrev tree id
        | none => false
      if prevFits && rule.acceptsNext tree (next.map Prod.snd) then
        some (rule.span tree list ⟨prev, idx, next.map Prod.fst⟩)
      else none

def plan (rule : BinaryRule) (tree : Tree) (list : NodeId) (cursor : Cursor) : Option Move :=
  match tree.child? list cursor.idx with
  | none => none
  | some id =>
      if tree.isWhitespace id then some (.skip cursor)
      else
        let past : Move := .skip { cursor with prev := some cursor.idx }
        if rule.isOp tree id then
          match rule.span? tree list cursor.prev cursor.idx with
          | some (start, stop) =>
              some
                { retag := rule.retag.map fun category => (id, category)
                  span := some { kind := rule.kind, start, stop, extend := rule.extend }
                  cursor := { idx := start + 1, prev := some start } }
          | none => some past
        else some past

end BinaryRule

def Pass.binary (rule : BinaryRule) : Pass :=
  { enters := fun tree id => !tree.isKind id rule.kind
    plan := rule.plan }

end SqlLayout
