import SqlLayout.Grouping.Pass

/-!
# Further passes

Passes for matching pairs, comments, calls, WHERE clauses, single names, typed
literals, orderings, aliases without AS, and comments that follow a group.
-/

namespace SqlLayout
namespace Pass

def goto (idx : Nat) : Move := { cursor := { idx := idx } }

def groupThen (span : Span) (idx : Nat) : Move := { goto idx with span := some span }

def notOfKind (kind : GroupKind) (tree : Tree) (id : NodeId) : Bool := !tree.isKind id kind

/-!
# Matching pairs

Opening and closing tokens of a kind are paired with a stack of open positions,
so inner pairs are grouped before the pairs around them.  A closing token
without an opening one is passed over.
-/

def planPair (kind : GroupKind) (opening closing : TokenPattern) (tree : Tree) (list : NodeId)
    (cursor : Cursor) : Option Move :=
  match tree.child? list cursor.idx with
  | none => none
  | some id =>
      if tree.isWhitespace id then some (.skip cursor)
      else if tree.isGroup id then
        some { Move.skip cursor with visit := if tree.isKind id kind then none else some id }
      else if tree.hits id opening then
        some (.skip { cursor with opens := cursor.idx :: cursor.opens })
      else if tree.hits id closing then
        match cursor.opens with
        | start :: opens =>
            some
              { span := some { kind := kind, start := start, stop := cursor.idx },
                cursor := { idx := start + 1, opens := opens } }
        | [] => some (.skip cursor)
      else some (.skip cursor)

def pairs (kind : GroupKind) : Pass :=
  { enters := fun _ _ => false
    applies := fun _ _ => kind.opening?.isSome && kind.closing?.isSome
    plan := fun tree list cursor =>
      match kind.opening?, kind.closing? with
      | some opening, some closing => planPair kind opening closing tree list cursor
      | _, _ => none }

/-!
# Comments
-/

/-- The last position of the run of comments that starts at `start`.  The blanks
up to the next token belong to the run, those at the end of the list do not. -/
def commentRunEnd (tree : Tree) (list : NodeId) (start : Nat) : Nat :=
  let isComment (id : NodeId) : Bool := tree.isA id .comment
  match tree.nextNotBy list (start + 1) fun id => isComment id || tree.isWhitespace id with
  | some (stop, _) => stop - 1
  | none =>
      match Tree.lastFrom isComment (start + 1) ((tree.children list).drop (start + 1)) with
      | some (idx, _) => idx
      | none => start

def comments : Pass where
  enters := notOfKind .comment
  plan := fun tree list cursor =>
    match tree.nextBy list cursor.idx fun id => tree.isA id .comment with
    | none => none
    | some (start, _) =>
        some (groupThen ⟨.comment, start, commentRunEnd tree list start, false⟩ (start + 1))

/-!
# Calls
-/

def hasKeyword (tree : Tree) (list : NodeId) (p : Text -> Bool) : Bool :=
  (tree.children list).any fun id => tree.isKeyword id && p (tree.normalized id)

def definesTable (tree : Tree) (list : NodeId) : Bool :=
  hasKeyword tree list (fun word => word.startsWith (Text.of "CREATE"))
    && hasKeyword tree list (· == Text.of "TABLE")
    && !hasKeyword tree list (· == Text.of "AS")

/-- A name with a parenthesis after it is a call, except where a table is
defined by its columns. -/
def functions : Pass where
  enters := notOfKind .function
  applies := fun tree list => !definesTable tree list
  plan := fun tree list cursor =>
    match tree.nextBy list cursor.idx fun id => tree.isA id .name with
    | none => none
    | some (name, _) =>
        match tree.next list name true with
        | some (parens, id) =>
            if tree.isKind id .parenthesis then
              some (groupThen ⟨.function, name, parens, false⟩ (name + 1))
            else some (goto (name + 1))
        | none => some (goto (name + 1))

/-!
# WHERE clauses
-/

/-- The position of the first child that ends a WHERE clause: a closing keyword,
a semicolon, or an END that closes no CASE of the clause. -/
def whereStop? (tree : Tree) (closing : TokenPattern) : Nat -> Nat -> List NodeId -> Option Nat
  | _, _, [] => none
  | cases, idx, id :: rest =>
      if tree.isKeywordIn id [Text.of "CASE"] then whereStop? tree closing (cases + 1)
        (idx + 1) rest
      else if tree.isKeywordIn id [Text.of "END"] then
        match cases with
        | 0 => some idx
        | cases + 1 => whereStop? tree closing cases (idx + 1) rest
      else if tree.hits id closing || tree.isPunctuationIn id [[';']] then some idx
      else whereStop? tree closing cases (idx + 1) rest

/-- The last position that a WHERE clause from `start` on may reach: the end of
the list, or the child before the closing bracket. -/
def whereLimit (tree : Tree) (list : NodeId) (start : Nat) : Nat :=
  let last := tree.childCount list - 1
  let isBracketed := tree.isKindIn list [.parenthesis, .squareBrackets]
  let endsInMark :=
    match tree.child? list last with
    | some id => tree.isA id .punctuation
    | none => false
  if isBracketed && start < last && endsInMark then last - 1 else last

def whereEnd (tree : Tree) (closing : TokenPattern) (list : NodeId) (start : Nat) : Nat :=
  let last := whereLimit tree list start
  let body := ((tree.children list).take (last + 1)).drop (start + 1)
  match whereStop? tree closing 0 (start + 1) body with
  | some idx => idx - 1
  | none => last

def whereClauses : Pass where
  enters := notOfKind .whereClause
  plan := fun tree list cursor =>
    match GroupKind.whereClause.opening?, GroupKind.whereClause.closing? with
    | some opening, some closing =>
        match tree.nextBy list cursor.idx fun id => tree.hits id opening with
        | none => none
        | some (start, _) =>
            some
              (groupThen ⟨.whereClause, start, whereEnd tree closing list start, false⟩ (start + 1))
    | _, _ => none

/-!
# Names and typed literals
-/

def identifiers : Pass where
  enters := notOfKind .identifier
  plan := fun tree list cursor =>
    match tree.child? list cursor.idx with
    | none => none
    | some id =>
        if tree.isCategory id .name || tree.isCategory id .doubleQuoted then
          some (groupThen ⟨.identifier, cursor.idx, cursor.idx, false⟩ (cursor.idx + 1))
        else some (goto (cursor.idx + 1))

def isTypeWord (word : Text) (token : Token) : Bool :=
  (token.isKeyword || token.category == .builtin) && token.value.sameIgnoringCase word

def intervalWord : Text := Text.of "INTERVAL"

def literalTypes : List Text :=
  [Text.of "DATE", Text.of "TIME", Text.of "TIMESTAMP", intervalWord]

def intervalUnits : List Text :=
  [Text.of "DAY", Text.of "HOUR", Text.of "MINUTE", Text.of "MONTH", Text.of "SECOND",
   Text.of "YEAR"]

/-- The last position of the literal of a type word at `idx`: the string after
it, and the unit after the string of an interval. -/
def typedLiteralEnd? (tree : Tree) (list : NodeId) (idx : Nat) (id : NodeId) : Option Nat :=
  if tree.tokenHas id fun token => literalTypes.any fun word => isTypeWord word token then
    match tree.next list idx true with
    | none => none
    | some (literal, string) =>
        if !tree.isCategory string .singleQuoted then none
        else if tree.tokenHas id (isTypeWord intervalWord) then
          match tree.next list literal true with
          | some (unit, word) =>
              if tree.isKeyword word && intervalUnits.elem (tree.normalized word) then some unit
              else some literal
          | none => some literal
        else some literal
  else none

def typedLiterals : Pass where
  enters := notOfKind .typedLiteral
  plan := fun tree list cursor =>
    match tree.child? list cursor.idx with
    | none => none
    | some id =>
        match typedLiteralEnd? tree list cursor.idx id with
        | some stop =>
            some (groupThen ⟨.typedLiteral, cursor.idx, stop, false⟩ (cursor.idx + 1))
        | none => some (goto (cursor.idx + 1))

/-!
# Orderings and aliases
-/

def orderings : Pass where
  enters := notOfKind .identifier
  plan := fun tree list cursor =>
    match tree.nextBy list cursor.idx fun id => tree.isCategory id .order with
    | none => none
    | some (ordering, _) =>
        match tree.prev list ordering true with
        | some (prev, id) =>
            if tree.isKind id .identifier || tree.isA id .number then
              some (groupThen ⟨.identifier, prev, ordering, true⟩ (prev + 1))
            else some (goto (ordering + 1))
        | none => some (goto (ordering + 1))

def isAliasable (tree : Tree) (id : NodeId) : Bool :=
  tree.isKindIn id [.parenthesis, .function, .caseBlock, .identifier, .operation]
    || tree.isA id .number

/-- An identifier after an expression is its alias and joins it; the walk stays
on the expression, so that every identifier after it joins too. -/
def aliases : Pass where
  enters := notOfKind .identifier
  plan := fun tree list cursor =>
    match tree.nextBy list cursor.idx (isAliasable tree) with
    | none => none
    | some (expr, _) =>
        match tree.next list expr true true with
        | some (name, id) =>
            if tree.isKind id .identifier then
              some (groupThen ⟨.identifier, expr, name, true⟩ expr)
            else some (goto (expr + 1))
        | none => some (goto (expr + 1))

/-!
# Comments after a group
-/

def commentHost? (tree : Tree) (id : NodeId) : Option GroupKind :=
  match tree.kind? id with
  | some kind =>
      if [GroupKind.parenthesis, .squareBrackets, .identifierList, .ifBlock, .forBlock,
          .beginBlock].elem kind then none
      else some kind
  | none => none

/-- A comment joins the group before it, unless it is the last child of a group
below the root. -/
def trailingComments : Pass where
  enters := fun _ _ => true
  plan := fun tree list cursor =>
    match tree.nextBy list cursor.idx fun id => tree.isKind id .comment with
    | none => none
    | some (comment, _) =>
        let isLast := !tree.isKind list .statement && comment + 1 == tree.childCount list
        let host :=
          match tree.prev list comment true with
          | some (prev, id) => (commentHost? tree id).map fun kind => (prev, kind)
          | none => none
        match host with
        | some (prev, kind) =>
            if isLast then some (goto (comment + 1))
            else some (groupThen ⟨kind, prev, comment, true⟩ (prev + 1))
        | none => some (goto (comment + 1))

end Pass
end SqlLayout
