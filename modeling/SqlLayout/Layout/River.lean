import SqlLayout.Layout.Indent
import SqlLayout.Statement

/-!
# Clauses along a river

Clause keywords end in the column in which SELECT ends, list items and CASE arms
stand to the right of it.  Each subquery moves the river by a fixed number of
columns, so no column depends on the text laid out so far.
-/

namespace SqlLayout

structure River where
  fill : Char := ' '
  /-- Whether the statement before ended with a line break, if there was one. -/
  endedLine : Option Bool := none
deriving DecidableEq, Repr

namespace River

/-- The width of SELECT. -/
def keywordWidth : Nat := 6

def newline (r : River) (columns : Nat) : Text := '\n' :: Text.fill r.fill columns

def isByKeyword (word : Text) : Bool :=
  (word.startsWith (Text.of "GROUP") || word.startsWith (Text.of "ORDER"))
    && word.endsWith (Text.of "BY")

def startsLine (word : Text) : Bool :=
  breaksLine word || word == Text.of "ON" || word == Text.of "WHERE"

/-- The width of what ends at the river: the first word of a join or of an
ordering or grouping, else the whole keyword. -/
def alignedWidth (tree : Tree) (keyword : NodeId) : Nat :=
  let value := tree.value keyword
  let word := tree.normalized keyword
  if word.endsWith (Text.of "JOIN") || isByKeyword word then
    ((Text.words value).head?.getD []).length
  else value.length

def splitNextKeyword (r : River) (list : NodeId) (base : Nat) (tree : Tree) (idx : Nat) :
    Option (Tree × Nat) :=
  match tree.nextBreak list startsLine idx with
  | none => none
  | some place =>
      match tree.child? list place with
      | none => none
      | some keyword =>
          let newline := r.newline (keywordWidth + base - alignedWidth tree keyword)
          let (tree, place) :=
            if tree.blankBefore list place then (tree.removeAt list (place - 1), place - 1)
            else (tree, place)
          some (tree.insertBlank list place newline, place + 2)

def followsBy (tree : Tree) (list sublist : NodeId) : Bool :=
  match (tree.indexOf? list sublist).bind fun idx => tree.prev list idx true with
  | some (_, prev) => isByKeyword (tree.normalized prev)
  | none => false

/-!
# Handlers

Each handler is given what to do with a group below and the base column of the
river.
-/

def processDefault (r : River) (visit : NodeId -> Nat -> Tree -> Tree) (list : NodeId) (base : Nat)
    (tree : Tree) : Tree :=
  let tree := tree.sweepList list (r.splitNextKeyword list base)
  (tree.sublists list).foldl
    (fun tree sublist =>
      visit sublist (if followsBy tree list sublist then base + 3 else base) tree)
    tree

/-- A subquery opens on a new line beyond the river; other brackets stay as they
are. -/
def processParenthesis (r : River) (visit : NodeId -> Nat -> Tree -> Tree) (list : NodeId)
    (base : Nat) (tree : Tree) : Tree :=
  let isSubquery :=
    (tree.children list).any fun id => tree.hits id ⟨.dml, [Text.of "SELECT"]⟩
  let isClosed :=
    match (tree.children list).getLast? with
    | some last => tree.isPunctuationIn last [[')']]
    | none => false
  if isSubquery && isClosed then
    let inner := base + keywordWidth + 2
    let tree := tree.insertBlank list 1 (r.newline inner)
    let tree := tree.insertBlank list (tree.childCount list - 1) (r.newline (inner - 1))
    processDefault r visit list inner tree
  else tree

def breakNextComma (newline : Text) (list : NodeId) (tree : Tree) (idx : Nat) :
    Option (Tree × Nat) :=
  match tree.nextBy list idx fun id => tree.isPunctuationIn id [[',']] with
  | none => none
  | some (comma, _) =>
      match tree.child? list (comma + 1) with
      | none => none
      | some next =>
          let tree := if tree.isWhitespace next then tree.removeAt list (comma + 1) else tree
          some (tree.insertBlank list (comma + 1) newline, comma + 2)

def processIdentifierList (r : River) (visit : NodeId -> Nat -> Tree -> Tree) (list : NodeId)
    (base : Nat) (tree : Tree) : Tree :=
  let newline := r.newline (keywordWidth + base + 1)
  let tree := tree.sweepList list (breakNextComma newline list)
  (tree.sublists list).foldl (fun tree sublist => visit sublist base tree) tree

def conditionLength (tree : Tree) (condition : List NodeId) : Nat :=
  (Text.join [' '] (condition.map tree.value)).length

/-- Fills up the shorter conditions, so that the values start in one column. -/
def padConditions (r : River) (list : NodeId) (width : Nat) :
    List (List NodeId) -> Tree -> Tree
  | [], tree => tree
  | condition :: rest, tree =>
      let padding := width - conditionLength tree condition
      let tree :=
        match condition.getLast?.bind (tree.indexOf? list) with
        | some place =>
            if 0 < padding then tree.insertBlank list (place + 1) (Text.fill r.fill padding)
            else tree
        | none => tree
      padConditions r list width rest tree

def breakLeaders (r : River) (list : NodeId) (column : Nat) : List NodeId -> Tree -> Tree
  | [], tree => tree
  | leader :: rest, tree =>
      let tree :=
        match tree.indexOf? list leader with
        | none => tree
        | some place =>
            let newline := r.newline (column - (tree.value leader).length)
            if tree.blankBefore list place then
              (tree.removeAt list (place - 1)).insertBlank list (place - 1) newline
            else tree.insertBlank list place newline
      breakLeaders r list column rest tree

/-- The child that an arm starts with; an arm with an empty condition has none. -/
def armLeader? (arm : Tree.CaseArm) : Option NodeId :=
  (arm.condition.getD arm.value).head?

/-- Arms under the first one, END right-aligned with them, values in one
column. -/
def processCase (r : River) (list : NodeId) (base : Nat) (tree : Tree) : Tree :=
  let column := base + keywordWidth + 10
  let arms := tree.cases list true
  let closing :=
    ((tree.nextBy list 0 fun id => tree.isKeywordIn id [Text.of "END"]).map Prod.snd).toList
  let conditions := arms.filterMap Tree.CaseArm.condition
  let width := (conditions.map (conditionLength tree)).foldl max 0
  let tree := r.padConditions list width conditions tree
  r.breakLeaders list column ((arms.drop 1).filterMap armLeader? ++ closing) tree

def processList (r : River) : Nat -> NodeId -> Nat -> Tree -> Tree
  | 0, _, _, tree => tree
  | depth + 1, list, base, tree =>
      match tree.kind? list with
      | some .parenthesis => processParenthesis r (processList r depth) list base tree
      | some .identifierList => processIdentifierList r (processList r depth) list base tree
      | some .caseBlock => processCase r list base tree
      | _ => processDefault r (processList r depth) list base tree

end River

/-- Lays out a statement along the river; the river remembers how it ended. -/
def Statement.align (s : Statement) (r : River) : Statement × River :=
  let tree :=
    if s.tree.childHas s.root 0 s.tree.isWhitespace then s.tree.removeAt s.root 0 else s.tree
  let tree := r.processList tree.size s.root 0 tree
  let s := { s with tree := tree }.separate r.endedLine
  (s, { r with endedLine := some s.endsLine })

end SqlLayout
