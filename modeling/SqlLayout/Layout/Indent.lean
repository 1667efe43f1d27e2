import SqlLayout.Statement

/-!
# Indentation

Clauses start on lines of their own, list items and CASE arms stand under the
first one, subqueries are indented.  Two counters say where an inserted line
starts: the number of open levels and an offset in columns.  Offsets are measured
on the text laid out so far.
-/

namespace SqlLayout

/-!
# Keywords that start a line
-/

namespace Text

def endsWith (text tail : Text) : Bool := List.isSuffixOf tail text

def lineTail? : Text -> Option Text
  | [] => none
  | c :: rest =>
      match lineTail? rest with
      | some tail => some tail
      | none => if c == '\n' || c == '\r' then some rest else none

end Text

def breaksLine (word : Text) : Bool :=
  [Text.of "FROM", Text.of "AND", Text.of "OR", Text.of "VALUES", Text.of "SET",
    Text.of "BETWEEN", Text.of "EXCEPT", Text.of "HAVING", Text.of "LIMIT"].elem word
  || word.endsWith (Text.of "JOIN")
  || word.startsWith (Text.of "GROUP") || word.startsWith (Text.of "ORDER")
  || word.startsWith (Text.of "UNION")

namespace Tree

def nextKeyword (tree : Tree) (list : NodeId) (accepts : Text -> Bool) (start : Nat) :
    Option (Nat × NodeId) :=
  tree.nextBy list start fun id => tree.isCategory id .keyword && accepts (tree.normalized id)

/-- The next keyword that starts a line; BETWEEN does not, nor does the AND that
belongs to it. -/
def nextBreak (tree : Tree) (list : NodeId) (accepts : Text -> Bool) (start : Nat) :
    Option Nat :=
  match tree.nextKeyword list accepts start with
  | none => none
  | some (place, id) =>
      if tree.normalized id != Text.of "BETWEEN" then some place
      else
        match tree.nextKeyword list accepts (place + 1) with
        | none => none
        | some (after, next) =>
            if tree.normalized next != Text.of "AND" then some after
            else (tree.nextKeyword list accepts (after + 1)).map Prod.fst

end Tree

/-!
# The state of an indenter
-/

/-- A number read as a signed word of 64 bits.  Columns are such words: sums of
them may be formed freely and are read when a line is started or a limit is
tested. -/
def signed64 (n : Int) : Int := Int.bmod n 0x10000000000000000

structure Indenter where
  width : Nat
  fill : Char := ' '
  wrapAfter : Nat := 0
  indent : Nat := 0
  offset : Int := 0
  /-- Whether the statement before ended with a line break, if there was one. -/
  endedLine : Option Bool := none
deriving DecidableEq, Repr

/-- An indenter at work on a tree. -/
structure Indenting where
  indenter : Indenter
  tree : Tree
  root : NodeId

namespace Indenter

def levelColumns (i : Indenter) : Int := signed64 (i.indent * i.width)

def newline (i : Indenter) : Text :=
  '\n' :: Text.fill i.fill (signed64 (i.levelColumns + i.offset)).toNat

end Indenter

namespace Indenting

def breakBefore (w : Indenting) (list : NodeId) (idx : Nat) : Indenting :=
  { w with tree := w.tree.insertBlank list idx w.indenter.newline }

def shift (w : Indenting) (columns : Int) : Indenting :=
  { w with indenter := { w.indenter with offset := w.indenter.offset + columns } }

def deepen (w : Indenting) : Indenting :=
  { w with indenter := { w.indenter with indent := w.indenter.indent + 1 } }

def surface (w : Indenting) : Indenting :=
  { w with indenter := { w.indenter with indent := w.indenter.indent - 1 } }

/-!
# Measuring
-/

def leafText (tree : Tree) (leaf : NodeId) : Text :=
  ((tree.token? leaf).map Token.value).getD []

/-- The column after a leaf, of leaves in order that start at a column. -/
def columnAfter (tree : Tree) (leaf : NodeId) : Nat -> List NodeId -> Nat
  | column, [] => column
  | column, id :: rest =>
      let value := leafText tree id
      let column :=
        match Text.lineTail? value with
        | some tail => tail.length
        | none => column + value.length
      if id == leaf then column else columnAfter tree leaf column rest

def offsetAfter (w : Indenting) (leaf : NodeId) : Int :=
  (columnAfter w.tree leaf 0 (w.tree.leaves w.root) : Int)
    - w.indenter.levelColumns - w.indenter.offset

def offsetBefore? (w : Indenting) (id : NodeId) : Option Int :=
  match w.tree.leaves id with
  | [] => none
  | leaf :: _ => some (w.offsetAfter leaf - ((leafText w.tree leaf).length : Int))

/-!
# Breaking lines
-/

def splitNextStatement (newline : Text) (list : NodeId) (tree : Tree) (idx : Nat) :
    Option (Tree × Nat) :=
  match tree.nextBy list idx fun id => tree.isCategory id .dml || tree.isCategory id .ddl with
  | none => none
  | some (0, _) => some (tree, 1)
  | some (place, _) =>
      if tree.blankBefore list place then
        some ((tree.removeAt list (place - 1)).insertBlank list (place - 1) newline, place + 1)
      else some (tree.insertBlank list place newline, place + 2)

def splitStatements (w : Indenting) (list : NodeId) : Indenting :=
  { w with tree := w.tree.sweepList list (splitNextStatement w.indenter.newline list) }

/-- Breaks before the next clause keyword, unless the text before it ends a line
already. -/
def splitNextKeyword (newline : Text) (list : NodeId) (tree : Tree) (idx : Nat) :
    Option (Tree × Nat) :=
  match tree.nextBreak list breaksLine idx with
  | none => none
  | some place =>
      let endsLine :=
        0 < place && tree.childHas list (place - 1) fun prev =>
          let value := tree.value prev
          value.getLast? == some '\n' || value.getLast? == some '\r'
      let (tree, place) :=
        if tree.blankBefore list place then (tree.removeAt list (place - 1), place - 1)
        else (tree, place)
      if endsLine then some (tree, place + 1)
      else some (tree.insertBlank list place newline, place + 2)

def splitKeywords (w : Indenting) (list : NodeId) : Indenting :=
  { w with tree := w.tree.sweepList list (splitNextKeyword w.indenter.newline list) }

/-!
# Handlers

Each handler is given what to do with a group below.
-/

def processDefault (visit : NodeId -> Indenting -> Indenting) (list : NodeId) (splits : Bool)
    (w : Indenting) : Indenting :=
  let w := if splits then w.splitStatements list else w
  let w := w.splitKeywords list
  (w.tree.sublists list).foldl (fun w sublist => visit sublist w) w

def processWhere (visit : NodeId -> Indenting -> Indenting) (list : NodeId) (w : Indenting) :
    Indenting :=
  let w :=
    match w.tree.nextBy list 0 fun id => w.tree.isKeywordIn id [Text.of "WHERE"] with
    | some (place, _) => w.breakBefore list place
    | none => w
  (processDefault visit list true w.deepen).surface

/-- A subquery moves to an indented line; anything else is aligned after the
bracket. -/
def processParenthesis (visit : NodeId -> Indenting -> Indenting) (list : NodeId)
    (w : Indenting) : Indenting :=
  let isSubquery :=
    match w.tree.next list 0 true with
    | some (_, first) => w.tree.isCategory first .dml || w.tree.isCategory first .ddl
    | none => false
  let w := if isSubquery then w.deepen.breakBefore list 0 else w
  let columns :=
    match w.tree.nextBy list 0 fun id => w.tree.isPunctuationIn id [['(']] with
    | some (_, bracket) => w.offsetAfter bracket
    | none => 0
  let w := processDefault visit list (!isSubquery) (w.shift columns)
  let w := if isSubquery then w.surface else w
  w.shift (-columns)

/-- Breaks before the items that would pass the limit, given the column reached
so far. -/
def wrapItems (list : NodeId) : Int -> List NodeId -> Indenting -> Indenting
  | _, [], w => w
  | position, item :: rest, w =>
      let position := position + ((w.tree.value item).length : Int) + 1
      if signed64 w.indenter.wrapAfter < signed64 position then
        let w :=
          match w.tree.indexOf? list item with
          | some place => w.breakBefore list place
          | none => w
        wrapItems list w.indenter.offset rest w
      else wrapItems list position rest w

/-- The items of a list stand under the first one, except in the arguments of a
call. -/
def processIdentifierList (visit : NodeId -> Indenting -> Indenting) (list : NodeId)
    (w : Indenting) : Indenting :=
  let w :=
    match w.tree.identifiers list with
    | first :: second :: rest =>
        if w.tree.isWithin list .function then w
        else
          let columns := if w.indenter.fill == '\t' then 1 else (w.offsetBefore? first).getD 0
          let w := w.shift columns
          (wrapItems list w.indenter.offset (second :: rest) w).shift (-columns)
    | _ => w
  processDefault visit list true w

def armLeader? (arm : Tree.CaseArm) : Option NodeId :=
  match arm.condition with
  | some condition => condition.head?
  | none => arm.value.head?

def breakArms (list : NodeId) (arms : List Tree.CaseArm) (w : Indenting) : Indenting :=
  arms.foldl
    (fun w arm =>
      match (armLeader? arm).bind (w.tree.indexOf? list) with
      | some place => w.breakBefore list place
      | none => w)
    w

/-- The arms stand under the first one and END under CASE; what is nested in an
arm goes on after its first word. -/
def processCase (visit : NodeId -> Indenting -> Indenting) (list : NodeId) (w : Indenting) :
    Indenting :=
  let arms := w.tree.cases list false
  let outer := ((w.tree.child? list 0).bind w.offsetBefore?).getD 0
  let w := w.shift outer
  let inner := ((arms.head?.bind armLeader?).bind w.offsetBefore?).getD 0
  let w := breakArms list (arms.drop 1) (w.shift inner)
  let w := ((processDefault visit list true (w.shift 5)).shift (-5)).shift (-inner)
  let w :=
    match w.tree.nextBy list 0 fun id => w.tree.isKeywordIn id [Text.of "END"] with
    | some (place, _) => w.breakBefore list place
    | none => w
  w.shift (-outer)

def processList : Nat -> NodeId -> Indenting -> Indenting
  | 0, _, w => w
  | depth + 1, list, w =>
      match w.tree.kind? list with
      | some .whereClause => processWhere (processList depth) list w
      | some .parenthesis => processParenthesis (processList depth) list w
      | some .identifierList => processIdentifierList (processList depth) list w
      | some .caseBlock => processCase (processList depth) list w
      | _ => processDefault (processList depth) list true w

end Indenting

namespace Statement

/-- Puts the separator from the statement before at the start: a blank line in
all. -/
def separate (s : Statement) (endedLine : Option Bool) : Statement :=
  match endedLine with
  | none => s
  | some endedLine =>
      { s with tree := s.tree.insertBlank s.root 0 (if endedLine then ['\n'] else ['\n', '\n']) }

def endsLine (s : Statement) : Bool := s.text.getLast? == some '\n'

/-- Lays out a statement; the indenter remembers how it ended. -/
def indent (s : Statement) (i : Indenter) : Statement × Indenter :=
  let start : Indenting :=
    { indenter := { i with indent := 0, offset := 0 }, tree := s.tree, root := s.root }
  let done := Indenting.processList s.tree.size s.root start
  let s := { s with tree := done.tree }.separate i.endedLine
  (s, { done.indenter with endedLine := some s.endsLine })

end Statement

end SqlLayout
