import SqlLayout.Tree.Basic
import SqlLayout.Tree.Traverse

/-!
# Names and aliases

What a group says about itself: its name, the qualifier in front of it, its
alias, its type cast and its ordering.  These are readings of the shape that
grouping leaves; where the shape does not fit there is no answer.
-/

namespace SqlLayout

def removeQuotes (text : Text) : Text :=
  match text.head?, text.getLast? with
  | some first, some last =>
      if 2 ≤ text.length && first == last && ['"', '\'', '\x60'].elem first then
        (text.drop 1).dropLast
      else text
  | _, _ => text

namespace Tree

variable (tree : Tree)

/-- How a name is looked for among the children: from which position, in which
direction, and whether plain keywords count and aliases do not. -/
structure NameSearch where
  start : Nat := 0
  backwards : Bool := false
  keywords : Bool := false
  realName : Bool := false

def firstOfCategory? (id : NodeId) (category : Category) : Option (Nat × NodeId) :=
  tree.nextBy id 0 fun child => tree.isA child category

def firstHit? (id : NodeId) (category : Category) (value : Text) : Option Nat :=
  (tree.nextBy id 0 fun child => tree.hits child ⟨category, [value]⟩).map Prod.fst

def realNameSearch (id : NodeId) : NameSearch :=
  { start := (tree.firstHit? id .punctuation ['.']).getD 0, realName := true }

/-- Where an alias is looked for: after AS, or at the end of a group of more
than two children with a blank among them. -/
def aliasSearch? (id : NodeId) : Option NameSearch :=
  match tree.firstHit? id .keyword (Text.of "AS") with
  | some idx => some { start := idx + 1, keywords := true }
  | none =>
      if 2 < tree.childCount id && (tree.firstOfCategory? id .whitespace).isSome then
        some { backwards := true }
      else none

/-- The first name that a search meets.  A token that is a name, a wildcard or a
quoted name gives its text without quotes; an identifier or a function gives its
own name and ends the search. -/
def searchName : Nat -> NodeId -> NameSearch -> Option Text
  | 0, _, _ => none
  | depth + 1, id, search =>
      let candidates := (tree.children id).drop search.start
      let ofGroup (group : NodeId) : Option Text :=
        let realName := searchName depth group (tree.realNameSearch group)
        if search.realName then realName
        else
          match (tree.aliasSearch? group).bind (searchName depth group) with
          | some name => some name
          | none => realName
      let ofNode (node : NodeId) : Option (Option Text) :=
        match tree.category? node with
        | some category =>
            if [Category.name, .wildcard, .doubleQuoted].elem category
                || (search.keywords && category == .keyword) then
              some (some (removeQuotes (tree.value node)))
            else none
        | none =>
            if tree.isKindIn node [.identifier, .function] then some (ofGroup node) else none
      ((if search.backwards then candidates.reverse else candidates).findSome? ofNode).join

/-- The alias given with AS, or the last name of an expression and its alias. -/
def alias? (id : NodeId) : Option Text :=
  (tree.aliasSearch? id).bind (tree.searchName tree.size id)

def realName? (id : NodeId) : Option Text :=
  tree.searchName tree.size id (tree.realNameSearch id)

def name? (id : NodeId) : Option Text :=
  match tree.alias? id with
  | some name => some name
  | none => tree.realName? id

def parentName? (id : NodeId) : Option Text := do
  let dot ← tree.firstHit? id .punctuation ['.']
  let (_, qualifier) ← tree.prev id dot true
  return removeQuotes (tree.value qualifier)

def typecast? (id : NodeId) : Option Text := do
  let mark ← tree.firstHit? id .punctuation [':', ':']
  let (_, next) ← tree.next id mark false
  return tree.value next

def ordering? (id : NodeId) : Option Text := do
  let (_, keyword) ← tree.firstOfCategory? id .order
  return tree.normalized keyword

def isWildcard (id : NodeId) : Bool := (tree.firstOfCategory? id .wildcard).isSome

end Tree
end SqlLayout
