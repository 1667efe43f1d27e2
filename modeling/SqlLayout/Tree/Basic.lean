import SqlLayout.Token.Basic

/-!
# Trees of tokens

A tree is a store of numbered nodes.  A node knows its parent; a group also
lists its children.  Nodes are numbered in the order in which they are made and
are never dropped, so a node that is taken out of its group can still be looked
at.
-/

namespace SqlLayout

/-!
# Kinds of groups

A group has a kind that says which construct it stands for.  Some kinds are
delimited by a pair of tokens.
-/

inductive GroupKind where
  | statement
  | parenthesis
  | squareBrackets
  | identifier
  | identifierList
  | typedLiteral
  | function
  | operation
  | comparison
  | whereClause
  | caseBlock
  | beginBlock
  | forBlock
  | ifBlock
  | comment
  | assignment
deriving DecidableEq, Repr

namespace GroupKind

def opening? : GroupKind -> Option TokenPattern
  | parenthesis => some ⟨.punctuation, [Text.of "("]⟩
  | squareBrackets => some ⟨.punctuation, [Text.of "["]⟩
  | caseBlock => some ⟨.keyword, [Text.of "CASE"]⟩
  | beginBlock => some ⟨.keyword, [Text.of "BEGIN"]⟩
  | ifBlock => some ⟨.keyword, [Text.of "IF"]⟩
  | forBlock => some ⟨.keyword, [Text.of "FOR", Text.of "FOREACH"]⟩
  | whereClause => some ⟨.keyword, [Text.of "WHERE"]⟩
  | _ => none

/-- The token that closes a group of the kind.  A WHERE clause is closed by the
clause after it. -/
def closing? : GroupKind -> Option TokenPattern
  | parenthesis => some ⟨.punctuation, [Text.of ")"]⟩
  | squareBrackets => some ⟨.punctuation, [Text.of "]"]⟩
  | caseBlock => some ⟨.keyword, [Text.of "END"]⟩
  | beginBlock => some ⟨.keyword, [Text.of "END"]⟩
  | ifBlock => some ⟨.keyword, [Text.of "END IF"]⟩
  | forBlock => some ⟨.keyword, [Text.of "END LOOP"]⟩
  | whereClause =>
      some
        ⟨.keyword,
         [Text.of "ORDER", Text.of "ORDER BY", Text.of "GROUP", Text.of "GROUP BY",
          Text.of "LIMIT", Text.of "UNION", Text.of "UNION ALL", Text.of "EXCEPT",
          Text.of "HAVING", Text.of "RETURNING", Text.of "INTO"]⟩
  | _ => none

end GroupKind

/-!
# Nodes
-/

abbrev NodeId := Nat

inductive Content where
  | token (token : Token)
  | group (kind : GroupKind) (children : List NodeId)
deriving DecidableEq, Repr

structure Node where
  parent : Option NodeId := none
  content : Content
deriving DecidableEq, Repr

structure Tree where
  nodes : Array Node := #[]
deriving DecidableEq, Repr

namespace Tree

variable (tree : Tree)

/-- The number of nodes ever made. -/
def size : Nat := tree.nodes.size

def content? (id : NodeId) : Option Content :=
  tree.nodes[id]?.map Node.content

def parent? (id : NodeId) : Option NodeId :=
  tree.nodes[id]?.bind Node.parent

def token? (id : NodeId) : Option Token :=
  match tree.content? id with
  | some (.token token) => some token
  | _ => none

def kind? (id : NodeId) : Option GroupKind :=
  match tree.content? id with
  | some (.group kind _) => some kind
  | _ => none

def children (id : NodeId) : List NodeId :=
  match tree.content? id with
  | some (.group _ children) => children
  | _ => []

def childCount (id : NodeId) : Nat := (tree.children id).length

def child? (id : NodeId) (idx : Nat) : Option NodeId := (tree.children id)[idx]?

def category? (id : NodeId) : Option Category := (tree.token? id).map Token.category

/-!
# Tests on nodes
-/

def isGroup (id : NodeId) : Bool := (tree.kind? id).isSome

def isKind (id : NodeId) (kind : GroupKind) : Bool := tree.kind? id == some kind

def isKindIn (id : NodeId) (kinds : List GroupKind) : Bool :=
  match tree.kind? id with
  | some kind => kinds.elem kind
  | none => false

/-- A test of the token at a node; groups fail it. -/
def tokenHas (id : NodeId) (p : Token -> Bool) : Bool :=
  match tree.token? id with
  | some token => p token
  | none => false

def isCategory (id : NodeId) (category : Category) : Bool := tree.category? id == some category

def isA (id : NodeId) (category : Category) : Bool :=
  tree.tokenHas id fun token => token.category.isA category

def isAIn (id : NodeId) (categories : List Category) : Bool :=
  tree.tokenHas id fun token => categories.any token.category.isA

def hits (id : NodeId) (pattern : TokenPattern) : Bool :=
  tree.tokenHas id fun token => token.hits pattern

def isKeywordIn (id : NodeId) (words : List Text) : Bool := tree.hits id ⟨.keyword, words⟩

def isPunctuationIn (id : NodeId) (marks : List Text) : Bool := tree.hits id ⟨.punctuation, marks⟩

def isWhitespace (id : NodeId) : Bool := tree.tokenHas id Token.isWhitespace

def isKeyword (id : NodeId) : Bool := tree.tokenHas id Token.isKeyword

def isComment (id : NodeId) : Bool :=
  tree.isKind id .comment || tree.tokenHas id Token.isComment

def isSkipped (id : NodeId) (skipBlank skipComment : Bool) : Bool :=
  (skipBlank && tree.isWhitespace id) || (skipComment && tree.isComment id)

end Tree

/-!
# Searching the children of a group

A hit is the position of a child together with the child.
-/

namespace Tree

/-- The first accepted element, with positions counted from `idx`. -/
def firstFrom (p : NodeId -> Bool) : Nat -> List NodeId -> Option (Nat × NodeId)
  | _, [] => none
  | idx, id :: rest => if p id then some (idx, id) else firstFrom p (idx + 1) rest

def lastFrom (p : NodeId -> Bool) : Nat -> List NodeId -> Option (Nat × NodeId)
  | _, [] => none
  | idx, id :: rest =>
      match lastFrom p (idx + 1) rest with
      | some hit => some hit
      | none => if p id then some (idx, id) else none

variable (tree : Tree)

def nextBy (list : NodeId) (start : Nat) (p : NodeId -> Bool) : Option (Nat × NodeId) :=
  firstFrom p start ((tree.children list).drop start)

def nextNotBy (list : NodeId) (start : Nat) (p : NodeId -> Bool) : Option (Nat × NodeId) :=
  tree.nextBy list start fun id => !p id

def first (list : NodeId) (skipBlank skipComment : Bool) : Option (Nat × NodeId) :=
  tree.nextNotBy list 0 fun id => tree.isSkipped id skipBlank skipComment

/-- The first child after a position that is not passed over. -/
def next (list : NodeId) (idx : Nat) (skipBlank : Bool) (skipComment : Bool := false) :
    Option (Nat × NodeId) :=
  tree.nextNotBy list (idx + 1) fun id => tree.isSkipped id skipBlank skipComment

def prev (list : NodeId) (idx : Nat) (skipBlank : Bool) (skipComment : Bool := false) :
    Option (Nat × NodeId) :=
  lastFrom (fun id => !tree.isSkipped id skipBlank skipComment) 0
    ((tree.children list).take idx)

def indexOf? (list child : NodeId) : Option Nat :=
  (tree.children list).findIdx? (· == child)

/-- Counts opening and closing tokens and stops where the count comes back to
zero. -/
def closingFrom (isOpen isClose : NodeId -> Bool) : Nat -> Nat -> List NodeId -> Option Nat
  | _, _, [] => none
  | depth, idx, id :: rest =>
      if isOpen id then closingFrom isOpen isClose (depth + 1) (idx + 1) rest
      else if isClose id then
        if depth ≤ 1 then some idx else closingFrom isOpen isClose (depth - 1) (idx + 1) rest
      else closingFrom isOpen isClose depth (idx + 1) rest

def findClosing? (list : NodeId) (start : Nat) (opening closing : TokenPattern) : Option Nat :=
  closingFrom (fun id => tree.hits id opening) (fun id => tree.hits id closing) 0 start
    ((tree.children list).drop start)

def between (list : NodeId) (start stop : Nat) (withStop : Bool) : List NodeId :=
  ((tree.children list).take (if withStop then stop + 1 else stop)).drop start

end Tree

end SqlLayout
