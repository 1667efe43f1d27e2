import SqlLayout.Error
import SqlLayout.Tree.Basic
import SqlLayout.Tree.Traverse

/-!
# Editing a tree

New nodes take the next number.  An edit that names a token as a group, or
positions that the group does not have, is a fault and has no result.
-/

namespace SqlLayout
namespace Tree

def push (tree : Tree) (content : Content) : NodeId × Tree :=
  (tree.size, { nodes := tree.nodes.push { content := content } })

def addToken (tree : Tree) (token : Token) : NodeId × Tree :=
  tree.push (.token token)

def modify (tree : Tree) (id : NodeId) (f : Node -> Node) : Tree :=
  { nodes := tree.nodes.modify id f }

def setParent (tree : Tree) (parent : Option NodeId) (id : NodeId) : Tree :=
  tree.modify id fun node => { node with parent := parent }

def adopt (tree : Tree) (parent : NodeId) (ids : List NodeId) : Tree :=
  ids.foldl (fun tree id => tree.setParent (some parent) id) tree

/-- Replaces the list of children; a token keeps its content. -/
def setChildren (tree : Tree) (id : NodeId) (children : List NodeId) : Tree :=
  tree.modify id fun node =>
    match node.content with
    | .group kind _ => { node with content := .group kind children }
    | .token _ => node

def addGroup (tree : Tree) (kind : GroupKind) (children : List NodeId) : NodeId × Tree :=
  let (id, tree) := tree.push (.group kind children)
  (id, tree.adopt id children)

def modifyToken (tree : Tree) (id : NodeId) (f : Token -> Token) : Tree :=
  tree.modify id fun node =>
    match node.content with
    | .token token => { node with content := .token (f token) }
    | .group _ _ => node

def setValue (tree : Tree) (id : NodeId) (value : Text) : Tree :=
  tree.modifyToken id fun token => { token with value := value }

/-- Moves the children after `start` up to `stop` to the end of the group at
`start`. -/
def absorb (tree : Tree) (list : NodeId) (group : NodeId) (start stop : Nat) :
    Except Fault (NodeId × Tree) :=
  let children := tree.children list
  if start ≤ stop && stop < children.length then
    let moved := (children.take (stop + 1)).drop (start + 1)
    let tree := tree.setChildren list (children.take (start + 1) ++ children.drop (stop + 1))
    let tree := tree.setChildren group (tree.children group ++ moved)
    .ok (group, tree.adopt group moved)
  else .error .outOfRange

/-- Puts a new group in the place of the children `start` to `stop`. -/
def wrap (tree : Tree) (list : NodeId) (kind : GroupKind) (start stop : Nat) :
    Except Fault (NodeId × Tree) :=
  let children := tree.children list
  if start ≤ stop + 1 && stop < children.length then
    let moved := (children.take (stop + 1)).drop start
    let (group, tree) := tree.push (.group kind moved)
    let tree := tree.setParent (some list) group
    let tree := tree.setChildren list (children.take start ++ group :: children.drop (stop + 1))
    .ok (group, tree.adopt group moved)
  else .error .outOfRange

/-- Groups the children `start` to `stop`.  With `extend` a child at `start`
that is a group of the kind takes in the others. -/
def groupTokens (tree : Tree) (list : NodeId) (kind : GroupKind) (start stop : Nat)
    (extend : Bool) : Except Fault (NodeId × Tree) :=
  match tree.child? list start with
  | none => .error .outOfRange
  | some first =>
      if extend && tree.isKind first kind then tree.absorb list first start stop
      else tree.wrap list kind start stop

def insertAt (tree : Tree) (list : NodeId) (idx : Nat) (token : Token) : NodeId × Tree :=
  let children := tree.children list
  let (id, tree) := tree.addToken token
  let tree := tree.setParent (some list) id
  (id, tree.setChildren list (children.take idx ++ id :: children.drop idx))

def insertBefore (tree : Tree) (list : NodeId) (idx : Nat) (token : Token) :
    Except Fault (NodeId × Tree) :=
  if tree.isGroup list then .ok (tree.insertAt list idx token) else .error .notAGroup

/-- Inserts a token in front of the first child after a position, blanks passed
over if asked, or at the end. -/
def insertAfter (tree : Tree) (list : NodeId) (idx : Nat) (token : Token)
    (skipBlank : Bool) : Except Fault (NodeId × Tree) :=
  let place :=
    match tree.next list idx skipBlank with
    | some (next, _) => next
    | none => tree.childCount list
  tree.insertBefore list place token

/-- Takes a child that stands at a position out of its group; without such a
child the tree stays as it is. -/
def removeAt (tree : Tree) (list : NodeId) (idx : Nat) : Tree :=
  match tree.child? list idx with
  | none => tree
  | some id =>
      let children := tree.children list
      let tree := tree.setChildren list (children.take idx ++ children.drop (idx + 1))
      tree.setParent none id

def remove (tree : Tree) (list : NodeId) (idx : Nat) : Except Fault (NodeId × Tree) :=
  match tree.child? list idx with
  | none => .error (if tree.isGroup list then .outOfRange else .notAGroup)
  | some id => .ok (id, tree.removeAt list idx)

/-!
# Editing along a list of children

The filters of the layout walk along the children of a group and edit around the
place where they stand.
-/

/-- At most `budget` steps; a step edits the tree and says where to go on, and no
step ends the walk. -/
def sweep (step : Tree -> Nat -> Option (Tree × Nat)) : Nat -> Nat -> Tree -> Tree
  | 0, _, tree => tree
  | budget + 1, idx, tree =>
      match step tree idx with
      | none => tree
      | some (tree, idx) => sweep step budget idx tree

/-- Walks from the start of a list.  Each step deals with another child that was
there at the beginning. -/
def sweepList (tree : Tree) (list : NodeId) (step : Tree -> Nat -> Option (Tree × Nat)) : Tree :=
  sweep step (tree.childCount list) 0 tree

/-- Inserts a blank token that stands nowhere in the source. -/
def insertBlank (tree : Tree) (list : NodeId) (idx : Nat) (value : Text) : Tree :=
  (tree.insertAt list idx ⟨.whitespace, value, none⟩).2

def childHas (tree : Tree) (list : NodeId) (idx : Nat) (p : NodeId -> Bool) : Bool :=
  match tree.child? list idx with
  | some id => p id
  | none => false

def blankBefore (tree : Tree) (list : NodeId) (idx : Nat) : Bool :=
  0 < idx && tree.childHas list (idx - 1) tree.isWhitespace

end Tree
end SqlLayout
