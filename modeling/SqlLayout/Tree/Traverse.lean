import SqlLayout.Tree.Basic

/-!
# Traversals

The leaves and the nodes below a node, in the order of the text.  A path of a
tree holds no node twice, so the number of nodes bounds how deep a traversal has
to go.
-/

namespace SqlLayout
namespace Tree

variable (tree : Tree)

/-- The leaves at or below a node, at most `depth` levels deep. -/
def leavesWithin : Nat -> NodeId -> List NodeId
  | 0, _ => []
  | depth + 1, id =>
      if tree.isGroup id then (tree.children id).flatMap (leavesWithin depth) else [id]

def leaves (id : NodeId) : List NodeId := tree.leavesWithin tree.size id

def descendantsWithin : Nat -> NodeId -> List NodeId
  | 0, _ => []
  | depth + 1, id =>
      (tree.children id).flatMap fun child => child :: descendantsWithin depth child

/-- The nodes strictly below a node, in pre-order. -/
def descendants (id : NodeId) : List NodeId := tree.descendantsWithin tree.size id

def ancestorsWithin : Nat -> NodeId -> List NodeId
  | 0, _ => []
  | depth + 1, id =>
      match tree.parent? id with
      | some parent => parent :: ancestorsWithin depth parent
      | none => []

def ancestors (id : NodeId) : List NodeId := tree.ancestorsWithin tree.size id

def tokens (id : NodeId) : List Token := (tree.leaves id).filterMap tree.token?

/-- The text of a node: the values of its leaves in order. -/
def value (id : NodeId) : Text := (tree.tokens id).flatMap Token.value

def normalized (id : NodeId) : Text :=
  match tree.token? id with
  | some token => token.normalized
  | none => tree.value id

def position? (id : NodeId) : Option Nat := (tree.tokens id).findSome? Token.position

def sublists (id : NodeId) : List NodeId := (tree.children id).filter tree.isGroup

def findKind? (id : NodeId) (kind : GroupKind) : Option NodeId :=
  (tree.descendants id).find? fun node => tree.isKind node kind

def isWithin (id : NodeId) (kind : GroupKind) : Bool :=
  (tree.ancestors id).any fun node => tree.isKind node kind

def hasAncestor (id ancestor : NodeId) : Bool := (tree.ancestors id).elem ancestor

def leafAtOffset? (offset : Nat) : List NodeId -> Option NodeId
  | [] => none
  | leaf :: rest =>
      let length := ((tree.token? leaf).map Token.byteLength).getD 0
      if offset < length then some leaf else leafAtOffset? (offset - length) rest

/-- The leaf that covers a byte offset of a node's text. -/
def tokenAtOffset? (id : NodeId) (offset : Nat) : Option NodeId :=
  tree.leafAtOffset? offset (tree.leaves id)

end Tree

/-!
# Traversals with a stack

The traversals once more without recursion over the tree: an iterator goes round a loop and
keeps what is left to visit on a stack.  Nothing in the loop bounds its turns.  The number of
turns that a run is given here stands for patience only: a run that is not at its end by then
has no result.
-/

/-- What a turn of a loop brings: the end, another state, or a node and another state. -/
inductive Turn (State : Type) where
  | done
  | goOn (state : State)
  | give (id : NodeId) (state : State)

def collect {State : Type} (turn : State -> Turn State) : Nat -> State -> Option (List NodeId)
  | 0, _ => none
  | turns + 1, state =>
      match turn state with
      | .done => some []
      | .goOn state => collect turn turns state
      | .give id state => (collect turn turns state).map (id :: ·)

/-- An iterator over leaves.  The node at which it starts waits for the first turn; after that
there are, for each open group, the children still to visit, the innermost group first. -/
structure LeafIterator where
  start : Option NodeId := none
  stack : List (List NodeId) := []

namespace Tree

variable (tree : Tree)

/-- A leaf is given, a group is opened, and a group that is done is closed. -/
def turnLeaves (i : LeafIterator) : Turn LeafIterator :=
  match i.start, i.stack with
  | some id, stack =>
      if tree.isGroup id then .goOn { stack := tree.children id :: stack }
      else .give id { stack := stack }
  | none, [] => .done
  | none, [] :: stack => .goOn { stack := stack }
  | none, (id :: ids) :: stack =>
      if tree.isGroup id then .goOn { stack := tree.children id :: ids :: stack }
      else .give id { stack := ids :: stack }

/-- The node on top of the stack is given, and its children take its place. -/
def turnDescendants : List NodeId -> Turn (List NodeId)
  | [] => .done
  | id :: stack => .give id (tree.children id ++ stack)

def leavesOnStack (turns : Nat) (id : NodeId) : Option (List NodeId) :=
  collect tree.turnLeaves turns { start := some id }

def descendantsOnStack (turns : Nat) (id : NodeId) : Option (List NodeId) :=
  collect tree.turnDescendants turns (tree.children id)

def tokensOnStack (turns : Nat) (id : NodeId) : Option (List Token) :=
  (tree.leavesOnStack turns id).map fun leaves => leaves.filterMap tree.token?

def valueOnStack (turns : Nat) (id : NodeId) : Option Text :=
  match tree.token? id with
  | some token => some token.value
  | none => (tree.tokensOnStack turns id).map fun tokens => tokens.flatMap Token.value

end Tree

end SqlLayout
