import SqlLayout.Tree.Edit
import SqlLayout.Tree.Traverse

/-!
# Grouping passes

A pass walks the children of a group and puts spans of them into groups.  What
it does at a place is a plan: a move that may visit a child, give a token
another category, group a span, and says where to go on.  Every descent into a
group costs one level of a limit.
-/

namespace SqlLayout

/-- A computation on the tree that may fail; the tree that a failure leaves is
kept. -/
abbrev Grouping := ExceptT Error (StateM Tree)

/-- Children `start` to `stop` that are to become a group. -/
structure Span where
  kind : GroupKind
  start : Nat
  stop : Nat
  extend : Bool := false
deriving DecidableEq, Repr

/-- A place in a list of children: the position, the position of the last child
before it that counts, and the opening tokens that wait for their partner, the
innermost first. -/
structure Cursor where
  idx : Nat := 0
  prev : Option Nat := none
  opens : List Nat := []
deriving DecidableEq, Repr

structure Move where
  visit : Option NodeId := none
  retag : Option (NodeId × Category) := none
  span : Option Span := none
  cursor : Cursor
deriving DecidableEq, Repr

structure Pass where
  /-- The groups that are walked before the list they stand in. -/
  enters : Tree -> NodeId -> Bool
  /-- Whether a list is walked at all. -/
  applies : Tree -> NodeId -> Bool := fun _ _ => true
  /-- The move at a place of a list; no move ends the walk. -/
  plan : Tree -> NodeId -> Cursor -> Option Move

namespace Move

def skip (cursor : Cursor) : Move := { cursor := { cursor with idx := cursor.idx + 1 } }

end Move

namespace Grouping

def editTree (f : Tree -> Tree) : Grouping Unit := modify f

def groupSpan (list : NodeId) (span : Span) : Grouping Unit := do
  match (← get).groupTokens list span.kind span.start span.stop span.extend with
  | .ok (_, tree) => set tree
  | .error fault => throw (.fault fault)

def perform (visit : NodeId -> Grouping Unit) (list : NodeId) (move : Move) : Grouping Unit := do
  match move.visit with
  | some id => visit id
  | none => pure ()
  match move.retag with
  | some (id, category) =>
      editTree fun tree => tree.modifyToken id fun token => { token with category := category }
  | none => pure ()
  match move.span with
  | some span => groupSpan list span
  | none => pure ()

/-- At most `budget` moves along a list. -/
def walk (visit : NodeId -> Grouping Unit) (list : NodeId)
    (plan : Tree -> NodeId -> Cursor -> Option Move) : Nat -> Cursor -> Grouping Unit
  | 0, _ => pure ()
  | budget + 1, cursor => do
      match plan (← get) list cursor with
      | none => pure ()
      | some move =>
          perform visit list move
          walk visit list plan budget move.cursor

end Grouping

namespace Pass

/-- Runs a pass on a list with `room` levels left of the limit: first on the
groups it enters, then along the list itself.  A move brings the place nearer to
the end of the list, so the number of children bounds the moves. -/
def run (pass : Pass) (limit : Nat) : Nat -> NodeId -> Grouping Unit
  | 0, _ => throw (.nestingTooDeep limit)
  | room + 1, list => do
      let tree ← get
      ((tree.sublists list).filter (pass.enters tree)).forM (run pass limit room)
      let tree ← get
      if pass.applies tree list then
        Grouping.walk (run pass limit room) list pass.plan (tree.childCount list) {}

end Pass
end SqlLayout
