import Mathlib.Data.Finset.Card
import Mathlib.Data.Finset.Image
import Mathlib.Order.WellFounded
import SqlLayout.Proofs.Tree.Lookup
import SqlLayout.Tree.Traverse

/-!
# Well-formed trees

Parents and lists of children are stored apart from one another.  In a
well-formed tree they agree, and the chain of parents from a node ends.  Then a
node has a depth below the number of nodes, so the bounded traversals see the
whole tree and the leaves of a group are those of its children.
-/

namespace SqlLayout
namespace Tree

structure WellFormed (tree : Tree) : Prop where
  mem_children_iff : forall child group,
    child ∈ tree.children group <-> tree.parent? child = some group
  nodup_children : forall group, (tree.children group).Nodup
  acyclic : WellFounded fun parent child => tree.parent? child = some parent

theorem acyclic_of_rank {tree : Tree} (rank : NodeId -> Nat)
    (h : forall parent child, tree.parent? child = some parent -> rank parent < rank child) :
    WellFounded fun parent child => tree.parent? child = some parent :=
  Subrelation.wf (fun {parent child} hparent => h parent child hparent) (measure rank).wf

namespace WellFormed

variable {tree : Tree}

theorem congr {after : Tree} (h : tree.WellFormed)
    (hchildren : forall id, after.children id = tree.children id)
    (hparent : forall id, after.parent? id = tree.parent? id) : after.WellFormed := by
  refine ⟨?_, ?_, ?_⟩
  · intro child group
    rw [hchildren, hparent]
    exact h.mem_children_iff child group
  · intro group
    rw [hchildren]
    exact h.nodup_children group
  · simp only [hparent]
    exact h.acyclic

theorem parent?_of_mem (h : tree.WellFormed) {child group : NodeId}
    (hmem : child ∈ tree.children group) : tree.parent? child = some group :=
  (h.mem_children_iff child group).mp hmem

theorem mem_of_parent? (h : tree.WellFormed) {child group : NodeId}
    (hparent : tree.parent? child = some group) : child ∈ tree.children group :=
  (h.mem_children_iff child group).mpr hparent

theorem child_lt_size (h : tree.WellFormed) {child group : NodeId}
    (hmem : child ∈ tree.children group) : child < tree.size :=
  lt_size_of_parent? (h.parent?_of_mem hmem)

theorem not_mem_children_self (h : tree.WellFormed) (id : NodeId) :
    id ∉ tree.children id := by
  intro hmem
  exact h.acyclic.irrefl.irrefl id (h.parent?_of_mem hmem)

/-!
# Depth
-/

/-- The number of nodes above a node. -/
noncomputable def depth (h : tree.WellFormed) : NodeId -> Nat :=
  h.acyclic.fix fun id depthOf =>
    match hparent : tree.parent? id with
    | some parent => depthOf parent hparent + 1
    | none => 0

theorem depth_of_parent? (h : tree.WellFormed) {id parent : NodeId}
    (hparent : tree.parent? id = some parent) : h.depth id = h.depth parent + 1 := by
  unfold depth
  rw [WellFounded.fix_eq]
  split
  · rename_i other hother
    rw [hparent] at hother
    cases hother
    rfl
  · rename_i hnone
    rw [hparent] at hnone
    cases hnone

theorem depth_of_root (h : tree.WellFormed) {id : NodeId} (hparent : tree.parent? id = none) :
    h.depth id = 0 := by
  unfold depth
  rw [WellFounded.fix_eq]
  split
  · rename_i other hother
    rw [hparent] at hother
    cases hother
  · rfl

theorem depth_of_mem (h : tree.WellFormed) {child group : NodeId}
    (hmem : child ∈ tree.children group) : h.depth child = h.depth group + 1 :=
  h.depth_of_parent? (h.parent?_of_mem hmem)

theorem exists_depth_eq (h : tree.WellFormed) {id : NodeId} (hid : id < tree.size) {d : Nat}
    (hd : d <= h.depth id) : exists other, other < tree.size ∧ h.depth other = d := by
  induction id using h.acyclic.induction with
  | h id ih =>
      rcases Nat.lt_or_eq_of_le hd with hlt | heq
      · cases hparent : tree.parent? id with
        | none =>
            rw [h.depth_of_root hparent] at hlt
            omega
        | some parent =>
            rw [h.depth_of_parent? hparent] at hlt
            have hmem := h.mem_of_parent? hparent
            exact ih parent hparent (lt_size_of_mem_children hmem) (by omega)
      · exact ⟨id, hid, heq.symm⟩

/-- Nodes of different depths are different, so there are more nodes than the
depth of one of them. -/
theorem depth_lt_size (h : tree.WellFormed) {id : NodeId} (hid : id < tree.size) :
    h.depth id < tree.size := by
  have hsubset :
      Finset.range (h.depth id + 1) ⊆ (Finset.range tree.size).image h.depth := by
    intro d hd
    have hle : d <= h.depth id := by
      have := Finset.mem_range.mp hd
      omega
    rcases h.exists_depth_eq hid hle with ⟨other, hother, hdepth⟩
    exact Finset.mem_image.mpr ⟨other, Finset.mem_range.mpr hother, hdepth⟩
  have hcard := Finset.card_le_card hsubset
  have himage := Finset.card_image_le (s := Finset.range tree.size) (f := h.depth)
  rw [Finset.card_range] at hcard himage
  omega

theorem induction_up (h : tree.WellFormed) {motive : NodeId -> Prop}
    (step : forall id, (forall child, child ∈ tree.children id -> motive child) -> motive id)
    (id : NodeId) : motive id := by
  have hstrong :
      forall n id, tree.size <= h.depth id + n -> motive id := by
    intro n
    induction n with
    | zero =>
        intro id hle
        apply step
        intro child hmem
        have hlt := h.depth_lt_size (lt_size_of_mem_children hmem)
        omega
    | succ n ih =>
        intro id hle
        apply step
        intro child hmem
        apply ih
        rw [h.depth_of_mem hmem]
        omega
  exact hstrong tree.size id (by omega)

/-!
# Ancestors and descendants
-/

theorem ancestorsWithin_congr (h : tree.WellFormed) {n m : Nat} {id : NodeId}
    (hn : h.depth id <= n) (hm : h.depth id <= m) :
    tree.ancestorsWithin n id = tree.ancestorsWithin m id := by
  induction id using h.acyclic.induction generalizing n m with
  | h id ih =>
      cases hparent : tree.parent? id with
      | none =>
          have hstop : forall k, tree.ancestorsWithin k id = [] := by
            intro k
            cases k with
            | zero =>
                rfl
            | succ k =>
                simp [ancestorsWithin, hparent]
          rw [hstop, hstop]
      | some parent =>
          have hdepth := h.depth_of_parent? hparent
          cases n with
          | zero =>
              omega
          | succ n =>
              cases m with
              | zero =>
                  omega
              | succ m =>
                  simp only [ancestorsWithin, hparent]
                  rw [ih parent hparent (n := n) (m := m) (by omega) (by omega)]

/-- What goes down along the children is not cut off by a bound that reaches past the
deepest node. -/
theorem levels_congr (h : tree.WellFormed) {alpha : Type} {f : Nat -> NodeId -> alpha}
    (hstep : forall n m id, (forall child, child ∈ tree.children id -> f n child = f m child) ->
      f (n + 1) id = f (m + 1) id)
    {n m : Nat} {id : NodeId} (hid : id < tree.size) (hn : tree.size <= h.depth id + n)
    (hm : tree.size <= h.depth id + m) : f n id = f m id := by
  have hdepth := h.depth_lt_size hid
  induction n generalizing m id with
  | zero =>
      omega
  | succ n ih =>
      cases m with
      | zero =>
          omega
      | succ m =>
          apply hstep
          intro child hmem
          have hchild := h.child_lt_size hmem
          have hnext := h.depth_of_mem hmem
          exact ih hchild (by omega) (by omega) (h.depth_lt_size hchild)

theorem descendantsWithin_congr (h : tree.WellFormed) {n m : Nat} {id : NodeId}
    (hid : id < tree.size) (hn : tree.size <= h.depth id + n)
    (hm : tree.size <= h.depth id + m) :
    tree.descendantsWithin n id = tree.descendantsWithin m id := by
  refine h.levels_congr (fun n m id hsame => ?_) hid hn hm
  unfold descendantsWithin
  exact List.flatMap_congr fun child hmem => congrArg (List.cons child) (hsame child hmem)

theorem descendants_eq (h : tree.WellFormed) {id : NodeId} (hid : id < tree.size) :
    tree.descendants id =
      (tree.children id).flatMap fun child => child :: tree.descendants child := by
  have hdepth := h.depth_lt_size hid
  have hunfold : tree.descendantsWithin (tree.size - 1 + 1) id =
      (tree.children id).flatMap fun child =>
        child :: tree.descendantsWithin (tree.size - 1) child := rfl
  rw [descendants, show tree.size = tree.size - 1 + 1 by omega, hunfold]
  apply List.flatMap_congr
  intro child hmem
  have hnext := h.depth_of_mem hmem
  rw [descendants, h.descendantsWithin_congr (h.child_lt_size hmem) (n := tree.size - 1)
    (m := tree.size) (by omega) (by omega)]

/-!
# Leaves
-/

theorem leavesWithin_congr (h : tree.WellFormed) {n m : Nat} {id : NodeId}
    (hid : id < tree.size) (hn : tree.size <= h.depth id + n)
    (hm : tree.size <= h.depth id + m) :
    tree.leavesWithin n id = tree.leavesWithin m id := by
  refine h.levels_congr (fun n m id hsame => ?_) hid hn hm
  unfold leavesWithin
  rw [List.flatMap_congr hsame]

theorem leaves_token {id : NodeId} {token : Token} (h : tree.token? id = some token) :
    tree.leaves id = [id] := by
  have hlt := lt_size_of_token? h
  unfold leaves
  cases hsize : tree.size with
  | zero =>
      rw [hsize] at hlt
      exact absurd hlt (Nat.not_lt_zero id)
  | succ n =>
      unfold leavesWithin
      rw [isGroup_of_token? h]
      rfl

theorem leaves_group (h : tree.WellFormed) {id : NodeId} (hgroup : tree.isGroup id = true) :
    tree.leaves id = (tree.children id).flatMap tree.leaves := by
  have hid := lt_size_of_isGroup hgroup
  have hdepth := h.depth_lt_size hid
  have hunfold :
      tree.leavesWithin (tree.size - 1 + 1) id =
        (tree.children id).flatMap (tree.leavesWithin (tree.size - 1)) := by
    rw [leavesWithin, if_pos hgroup]
  rw [leaves, show tree.size = tree.size - 1 + 1 by omega, hunfold]
  apply List.flatMap_congr
  intro child hmem
  have hnext := h.depth_of_mem hmem
  exact h.leavesWithin_congr (h.child_lt_size hmem) (by omega) (by omega)

theorem tokens_group (h : tree.WellFormed) {id : NodeId}
    (hgroup : tree.isGroup id = true) :
    tree.tokens id = (tree.children id).flatMap tree.tokens := by
  unfold tokens
  rw [h.leaves_group hgroup, List.filterMap_flatMap]

end WellFormed

/-!
# Nesting
-/

/-- Whether the groups from a node on are at most so many levels deep, the node
itself being the first. -/
def nestsWithin (tree : Tree) : Nat -> NodeId -> Bool
  | 0, _ => false
  | room + 1, list => (tree.sublists list).all (tree.nestsWithin room)

theorem WellFormed.nestsWithin_of_depth {tree : Tree} (h : tree.WellFormed) {room : Nat}
    {id : NodeId} (hid : id < tree.size) (hroom : tree.size <= h.depth id + room) :
    tree.nestsWithin room id = true := by
  induction room generalizing id with
  | zero =>
      have hdepth := h.depth_lt_size hid
      omega
  | succ room ih =>
      apply List.all_eq_true.mpr
      intro child hchild
      have hmem := (List.mem_filter.mp hchild).1
      have hnext := h.depth_of_mem hmem
      exact ih (h.child_lt_size hmem) (by omega)

theorem nestsWithin_of_subset {tree after : Tree}
    (hsub : forall id, after.sublists id ⊆ tree.sublists id) {room : Nat} {id : NodeId}
    (hnests : tree.nestsWithin room id = true) : after.nestsWithin room id = true := by
  induction room generalizing id with
  | zero =>
      cases hnests
  | succ room ih =>
      apply List.all_eq_true.mpr
      intro child hchild
      exact ih (List.all_eq_true.mp hnests child (hsub id hchild))

theorem leaves_congr {tree after : Tree} (hsize : after.size = tree.size)
    (hgroup : forall id, after.isGroup id = tree.isGroup id)
    (hchildren : forall id, after.children id = tree.children id) (id : NodeId) :
    after.leaves id = tree.leaves id := by
  have hwithin : forall n id, after.leavesWithin n id = tree.leavesWithin n id := by
    intro n
    induction n with
    | zero =>
        intro id
        rfl
    | succ n ih =>
        intro id
        unfold leavesWithin
        rw [hgroup, hchildren, funext ih]
  unfold leaves
  rw [hsize, hwithin]

theorem leaves_of_tokenHas {tree : Tree} {id : NodeId} {p : Token -> Bool}
    (h : tree.tokenHas id p = true) : tree.leaves id = [id] := by
  rcases tokenHas_iff.mp h with ⟨token, htoken, _⟩
  exact WellFormed.leaves_token htoken

theorem flatMap_leaves_blanks {tree : Tree} {blanks : List NodeId}
    (h : forall id, id ∈ blanks -> tree.isWhitespace id = true) :
    blanks.flatMap tree.leaves = blanks := by
  rw [List.flatMap_congr (g := fun id => [id])]
  · exact List.flatMap_singleton' blanks
  · exact fun id hid => leaves_of_tokenHas (h id hid)

/-!
# Rewriting a token
-/

section

variable {tree : Tree} (id : NodeId) (f : Token -> Token)

theorem isGroup_modifyToken (other : NodeId) :
    (tree.modifyToken id f).isGroup other = tree.isGroup other := by
  unfold isGroup
  rw [kind?_modifyToken]

theorem wellFormed_modifyToken (h : tree.WellFormed) : (tree.modifyToken id f).WellFormed :=
  h.congr (children_modifyToken id f) (parent?_modifyToken id f)

theorem leaves_modifyToken (other : NodeId) :
    (tree.modifyToken id f).leaves other = tree.leaves other :=
  leaves_congr (size_modifyToken id f) (isGroup_modifyToken id f) (children_modifyToken id f) other

end

end Tree
end SqlLayout
