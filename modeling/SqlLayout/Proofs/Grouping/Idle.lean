import SqlLayout.Proofs.Grouping.Steps

/-!
# Runs that change nothing

Steps never lead back to an earlier tree.  A run that ends with the tree that it
started from has thus grouped nothing on its way, and each of its parts has left
the tree alone.
-/

namespace SqlLayout
namespace Grouping

def Idle (m : Grouping Unit) (tree : Tree) : Prop :=
  exec m tree = (.ok (), tree)

variable {limit : Nat} {tree : Tree} (hwf : tree.WellFormed)
include hwf

theorem idle_bind_iff {m next : Grouping Unit}
    (hm : Safe Tree.GroupStep limit tree (exec m tree))
    (hnext : forall after : Tree, after.WellFormed ->
      Safe Tree.GroupStep limit after (exec next after)) :
    Idle (m >>= fun _ => next) tree <-> Idle m tree ∧ Idle next tree := by
  unfold Idle
  rw [exec_bind]
  rcases hexec : exec m tree with ⟨e | u, after⟩
  · constructor
    · intro h
      cases h
    · intro h
      cases h.1
  · rw [hexec] at hm
    constructor
    · intro h
      -- The second part leads back to the tree, so the first has not left it.
      have hback := (hnext after (Tree.groupStep_keepsWellFormed.run hwf hm.steps)).steps
      dsimp only at h
      rw [h] at hback
      have heq : after = tree := Tree.eq_of_steps_back hwf hm.steps hback
      subst heq
      exact ⟨rfl, h⟩
    · intro h
      cases h.1
      exact h.2

theorem idle_forM_iff {alpha : Type} {f : alpha -> Grouping Unit} {items : List alpha}
    (hf : forall a, a ∈ items -> forall tree : Tree, tree.WellFormed ->
      Safe Tree.GroupStep limit tree (exec (f a) tree)) :
    Idle (items.forM f) tree <-> forall a, a ∈ items -> Idle (f a) tree := by
  induction items with
  | nil =>
      constructor
      · intro _ a ha
        cases ha
      · intro _
        rfl
  | cons a rest ih =>
      have hrest : forall b, b ∈ rest -> forall tree : Tree, tree.WellFormed ->
          Safe Tree.GroupStep limit tree (exec (f b) tree) :=
        fun b hb => hf b (by simp [hb])
      change Idle (f a >>= fun _ => rest.forM f) tree <-> _
      rw [idle_bind_iff hwf (hf a (by simp) tree hwf)
          (fun _ hafter => forM_safe Tree.groupStep_keepsWellFormed hrest hafter),
        ih hrest, List.forall_mem_cons]

end Grouping

namespace Pass

/-- A walk along a list finds nothing to group, and what it visits satisfies a
condition. -/
def Quiet (pass : Pass) (visited : NodeId -> Prop) (tree : Tree) (list : NodeId) :
    Nat -> Cursor -> Prop
  | 0, _ => True
  | budget + 1, cursor =>
      forall move, pass.plan tree list cursor = some move ->
        move.span = none ∧ (forall id, move.visit = some id -> visited id) ∧
          Quiet pass visited tree list budget move.cursor

def walkAlong (pass : Pass) (limit room : Nat) (list : NodeId) : Grouping Unit := do
  let tree <- get
  if pass.applies tree list then
    Grouping.walk (pass.run limit room) list pass.plan (tree.childCount list) {}

open Grouping

variable {pass : Pass} (hsound : pass.Sound) {limit : Nat} {tree : Tree}
  (hwf : tree.WellFormed)
include hsound hwf

theorem idle_perform_iff (visit : NodeId -> Grouping Unit) {list : NodeId} {cursor : Cursor}
    {move : Move} (hcursor : cursor.Ordered) (hplan : pass.plan tree list cursor = some move) :
    Idle (perform visit list move) tree <->
      move.span = none ∧ forall id, move.visit = some id -> Idle (visit id) tree := by
  have hfits := hsound tree list cursor move hcursor hplan
  by_cases hspan : move.span = none
  · have hretag := hfits.retag_eq_none hspan
    cases hvisit : move.visit with
    | none =>
        unfold Idle
        rw [exec_perform_skip hvisit hretag hspan]
        simp [hspan]
    | some id =>
        unfold Idle
        rw [exec_perform_visit hvisit hretag hspan]
        simp [hspan]
  · constructor
    · intro hidle
      rcases takes_groupStep hsound tree list cursor move hwf hcursor hplan hspan with
        ⟨after, hgroups, hstep⟩
      unfold Idle at hidle
      rw [exec_perform_span (hfits.visit_eq_none hspan) hgroups] at hidle
      cases hidle
      rcases hstep.exists_above_new hwf with ⟨other, id, hnew, hold⟩
      exact absurd hnew hold
    · intro h
      exact absurd h.1 hspan

theorem idle_walk_iff {visit : NodeId -> Grouping Unit}
    (hvisit : forall id (tree : Tree), tree.WellFormed ->
      Safe Tree.GroupStep limit tree (exec (visit id) tree))
    (list : NodeId) (budget : Nat) {cursor : Cursor} (hcursor : cursor.Ordered) :
    Idle (walk visit list pass.plan budget cursor) tree <->
      pass.Quiet (fun id => Idle (visit id) tree) tree list budget cursor := by
  have htakes := takes_groupStep hsound
  induction budget generalizing cursor with
  | zero =>
      constructor
      · intro _
        trivial
      · intro _
        rfl
  | succ budget ih =>
      unfold walk Quiet
      unfold Idle
      rw [exec_get_bind]
      cases hplan : pass.plan tree list cursor with
      | none =>
          constructor
          · intro _ move hmove
            cases hmove
          · intro _
            rfl
      | some move =>
          have hordered := (hsound tree list cursor move hcursor hplan).ordered
          change Idle (perform visit list move >>= fun _ =>
            walk visit list pass.plan budget move.cursor) tree <-> _
          rw [idle_bind_iff hwf (perform_safe hsound htakes hvisit hwf hcursor hplan)
              (fun _ hafter => walk_safe hsound htakes Tree.groupStep_keepsWellFormed hvisit list
                budget hafter hordered),
            idle_perform_iff hsound hwf visit hcursor hplan, and_assoc]
          have hrest := ih hordered
          constructor
          · intro h other hother
            cases hother
            exact ⟨h.1, h.2.1, hrest.mp h.2.2⟩
          · intro h
            rcases h move rfl with ⟨hspan, hvisits, hquiet⟩
            exact ⟨hspan, hvisits, hrest.mpr hquiet⟩

/-- A run with room left changes nothing if neither the groups that it enters
nor the walk along the list call for a change. -/
theorem idle_run_iff (room : Nat) (list : NodeId) :
    Idle (pass.run limit (room + 1) list) tree <->
      (forall id, id ∈ tree.sublists list -> pass.enters tree id = true ->
        Idle (pass.run limit room id) tree) ∧
      (pass.applies tree list = true ->
        pass.Quiet (fun id => Idle (pass.run limit room id) tree) tree list
          (tree.childCount list) {}) := by
  have htakes := takes_groupStep hsound
  have hrun : forall id (tree : Tree), tree.WellFormed ->
      Safe Tree.GroupStep limit tree (exec (pass.run limit room id) tree) :=
    fun id _ h => run_steps hsound limit room id h
  have hwalk : forall after : Tree, after.WellFormed ->
      Safe Tree.GroupStep limit after (exec (pass.walkAlong limit room list) after) := by
    intro after hafter
    unfold walkAlong
    rw [exec_get_bind]
    split
    · exact walk_safe hsound htakes Tree.groupStep_keepsWellFormed hrun list _ hafter
        (Cursor.ordered_at 0)
    · exact Safe.refl after
  have hbind :
      Idle (pass.run limit (room + 1) list) tree <->
        Idle (((tree.sublists list).filter (pass.enters tree)).forM (pass.run limit room) >>=
          fun _ => pass.walkAlong limit room list) tree :=
    Iff.rfl
  rw [hbind, idle_bind_iff hwf
      (forM_safe Tree.groupStep_keepsWellFormed (fun id _ => hrun id) hwf) hwalk,
    idle_forM_iff hwf (fun id _ => hrun id)]
  refine and_congr ?_ ?_
  · simp only [List.mem_filter, and_imp]
  · unfold walkAlong
    unfold Idle
    rw [exec_get_bind]
    split
    · rename_i happlies
      rw [forall_prop_of_true happlies]
      exact idle_walk_iff hsound hwf hrun list _ (Cursor.ordered_at 0)
    · rename_i happlies
      constructor
      · intro _ h
        exact absurd h happlies
      · intro _
        rfl

end Pass
end SqlLayout
