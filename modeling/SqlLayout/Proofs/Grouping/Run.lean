import SqlLayout.Proofs.Grouping.Moves
import SqlLayout.Proofs.Tree.RegroupLeaves

/-!
# Runs of passes

A run of a pass is a series of steps, each of which groups one span of children
of some list.  It ends well, or because the nesting is too deep; an edit never
fails.  What a step keeps is thus kept by all passes together, also when one of
them gives up.
-/

namespace SqlLayout
namespace Grouping

variable {alpha beta : Type}

/-- The result of a computation and the tree that it leaves. -/
def exec (m : Grouping alpha) (tree : Tree) : Except Error alpha × Tree :=
  m.run.run tree

theorem exec_bind (m : Grouping alpha) (f : alpha -> Grouping beta) (tree : Tree) :
    exec (m >>= f) tree =
      match exec m tree with
      | (.ok a, after) => exec (f a) after
      | (.error e, after) => (.error e, after) := by
  rcases hm : exec m tree with ⟨e | a, after⟩
  · simp only [exec, ExceptT.run_bind, StateT.run_bind] at hm ⊢
    rw [hm]
    rfl
  · simp only [exec, ExceptT.run_bind, StateT.run_bind] at hm ⊢
    rw [hm]
    rfl

theorem exec_get_bind (f : Tree -> Grouping beta) (tree : Tree) :
    exec (get >>= f) tree = exec (f tree) tree := rfl

/-!
# Moves
-/

end Grouping

namespace Move

def tagged (move : Move) (tree : Tree) : Tree :=
  match move.retag with
  | some (id, category) => tree.modifyToken id fun token => { token with category := category }
  | none => tree

def Groups (move : Move) (list : NodeId) (tree after : Tree) : Prop :=
  exists span group, move.span = some span ∧
    (move.tagged tree).groupTokens list span.kind span.start span.stop span.extend =
      .ok (group, after)

end Move

namespace Grouping

theorem exec_perform_span {visit : NodeId -> Grouping Unit} {list : NodeId} {move : Move}
    {tree after : Tree} (hvisit : move.visit = none) (h : move.Groups list tree after) :
    exec (perform visit list move) tree = (.ok (), after) := by
  rcases h with ⟨span, group, hspan, hok⟩
  unfold perform
  rw [hvisit, hspan]
  unfold Move.tagged at hok
  cases hretag : move.retag with
  | none =>
      rw [hretag] at hok
      change exec (groupSpan list span) tree = _
      unfold groupSpan
      rw [exec_get_bind]
      dsimp only at hok
      rw [hok]
      rfl
  | some pair =>
      rcases pair with ⟨id, category⟩
      rw [hretag] at hok
      dsimp only at hok ⊢
      change exec (groupSpan list span)
        (tree.modifyToken id fun token => { token with category := category }) = _
      unfold groupSpan
      rw [exec_get_bind, hok]
      rfl

theorem exec_perform_visit {visit : NodeId -> Grouping Unit} {list id : NodeId} {move : Move}
    {tree : Tree} (hvisit : move.visit = some id) (hretag : move.retag = none)
    (hspan : move.span = none) :
    exec (perform visit list move) tree = exec (visit id) tree := by
  unfold perform
  rw [hvisit, hretag, hspan]
  change exec (visit id >>= fun _ => pure ()) tree = _
  rw [exec_bind]
  rcases exec (visit id) tree with ⟨e | u, after⟩
  · rfl
  · rfl

theorem exec_perform_skip {visit : NodeId -> Grouping Unit} {list : NodeId} {move : Move}
    {tree : Tree} (hvisit : move.visit = none) (hretag : move.retag = none)
    (hspan : move.span = none) : exec (perform visit list move) tree = (.ok (), tree) := by
  unfold perform
  rw [hvisit, hretag, hspan]
  rfl

/-!
# Runs
-/

/-- The outcome of a run from a tree: steps lead to the tree it leaves, and the
only failure is that the nesting is too deep. -/
structure Safe (Step : Tree -> Tree -> Prop) (limit : Nat) (tree : Tree)
    (outcome : Except Error Unit × Tree) : Prop where
  steps : Relation.ReflTransGen Step tree outcome.2
  ends : outcome.1 = .ok () ∨ outcome.1 = .error (.nestingTooDeep limit)

variable {Step : Tree -> Tree -> Prop} {limit : Nat}

theorem Safe.refl (tree : Tree) : Safe Step limit tree (.ok (), tree) :=
  ⟨Relation.ReflTransGen.refl, Or.inl rfl⟩

theorem Safe.bind {tree : Tree} {m : Grouping Unit} {f : Unit -> Grouping Unit}
    (hm : Safe Step limit tree (exec m tree))
    (hf : forall after, Relation.ReflTransGen Step tree after ->
      Safe Step limit after (exec (f ()) after)) :
    Safe Step limit tree (exec (m >>= f) tree) := by
  rw [exec_bind]
  rcases hexec : exec m tree with ⟨e | u, after⟩
  · rw [hexec] at hm
    exact ⟨hm.steps, hm.ends.imp (fun h => by cases h) (fun h => by cases h; rfl)⟩
  · rw [hexec] at hm
    have hnext := hf after hm.steps
    exact ⟨hm.steps.trans hnext.steps, hnext.ends⟩

end Grouping

def KeepsWellFormed (Step : Tree -> Tree -> Prop) : Prop :=
  forall tree after, tree.WellFormed -> Step tree after -> after.WellFormed

theorem KeepsWellFormed.run {Step : Tree -> Tree -> Prop} (hstep : KeepsWellFormed Step)
    {tree after : Tree} (hwf : tree.WellFormed) (h : Relation.ReflTransGen Step tree after) :
    after.WellFormed := by
  induction h with
  | refl =>
      exact hwf
  | tail _ hlast ih =>
      exact hstep _ _ ih hlast

theorem Grouping.forM_safe {alpha : Type} {Step : Tree -> Tree -> Prop} {limit : Nat}
    (hstep : KeepsWellFormed Step) {f : alpha -> Grouping Unit} {items : List alpha}
    (hf : forall a, a ∈ items -> forall tree : Tree, tree.WellFormed ->
      Safe Step limit tree (exec (f a) tree))
    {tree : Tree} (hwf : tree.WellFormed) :
    Safe Step limit tree (exec (items.forM f) tree) := by
  induction items generalizing tree with
  | nil =>
      exact Safe.refl tree
  | cons a rest ih =>
      change Safe Step limit tree (exec (f a >>= fun _ => rest.forM f) tree)
      apply Safe.bind (hf a (by simp) tree hwf)
      intro after hsteps
      exact ih (fun b hb => hf b (by simp [hb])) (hstep.run hwf hsteps)

namespace Pass

def Takes (pass : Pass) (Step : Tree -> Tree -> Prop) : Prop :=
  forall tree list cursor move, tree.WellFormed -> cursor.Ordered ->
    pass.plan tree list cursor = some move -> move.span ≠ none ->
    exists after, move.Groups list tree after ∧ Step tree after

variable {pass : Pass} {Step : Tree -> Tree -> Prop} {limit : Nat}
  (hsound : pass.Sound) (htakes : pass.Takes Step) (hstep : KeepsWellFormed Step)
include hsound htakes hstep

open Grouping

omit hstep in
theorem perform_safe {visit : NodeId -> Grouping Unit}
    (hvisit : forall id (tree : Tree), tree.WellFormed ->
      Safe Step limit tree (exec (visit id) tree))
    {list : NodeId} {tree : Tree} {cursor : Cursor} {move : Move} (hwf : tree.WellFormed)
    (hcursor : cursor.Ordered) (hplan : pass.plan tree list cursor = some move) :
    Safe Step limit tree (exec (perform visit list move) tree) := by
  have hfits := hsound tree list cursor move hcursor hplan
  by_cases hspan : move.span = none
  · have hretag := hfits.retag_eq_none hspan
    cases hsome : move.visit with
    | none =>
        rw [exec_perform_skip hsome hretag hspan]
        exact Safe.refl tree
    | some id =>
        rw [exec_perform_visit hsome hretag hspan]
        exact hvisit id tree hwf
  · rcases htakes tree list cursor move hwf hcursor hplan hspan with ⟨after, hgroups, hafter⟩
    rw [exec_perform_span (hfits.visit_eq_none hspan) hgroups]
    exact ⟨Relation.ReflTransGen.single hafter, Or.inl rfl⟩

theorem walk_safe {visit : NodeId -> Grouping Unit}
    (hvisit : forall id (tree : Tree), tree.WellFormed ->
      Safe Step limit tree (exec (visit id) tree))
    (list : NodeId) (budget : Nat) {tree : Tree} {cursor : Cursor} (hwf : tree.WellFormed)
    (hcursor : cursor.Ordered) :
    Safe Step limit tree (exec (walk visit list pass.plan budget cursor) tree) := by
  induction budget generalizing tree cursor with
  | zero =>
      exact Safe.refl tree
  | succ budget ih =>
      unfold walk
      rw [exec_get_bind]
      cases hplan : pass.plan tree list cursor with
      | none =>
          exact Safe.refl tree
      | some move =>
          have hordered := (hsound tree list cursor move hcursor hplan).ordered
          apply Safe.bind (perform_safe hsound htakes hvisit hwf hcursor hplan)
          intro after hsteps
          exact ih (hstep.run hwf hsteps) hordered

theorem run_safe (room : Nat) (list : NodeId) {tree : Tree} (hwf : tree.WellFormed) :
    Safe Step limit tree (exec (pass.run limit room list) tree) := by
  induction room generalizing list tree with
  | zero =>
      exact ⟨Relation.ReflTransGen.refl, Or.inr rfl⟩
  | succ room ih =>
      unfold run
      rw [exec_get_bind]
      apply Safe.bind (forM_safe hstep (fun id _ _ h => ih id h) hwf)
      intro after hsteps
      rw [exec_get_bind]
      split
      · exact walk_safe hsound htakes hstep (fun id _ h => ih id h) list _
          (hstep.run hwf hsteps) (Cursor.ordered_at 0)
      · exact Safe.refl after

end Pass

theorem Statement.groupInPlace_safe {Step : Tree -> Tree -> Prop}
    (htakes : forall pass, pass ∈ Pass.all -> pass.Takes Step) (hstep : KeepsWellFormed Step)
    {s : Statement} (hwf : s.tree.WellFormed) (limit : Nat) :
    Grouping.Safe Step limit s.tree
      ((s.groupInPlace limit).1, (s.groupInPlace limit).2.tree) := by
  change Grouping.Safe Step limit s.tree
    (Grouping.exec (Pass.all.forM fun pass => pass.run limit limit s.root) s.tree)
  refine Grouping.forM_safe hstep ?_ hwf
  intro pass hpass tree htree
  exact Pass.run_safe (Pass.all_sound pass hpass) (htakes pass hpass) hstep limit s.root htree

end SqlLayout
