import SqlLayout.Proofs.Grouping.Calls
import SqlLayout.Proofs.Grouping.Leaves

/-!
# The limit of nesting

Grouping comes to an end for every limit, and the limit is the only cause for which
it may fail.  The limit decides nothing else: where grouping succeeds with one
limit, it does the same with every larger one.
-/

namespace SqlLayout
namespace Grouping

/-- Where the first computation succeeds, the second one succeeds too and leaves
the same tree. -/
def Within (m larger : Grouping Unit) : Prop :=
  forall tree after, exec m tree = (.ok (), after) -> exec larger tree = (.ok (), after)

theorem within_refl (m : Grouping Unit) : Within m m :=
  fun _ _ h => h

theorem within_throw (e : Error) (m : Grouping Unit) : Within (throw e) m := by
  intro tree after h
  cases h

theorem within_bind {m larger : Grouping Unit} {f g : Unit -> Grouping Unit}
    (hm : Within m larger) (hf : Within (f ()) (g ())) : Within (m >>= f) (larger >>= g) := by
  intro tree after h
  rw [exec_bind] at h ⊢
  rcases hexec : exec m tree with ⟨e | u, middle⟩
  · rw [hexec] at h
    cases h
  · rw [hexec] at h
    rw [hm tree middle hexec]
    exact hf middle after h

theorem within_get {f g : Tree -> Grouping Unit} (h : forall tree, Within (f tree) (g tree)) :
    Within (get >>= f) (get >>= g) := by
  intro tree after hexec
  rw [exec_get_bind] at hexec ⊢
  exact h tree tree after hexec

theorem within_forM {alpha : Type} {f g : alpha -> Grouping Unit}
    (h : forall a, Within (f a) (g a)) (items : List alpha) :
    Within (items.forM f) (items.forM g) := by
  induction items with
  | nil =>
      exact within_refl _
  | cons a rest ih =>
      exact within_bind (f := fun _ => rest.forM f) (h a) ih

section

variable {visit larger : NodeId -> Grouping Unit} (h : forall id, Within (visit id) (larger id))
include h

theorem within_perform (list : NodeId) (move : Move) :
    Within (perform visit list move) (perform larger list move) := by
  rw [perform_eq, perform_eq]
  apply within_bind
  · cases move.visit with
    | none =>
        exact within_refl _
    | some id =>
        exact h id
  · exact within_refl _

theorem within_walk (list : NodeId) (plan : Tree -> NodeId -> Cursor -> Option Move)
    (budget : Nat) (cursor : Cursor) :
    Within (walk visit list plan budget cursor) (walk larger list plan budget cursor) := by
  induction budget generalizing cursor with
  | zero =>
      exact within_refl _
  | succ budget ih =>
      unfold walk
      apply within_get
      intro tree
      cases plan tree list cursor with
      | none =>
          exact within_refl _
      | some move =>
          exact within_bind (within_perform h list move) (ih move.cursor)

end

end Grouping

open Grouping

/-- The limit itself is only named in the error: what counts is how many levels are
left of it. -/
theorem Pass.within_run (pass : Pass) {limit larger room wider : Nat} (h : room <= wider)
    (list : NodeId) : Within (pass.run limit room list) (pass.run larger wider list) := by
  induction room generalizing wider list with
  | zero =>
      exact within_throw _ _
  | succ room ih =>
      cases wider with
      | zero =>
          cases h
      | succ wider =>
          have hbelow : forall id, Within (pass.run limit room id) (pass.run larger wider id) :=
            fun id => ih (Nat.le_of_succ_le_succ h) id
          unfold run
          apply within_get
          intro tree
          apply within_bind (within_forM hbelow _)
          apply within_get
          intro middle
          split
          · exact within_walk hbelow list pass.plan _ {}
          · exact within_refl _

theorem Pass.all_tagsChildren : forall pass, pass ∈ Pass.all -> pass.TagsChildren := by
  intro pass hpass
  unfold Pass.all at hpass
  simp only [List.mem_cons, List.not_mem_nil, or_false] at hpass
  rcases hpass with rfl | rfl | rfl | rfl | rfl | rfl | rfl | rfl | rfl | rfl | rfl | rfl | rfl |
    rfl | rfl | rfl | rfl | rfl | rfl | rfl | rfl | rfl
  · exact tagsChildren_of_seeker Seeker.comments_plan
  · exact tagsChildren_pairs _
  · exact tagsChildren_pairs _
  · exact tagsChildren_of_seeker Seeker.functions_plan
  · exact tagsChildren_of_seeker Seeker.whereClauses_plan
  · exact tagsChildren_pairs _
  · exact tagsChildren_binary _
  · exact tagsChildren_binary _
  · exact tagsChildren_of_seeker Seeker.identifiers_plan
  · exact tagsChildren_of_seeker Seeker.typedLiterals_plan
  · exact tagsChildren_binary _
  · exact tagsChildren_of_seeker Seeker.orderings_plan
  · exact tagsChildren_binary _
  · exact tagsChildren_binary _
  · exact tagsChildren_of_seeker Seeker.aliases_plan
  · exact tagsChildren_binary _
  · exact tagsChildren_binary _
  · exact tagsChildren_of_seeker Seeker.trailingComments_plan
  · exact tagsChildren_binary _
  · exact tagsChildren_pairs _
  · exact tagsChildren_pairs _
  · exact tagsChildren_pairs _

namespace Statement

/-- The course of all passes on a statement. -/
def course (s : Statement) (limit : Nat) : Course :=
  Course.InTurn (fun pass => Course.Runs pass limit limit s.root) Pass.all

theorem determined_course (s : Statement) (limit : Nat) : (s.course limit).Determined :=
  Course.determined_inTurn (fun pass => Course.determined_runs pass limit limit s.root) _

theorem reaches_course {s : Statement} (hwf : s.tree.WellFormed) (limit : Nat) :
    (s.course limit).Reaches s.tree
      ((s.groupInPlace limit).1, (s.groupInPlace limit).2.tree) := by
  change (Course.InTurn (fun pass => Course.Runs pass limit limit s.root) Pass.all).Reaches s.tree
    (exec (Pass.all.forM fun pass => pass.run limit limit s.root) s.tree)
  apply (Course.reaches_inTurn ?_ hwf).1
  intro pass hpass tree htree
  have hsound := Pass.all_sound pass hpass
  have htags := Pass.all_tagsChildren pass hpass
  exact ⟨Pass.reaches_runs hsound htags limit limit s.root htree,
    (Pass.run_changesWithin hsound htags limit limit s.root htree).wellFormed htree⟩

theorem group_of_le {s after : Statement} {limit larger : Nat} (h : limit <= larger)
    (hok : s.group limit = .ok after) : s.group larger = .ok after := by
  rw [group_ok_iff_exec] at hok ⊢
  refine ⟨?_, hok.2⟩
  exact within_forM (fun pass => pass.within_run h s.root) Pass.all s.tree after.tree hok.1

/-- Whatever tokens a statement is made of and whatever the limit is, grouping runs
through all its loops and comes to an end: there is one course of it, each span that
it puts into a group lies in the list, and the course ends well or because the
nesting exceeds the limit.  With a larger limit a statement that could be grouped
becomes the same tree. -/
theorem group_total_and_monotone (tokens : List Token) (limit : Nat) :
    (exists calls, (ofTokens tokens).course limit (ofTokens tokens).tree calls
        (((ofTokens tokens).groupInPlace limit).1, ((ofTokens tokens).groupInPlace limit).2.tree)) ∧
      (forall calls outcome,
        (ofTokens tokens).course limit (ofTokens tokens).tree calls outcome ->
          (forall call, call ∈ calls -> call.InRange) ∧
          outcome = (((ofTokens tokens).groupInPlace limit).1,
            ((ofTokens tokens).groupInPlace limit).2.tree)) ∧
      ((exists after, (ofTokens tokens).group limit = .ok after) ∨
        (ofTokens tokens).group limit = .error (.nestingTooDeep limit)) ∧
      forall larger after, limit <= larger -> (ofTokens tokens).group limit = .ok after ->
        (ofTokens tokens).group larger = .ok after := by
  have hwf := wellFormed_ofTokens tokens
  rcases reaches_course hwf limit with ⟨calls, hcalls, hrange⟩
  refine ⟨⟨calls, hcalls⟩, ?_, ?_, ?_⟩
  · intro other outcome hother
    rcases determined_course _ limit _ _ _ _ _ hcalls hother with ⟨rfl, rfl⟩
    exact ⟨hrange, rfl⟩
  · rcases hresult : (ofTokens tokens).groupInPlace limit with ⟨result, after⟩
    have hends := (groupInPlace_steps hwf limit).ends
    rw [hresult] at hends
    unfold group
    rw [hresult]
    rcases hends with hok | herror
    · dsimp only at hok
      rw [hok]
      exact Or.inl ⟨after, rfl⟩
    · dsimp only at herror
      rw [herror]
      exact Or.inr rfl
  · exact fun larger after hle hok => group_of_le hle hok

theorem group_total_and_monotone_qualified :
    exists after,
      (ofTokens [⟨.name, ['a'], none⟩, ⟨.punctuation, ['.'], none⟩,
        ⟨.name, ['b'], none⟩]).group 2 = .ok after ∧
      2 <= defaultMaxDepth ∧
      (ofTokens [⟨.name, ['a'], none⟩, ⟨.punctuation, ['.'], none⟩,
        ⟨.name, ['b'], none⟩]).group defaultMaxDepth = .ok after := by
  rcases group_total_and_monotone
      [⟨.name, ['a'], none⟩, ⟨.punctuation, ['.'], none⟩, ⟨.name, ['b'], none⟩] 2 with
    ⟨_, _, hends, hmono⟩
  have hok : ((ofTokens [⟨.name, ['a'], none⟩, ⟨.punctuation, ['.'], none⟩,
      ⟨.name, ['b'], none⟩]).group 2).toOption.isSome = true := by
    decide
  rcases hends with ⟨after, hafter⟩ | herror
  · exact ⟨after, hafter, by decide, hmono defaultMaxDepth after (by decide) hafter⟩
  · rw [herror] at hok
    cases hok

end Statement
end SqlLayout
