import SqlLayout.Proofs.Regex.Spelling

/-!
# Matches between their neighbours

Following all ways at once finds a match just if there is a text to take at the start, and
what it finds is such a text.
-/

namespace SqlLayout
namespace Regex

variable {before : Option Char} {r a b rest : Regex} {u v behind : Text} {c : Char}
  {set : CharSet}

/-!
# Ways are complete
-/

theorem exists_way_of_takes (h : Takes r before u behind) :
    exists head, head ∈ heads before (u ++ behind).head? r ∧ head.Takes u behind := by
  induction h with
  | empty =>
      exact ⟨.done, mem_heads_of_way Way.empty, .done⟩
  | chars hset =>
      exact ⟨_, mem_heads_of_way Way.chars, .read hset Takes.empty⟩
  | @seq a b before front back behind _ hback iha ihb =>
      rcases iha with ⟨head, hway, hfront⟩
      rw [List.append_assoc]
      cases hfront with
      | done =>
          rcases ihb with ⟨next, hnext, htakes⟩
          exact ⟨next, List.mem_flatMap.mpr ⟨.done, hway, hnext⟩, htakes⟩
      | read hset hrest =>
          rw [lastOr_cons] at hback
          exact ⟨_, List.mem_flatMap.mpr ⟨_, hway, List.mem_singleton_self _⟩,
            .read hset (takes_andThen_iff.mpr ⟨_, back, rfl, hrest, hback⟩)⟩
  | left _ ih =>
      rcases ih with ⟨head, hway, htakes⟩
      exact ⟨head, List.mem_append_left _ hway, htakes⟩
  | right _ ih =>
      rcases ih with ⟨head, hway, htakes⟩
      exact ⟨head, List.mem_append_right _ hway, htakes⟩
  | starNil =>
      exact ⟨.done, mem_heads_of_way Way.starDone, .done⟩
  | @starCons a before front back behind _ hback iha ihb =>
      rcases iha with ⟨head, hway, hfront⟩
      rw [List.append_assoc]
      cases hfront with
      | done =>
          exact ihb
      | read hset hrest =>
          rw [lastOr_cons] at hback
          exact ⟨_, mem_heads_of_way (Way.starRead (way_of_mem_heads hway)),
            .read hset (takes_andThen_iff.mpr ⟨_, back, rfl, hrest, hback⟩)⟩
  | lazyNil =>
      exact ⟨.done, mem_heads_of_way Way.lazyDone, .done⟩
  | @lazyCons a before front back behind _ hback iha ihb =>
      rcases iha with ⟨head, hway, hfront⟩
      rw [List.append_assoc]
      cases hfront with
      | done =>
          exact ihb
      | read hset hrest =>
          rw [lastOr_cons] at hback
          exact ⟨_, mem_heads_of_way (Way.lazyRead (way_of_mem_heads hway)),
            .read hset (takes_andThen_iff.mpr ⟨_, back, rfl, hrest, hback⟩)⟩
  | wordBoundary hboundary =>
      exact ⟨.done, mem_heads_of_way (Way.wordBoundary hboundary), .done⟩
  | textEnd =>
      exact ⟨.done, mem_heads_of_way (Way.textEnd rfl), .done⟩

theorem cut_of_done {hs : List Head} (h : Head.done ∈ hs) : (cut hs).2 = true := by
  induction hs with
  | nil =>
      cases h
  | cons head tail ih =>
      cases head with
      | done =>
          rfl
      | read set rest =>
          exact ih ((List.mem_cons.mp h).resolve_left nofun)

theorem mem_cut_of_read {hs : List Head} (h : Head.read set rest ∈ hs) :
    (set, rest) ∈ (cut hs).1 ∨ (cut hs).2 = true := by
  induction hs with
  | nil =>
      cases h
  | cons head tail ih =>
      cases head with
      | done =>
          exact Or.inr rfl
      | read other first =>
          rcases List.mem_cons.mp h with heq | htail
          · cases heq
            exact Or.inl List.mem_cons_self
          · exact (ih htail).imp_left (List.mem_cons_of_mem _)

theorem mem_advance {ways : List (CharSet × Regex)} (h : (set, rest) ∈ ways)
    (hc : set.has c = true) : rest ∈ advance c ways := by
  induction ways with
  | nil =>
      cases h
  | cons way tail ih =>
      rcases way with ⟨other, first⟩
      unfold advance
      rcases List.mem_cons.mp h with heq | htail
      · cases heq
        rw [if_pos hc]
        exact List.mem_cons_self
      · split
        · by_cases hfirst : rest = first
          · rw [hfirst]
            exact List.mem_cons_self
          · exact List.mem_cons_of_mem _ (List.mem_filter.mpr ⟨ih htail, by simpa using hfirst⟩)
        · exact ih htail

/-!
# Matches
-/

theorem isSome_run {threads : List Regex} (hr : r ∈ threads) (h : Takes r before u behind) :
    (run before threads (u ++ behind)).isSome = true := by
  induction u generalizing before r threads with
  | nil =>
      rcases exists_way_of_takes h with ⟨head, hway, hdone⟩
      cases hdone
      have hdone := cut_of_done (List.mem_flatMap.mpr ⟨r, hr, hway⟩)
      rw [List.nil_append] at hdone ⊢
      cases behind with
      | nil =>
          rw [List.head?_nil] at hdone
          unfold run
          rw [if_pos hdone]
          rfl
      | cons c rest =>
          rw [List.head?_cons] at hdone
          rw [run_cons, hdone, if_pos rfl, Option.isSome_or, Option.isSome_some, Bool.or_true]
  | cons c u ih =>
      rcases exists_way_of_takes h with ⟨head, hread, htakes⟩
      cases htakes with
      | read hset hrest =>
          rw [List.cons_append, List.head?_cons] at hread
          rw [List.cons_append, run_cons, Option.isSome_or]
          rcases mem_cut_of_read (List.mem_flatMap.mpr ⟨r, hr, hread⟩) with hway | hdone
          · rw [Option.isSome_map, ih (mem_advance hway hset) hrest, Bool.true_or]
          · rw [hdone, if_pos rfl, Option.isSome_some, Bool.or_true]

/-- There is a match at the start of a text just if the expression can take something
there. -/
theorem isSome_matchLength?_iff {text : Text} : (r.matchLength? text).isSome = true <->
    exists u behind, text = u ++ behind ∧ Takes r none u behind := by
  constructor
  · intro h
    rcases Option.isSome_iff_exists.mp h with ⟨n, hn⟩
    exact ⟨text.take n, text.drop n, (List.take_append_drop n text).symm,
      takes_of_matchLength? hn⟩
  · rintro ⟨u, behind, rfl, h⟩
    exact isSome_run (List.mem_singleton_self r) h

/-!
# Texts without some characters
-/

/-- What is left of an expression for texts without the characters of some sets; nothing,
if it cannot do without them. -/
def prune (absent : CharSet -> Bool) : Regex -> Option Regex
  | chars set => if absent set then none else some (chars set)
  | seq a b =>
      match prune absent a, prune absent b with
      | some a, some b => some (andThen a b)
      | _, _ => none
  | alt a b =>
      match prune absent a, prune absent b with
      | some a, some b => some (if a = b then a else alt a b)
      | some a, none => some a
      | none, rest => rest
  | star a =>
      match prune absent a with
      | some a => some (star a)
      | none => some empty
  | lazyStar a =>
      match prune absent a with
      | some a => some (lazyStar a)
      | none => some empty
  | r => some r

variable {absent : CharSet -> Bool}

section

variable (hab : forall {before u behind}, Takes a before u behind -> Takes b before u behind)
include hab

theorem Takes.star_mono (h : Takes (star a) before u behind) : Takes (star b) before u behind := by
  generalize hr : star a = r at h
  induction h with
  | starNil =>
      exact Takes.starNil
  | starCons hfront _ _ ihback =>
      cases hr
      exact Takes.starCons (hab hfront) (ihback rfl)
  | _ => cases hr

theorem Takes.lazyStar_mono (h : Takes (lazyStar a) before u behind) :
    Takes (lazyStar b) before u behind := by
  generalize hr : lazyStar a = r at h
  induction h with
  | lazyNil =>
      exact Takes.lazyNil
  | lazyCons hfront _ _ ihback =>
      cases hr
      exact Takes.lazyCons (hab hfront) (ihback rfl)
  | _ => cases hr

end

theorem takes_of_prune {s : Regex} (hs : r.prune absent = some s)
    (h : Takes s before u behind) : Takes r before u behind := by
  induction r generalizing s before u behind with
  | chars set =>
      unfold prune at hs
      split at hs
      · cases hs
      · cases hs
        exact h
  | seq a b iha ihb =>
      unfold prune at hs
      split at hs
      · rename_i ha hb
        cases hs
        rcases takes_andThen_iff.mp h with ⟨front, back, rfl, hfront, hback⟩
        exact Takes.seq (iha ha hfront) (ihb hb hback)
      · cases hs
  | alt a b iha ihb =>
      unfold prune at hs
      split at hs
      · rename_i ha hb
        cases hs
        split at h
        · exact Takes.left (iha ha h)
        · cases h with
          | left hleft => exact Takes.left (iha ha hleft)
          | right hright => exact Takes.right (ihb hb hright)
      · rename_i ha _
        cases hs
        exact Takes.left (iha ha h)
      · exact Takes.right (ihb hs h)
  | star a iha =>
      unfold prune at hs
      split at hs
      · rename_i body ha
        cases hs
        exact h.star_mono fun hbody => iha ha hbody
      · cases hs
        cases h
        exact Takes.starNil
  | lazyStar a iha =>
      unfold prune at hs
      split at hs
      · rename_i body ha
        cases hs
        exact h.lazyStar_mono fun hbody => iha ha hbody
      · cases hs
        cases h
        exact Takes.lazyNil
  | empty =>
      cases hs
      exact h
  | wordBoundary =>
      cases hs
      exact h
  | textEnd =>
      cases hs
      exact h

theorem exists_prune (h : Takes r before u behind)
    (hu : forall set, absent set = true -> forall c, c ∈ u -> set.has c = false) :
    exists s, r.prune absent = some s ∧ Takes s before u behind := by
  induction h with
  | @chars set c _ _ hset =>
      have hpresent : absent set ≠ true := by
        intro habsent
        rw [hu set habsent c (List.mem_singleton_self c)] at hset
        cases hset
      exact ⟨chars set, by rw [prune, if_neg hpresent], Takes.chars hset⟩
  | seq _ _ iha ihb =>
      rcases iha fun set habsent c hc => hu set habsent c (List.mem_append_left _ hc) with
        ⟨a', ha, hfront⟩
      rcases ihb fun set habsent c hc => hu set habsent c (List.mem_append_right _ hc) with
        ⟨b', hb, hback⟩
      exact ⟨andThen a' b', by rw [prune, ha, hb], takes_andThen_iff.mpr ⟨_, _, rfl, hfront, hback⟩⟩
  | @left a b _ _ _ _ ih =>
      rcases ih hu with ⟨a', ha, htakes⟩
      cases hb : b.prune absent with
      | none =>
          exact ⟨a', by rw [prune, ha, hb], htakes⟩
      | some b' =>
          refine ⟨if a' = b' then a' else alt a' b', by rw [prune, ha, hb], ?_⟩
          split
          · exact htakes
          · exact Takes.left htakes
  | @right a b _ _ _ _ ih =>
      rcases ih hu with ⟨b', hb, htakes⟩
      cases ha : a.prune absent with
      | none =>
          exact ⟨b', by rw [prune, ha, hb], htakes⟩
      | some a' =>
          refine ⟨if a' = b' then a' else alt a' b', by rw [prune, ha, hb], ?_⟩
          split
          · rename_i heq
            exact heq ▸ htakes
          · exact Takes.right htakes
  | @starNil a _ _ =>
      cases ha : a.prune absent with
      | none => exact ⟨empty, by rw [prune, ha], Takes.empty⟩
      | some a' => exact ⟨star a', by rw [prune, ha], Takes.starNil⟩
  | @starCons a _ _ _ _ _ _ iha ihb =>
      rcases iha fun set habsent c hc => hu set habsent c (List.mem_append_left _ hc) with
        ⟨a', ha, hfront⟩
      rcases ihb fun set habsent c hc => hu set habsent c (List.mem_append_right _ hc) with
        ⟨s, hs, hback⟩
      have hprune : (star a).prune absent = some (star a') := by
        rw [prune, ha]
      rw [hprune] at hs
      cases hs
      exact ⟨star a', hprune, Takes.starCons hfront hback⟩
  | @lazyNil a _ _ =>
      cases ha : a.prune absent with
      | none => exact ⟨empty, by rw [prune, ha], Takes.empty⟩
      | some a' => exact ⟨lazyStar a', by rw [prune, ha], Takes.lazyNil⟩
  | @lazyCons a _ _ _ _ _ _ iha ihb =>
      rcases iha fun set habsent c hc => hu set habsent c (List.mem_append_left _ hc) with
        ⟨a', ha, hfront⟩
      rcases ihb fun set habsent c hc => hu set habsent c (List.mem_append_right _ hc) with
        ⟨s, hs, hback⟩
      have hprune : (lazyStar a).prune absent = some (lazyStar a') := by
        rw [prune, ha]
      rw [hprune] at hs
      cases hs
      exact ⟨lazyStar a', hprune, Takes.lazyCons hfront hback⟩
  | empty => exact ⟨empty, rfl, Takes.empty⟩
  | wordBoundary hboundary => exact ⟨wordBoundary, rfl, Takes.wordBoundary hboundary⟩
  | textEnd => exact ⟨textEnd, rfl, Takes.textEnd⟩

end Regex
end SqlLayout
