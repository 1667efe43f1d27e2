import SqlLayout.Regex.Match

/-!
# What a match spells

A match found by following all ways at once is a text that the expression
spells, and its first character is one that the expression can start with.
-/

namespace SqlLayout
namespace Regex

/-- The texts of an expression, conditions on the surroundings left out. -/
inductive Spells : Regex -> Text -> Prop where
  | empty : Spells .empty []
  | chars {set : CharSet} {c : Char} : set.has c = true -> Spells (.chars set) [c]
  | seq {a b : Regex} {u v : Text} : Spells a u -> Spells b v -> Spells (.seq a b) (u ++ v)
  | left {a b : Regex} {u : Text} : Spells a u -> Spells (.alt a b) u
  | right {a b : Regex} {u : Text} : Spells b u -> Spells (.alt a b) u
  | starNil {a : Regex} : Spells (.star a) []
  | starCons {a : Regex} {u v : Text} :
      Spells a u -> Spells (.star a) v -> Spells (.star a) (u ++ v)
  | lazyNil {a : Regex} : Spells (.lazyStar a) []
  | lazyCons {a : Regex} {u v : Text} :
      Spells a u -> Spells (.lazyStar a) v -> Spells (.lazyStar a) (u ++ v)
  | wordBoundary : Spells .wordBoundary []
  | textEnd : Spells .textEnd []

/-!
# What an expression takes
-/

def lastOr (before : Option Char) (u : Text) : Option Char :=
  u.getLast?.or before

/-- What an expression takes behind a character and in front of a text. -/
inductive Takes : Regex -> Option Char -> Text -> Text -> Prop where
  | empty {before : Option Char} {behind : Text} : Takes .empty before [] behind
  | chars {set : CharSet} {c : Char} {before : Option Char} {behind : Text} :
      set.has c = true -> Takes (.chars set) before [c] behind
  | seq {a b : Regex} {before : Option Char} {u v behind : Text} :
      Takes a before u (v ++ behind) -> Takes b (lastOr before u) v behind ->
      Takes (.seq a b) before (u ++ v) behind
  | left {a b : Regex} {before : Option Char} {u behind : Text} :
      Takes a before u behind -> Takes (.alt a b) before u behind
  | right {a b : Regex} {before : Option Char} {u behind : Text} :
      Takes b before u behind -> Takes (.alt a b) before u behind
  | starNil {a : Regex} {before : Option Char} {behind : Text} :
      Takes (.star a) before [] behind
  | starCons {a : Regex} {before : Option Char} {u v behind : Text} :
      Takes a before u (v ++ behind) -> Takes (.star a) (lastOr before u) v behind ->
      Takes (.star a) before (u ++ v) behind
  | lazyNil {a : Regex} {before : Option Char} {behind : Text} :
      Takes (.lazyStar a) before [] behind
  | lazyCons {a : Regex} {before : Option Char} {u v behind : Text} :
      Takes a before u (v ++ behind) -> Takes (.lazyStar a) (lastOr before u) v behind ->
      Takes (.lazyStar a) before (u ++ v) behind
  | wordBoundary {before : Option Char} {behind : Text} :
      (isWordAt before != isWordAt behind.head?) = true ->
      Takes .wordBoundary before [] behind
  | textEnd {before : Option Char} : Takes .textEnd before [] []

section

variable {before : Option Char} {r a b : Regex} {u behind : Text}

theorem lastOr_cons (before : Option Char) (c : Char) (u : Text) :
    lastOr before (c :: u) = lastOr (some c) u := by
  unfold lastOr
  rw [List.getLast?_cons]
  cases u.getLast? with
  | none => rfl
  | some d => rfl

theorem Takes.spells (h : Takes r before u behind) : Spells r u := by
  induction h with
  | empty => exact Spells.empty
  | chars hset => exact Spells.chars hset
  | seq _ _ iha ihb => exact Spells.seq iha ihb
  | left _ ih => exact Spells.left ih
  | right _ ih => exact Spells.right ih
  | starNil => exact Spells.starNil
  | starCons _ _ iha ihb => exact Spells.starCons iha ihb
  | lazyNil => exact Spells.lazyNil
  | lazyCons _ _ iha ihb => exact Spells.lazyCons iha ihb
  | wordBoundary _ => exact Spells.wordBoundary
  | textEnd => exact Spells.textEnd

theorem takes_andThen_iff : Takes (andThen a b) before u behind <->
    exists front back, u = front ++ back ∧ Takes a before front (back ++ behind) ∧
      Takes b (lastOr before front) back behind := by
  unfold andThen
  split
  · constructor
    · intro h
      exact ⟨[], u, rfl, Takes.empty, h⟩
    · rintro ⟨front, back, rfl, hempty, hback⟩
      cases hempty
      exact hback
  · constructor
    · intro h
      cases h with
      | seq hfront hback => exact ⟨_, _, rfl, hfront, hback⟩
    · rintro ⟨front, back, rfl, hfront, hback⟩
      exact Takes.seq hfront hback

end

variable {before after : Option Char}

/-!
# Ways to go on
-/

/-- The ways to go on between two characters, put together as the expression is. -/
inductive Way (before after : Option Char) : Regex -> Head -> Prop where
  | empty : Way before after .empty .done
  | chars {set : CharSet} : Way before after (.chars set) (.read set .empty)
  | seqDone {a b : Regex} {head : Head} :
      Way before after a .done -> Way before after b head -> Way before after (.seq a b) head
  | seqRead {a b rest : Regex} {set : CharSet} : Way before after a (.read set rest) ->
      Way before after (.seq a b) (.read set (andThen rest b))
  | left {a b : Regex} {head : Head} : Way before after a head -> Way before after (.alt a b) head
  | right {a b : Regex} {head : Head} :
      Way before after b head -> Way before after (.alt a b) head
  | starDone {a : Regex} : Way before after (.star a) .done
  | starRead {a rest : Regex} {set : CharSet} : Way before after a (.read set rest) ->
      Way before after (.star a) (.read set (andThen rest (.star a)))
  | lazyDone {a : Regex} : Way before after (.lazyStar a) .done
  | lazyRead {a rest : Regex} {set : CharSet} : Way before after a (.read set rest) ->
      Way before after (.lazyStar a) (.read set (andThen rest (.lazyStar a)))
  | wordBoundary : (isWordAt before != isWordAt after) = true ->
      Way before after .wordBoundary .done
  | textEnd : after = none -> Way before after .textEnd .done

theorem way_of_mem_heads {r : Regex} {head : Head} (h : head ∈ heads before after r) :
    Way before after r head := by
  induction r generalizing head with
  | empty =>
      rw [heads, List.mem_singleton] at h
      rw [h]
      exact Way.empty
  | chars set =>
      rw [heads, List.mem_singleton] at h
      rw [h]
      exact Way.chars
  | seq a b iha ihb =>
      rcases List.mem_flatMap.mp h with ⟨first, hfirst, hmem⟩
      cases first with
      | done =>
          exact Way.seqDone (iha hfirst) (ihb hmem)
      | read set rest =>
          rw [List.mem_singleton.mp hmem]
          exact Way.seqRead (iha hfirst)
  | alt a b iha ihb =>
      rcases List.mem_append.mp h with hleft | hright
      · exact Way.left (iha hleft)
      · exact Way.right (ihb hright)
  | star a iha =>
      rcases List.mem_append.mp h with hbody | hdone
      · rcases List.mem_flatMap.mp hbody with ⟨first, hfirst, hmem⟩
        cases first with
        | done =>
            cases hmem
        | read set rest =>
            rw [List.mem_singleton.mp hmem]
            exact Way.starRead (iha hfirst)
      · rw [List.mem_singleton.mp hdone]
        exact Way.starDone
  | lazyStar a iha =>
      rcases List.mem_cons.mp h with hdone | hbody
      · rw [hdone]
        exact Way.lazyDone
      · rcases List.mem_flatMap.mp hbody with ⟨first, hfirst, hmem⟩
        cases first with
        | done =>
            cases hmem
        | read set rest =>
            rw [List.mem_singleton.mp hmem]
            exact Way.lazyRead (iha hfirst)
  | wordBoundary =>
      unfold heads at h
      split at h
      · rw [List.mem_singleton.mp h]
        exact Way.wordBoundary ‹_›
      · cases h
  | textEnd =>
      unfold heads at h
      split at h
      · rw [List.mem_singleton.mp h]
        exact Way.textEnd (Option.isNone_iff_eq_none.mp ‹_›)
      · cases h

theorem mem_heads_of_way {r : Regex} {head : Head} (h : Way before after r head) :
    head ∈ heads before after r := by
  induction h with
  | empty =>
      exact List.mem_singleton_self _
  | chars =>
      exact List.mem_singleton_self _
  | seqDone _ _ iha ihb =>
      exact List.mem_flatMap.mpr ⟨.done, iha, ihb⟩
  | seqRead _ ih =>
      exact List.mem_flatMap.mpr ⟨_, ih, List.mem_singleton_self _⟩
  | left _ ih =>
      exact List.mem_append_left _ ih
  | right _ ih =>
      exact List.mem_append_right _ ih
  | starDone =>
      exact List.mem_append_right _ (List.mem_singleton_self _)
  | starRead _ ih =>
      exact List.mem_append_left _ (List.mem_flatMap.mpr ⟨_, ih, List.mem_singleton_self _⟩)
  | lazyDone =>
      exact List.mem_cons_self
  | lazyRead _ ih =>
      exact List.mem_cons_of_mem _ (List.mem_flatMap.mpr ⟨_, ih, List.mem_singleton_self _⟩)
  | wordBoundary hboundary =>
      rw [heads, if_pos hboundary]
      exact List.mem_singleton_self _
  | textEnd hnone =>
      rw [hnone]
      exact List.mem_singleton_self _

theorem mem_heads_iff {r : Regex} {head : Head} :
    head ∈ heads before after r <-> Way before after r head :=
  ⟨way_of_mem_heads, mem_heads_of_way⟩

/-- The texts that a way to go on leads to, in front of a text. -/
inductive Head.Takes : Head -> Text -> Text -> Prop where
  | done {behind : Text} : Head.Takes .done [] behind
  | read {set : CharSet} {rest : Regex} {c : Char} {u behind : Text} : set.has c = true ->
      Regex.Takes rest (some c) u behind -> Head.Takes (.read set rest) (c :: u) behind

theorem Way.takes {r : Regex} {head : Head} {u behind : Text} (h : Way before after r head)
    (hafter : after = (u ++ behind).head?) (hu : head.Takes u behind) :
    Takes r before u behind := by
  induction h generalizing u behind with
  | empty =>
      cases hu
      exact Takes.empty
  | chars =>
      cases hu with
      | read hset hrest =>
          cases hrest
          exact Takes.chars hset
  | seqDone _ _ iha ihb =>
      exact Takes.seq (iha hafter .done) (ihb hafter hu)
  | seqRead _ ih =>
      cases hu with
      | read hset hrest =>
          rcases takes_andThen_iff.mp hrest with ⟨front, back, rfl, hfront, hback⟩
          rw [← lastOr_cons before] at hback
          exact Takes.seq (ih hafter (.read hset hfront)) hback
  | left _ ih =>
      exact Takes.left (ih hafter hu)
  | right _ ih =>
      exact Takes.right (ih hafter hu)
  | starDone =>
      cases hu
      exact Takes.starNil
  | starRead _ ih =>
      cases hu with
      | read hset hrest =>
          rcases takes_andThen_iff.mp hrest with ⟨front, back, rfl, hfront, hback⟩
          rw [← lastOr_cons before] at hback
          exact Takes.starCons (ih hafter (.read hset hfront)) hback
  | lazyDone =>
      cases hu
      exact Takes.lazyNil
  | lazyRead _ ih =>
      cases hu with
      | read hset hrest =>
          rcases takes_andThen_iff.mp hrest with ⟨front, back, rfl, hfront, hback⟩
          rw [← lastOr_cons before] at hback
          exact Takes.lazyCons (ih hafter (.read hset hfront)) hback
  | wordBoundary hboundary =>
      cases hu
      rw [hafter] at hboundary
      exact Takes.wordBoundary hboundary
  | textEnd hnone =>
      cases hu
      rw [hafter, List.nil_append, List.head?_eq_none_iff] at hnone
      rw [hnone]
      exact Takes.textEnd

theorem spells_of_done {r : Regex} (h : Head.done ∈ heads before after r) : Spells r [] := by
  have hafter : after = ([] ++ after.toList).head? := by
    cases after with
    | none => rfl
    | some c => rfl
  exact ((mem_heads_iff.mp h).takes hafter .done).spells

theorem mem_of_cut {hs : List Head} {set : CharSet} {rest : Regex}
    (h : (set, rest) ∈ (cut hs).1) : Head.read set rest ∈ hs := by
  induction hs with
  | nil =>
      cases h
  | cons head tail ih =>
      cases head with
      | done =>
          cases h
      | read other first =>
          unfold cut at h
          rcases List.mem_cons.mp h with heq | htail
          · cases heq
            exact List.mem_cons_self
          · exact List.mem_cons_of_mem _ (ih htail)

theorem done_mem_of_cut {hs : List Head} (h : (cut hs).2 = true) : Head.done ∈ hs := by
  induction hs with
  | nil =>
      cases h
  | cons head tail ih =>
      cases head with
      | done =>
          exact List.mem_cons_self
      | read other first =>
          exact List.mem_cons_of_mem _ (ih h)

theorem mem_of_advance {c : Char} {ways : List (CharSet × Regex)} {rest : Regex}
    (h : rest ∈ advance c ways) : exists set, (set, rest) ∈ ways ∧ set.has c = true := by
  induction ways with
  | nil =>
      cases h
  | cons way tail ih =>
      rcases way with ⟨set, first⟩
      unfold advance at h
      split at h
      · rename_i hset
        rcases List.mem_cons.mp h with heq | htail
        · exact ⟨set, by rw [heq]; exact List.mem_cons_self, hset⟩
        · rcases ih (List.mem_filter.mp htail).1 with ⟨other, hmem, hhas⟩
          exact ⟨other, List.mem_cons_of_mem _ hmem, hhas⟩
      · rcases ih h with ⟨other, hmem, hhas⟩
        exact ⟨other, List.mem_cons_of_mem _ hmem, hhas⟩

theorem spells_alt {a b : Regex} {u : Text} (h : Spells (alt a b) u) :
    Spells a u ∨ Spells b u := by
  cases h with
  | left h =>
      exact Or.inl h
  | right h =>
      exact Or.inr h

theorem spells_chars {set : CharSet} {u : Text} (h : Spells (.chars set) u) :
    exists c, u = [c] ∧ set.has c = true := by
  cases h with
  | chars hc =>
      exact ⟨_, rfl, hc⟩

/-!
# Matches
-/

theorem run_nil (before : Option Char) (text : Text) : run before [] text = none := by
  cases text with
  | nil =>
      rfl
  | cons c rest =>
      rfl

theorem run_cons (before : Option Char) (threads : List Regex) (c : Char) (rest : Text) :
    run before threads (c :: rest) =
      ((run (some c) (advance c (cut (threads.flatMap (heads before (some c)))).1) rest).map
          (· + 1)).or
        (if (cut (threads.flatMap (heads before (some c)))).2 then some 0 else none) := by
  rw [run]
  dsimp only
  generalize advance c (cut (threads.flatMap (heads before (some c)))).1 = next
  cases next with
  | nil =>
      rw [run_nil]
      rfl
  | cons thread next =>
      dsimp only
      cases run (some c) (thread :: next) rest with
      | none =>
          rfl
      | some n =>
          rfl

theorem takes_of_run {threads : List Regex} {text : Text} {n : Nat}
    (h : run before threads text = some n) : n <= text.length ∧
      exists thread, thread ∈ threads ∧ Takes thread before (text.take n) (text.drop n) := by
  induction text generalizing before threads n with
  | nil =>
      unfold run at h
      split at h
      · rename_i hdone
        cases h
        rcases List.mem_flatMap.mp (done_mem_of_cut hdone) with ⟨thread, hthread, hmem⟩
        exact ⟨Nat.le_refl _, thread, hthread, (mem_heads_iff.mp hmem).takes rfl .done⟩
      · cases h
  | cons c tail ih =>
      rw [run_cons] at h
      rcases Option.or_eq_some_iff.mp h with hlonger | ⟨_, hstop⟩
      · rcases Option.map_eq_some_iff.mp hlonger with ⟨m, hm, rfl⟩
        rcases ih hm with ⟨hle, next, hnext, htakes⟩
        rcases mem_of_advance hnext with ⟨set, hway, hset⟩
        rcases List.mem_flatMap.mp (mem_of_cut hway) with ⟨thread, hthread, hmem⟩
        exact ⟨Nat.succ_le_succ hle, thread, hthread,
          (mem_heads_iff.mp hmem).takes rfl (.read hset htakes)⟩
      · split at hstop
        · rename_i hdone
          cases hstop
          rcases List.mem_flatMap.mp (done_mem_of_cut hdone) with ⟨thread, hthread, hmem⟩
          exact ⟨Nat.zero_le _, thread, hthread, (mem_heads_iff.mp hmem).takes rfl .done⟩
        · cases hstop

theorem takes_of_matchLength? {r : Regex} {text : Text} {n : Nat}
    (h : r.matchLength? text = some n) : Takes r none (text.take n) (text.drop n) := by
  rcases (takes_of_run h).2 with ⟨thread, hthread, htakes⟩
  rw [List.mem_singleton.mp hthread] at htakes
  exact htakes

theorem spells_of_matchLength? {r : Regex} {text : Text} {n : Nat}
    (h : r.matchLength? text = some n) : n <= text.length ∧ Spells r (text.take n) :=
  ⟨(takes_of_run h).1, (takes_of_matchLength? h).spells⟩

/-!
# First characters
-/

def mayBeEmpty : Regex -> Bool
  | .empty => true
  | .chars _ => false
  | .seq a b => mayBeEmpty a && mayBeEmpty b
  | .alt a b => mayBeEmpty a || mayBeEmpty b
  | .star _ => true
  | .lazyStar _ => true
  | .wordBoundary => true
  | .textEnd => true

def firstSets : Regex -> List CharSet
  | .empty => []
  | .chars set => [set]
  | .seq a b => firstSets a ++ if mayBeEmpty a then firstSets b else []
  | .alt a b => firstSets a ++ firstSets b
  | .star a => firstSets a
  | .lazyStar a => firstSets a
  | .wordBoundary => []
  | .textEnd => []

theorem Spells.mayBeEmpty {r : Regex} (h : Spells r []) : r.mayBeEmpty = true := by
  generalize htext : ([] : Text) = text at h
  induction h with
  | chars _ =>
      cases htext
  | seq _ _ iha ihb =>
      rcases List.append_eq_nil_iff.mp htext.symm with ⟨rfl, rfl⟩
      unfold Regex.mayBeEmpty
      rw [iha rfl, ihb rfl]
      rfl
  | left _ ih =>
      unfold Regex.mayBeEmpty
      rw [ih htext, Bool.true_or]
  | right _ ih =>
      unfold Regex.mayBeEmpty
      rw [ih htext, Bool.or_true]
  | empty => rfl
  | starNil => rfl
  | starCons _ _ _ _ => rfl
  | lazyNil => rfl
  | lazyCons _ _ _ _ => rfl
  | wordBoundary => rfl
  | textEnd => rfl

theorem Spells.first {r : Regex} {c : Char} {v : Text} (h : Spells r (c :: v)) :
    exists set, set ∈ r.firstSets ∧ set.has c = true := by
  generalize htext : c :: v = text at h
  induction h generalizing v with
  | @chars set _ hset =>
      cases htext
      exact ⟨set, List.mem_singleton_self set, hset⟩
  | @seq a b u w ha hb iha ihb =>
      unfold firstSets
      cases u with
      | nil =>
          rcases ihb htext with ⟨set, hmem, hset⟩
          rw [if_pos ha.mayBeEmpty]
          exact ⟨set, List.mem_append_right _ hmem, hset⟩
      | cons d u =>
          cases htext
          rcases iha rfl with ⟨set, hmem, hset⟩
          exact ⟨set, List.mem_append_left _ hmem, hset⟩
  | left _ ih =>
      rcases ih htext with ⟨set, hmem, hset⟩
      exact ⟨set, List.mem_append_left _ hmem, hset⟩
  | right _ ih =>
      rcases ih htext with ⟨set, hmem, hset⟩
      exact ⟨set, List.mem_append_right _ hmem, hset⟩
  | @starCons a u w _ _ iha ihb =>
      cases u with
      | nil =>
          exact ihb htext
      | cons d u =>
          cases htext
          exact iha rfl
  | @lazyCons a u w _ _ iha ihb =>
      cases u with
      | nil =>
          exact ihb htext
      | cons d u =>
          cases htext
          exact iha rfl
  | empty => cases htext
  | starNil => cases htext
  | lazyNil => cases htext
  | wordBoundary => cases htext
  | textEnd => cases htext

theorem first_of_matchLength? {r : Regex} {c : Char} {rest : Text} {n : Nat}
    (h : r.matchLength? (c :: rest) = some (n + 1)) :
    exists set, set ∈ r.firstSets ∧ set.has c = true :=
  (spells_of_matchLength? h).2.first

/-!
# Runs of characters
-/

theorem run_empty (before : Option Char) (text : Text) : run before [.empty] text = some 0 := by
  cases text with
  | nil =>
      rfl
  | cons c rest =>
      rfl

theorem Spells.all_star_chars {set : CharSet} {text : Text} (h : (star (.chars set)).Spells text) :
    forall c, c ∈ text -> set.has c = true := by
  generalize hr : star (.chars set) = r at h
  induction h with
  | @starCons _ u v hu _ _ ih =>
      cases hr
      intro c hc
      rcases List.mem_append.mp hc with hleft | hright
      · cases hu with
        | chars hset =>
            rw [List.mem_singleton.mp hleft]
            exact hset
      · exact ih rfl c hright
  | starNil =>
      intro c hc
      cases hc
  | empty => cases hr
  | chars _ => cases hr
  | seq _ _ _ _ => cases hr
  | left _ _ => cases hr
  | right _ _ => cases hr
  | lazyNil => cases hr
  | lazyCons _ _ _ _ => cases hr
  | wordBoundary => cases hr
  | textEnd => cases hr

theorem Spells.all_plus_chars {set : CharSet} {text : Text} (h : (plus (.chars set)).Spells text) :
    forall c, c ∈ text -> set.has c = true := by
  cases h with
  | @seq _ _ u v hu hv =>
      exact (Spells.starCons hu hv).all_star_chars

theorem run_star_chars (set : CharSet) (before : Option Char) (text : Text) :
    run before [star (chars set)] text = some (text.takeWhile set.has).length := by
  induction text generalizing before with
  | nil =>
      rfl
  | cons c rest ih =>
      unfold run
      by_cases hc : set.has c = true
      · have hadvance : advance c (cut ([star (chars set)].flatMap (heads before (some c)))).1 =
            [star (chars set)] := by
          simp [heads, cut, advance, andThen, hc]
        simp only [hadvance]
        rw [ih, List.takeWhile_cons_of_pos hc, List.length_cons]
      · simp [heads, cut, advance, andThen, hc]

theorem matchLength?_plus_chars {set : CharSet} {c : Char} (hc : set.has c = true) (rest : Text) :
    (plus (chars set)).matchLength? (c :: rest) =
      some ((c :: rest).takeWhile set.has).length := by
  unfold matchLength? run
  have hadvance : advance c (cut ([plus (chars set)].flatMap (heads none (some c)))).1 =
      [star (chars set)] := by
    simp [plus, heads, cut, advance, andThen, hc]
  simp only [hadvance]
  rw [run_star_chars, List.takeWhile_cons_of_pos hc, List.length_cons]

end Regex
end SqlLayout
