import SqlLayout.Proofs.Regex.Spelling

/-!
# Blanks inside a match

What is left of an expression after some characters is one of finitely many
expressions.  If each of them that follows a blank stays as it is on a further
blank, a match does not tell a run of blanks from a single one.
-/

namespace SqlLayout

/-!
# Blank characters
-/

def blankChars : List Char :=
  ([9, 10, 11, 12, 13, 32, 0x85, 0xA0, 0x1680, 0x2000, 0x2001, 0x2002, 0x2003, 0x2004, 0x2005,
    0x2006, 0x2007, 0x2008, 0x2009, 0x200A, 0x2028, 0x2029, 0x202F, 0x205F, 0x3000] :
      List Nat).map Char.ofNat

theorem mem_blankChars {c : Char} (h : Text.isBlank c = true) : c ∈ blankChars := by
  unfold blankChars
  rw [List.mem_map]
  refine ⟨c.toNat, ?_, Char.ofNat_toNat c⟩
  unfold Text.isBlank at h
  simp only [Text.blankSpans, Text.Spans.has] at h
  simp at h
  simp
  split at h
  · omega
  · omega

theorem false_of_blank {p : Char -> Bool} (h : blankChars.any p = false) {c : Char}
    (hc : Text.isBlank c = true) : p c = false := by
  rw [← Bool.not_eq_true]
  exact List.any_eq_false.mp h c (mem_blankChars hc)

theorem Text.not_isLetter_of_blank {c : Char} (hc : isBlank c = true) : isLetter c = false :=
  false_of_blank (p := isLetter) (by decide +kernel) hc

namespace CharSet

def takesBlanks : CharSet -> Bool
  | any => true
  | oneOf _ => false
  | noneOf cs => cs.all fun c => !Text.isBlank c
  | letter _ => false
  | blank => true
  | digit => false
  | word => false
  | nameStart => false
  | either a b => a.takesBlanks || b.takesBlanks

def skipsBlanks : CharSet -> Bool
  | any => false
  | oneOf cs => cs.all fun c => !Text.isBlank c
  | noneOf _ => false
  | letter c => !Text.isBlank c
  | blank => false
  | digit => true
  | word => true
  | nameStart => true
  | either a b => a.skipsBlanks && b.skipsBlanks

theorem has_of_takesBlanks {set : CharSet} {c : Char} (h : set.takesBlanks = true)
    (hc : Text.isBlank c = true) : set.has c = true := by
  induction set with
  | any => rfl
  | noneOf cs =>
      unfold has
      rw [Bool.not_eq_true']
      cases hmem : cs.elem c with
      | false =>
          rfl
      | true =>
          have hsolid := List.all_eq_true.mp h c (List.elem_iff.mp hmem)
          rw [hc] at hsolid
          cases hsolid
  | blank => exact hc
  | either a b iha ihb =>
      unfold has
      rcases Bool.or_eq_true_iff.mp h with ha | hb
      · rw [iha ha, Bool.true_or]
      · rw [ihb hb, Bool.or_true]
  | oneOf cs => cases h
  | letter l => cases h
  | digit => cases h
  | word => cases h
  | nameStart => cases h

theorem not_has_of_skipsBlanks {set : CharSet} {c : Char} (h : set.skipsBlanks = true)
    (hc : Text.isBlank c = true) : set.has c = false := by
  induction set with
  | oneOf cs =>
      cases hmem : cs.elem c with
      | false =>
          exact hmem
      | true =>
          have hsolid := List.all_eq_true.mp h c (List.elem_iff.mp hmem)
          rw [hc] at hsolid
          cases hsolid
  | letter l =>
      have hfold : (foldLetter c != c) = false :=
        false_of_blank (p := fun d => foldLetter d != d) (by decide) hc
      unfold has
      rw [bne_eq_false_iff_eq.mp hfold, beq_eq_false_iff_ne]
      rintro rfl
      rw [skipsBlanks, hc] at h
      cases h
  | digit =>
      exact false_of_blank (p := digit.has) (by decide) hc
  | word =>
      unfold has Text.isWord
      rw [Text.not_isLetter_of_blank hc]
      apply false_of_blank (p := fun d => if d.toNat < 128 then d.isAlphanum || d == '_'
        else !Text.isRecent d && (false || Text.isDigit d || Text.wordExtraSpans.has d.toNat)) _ hc
      decide +kernel
  | nameStart =>
      exact false_of_blank (p := nameStart.has) (by decide) hc
  | either a b iha ihb =>
      rcases Bool.and_eq_true_iff.mp h with ⟨ha, hb⟩
      unfold has
      rw [iha ha, ihb hb]
      rfl
  | any => cases h
  | noneOf cs => cases h
  | blank => cases h

end CharSet

theorem not_isWordAt_blank {c : Char} (hc : Text.isBlank c = true) :
    Regex.isWordAt (some c) = false := by
  have hword : CharSet.word.skipsBlanks = true := rfl
  exact CharSet.not_has_of_skipsBlanks hword hc

namespace Regex

/-!
# Ways and tails
-/

def ways : Regex -> List (CharSet × Regex)
  | .empty => []
  | .chars set => [(set, .empty)]
  | .seq a b =>
      (ways a).map (fun way => (way.1, andThen way.2 b)) ++ if mayBeEmpty a then ways b else []
  | .alt a b => ways a ++ ways b
  | .star a => (ways a).map fun way => (way.1, andThen way.2 (.star a))
  | .lazyStar a => (ways a).map fun way => (way.1, andThen way.2 (.lazyStar a))
  | .wordBoundary => []
  | .textEnd => []

def tails : Regex -> List Regex
  | .empty => []
  | .chars _ => [.empty]
  | .seq a b => (tails a).map (fun tail => andThen tail b) ++ tails b
  | .alt a b => tails a ++ tails b
  | .star a => (tails a).map fun tail => andThen tail (.star a)
  | .lazyStar a => (tails a).map fun tail => andThen tail (.lazyStar a)
  | .wordBoundary => []
  | .textEnd => []

theorem mem_ways_of_heads {before after : Option Char} {r rest : Regex} {set : CharSet}
    (h : Head.read set rest ∈ heads before after r) : (set, rest) ∈ ways r := by
  have hway := mem_heads_iff.mp h
  generalize hread : Head.read set rest = head at hway
  clear h
  induction hway generalizing rest with
  | chars =>
      cases hread
      exact List.mem_cons_self
  | seqDone hdone _ _ ih =>
      rw [ways, if_pos (spells_of_done (mem_heads_iff.mpr hdone)).mayBeEmpty]
      exact List.mem_append_right _ (ih hread)
  | seqRead _ ih =>
      cases hread
      exact List.mem_append_left _ (List.mem_map_of_mem (ih rfl))
  | left _ ih =>
      exact List.mem_append_left _ (ih hread)
  | right _ ih =>
      exact List.mem_append_right _ (ih hread)
  | starRead _ ih =>
      cases hread
      exact List.mem_map_of_mem (ih rfl)
  | lazyRead _ ih =>
      cases hread
      exact List.mem_map_of_mem (ih rfl)
  | empty => cases hread
  | starDone => cases hread
  | lazyDone => cases hread
  | wordBoundary _ => cases hread
  | textEnd _ => cases hread

theorem mem_tails_of_ways {r rest : Regex} {set : CharSet} (h : (set, rest) ∈ ways r) :
    rest ∈ tails r := by
  induction r generalizing rest with
  | empty => cases h
  | chars other =>
      rw [ways, List.mem_singleton, Prod.mk.injEq] at h
      rw [h.2]
      exact List.mem_cons_self
  | seq a b iha ihb =>
      rcases List.mem_append.mp h with hleft | hright
      · rcases List.mem_map.mp hleft with ⟨way, hway, hpair⟩
        cases hpair
        exact List.mem_append_left _ (List.mem_map_of_mem (iha hway))
      · split at hright
        · exact List.mem_append_right _ (ihb hright)
        · cases hright
  | alt a b iha ihb =>
      rcases List.mem_append.mp h with hleft | hright
      · exact List.mem_append_left _ (iha hleft)
      · exact List.mem_append_right _ (ihb hright)
  | star a iha =>
      rcases List.mem_map.mp h with ⟨way, hway, hpair⟩
      cases hpair
      exact List.mem_map_of_mem (iha hway)
  | lazyStar a iha =>
      rcases List.mem_map.mp h with ⟨way, hway, hpair⟩
      cases hpair
      exact List.mem_map_of_mem (iha hway)
  | wordBoundary => cases h
  | textEnd => cases h

theorem mem_ways_andThen {a b rest : Regex} {set : CharSet} (h : (set, rest) ∈ ways (andThen a b)) :
    (exists first, (set, first) ∈ ways a ∧ rest = andThen first b) ∨ (set, rest) ∈ ways b := by
  unfold andThen at h
  split at h
  · exact Or.inr h
  · rcases List.mem_append.mp h with hleft | hright
    · rcases List.mem_map.mp hleft with ⟨way, hway, hpair⟩
      cases hpair
      exact Or.inl ⟨way.2, hway, rfl⟩
    · split at hright
      · exact Or.inr hright
      · cases hright

theorem tails_closed {r tail rest : Regex} {set : CharSet} (htail : tail ∈ tails r)
    (h : (set, rest) ∈ ways tail) : rest ∈ tails r := by
  induction r generalizing tail rest with
  | empty => cases htail
  | chars other =>
      rw [List.mem_singleton.mp htail] at h
      cases h
  | seq a b iha ihb =>
      rcases List.mem_append.mp htail with hleft | hright
      · rcases List.mem_map.mp hleft with ⟨first, hfirst, rfl⟩
        rcases mem_ways_andThen h with ⟨next, hnext, rfl⟩ | hsecond
        · exact List.mem_append_left _ (List.mem_map_of_mem (iha hfirst hnext))
        · exact List.mem_append_right _ (mem_tails_of_ways hsecond)
      · exact List.mem_append_right _ (ihb hright h)
  | alt a b iha ihb =>
      rcases List.mem_append.mp htail with hleft | hright
      · exact List.mem_append_left _ (iha hleft h)
      · exact List.mem_append_right _ (ihb hright h)
  | star a iha =>
      rcases List.mem_map.mp htail with ⟨first, hfirst, rfl⟩
      rcases mem_ways_andThen h with ⟨next, hnext, rfl⟩ | hagain
      · exact List.mem_map_of_mem (iha hfirst hnext)
      · exact mem_tails_of_ways hagain
  | lazyStar a iha =>
      rcases List.mem_map.mp htail with ⟨first, hfirst, rfl⟩
      rcases mem_ways_andThen h with ⟨next, hnext, rfl⟩ | hagain
      · exact List.mem_map_of_mem (iha hfirst hnext)
      · exact mem_tails_of_ways hagain
  | wordBoundary => cases htail
  | textEnd => cases htail

def blankless : Regex -> Bool
  | .empty => true
  | .chars set => set.skipsBlanks
  | .seq a b => blankless a && blankless b
  | .alt a b => blankless a && blankless b
  | .star a => blankless a
  | .lazyStar a => blankless a
  | .wordBoundary => true
  | .textEnd => true

theorem Spells.solid {r : Regex} {u : Text} (h : Spells r u) (hr : r.blankless = true) :
    forall c, c ∈ u -> Text.isBlank c = false := by
  induction h with
  | @chars set d hd =>
      intro c hc
      rw [List.mem_singleton.mp hc]
      cases hblank : Text.isBlank d with
      | false =>
          rfl
      | true =>
          rw [CharSet.not_has_of_skipsBlanks hr hblank] at hd
          cases hd
  | seq _ _ iha ihb =>
      rcases Bool.and_eq_true_iff.mp hr with ⟨ha, hb⟩
      intro c hc
      rcases List.mem_append.mp hc with hleft | hright
      · exact iha ha c hleft
      · exact ihb hb c hright
  | left _ ih =>
      exact ih (Bool.and_eq_true_iff.mp hr).1
  | right _ ih =>
      exact ih (Bool.and_eq_true_iff.mp hr).2
  | starCons _ _ iha ihb =>
      intro c hc
      rcases List.mem_append.mp hc with hleft | hright
      · exact iha hr c hleft
      · exact ihb hr c hright
  | lazyCons _ _ iha ihb =>
      intro c hc
      rcases List.mem_append.mp hc with hleft | hright
      · exact iha hr c hleft
      · exact ihb hr c hright
  | empty => exact nofun
  | starNil => exact nofun
  | lazyNil => exact nofun
  | wordBoundary => exact nofun
  | textEnd => exact nofun

/-!
# Surroundings
-/

def endless : Regex -> Bool
  | .empty => true
  | .chars _ => true
  | .seq a b => endless a && endless b
  | .alt a b => endless a && endless b
  | .star a => endless a
  | .lazyStar a => endless a
  | .wordBoundary => true
  | .textEnd => false

theorem heads_congr {r : Regex} {before before' after after' : Option Char}
    (hbefore : isWordAt before = isWordAt before') (hafter : isWordAt after = isWordAt after')
    (hend : endless r = true ∨ after.isNone = after'.isNone) :
    heads before after r = heads before' after' r := by
  induction r with
  | empty => rfl
  | chars set => rfl
  | seq a b iha ihb =>
      have ha := iha (hend.imp_left fun h => (Bool.and_eq_true_iff.mp h).1)
      have hb := ihb (hend.imp_left fun h => (Bool.and_eq_true_iff.mp h).2)
      unfold heads
      rw [ha, hb]
  | alt a b iha ihb =>
      have ha := iha (hend.imp_left fun h => (Bool.and_eq_true_iff.mp h).1)
      have hb := ihb (hend.imp_left fun h => (Bool.and_eq_true_iff.mp h).2)
      unfold heads
      rw [ha, hb]
  | star a iha =>
      have ha := iha hend
      unfold heads
      rw [ha]
  | lazyStar a iha =>
      have ha := iha hend
      unfold heads
      rw [ha]
  | wordBoundary =>
      unfold heads
      rw [hbefore, hafter]
  | textEnd =>
      unfold heads
      rcases hend with hend | hend
      · cases hend
      · rw [hend]

theorem run_congr_before {threads : List Regex} {before before' : Option Char}
    (h : isWordAt before = isWordAt before') (text : Text) :
    run before threads text = run before' threads text := by
  have hheads : forall after, threads.flatMap (heads before after) =
      threads.flatMap (heads before' after) := by
    intro after
    have heq : heads before after = heads before' after :=
      funext fun r => heads_congr h rfl (Or.inr rfl)
    rw [heq]
  cases text with
  | nil =>
      unfold run
      rw [hheads]
  | cons c rest =>
      rw [run_cons, run_cons, hheads]

/-!
# Runs of blanks
-/

/-- An expression that is not complete and that a blank leaves as it is. -/
def settles (r : Regex) : Bool :=
  !mayBeEmpty r && endless r && advance ' ' (cut (heads (some ' ') (some ' ') r)).1 == [r]

/-- An expression for which a run of blanks is as good as one blank. -/
def squeezes (r : Regex) : Bool :=
  (r :: tails r).all fun tail =>
    endless tail && (ways tail).all fun way =>
      way.1.skipsBlanks || (way.1.takesBlanks && settles way.2)

theorem advance_cons (c : Char) (way : CharSet × Regex) (ways : List (CharSet × Regex)) :
    advance c (way :: ways) =
      if way.1.has c then way.2 :: (advance c ways).filter (· != way.2) else advance c ways := rfl

theorem nodup_advance (c : Char) (ways : List (CharSet × Regex)) : (advance c ways).Nodup := by
  induction ways with
  | nil =>
      exact List.nodup_nil
  | cons way ways ih =>
      rw [advance_cons]
      split
      · refine List.nodup_cons.mpr ⟨?_, ih.filter _⟩
        intro hmem
        have hne := (List.mem_filter.mp hmem).2
        rw [bne_self_eq_false] at hne
        cases hne
      · exact ih

theorem advance_append (c : Char) (front back : List (CharSet × Regex)) :
    advance c (front ++ back) =
      advance c front ++ (advance c back).filter fun r => !(advance c front).elem r := by
  induction front with
  | nil =>
      exact (List.filter_eq_self.mpr fun r _ => rfl).symm
  | cons way front ih =>
      rw [List.cons_append, advance_cons, advance_cons, ih]
      split
      · rw [List.filter_append, List.cons_append, List.filter_filter]
        congr 2
        apply List.filter_congr
        intro r _
        by_cases hr : r = way.2
        · simp [hr]
        · simp [hr]
      · rfl

theorem cut_append {front back : List Head} (h : Head.done ∉ front) :
    cut (front ++ back) = ((cut front).1 ++ (cut back).1, (cut back).2) := by
  induction front with
  | nil =>
      rfl
  | cons head front ih =>
      cases head with
      | done =>
          exact absurd List.mem_cons_self h
      | read set rest =>
          have hfront := ih fun hmem => h (List.mem_cons_of_mem _ hmem)
          rw [List.cons_append, cut, hfront]
          rfl

theorem advance_blank {ways : List (CharSet × Regex)} {c d : Char}
    (h : forall way, way ∈ ways -> way.1.skipsBlanks = true ∨ way.1.takesBlanks = true)
    (hc : Text.isBlank c = true) (hd : Text.isBlank d = true) :
    advance c ways = advance d ways := by
  induction ways with
  | nil =>
      rfl
  | cons way ways ih =>
      have htail := ih fun other hother => h other (List.mem_cons_of_mem _ hother)
      rw [advance_cons, advance_cons, htail]
      rcases h way List.mem_cons_self with hskips | htakes
      · rw [CharSet.not_has_of_skipsBlanks hskips hc, CharSet.not_has_of_skipsBlanks hskips hd]
      · rw [CharSet.has_of_takesBlanks htakes hc, CharSet.has_of_takesBlanks htakes hd]

theorem not_done_of_settles {before after : Option Char} {r : Regex} (h : settles r = true) :
    Head.done ∉ heads before after r := by
  intro hdone
  unfold settles at h
  rw [(spells_of_done hdone).mayBeEmpty] at h
  cases h

theorem advance_settles {r : Regex} {b c : Char} (h : settles r = true)
    (hways : forall way, way ∈ (cut (heads (some b) (some c) r)).1 ->
      way.1.skipsBlanks = true ∨ way.1.takesBlanks = true)
    (hb : Text.isBlank b = true) (hc : Text.isBlank c = true) :
    advance c (cut (heads (some b) (some c) r)).1 = [r] := by
  have hspace : Text.isBlank ' ' = true := rfl
  have hstays := h
  unfold settles at hstays
  rw [Bool.and_eq_true, Bool.and_eq_true, beq_iff_eq] at hstays
  rcases hstays with ⟨⟨_, hendless⟩, hstays⟩
  have hheads : heads (some b) (some c) r = heads (some ' ') (some ' ') r := by
    apply heads_congr
    · rw [not_isWordAt_blank hb, not_isWordAt_blank hspace]
    · rw [not_isWordAt_blank hc, not_isWordAt_blank hspace]
    · exact Or.inl hendless
  rw [advance_blank hways hc hspace, hheads]
  exact hstays

/-- Threads that have settled stay on a blank, and none of them is complete. -/
theorem advance_settled {threads : List Regex} {b c : Char}
    (h : forall thread, thread ∈ threads -> settles thread = true)
    (hways : forall thread, thread ∈ threads -> forall way, way ∈ ways thread ->
      way.1.skipsBlanks = true ∨ way.1.takesBlanks = true)
    (hnodup : threads.Nodup) (hb : Text.isBlank b = true) (hc : Text.isBlank c = true) :
    advance c (cut (threads.flatMap (heads (some b) (some c)))).1 = threads ∧
      (cut (threads.flatMap (heads (some b) (some c)))).2 = false := by
  induction threads with
  | nil =>
      exact ⟨rfl, rfl⟩
  | cons thread rest ih =>
      rcases List.nodup_cons.mp hnodup with ⟨hnew, hnodup⟩
      have hfirst := h thread List.mem_cons_self
      rcases ih (fun other hother => h other (List.mem_cons_of_mem _ hother))
        (fun other hother => hways other (List.mem_cons_of_mem _ hother)) hnodup with
        ⟨hadvance, hdone⟩
      have hstays : advance c (cut (heads (some b) (some c) thread)).1 = [thread] := by
        refine advance_settles hfirst ?_ hb hc
        rintro ⟨set, next⟩ hway
        exact hways thread List.mem_cons_self _ (mem_ways_of_heads (mem_of_cut hway))
      rw [List.flatMap_cons, cut_append (not_done_of_settles hfirst)]
      refine ⟨?_, hdone⟩
      rw [advance_append, hstays, hadvance, List.singleton_append]
      congr 1
      rw [List.filter_eq_self]
      intro other hother
      have hne : other ≠ thread := fun heq => hnew (heq ▸ hother)
      simp [hne]

theorem run_blanks {threads : List Regex} {b : Char} {blanks : Text}
    (h : forall thread, thread ∈ threads -> settles thread = true)
    (hways : forall thread, thread ∈ threads -> forall way, way ∈ ways thread ->
      way.1.skipsBlanks = true ∨ way.1.takesBlanks = true)
    (hnodup : threads.Nodup) (hb : Text.isBlank b = true)
    (hblanks : forall c, c ∈ blanks -> Text.isBlank c = true) (text : Text) :
    run (some b) threads (blanks ++ text) =
      (run (some ' ') threads text).map (· + blanks.length) := by
  induction blanks generalizing b with
  | nil =>
      have hsame : isWordAt (some b) = isWordAt (some ' ') := by
        rw [not_isWordAt_blank hb, not_isWordAt_blank rfl]
      rw [List.nil_append, run_congr_before hsame]
      exact Option.map_id'.symm
  | cons c blanks ih =>
      have hc := hblanks c List.mem_cons_self
      rcases advance_settled h hways hnodup hb hc with ⟨hadvance, hdone⟩
      rw [List.cons_append, run_cons, hadvance, hdone,
        ih hc fun d hd => hblanks d (List.mem_cons_of_mem _ hd)]
      cases run (some ' ') threads text with
      | none =>
          rfl
      | some n =>
          rfl

end Regex
end SqlLayout
