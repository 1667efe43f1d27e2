import Mathlib.Data.List.Basic
import SqlLayout.Text.CaseMap

/-!
# The case mappings come to rest

What a case mapping gives, it maps to itself: a text that was raised or lowered stays
as it is when that is done again.  The sources and the images of a mapping are compared
as sets of code points, a set being the bits of a number.
-/

namespace SqlLayout
namespace Text

/-!
# Sets of code points
-/

def bits (points : List Nat) : Nat :=
  points.foldr (fun point set => 1 <<< point ||| set) 0

theorem testBit_bits (points : List Nat) (n : Nat) :
    (bits points).testBit n = true <-> n ∈ points := by
  induction points with
  | nil =>
      rw [bits, List.foldr_nil, Nat.zero_testBit]
      exact iff_of_false Bool.false_ne_true List.not_mem_nil
  | cons point rest ih =>
      change (1 <<< point ||| bits rest).testBit n = true <-> _
      rw [Nat.testBit_or, Bool.or_eq_true, Nat.one_shiftLeft, Nat.testBit_two_pow,
        decide_eq_true_eq, ih, List.mem_cons, eq_comm]

theorem not_mem_of_bits {first second : List Nat} (h : bits first &&& bits second = 0) {n : Nat}
    (hn : n ∈ second) : n ∉ first := by
  intro hmem
  have hboth := Nat.testBit_and (bits first) (bits second) n
  rw [h, (testBit_bits first n).mpr hmem, (testBit_bits second n).mpr hn, Nat.zero_testBit] at hboth
  cases hboth

/-!
# Runs
-/

def runPoints (first last step start : Nat) : List Nat :=
  (List.range ((last - first) / step + 1)).map fun k => start + k * step

theorem mem_runPoints {first last step start n : Nat} (hlast : n <= last)
    (hstep : (n - first) % step = 0) : start + (n - first) ∈ runPoints first last step start := by
  refine List.mem_map.mpr ⟨(n - first) / step, ?_, ?_⟩
  · rw [List.mem_range]
    exact Nat.lt_succ_of_le (Nat.div_le_div_right (Nat.sub_le_sub_right hlast first))
  · rw [Nat.div_mul_cancel (Nat.dvd_of_mod_eq_zero hstep)]

namespace CaseRuns

def sources (runs : CaseRuns) : List Nat :=
  runs.flatMap fun (first, last, step, _) => runPoints first last step first

def images (runs : CaseRuns) : List Nat :=
  runs.flatMap fun (first, last, step, image) => runPoints first last step image

theorem mem_of_image? {runs : CaseRuns} {n image : Nat} (h : runs.image? n = some image) :
    n ∈ runs.sources ∧ image ∈ runs.images := by
  induction runs with
  | nil =>
      cases h
  | cons run rest ih =>
      rcases run with ⟨first, last, step, start⟩
      rw [image?] at h
      split at h
      · cases h
      · rename_i hfirst
        have hle := Nat.le_of_not_lt hfirst
        split at h
        · rename_i hhit
          rw [Bool.and_eq_true, decide_eq_true_eq, beq_iff_eq] at hhit
          cases h
          constructor
          · refine List.mem_append_left _ ?_
            have hpoint : first + (n - first) ∈ runPoints first last step first :=
              mem_runPoints hhit.1 hhit.2
            rw [Nat.add_sub_cancel' hle] at hpoint
            exact hpoint
          · exact List.mem_append_left _ (mem_runPoints hhit.1 hhit.2)
        · exact ⟨List.mem_append_right _ (ih h).1, List.mem_append_right _ (ih h).2⟩

end CaseRuns

/-!
# Mappings
-/

/-- A mapping of characters that changes its sources only, and these into images. -/
structure Maps (f : Char -> Text) (sources images : List Nat) : Prop where
  self : forall c : Char, c.toNat ∉ sources -> f c = [c]
  image : forall c d : Char, d ∈ f c -> f c = [c] ∨ d.toNat ∈ images

theorem Maps.settles {f : Char -> Text} {sources images : List Nat} (h : Maps f sources images)
    (hapart : bits sources &&& bits images = 0) {c d : Char} (hd : d ∈ f c) : f d = [d] := by
  rcases h.image c d hd with hsame | himage
  · rw [hsame, List.mem_singleton] at hd
    rw [hd, hsame]
  · exact h.self d (not_mem_of_bits hapart himage)

section

variable {f : Char -> Text} (hne : forall c, f c ≠ [])
  (hsettles : forall c d, d ∈ f c -> f d = [d])
include hne hsettles

theorem eq_singleton_of_append {c : Char} {tail rest : Text} (h : f c ++ tail = c :: rest) :
    f c = [c] := by
  cases himage : f c with
  | nil =>
      exact absurd himage (hne c)
  | cons d image =>
      rw [himage, List.cons_append] at h
      have hself : f c = [c] :=
        hsettles c c (by rw [himage, (List.cons.inj h).1]; exact List.mem_cons_self)
      rw [← himage, hself]

/-- A mapping that comes to rest leaves a text as it is just if it does so with each of
its characters. -/
theorem flatMap_eq_self_iff {text : Text} :
    text.flatMap f = text <-> forall c, c ∈ text -> f c = [c] := by
  induction text with
  | nil =>
      exact iff_of_true rfl nofun
  | cons c rest ih =>
      rw [List.flatMap_cons, List.forall_mem_cons]
      constructor
      · intro h
        have hc := eq_singleton_of_append hne hsettles h
        rw [hc] at h
        exact ⟨hc, ih.mp (List.cons.inj h).2⟩
      · rintro ⟨hc, hrest⟩
        rw [hc, ih.mpr hrest]
        rfl

end

theorem of_ascii {p : Char -> Bool}
    (h : ((List.range 128).all fun n => p (Char.ofNat n)) = true) {c : Char}
    (hc : c.toNat < 128) : p c = true := by
  have hp := List.all_eq_true.mp h c.toNat (List.mem_range.mpr hc)
  rwa [Char.ofNat_toNat] at hp

theorem toNat_ofNat_mem {points : List Nat} {n : Nat} (h : n ∈ points) :
    (Char.ofNat n).toNat ∈ 0 :: points := by
  by_cases hvalid : n.isValidChar
  · rw [Char.ofNat, dif_pos hvalid]
    exact List.mem_cons_of_mem _ h
  · rw [Char.ofNat, dif_neg hvalid]
    exact List.mem_cons_self

def smallPoints : List Nat := List.range' 0x61 26

def capitalPoints : List Nat := List.range' 0x41 26

/-- The mappings go by ASCII first, then by characters with an image of their own, then by
runs. -/
theorem maps_of_stages {f : Char -> Text} {sources images : List Nat} (ascii : Char -> Char)
    (special : Char -> Option Text) (runs : CaseRuns)
    (hf : forall c, f c =
      if c.toNat < 128 then [ascii c]
      else (special c).getD (((runs.image? c.toNat).map fun n => [Char.ofNat n]).getD [c]))
    (hascii : forall c, c.toNat < 128 ->
      (c.toNat ∈ sources ∨ ascii c = c) ∧ (ascii c = c ∨ (ascii c).toNat ∈ images))
    (hspecial : forall c text, special c = some text ->
      c.toNat ∈ sources ∧ forall d, d ∈ text -> d.toNat ∈ images)
    (hruns : forall n, n ∈ runs.sources -> n ∈ sources)
    (himages : forall n, n ∈ runs.images -> (Char.ofNat n).toNat ∈ images) :
    Maps f sources images where
  self := by
    intro c hc
    rw [hf]
    split
    · rename_i hsmall
      rw [(hascii c hsmall).1.resolve_left hc]
    · have hplain : special c = none := by
        rw [Option.eq_none_iff_forall_ne_some]
        intro text htext
        exact hc (hspecial c text htext).1
      have hrun : runs.image? c.toNat = none := by
        rw [Option.eq_none_iff_forall_ne_some]
        intro image himage
        exact hc (hruns _ (CaseRuns.mem_of_image? himage).1)
      rw [hplain, hrun]
      rfl
  image := by
    intro c d hd
    rw [hf] at hd ⊢
    split at hd
    · rename_i hsmall
      rw [if_pos hsmall, List.mem_singleton.mp hd]
      exact (hascii c hsmall).2.imp_left fun hsame => by rw [hsame]
    · rename_i hlarge
      rw [if_neg hlarge]
      cases hplain : special c with
      | some text =>
          rw [hplain] at hd
          exact Or.inr ((hspecial c text hplain).2 d hd)
      | none =>
          cases hrun : runs.image? c.toNat with
          | some image =>
              rw [hplain, hrun] at hd
              rw [List.mem_singleton.mp hd]
              exact Or.inr (himages image (CaseRuns.mem_of_image? hrun).2)
          | none =>
              exact Or.inl rfl

/-!
# Upper case
-/

def upperSources : List Nat :=
  smallPoints ++ (upperExpansions.map Prod.fst ++ upperRuns.sources)

def upperImages : List Nat :=
  0 :: (capitalPoints ++ (upperExpansions.flatMap Prod.snd ++ upperRuns.images))

theorem upperSources_apart : bits upperSources &&& bits upperImages = 0 := by
  decide +kernel

theorem toUpper_ascii {c : Char} (hc : c.toNat < 128) :
    (c.toNat ∈ smallPoints ∨ c.toUpper = c) ∧
      (c.toUpper = c ∨ c.toUpper.toNat ∈ capitalPoints) := by
  have hall := of_ascii (p := fun c => (smallPoints.elem c.toNat || c.toUpper == c) &&
    (c.toUpper == c || capitalPoints.elem c.toUpper.toNat)) (by decide) hc
  simpa only [Bool.and_eq_true, Bool.or_eq_true, beq_iff_eq, List.elem_iff] using hall

theorem maps_upperChar : Maps upperChar upperSources upperImages := by
  refine maps_of_stages Char.toUpper
    (fun c => (upperExpansions.lookup c.toNat).map fun points => points.map Char.ofNat) upperRuns
    ?_ ?_ ?_ ?_ ?_
  · intro c
    unfold upperChar
    cases upperExpansions.lookup c.toNat with
    | some points => rfl
    | none =>
        cases upperRuns.image? c.toNat with
        | some image => rfl
        | none => rfl
  · intro c hascii
    exact ⟨(toUpper_ascii hascii).1.imp_left (List.mem_append_left _),
      (toUpper_ascii hascii).2.imp_right fun himage =>
        List.mem_cons_of_mem _ (List.mem_append_left _ himage)⟩
  · intro c text htext
    rcases Option.map_eq_some_iff.mp htext with ⟨points, hpoints, rfl⟩
    rcases List.lookup_eq_some_iff.mp hpoints with ⟨front, back, hentries, _⟩
    have hentry : (c.toNat, points) ∈ upperExpansions := by
      rw [hentries]
      exact List.mem_append_cons_self
    refine ⟨List.mem_append_right _ (List.mem_append_left _ (List.mem_map_of_mem hentry)), ?_⟩
    intro d hd
    rcases List.mem_map.mp hd with ⟨point, hpoint, rfl⟩
    exact toNat_ofNat_mem (List.mem_append_right _ (List.mem_append_left _
      (List.mem_flatMap.mpr ⟨_, hentry, hpoint⟩)))
  · intro n hn
    exact List.mem_append_right _ (List.mem_append_right _ hn)
  · intro n hn
    exact toNat_ofNat_mem (List.mem_append_right _ (List.mem_append_right _ hn))

theorem upperChar_of_mem {c d : Char} (h : d ∈ upperChar c) : upperChar d = [d] :=
  maps_upperChar.settles upperSources_apart h

theorem upperChar_ne_nil (c : Char) : upperChar c ≠ [] := by
  unfold upperChar
  split
  · exact List.cons_ne_nil _ _
  · split
    · rename_i points hpoints
      rcases List.lookup_eq_some_iff.mp hpoints with ⟨front, back, hentries, _⟩
      have hall : (upperExpansions.all fun entry => !entry.2.isEmpty) = true := by
        decide
      rw [hentries, List.all_append, List.all_cons, Bool.and_eq_true, Bool.and_eq_true,
        Bool.not_eq_true', List.isEmpty_eq_false_iff] at hall
      exact fun hnil => hall.2.1 (List.map_eq_nil_iff.mp hnil)
    · split
      · exact List.cons_ne_nil _ _
      · exact List.cons_ne_nil _ _

theorem upper_eq_self_iff {text : Text} :
    text.upper = text <-> forall c, c ∈ text -> upperChar c = [c] :=
  flatMap_eq_self_iff upperChar_ne_nil fun _ _ => upperChar_of_mem

theorem upper_upper (text : Text) : text.upper.upper = text.upper := by
  refine upper_eq_self_iff.mpr fun d hd => ?_
  rcases List.mem_flatMap.mp hd with ⟨c, _, hc⟩
  exact upperChar_of_mem hc

/-!
# Lower case
-/

def lowerSources : List Nat :=
  capitalPoints ++ (0x130 :: lowerRuns.sources)

def lowerImages : List Nat :=
  0 :: (smallPoints ++ (0x307 :: lowerRuns.images))

theorem lowerSources_apart : bits lowerSources &&& bits lowerImages = 0 := by
  decide +kernel

theorem toLower_ascii {c : Char} (hc : c.toNat < 128) :
    (c.toNat ∈ capitalPoints ∨ c.toLower = c) ∧
      (c.toLower = c ∨ c.toLower.toNat ∈ smallPoints) := by
  have hall := of_ascii (p := fun c => (capitalPoints.elem c.toNat || c.toLower == c) &&
    (c.toLower == c || smallPoints.elem c.toLower.toNat)) (by decide) hc
  simpa only [Bool.and_eq_true, Bool.or_eq_true, beq_iff_eq, List.elem_iff] using hall

theorem maps_lowerChar : Maps lowerChar lowerSources lowerImages := by
  refine maps_of_stages Char.toLower
    (fun c => if c.toNat == 0x130 then some ['i', Char.ofNat 0x307] else none) lowerRuns
    ?_ ?_ ?_ ?_ ?_
  · intro c
    unfold lowerChar
    cases c.toNat == 0x130 with
    | true => rfl
    | false =>
        cases lowerRuns.image? c.toNat with
        | some image => rfl
        | none => rfl
  · intro c hascii
    exact ⟨(toLower_ascii hascii).1.imp_left (List.mem_append_left _),
      (toLower_ascii hascii).2.imp_right fun himage =>
        List.mem_cons_of_mem _ (List.mem_append_left _ himage)⟩
  · intro c text htext
    split at htext
    · rename_i hdotted
      cases htext
      rw [beq_iff_eq] at hdotted
      refine ⟨List.mem_append_right _ (hdotted ▸ List.mem_cons_self), ?_⟩
      intro d hd
      refine List.mem_cons_of_mem _ ?_
      rcases List.mem_cons.mp hd with rfl | hd
      · exact List.mem_append_left _ (by decide)
      · rw [List.mem_singleton.mp hd]
        exact List.mem_append_right _ List.mem_cons_self
    · cases htext
  · intro n hn
    exact List.mem_append_right _ (List.mem_cons_of_mem _ hn)
  · intro n hn
    exact toNat_ofNat_mem (List.mem_append_right _ (List.mem_cons_of_mem _ hn))

theorem lowerChar_of_mem {c d : Char} (h : d ∈ lowerChar c) : lowerChar d = [d] :=
  maps_lowerChar.settles lowerSources_apart h

theorem lowerChar_ne_nil (c : Char) : lowerChar c ≠ [] := by
  unfold lowerChar
  split
  · exact List.cons_ne_nil _ _
  · split
    · exact List.cons_ne_nil _ _
    · split
      · exact List.cons_ne_nil _ _
      · exact List.cons_ne_nil _ _

theorem flatMap_lowerChar_eq_self_iff {text : Text} :
    text.flatMap lowerChar = text <-> forall c, c ∈ text -> lowerChar c = [c] :=
  flatMap_eq_self_iff lowerChar_ne_nil fun _ _ => lowerChar_of_mem

theorem lowerChar_capitalSigma : lowerChar capitalSigma = [smallSigma] := by
  decide

theorem lowerChar_finalSigma : lowerChar finalSigma = [finalSigma] := by
  decide

theorem smallSigma_ne_capitalSigma : smallSigma ≠ capitalSigma := by
  decide

theorem finalSigma_ne_capitalSigma : finalSigma ≠ capitalSigma := by
  decide

theorem ne_capitalSigma {c : Char} (h : lowerChar c = [c]) : (c == capitalSigma) = false := by
  rw [beq_eq_false_iff_ne]
  rintro rfl
  rw [lowerChar_capitalSigma] at h
  exact smallSigma_ne_capitalSigma (List.singleton_inj.mp h)

/-- Lowering leaves a text as it is, whatever stands before it, just if it does so with
each character by itself: neither form of a lowered sigma is the capital one. -/
theorem lowerAfter_eq_self_iff {before text : Text} :
    lowerAfter before text = text <-> forall c, c ∈ text -> lowerChar c = [c] := by
  induction text generalizing before with
  | nil =>
      exact iff_of_true rfl nofun
  | cons c rest ih =>
      rw [List.forall_mem_cons, lowerAfter]
      constructor
      · intro h
        split at h
        · rename_i hsigma
          have hc := (List.cons.inj h).1
          rw [beq_iff_eq.mp hsigma] at hc
          split at hc
          · exact absurd hc finalSigma_ne_capitalSigma
          · exact absurd hc smallSigma_ne_capitalSigma
        · have hc := eq_singleton_of_append lowerChar_ne_nil (fun _ _ => lowerChar_of_mem) h
          rw [hc] at h
          exact ⟨hc, ih.mp (List.cons.inj h).2⟩
      · rintro ⟨hc, hrest⟩
        rw [ne_capitalSigma hc, if_neg Bool.false_ne_true, hc, ih.mpr hrest]
        rfl

theorem lowerChar_of_mem_lowerAfter {before text : Text} {d : Char}
    (h : d ∈ lowerAfter before text) : lowerChar d = [d] := by
  induction text generalizing before with
  | nil =>
      cases h
  | cons c rest ih =>
      unfold lowerAfter at h
      dsimp only at h
      rcases List.mem_append.mp h with himage | hrest
      · split at himage
        · rw [List.mem_singleton.mp himage]
          split
          · exact lowerChar_finalSigma
          · exact lowerChar_of_mem (c := capitalSigma) (by rw [lowerChar_capitalSigma]; decide)
        · exact lowerChar_of_mem himage
      · exact ih hrest

theorem lower_eq_self_iff {text : Text} :
    text.lower = text <-> forall c, c ∈ text -> lowerChar c = [c] :=
  lowerAfter_eq_self_iff

theorem lower_lower (text : Text) : text.lower.lower = text.lower :=
  lower_eq_self_iff.mpr fun _ hd => lowerChar_of_mem_lowerAfter hd

end Text
end SqlLayout
