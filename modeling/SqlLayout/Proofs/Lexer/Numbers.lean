import Mathlib.Data.List.TakeWhile
import SqlLayout.Lexer.Rules
import SqlLayout.Proofs.Regex.Cutting
import SqlLayout.Proofs.Regex.Takes
import SqlLayout.Proofs.Text.CaseMap

/-!
# Numbers without a sign and a point

Three expressions read a number.  In a text that has neither a minus nor a point each of
them takes as many digits as there are, so that the length of its match is known from the
form of what stands at the start.
-/

namespace SqlLayout

/-!
# Sets that are exhausted
-/

namespace Regex

variable {set : CharSet} {before : Option Char} {c : Char} {front behind rest : Text}
  {next : Regex} {ways : List (CharSet × Regex)}

def Stops (set : CharSet) (behind : Text) : Prop :=
  forall c, behind.head? = some c -> set.has c = false

theorem Stops.takeWhile_eq (h : Stops set behind)
    (hfront : forall c, c ∈ front -> set.has c = true) :
    (front ++ behind).takeWhile set.has = front := by
  rw [List.takeWhile_append_of_pos hfront]
  cases behind with
  | nil =>
      exact List.append_nil front
  | cons c rest =>
      rw [List.takeWhile_cons_of_neg (ne_true_of_eq_false (h c rfl)), List.append_nil]

theorem Stops.dropWhile_eq (h : Stops set behind)
    (hfront : forall c, c ∈ front -> set.has c = true) :
    (front ++ behind).dropWhile set.has = behind := by
  have hwhole := List.takeWhile_append_dropWhile (p := set.has) (l := front ++ behind)
  rw [h.takeWhile_eq hfront] at hwhole
  exact List.append_cancel_left hwhole

theorem exists_stops (set : CharSet) (text : Text) : exists front behind,
    text = front ++ behind ∧ (forall c, c ∈ front -> set.has c = true) ∧ Stops set behind := by
  refine ⟨text.takeWhile set.has, text.dropWhile set.has,
    List.takeWhile_append_dropWhile.symm, fun c hc => List.mem_takeWhile_imp hc, ?_⟩
  intro c hc
  have hnot := List.head?_dropWhile_not set.has text
  rw [hc] at hnot
  exact hnot

theorem cut_reads (ways : List (CharSet × Regex)) :
    cut (ways.map fun way => Head.read way.1 way.2) = (ways, false) := by
  induction ways with
  | nil =>
      rfl
  | cons way ways ih =>
      rw [List.map_cons, cut, ih]

theorem run_chars_seq (hc : set.has c = true) (before : Option Char) (next : Regex)
    (rest : Text) : run before [seq (chars set) next] (c :: rest) =
      (run (some c) [next] rest).map (· + 1) := by
  rw [run_cons]
  simp [heads, cut, advance, andThen, hc]

theorem run_plus_seq (hc : set.has c = true) (before : Option Char) (next : Regex)
    (rest : Text) : run before [seq (plus (chars set)) next] (c :: rest) =
      (run (some c) [seq (star (chars set)) next] rest).map (· + 1) := by
  rw [run_cons]
  simp [plus, heads, cut, advance, andThen, hc]

theorem run_plus_chars (hne : front ≠ []) (hfront : forall c, c ∈ front -> set.has c = true)
    (hstops : Stops set behind) (before : Option Char) :
    run before [plus (chars set)] (front ++ behind) = some front.length := by
  cases front with
  | nil =>
      exact absurd rfl hne
  | cons c front =>
      rw [List.cons_append, plus, run_chars_seq (hfront c List.mem_cons_self), run_star_chars,
        hstops.takeWhile_eq fun d hd => hfront d (List.mem_cons_of_mem _ hd)]
      rfl

theorem run_minus (hc : c ≠ '-') (before : Option Char) (next : Regex) (rest : Text) :
    run before [seq Rule.minus next] (c :: rest) = run before [next] (c :: rest) := by
  rw [run_cons, run_cons]
  simp [Rule.minus, opt, char, heads, cut, advance, CharSet.has, hc]

theorem run_star_seq
    (hnext : forall before after, heads before after next =
      ways.map fun way => Head.read way.1 way.2)
    (hways : forall way, way ∈ ways -> forall c, set.has c = true -> way.1.has c = false)
    (hfront : forall c, c ∈ front -> set.has c = true) (hstops : Stops set behind)
    (before : Option Char) :
    run before [seq (star (chars set)) next] (front ++ behind) =
      (run (lastOr before front) [next] behind).map (· + front.length) := by
  have hheads : forall before after, [seq (star (chars set)) next].flatMap (heads before after) =
      ((set, seq (star (chars set)) next) :: ways).map fun way => Head.read way.1 way.2 := by
    intro before after
    rw [List.map_cons, ← hnext before after]
    simp [heads, andThen]
  have hlone : forall before after, [next].flatMap (heads before after) =
      ways.map fun way => Head.read way.1 way.2 := by
    intro before after
    rw [List.flatMap_singleton, hnext]
  induction front generalizing before with
  | nil =>
      cases behind with
      | nil =>
          rw [List.nil_append, run, run, hheads, hlone, cut_reads, cut_reads]
          rfl
      | cons c rest =>
          rw [List.nil_append, run_cons, run_cons, hheads, hlone, cut_reads, cut_reads,
            advance, if_neg (ne_true_of_eq_false (hstops c rfl))]
          exact Option.map_id'.symm
  | cons c front ih =>
      have hc := hfront c List.mem_cons_self
      have hadvance : advance c ways = [] := by
        apply List.eq_nil_iff_forall_not_mem.mpr
        intro rest hrest
        rcases mem_of_advance hrest with ⟨other, hway, hother⟩
        rw [hways _ hway c hc] at hother
        cases hother
      rw [List.cons_append, run_cons, hheads, cut_reads, advance, if_pos hc, hadvance,
        List.filter_nil, ih (fun d hd => hfront d (List.mem_cons_of_mem _ hd)), lastOr_cons,
        if_neg Bool.false_ne_true, Option.or_none, Option.map_map, List.length_cons]
      rfl

end Regex

/-!
# Letters and digits
-/

namespace CharSet

variable {c : Char}

def letterForms : List Char :=
  (List.range 26).map (fun n => Char.ofNat (n + 65)) ++
    (List.range 26).map (fun n => Char.ofNat (n + 97)) ++ [Char.ofNat 0x17F, Char.ofNat 0x212A]

theorem mem_letterForms (h : (foldLetter c).isLower = true) : c ∈ letterForms := by
  unfold foldLetter at h
  split at h
  · rename_i hascii
    have hall := Text.of_ascii (p := fun c => !c.toLower.isLower || letterForms.elem c)
      (by decide) hascii
    rw [h, Bool.not_true, Bool.false_or] at hall
    exact List.elem_iff.mp hall
  · split at h
    · rename_i hlong
      rw [← Char.ofNat_toNat c, beq_iff_eq.mp hlong]
      decide
    · split at h
      · rename_i hkelvin
        rw [← Char.ofNat_toNat c, beq_iff_eq.mp hkelvin]
        decide
      · rename_i hascii _ _
        have hle := of_decide_eq_true (Bool.and_eq_true_iff.mp h).2
        exact absurd (Nat.lt_of_le_of_lt hle (by decide)) hascii

theorem of_letterForms {p : Char -> Bool} (hp : letterForms.all p = true)
    (h : (foldLetter c).isLower = true) : p c = true :=
  List.all_eq_true.mp hp c (mem_letterForms h)

theorem isWord_of_fold (h : (foldLetter c).isLower = true) : Text.isWord c = true :=
  of_letterForms (by decide +kernel) h

theorem not_digit_of_fold (h : (foldLetter c).isLower = true) : digit.has c = false := by
  have hnot := of_letterForms (p := fun c => !digit.has c) (by decide) h
  rwa [Bool.not_eq_true'] at hnot

theorem isWord_of_digit (h : digit.has c = true) : Text.isWord c = true := by
  have hdigit := Bool.and_eq_true_iff.mp h
  unfold Text.isWord
  split
  · rename_i hascii
    have hnumber := hdigit.1
    rw [Text.isDigit, if_pos hascii] at hnumber
    rw [Char.isAlphanum, hnumber, Bool.or_true, Bool.true_or]
  · rw [hdigit.2, hdigit.1, Bool.true_and, Bool.or_true, Bool.true_or]

theorem hexDigit_of_digit (h : digit.has c = true) : Rule.hexDigit.has c = true := by
  rw [Rule.hexDigit, has, h, Bool.true_or]

theorem isWord_of_hexDigit (h : Rule.hexDigit.has c = true) : Text.isWord c = true := by
  rw [Rule.hexDigit, has, Bool.or_eq_true] at h
  rcases h with hdigit | hletter
  · exact isWord_of_digit hdigit
  · simp only [has, Bool.or_eq_true, beq_iff_eq] at hletter
    apply isWord_of_fold
    rcases hletter with hfold | hfold | hfold | hfold | hfold | hfold
    all_goals
      rw [hfold]
      rfl

end CharSet

namespace Text

def Spans.bits (spans : Spans) : Nat :=
  spans.foldr (fun (first, last) set => (1 <<< (last + 1 - first) - 1) <<< first ||| set) 0

theorem Spans.testBit_bits {spans : Spans} {n : Nat} (h : spans.has n = true) :
    spans.bits.testBit n = true := by
  induction spans with
  | nil =>
      cases h
  | cons span rest ih =>
      rcases span with ⟨first, last⟩
      change ((1 <<< (last + 1 - first) - 1) <<< first ||| Spans.bits rest).testBit n = true
      rw [Nat.testBit_or, Nat.testBit_shiftLeft, Nat.one_shiftLeft, Nat.testBit_two_pow_sub_one]
      unfold Spans.has at h
      split at h
      · cases h
      · split at h
        · have hoffset : n - first < last + 1 - first := by omega
          rw [decide_eq_true (Nat.le_of_not_lt ‹_›), decide_eq_true hoffset]
          rfl
        · rw [ih h, Bool.or_true]

theorem Spans.not_has_of_bits {a b : Spans} (h : a.bits &&& b.bits = 0) {n : Nat}
    (ha : a.has n = true) : b.has n = false := by
  apply Bool.eq_false_iff.mpr
  intro hb
  have hboth := Nat.testBit_and a.bits b.bits n
  rw [h, testBit_bits ha, testBit_bits hb, Nat.zero_testBit] at hboth
  cases hboth

theorem extra_apart_numeral : wordExtraSpans.bits &&& otherNumeralSpans.bits = 0 := by
  decide +kernel

theorem letter_or_digit {c : Char} (hname : isNameChar c = true) (hword : isWord c = true) :
    isLetter c = true ∨ c = '_' ∨ CharSet.digit.has c = true := by
  by_cases hascii : c.toNat < 128
  · have hall := of_ascii
      (p := fun c => !isNameChar c || isLetter c || c == '_' || CharSet.digit.has c)
      (by decide) hascii
    rw [hname] at hall
    simpa [or_assoc] using hall
  · rw [isWord, if_neg hascii, Bool.and_eq_true, Bool.or_eq_true, Bool.or_eq_true] at hword
    rcases hword with ⟨hold, (hletter | hdigit) | hextra⟩
    · exact Or.inl hletter
    · exact Or.inr (Or.inr (Bool.and_eq_true_iff.mpr ⟨hdigit, hold⟩))
    · rw [isNameChar, if_neg hascii, isNumeral, Bool.or_eq_true, Bool.or_eq_true,
        Spans.not_has_of_bits extra_apart_numeral hextra] at hname
      rcases hname with hletter | hdigit | hother
      · exact Or.inl hletter
      · exact Or.inr (Or.inr (Bool.and_eq_true_iff.mpr ⟨hdigit, hold⟩))
      · cases hother

end Text

/-!
# Forms of numbers
-/

namespace Text

variable {p front exponent : Text} {c d : Char}

def isInteger (p : Text) : Bool := !p.isEmpty && p.all CharSet.digit.has

def isHexadecimal : Text -> Bool
  | z :: x :: p => z == '0' && CharSet.foldLetter x == 'x' && !p.isEmpty && p.all Rule.hexDigit.has
  | _ => false

def isFloat (p : Text) : Bool :=
  match p.dropWhile CharSet.digit.has with
  | e :: exponent =>
      isInteger (p.takeWhile CharSet.digit.has) && CharSet.foldLetter e == 'e' && isInteger exponent
  | [] => false

def isNumber (p : Text) : Bool :=
  isInteger p || isHexadecimal p || isFloat p

theorem isInteger_iff : isInteger p = true <->
    p ≠ [] ∧ forall c, c ∈ p -> CharSet.digit.has c = true := by
  rw [isInteger, Bool.and_eq_true, Bool.not_eq_true', List.isEmpty_eq_false_iff, List.all_eq_true]

theorem isHexadecimal_iff : isHexadecimal p = true <-> exists x digits, p = '0' :: x :: digits ∧
    CharSet.foldLetter x = 'x' ∧ digits ≠ [] ∧
      forall c, c ∈ digits -> Rule.hexDigit.has c = true := by
  constructor
  · intro h
    unfold isHexadecimal at h
    split at h
    · rename_i z x digits
      simp only [Bool.and_eq_true, beq_iff_eq, Bool.not_eq_true', List.isEmpty_eq_false_iff,
        List.all_eq_true] at h
      rcases h with ⟨⟨⟨rfl, hx⟩, hne⟩, hdigits⟩
      exact ⟨x, digits, rfl, hx, hne, hdigits⟩
    · cases h
  · rintro ⟨x, digits, rfl, hx, hne, hdigits⟩
    rw [isHexadecimal, hx, List.isEmpty_eq_false_iff.mpr hne, List.all_eq_true.mpr hdigits]
    rfl

theorem isFloat_iff : isFloat p = true <-> exists front e exponent, p = front ++ e :: exponent ∧
    isInteger front = true ∧ CharSet.foldLetter e = 'e' ∧ isInteger exponent = true := by
  constructor
  · intro h
    unfold isFloat at h
    split at h
    · rename_i e exponent hbehind
      rw [Bool.and_eq_true, Bool.and_eq_true, beq_iff_eq] at h
      refine ⟨p.takeWhile CharSet.digit.has, e, exponent, ?_, h.1.1, h.1.2, h.2⟩
      rw [← hbehind, List.takeWhile_append_dropWhile]
    · cases h
  · rintro ⟨front, e, exponent, rfl, hfront, he, hexponent⟩
    have hdigits := (isInteger_iff.mp hfront).2
    have hstops : Regex.Stops .digit (e :: exponent) := by
      intro c hc
      cases hc
      exact CharSet.not_digit_of_fold (he ▸ rfl)
    rw [isFloat, hstops.dropWhile_eq hdigits, hstops.takeWhile_eq hdigits, hfront]
    dsimp only
    rw [he, hexponent]
    rfl

theorem exists_digit (h : isNumber p = true) :
    exists c rest, p = c :: rest ∧ CharSet.digit.has c = true := by
  rw [isNumber, Bool.or_eq_true, Bool.or_eq_true, or_assoc] at h
  have hinteger : forall p, isInteger p = true ->
      exists c rest, p = c :: rest ∧ CharSet.digit.has c = true := by
    intro p hp
    cases p with
    | nil => cases hp
    | cons c rest => exact ⟨c, rest, rfl, (isInteger_iff.mp hp).2 c List.mem_cons_self⟩
  rcases h with h | h | h
  · exact hinteger p h
  · rcases isHexadecimal_iff.mp h with ⟨x, digits, rfl, _⟩
    exact ⟨'0', x :: digits, rfl, by decide⟩
  · rcases isFloat_iff.mp h with ⟨front, e, exponent, rfl, hfront, _⟩
    rcases hinteger front hfront with ⟨c, rest, rfl, hc⟩
    exact ⟨c, rest ++ e :: exponent, rfl, hc⟩

end Text

/-!
# What the expressions take
-/

namespace Rule

open Regex

def hexadecimal : Regex := sequence [minus, text "0x", plus (chars hexDigit)]

def exponential : Regex :=
  sequence [minus, digits, opt (char '.' ++ digits), char 'e', minus, digits]

def integer : Regex := minus ++ digits

def signs (set : CharSet) : Bool := set == .oneOf ['-'] || set == .oneOf ['.']

/-- An expression takes the texts of a form and, where it can go on with a set, goes on. -/
structure Measures (regex : Regex) (set : CharSet) (form : Text -> Bool) : Prop where
  of_spells : exists pruned, regex.prune signs = some pruned ∧
    forall u, pruned.Spells u -> form u = true
  append : forall u v, form u = true -> (forall c, c ∈ v -> set.has c = true) ->
    form (u ++ v) = true
  matchLength?_eq : forall u behind, form u = true -> Stops set behind ->
    regex.matchLength? (u ++ behind) = some u.length
  isWord : forall u, form u = true -> forall c, c ∈ u -> Text.isWord c = true

variable {u digitsIn : Text}

theorem isInteger_of_spells (h : digits.Spells u) : Text.isInteger u = true := by
  refine Text.isInteger_iff.mpr ⟨?_, h.all_plus_chars⟩
  rintro rfl
  exact absurd h.mayBeEmpty (by decide)

theorem ne_minus_of_digit {c : Char} (h : CharSet.digit.has c = true) : c ≠ '-' := by
  rintro rfl
  exact absurd h (by decide)

theorem measures_integer : Measures integer .digit Text.isInteger where
  of_spells := ⟨digits, by decide, fun _ => isInteger_of_spells⟩
  append := by
    intro u v hu hv
    rcases Text.isInteger_iff.mp hu with ⟨hne, hdigits⟩
    exact Text.isInteger_iff.mpr
      ⟨List.append_ne_nil_of_left_ne_nil hne v, List.forall_mem_append.mpr ⟨hdigits, hv⟩⟩
  matchLength?_eq := by
    intro u behind hu hstops
    rcases Text.isInteger_iff.mp hu with ⟨hne, hdigits⟩
    cases u with
    | nil =>
        exact absurd rfl hne
    | cons c u =>
        rw [Regex.matchLength?, List.cons_append]
        exact (run_minus (ne_minus_of_digit (hdigits c List.mem_cons_self)) none _ _).trans
          (run_plus_chars hne hdigits hstops none)
  isWord := fun u hu c hc => CharSet.isWord_of_digit ((Text.isInteger_iff.mp hu).2 c hc)

theorem measures_hexadecimal : Measures hexadecimal hexDigit Text.isHexadecimal where
  of_spells := by
    refine ⟨text "0x" ++ plus (chars hexDigit), by decide, ?_⟩
    intro u h
    cases h with
    | seq hopening hdigits =>
        cases hopening with
        | seq hzero hx =>
            rcases spells_chars hx with ⟨x, rfl, hfold⟩
            rw [hzero.eq_char rfl]
            refine Text.isHexadecimal_iff.mpr
              ⟨x, _, rfl, beq_iff_eq.mp hfold, ?_, hdigits.all_plus_chars⟩
            rintro rfl
            exact absurd hdigits.mayBeEmpty (by decide)
  append := by
    intro u v hu hv
    rcases Text.isHexadecimal_iff.mp hu with ⟨x, more, rfl, hx, hne, hdigits⟩
    exact Text.isHexadecimal_iff.mpr ⟨x, more ++ v, rfl, hx,
      List.append_ne_nil_of_left_ne_nil hne v, List.forall_mem_append.mpr ⟨hdigits, hv⟩⟩
  matchLength?_eq := by
    intro u behind hu hstops
    rcases Text.isHexadecimal_iff.mp hu with ⟨x, more, rfl, hx, hne, hdigits⟩
    have hset : (CharSet.letter 'x').has x = true := beq_iff_eq.mpr hx
    have hopening : forall rest, run none [text "0x" ++ plus (chars hexDigit)] ('0' :: x :: rest) =
        (run (some x) [plus (chars hexDigit)] rest).map (· + 2) := by
      intro rest
      have hzero : run none [text "0x" ++ plus (chars hexDigit)] ('0' :: x :: rest) =
          (run (some '0') [seq (chars (.letter 'x')) (plus (chars hexDigit))]
            (x :: rest)).map (· + 1) := by
        rw [run_cons]
        exact Option.or_none
      rw [hzero, run_chars_seq hset, Option.map_map]
      rfl
    rw [Regex.matchLength?, List.cons_append, List.cons_append]
    refine (run_minus (by decide) none _ _).trans ((hopening _).trans ?_)
    rw [run_plus_chars hne hdigits hstops]
    rfl
  isWord := by
    intro u hu c hc
    rcases Text.isHexadecimal_iff.mp hu with ⟨x, more, rfl, hx, _, hdigits⟩
    rcases List.mem_cons.mp hc with rfl | hc
    · decide
    · rcases List.mem_cons.mp hc with rfl | hc
      · exact CharSet.isWord_of_fold (hx ▸ rfl)
      · exact CharSet.isWord_of_hexDigit (hdigits c hc)

def exponentRest : Regex :=
  sequence [opt (char '.' ++ digits), char 'e', minus, digits]

def exponentWays : List (CharSet × Regex) :=
  [(.oneOf ['.'], digits ++ (char 'e' ++ (minus ++ digits))), (.letter 'e', minus ++ digits)]

theorem heads_exponentRest (before after : Option Char) : heads before after exponentRest =
    exponentWays.map fun way => Head.read way.1 way.2 :=
  rfl

theorem not_digit_of_exponentWays : forall way, way ∈ exponentWays -> forall c,
    CharSet.digit.has c = true -> way.1.has c = false := by
  intro way hway c hc
  simp only [exponentWays, List.mem_cons, List.not_mem_nil, or_false] at hway
  rcases hway with rfl | rfl
  · have hpoint : c ≠ '.' := by
      rintro rfl
      exact absurd hc (by decide)
    simpa [CharSet.has] using hpoint
  · apply Bool.eq_false_iff.mpr
    intro hfold
    rw [CharSet.not_digit_of_fold (by rw [beq_iff_eq.mp hfold]; rfl)] at hc
    cases hc

theorem run_exponentRest {e : Char} {exponent behind : Text}
    (he : CharSet.foldLetter e = 'e') (hexponent : Text.isInteger exponent = true)
    (hstops : Stops .digit behind) (before : Option Char) :
    run before [exponentRest] (e :: (exponent ++ behind)) = some (exponent.length + 1) := by
  have hways : (cut ([exponentRest].flatMap (heads before (some e)))) = (exponentWays, false) :=
    cut_reads exponentWays
  have hadvance : advance e exponentWays = [minus ++ digits] := by
    have hpoint : e ≠ '.' := by
      rintro rfl
      exact absurd he (by decide)
    simp [exponentWays, advance, CharSet.has, hpoint, he]
  rcases Text.isInteger_iff.mp hexponent with ⟨hne, hdigits⟩
  have hrun : run (some e) [minus ++ digits] (exponent ++ behind) = some exponent.length := by
    cases exponent with
    | nil =>
        exact absurd rfl hne
    | cons c exponent =>
        exact (run_minus (ne_minus_of_digit (hdigits c List.mem_cons_self)) _ _ _).trans
          (run_plus_chars hne hdigits hstops _)
  rw [run_cons, hways, hadvance, hrun]
  rfl

theorem measures_exponential : Measures exponential .digit Text.isFloat where
  of_spells := by
    refine ⟨digits ++ (char 'e' ++ digits), by decide, ?_⟩
    intro u h
    cases h with
    | seq hfront h =>
        cases h with
        | seq hletter hexponent =>
            rcases spells_chars hletter with ⟨e, rfl, he⟩
            exact Text.isFloat_iff.mpr ⟨_, e, _, rfl, isInteger_of_spells hfront,
              beq_iff_eq.mp he, isInteger_of_spells hexponent⟩
  append := by
    intro u v hu hv
    rcases Text.isFloat_iff.mp hu with ⟨front, e, exponent, rfl, hfront, he, hexponent⟩
    exact Text.isFloat_iff.mpr ⟨front, e, exponent ++ v, List.append_assoc _ _ _, hfront, he,
      measures_integer.append exponent v hexponent hv⟩
  matchLength?_eq := by
    intro u behind hu hstops
    rcases Text.isFloat_iff.mp hu with ⟨front, e, exponent, rfl, hfront, he, hexponent⟩
    rcases Text.isInteger_iff.mp hfront with ⟨hne, hdigits⟩
    have hletter : Stops .digit (e :: (exponent ++ behind)) := by
      intro c hc
      cases hc
      exact CharSet.not_digit_of_fold (he ▸ rfl)
    cases front with
    | nil =>
        exact absurd rfl hne
    | cons c front =>
        have hc := hdigits c List.mem_cons_self
        rw [Regex.matchLength?, List.cons_append, List.cons_append, List.append_assoc,
          List.cons_append]
        refine (run_minus (ne_minus_of_digit hc) none (digits ++ exponentRest) _).trans ?_
        refine (run_plus_seq hc none exponentRest _).trans ?_
        rw [run_star_seq heads_exponentRest not_digit_of_exponentWays
          (fun d hd => hdigits d (List.mem_cons_of_mem _ hd)) hletter,
          run_exponentRest he hexponent hstops, Option.map_some, Option.map_some, List.length_cons,
          List.length_append, List.length_cons, Nat.add_comm (exponent.length + 1)]
  isWord := by
    intro u hu c hc
    rcases Text.isFloat_iff.mp hu with ⟨front, e, exponent, rfl, hfront, he, hexponent⟩
    rcases List.mem_append.mp hc with hleft | hright
    · exact measures_integer.isWord front hfront c hleft
    · rcases List.mem_cons.mp hright with rfl | hright
      · exact CharSet.isWord_of_fold (he ▸ rfl)
      · exact measures_integer.isWord exponent hexponent c hright

theorem Measures.matchLength?_iff {regex : Regex} {set : CharSet} {form : Text -> Bool}
    (h : Measures regex set form) {text : Text} (hminus : '-' ∉ text) (hpoint : '.' ∉ text)
    {n : Nat} : regex.matchLength? text = some n <->
      exists front behind, text = front ++ behind ∧ n = front.length ∧ form front = true ∧
        Stops set behind := by
  constructor
  · intro hmatch
    have hle := (Regex.spells_of_matchLength? hmatch).1
    have hfree : forall other, signs other = true -> forall c, c ∈ text.take n ->
        other.has c = false := by
      intro other hother c hc
      have hmem := List.mem_of_mem_take hc
      simp only [signs, Bool.or_eq_true, beq_iff_eq] at hother
      rcases hother with rfl | rfl
      · simpa [CharSet.has] using ne_of_mem_of_not_mem hmem hminus
      · simpa [CharSet.has] using ne_of_mem_of_not_mem hmem hpoint
    rcases exists_prune (takes_of_matchLength? hmatch) hfree with ⟨pruned, hpruned, htakes⟩
    rcases h.of_spells with ⟨pruned', hpruned', hform⟩
    rw [hpruned, Option.some.injEq] at hpruned'
    have hfront := hform _ (hpruned' ▸ htakes.spells)
    -- Whatever could be read on has been read.
    rcases exists_stops set (text.drop n) with ⟨more, behind, hdrop, hmore, hstops⟩
    have hlong := h.matchLength?_eq (text.take n ++ more) behind (h.append _ _ hfront hmore) hstops
    rw [List.append_assoc, ← hdrop, List.take_append_drop, hmatch, Option.some.injEq,
      List.length_append, List.length_take, Nat.min_eq_left hle] at hlong
    have hnil : more = [] := List.eq_nil_of_length_eq_zero (by omega)
    rw [hnil, List.nil_append] at hdrop
    refine ⟨text.take n, text.drop n, (List.take_append_drop n text).symm, ?_, hfront,
      hdrop ▸ hstops⟩
    rw [List.length_take, Nat.min_eq_left hle]
  · rintro ⟨front, behind, rfl, rfl, hform, hstops⟩
    exact h.matchLength?_eq front behind hform hstops

end Rule
end SqlLayout
