import Mathlib.Data.List.Forall2
import SqlLayout.Proofs.Lexer.Agreement
import SqlLayout.Proofs.Regex.Cutting

/-!
# The case of letters

The lexer does not tell the small ASCII letters from the capital ones.  Writing a
text in small letters commutes with reading it: each character set, each condition
on the surroundings and the look-up of a word see the same.  Only dollar marks are
compared as they stand, so the text must not have any.
-/

namespace SqlLayout

/-!
# Characters
-/

def capitals : List Char :=
  "ABCDEFGHIJKLMNOPQRSTUVWXYZ".toList

theorem mem_capitals {c : Char} (h : c.isUpper = true) : c ∈ capitals := by
  have hbounds : 65 <= c.toNat ∧ c.toNat <= 90 := by
    have hvalue := of_decide_eq_true h
    exact ⟨UInt32.le_iff_toNat_le.mp hvalue.1, UInt32.le_iff_toNat_le.mp hvalue.2⟩
  have hall : forall n, n < 26 -> Char.ofNat (65 + n) ∈ capitals := by decide
  have hmem := hall (c.toNat - 65) (by omega)
  rw [Nat.add_sub_cancel' hbounds.1, Char.ofNat_toNat] at hmem
  exact hmem

theorem toLower_eq_self {c : Char} (h : c ∉ capitals) : c.toLower = c := by
  unfold Char.toLower
  rw [dif_neg]
  intro hbounds
  exact h (mem_capitals (decide_eq_true hbounds))

/-- What is the same for a capital letter and its small form is the same for every
character and its small form. -/
theorem apply_toLower {alpha : Type} {f : Char -> alpha}
    (h : capitals.map (fun c => f c.toLower) = capitals.map f) (c : Char) :
    f c.toLower = f c := by
  by_cases hc : c ∈ capitals
  · exact List.map_inj_left.mp h c hc
  · rw [toLower_eq_self hc]

theorem elem_toLower {cs : List Char} (h : cs.all (!·.isAlpha) = true) (c : Char) :
    cs.elem c.toLower = cs.elem c := by
  have hletters : capitals.all (fun c => c.isAlpha && c.toLower.isAlpha) = true := by
    decide
  have hout : forall d : Char, d.isAlpha = true -> cs.elem d = false := by
    intro d hd
    apply Bool.eq_false_iff.mpr
    intro hmem
    have hno := List.all_eq_true.mp h d (List.elem_iff.mp hmem)
    rw [hd] at hno
    cases hno
  refine apply_toLower (f := fun c => cs.elem c) (List.map_inj_left.mpr fun c hc => ?_) c
  rcases Bool.and_eq_true_iff.mp (List.all_eq_true.mp hletters c hc) with ⟨hcapital, hsmall⟩
  rw [hout c hcapital, hout c.toLower hsmall]

theorem beq_toLower {d : Char} (hd : d.isAlpha = false) (c : Char) :
    (c.toLower == d) = (c == d) := by
  have helem : [d].elem c.toLower = [d].elem c := elem_toLower (by simp [hd]) c
  simpa [Bool.beq_eq_decide_eq] using helem

theorem any_toLower {p : Char -> Bool} (hp : forall c : Char, p c.toLower = p c)
    (side : Option Char) : (side.map Char.toLower).any p = side.any p := by
  cases side with
  | none =>
      rfl
  | some c =>
      exact hp c

namespace Text

theorem isWord_toLower (c : Char) : isWord c.toLower = isWord c :=
  apply_toLower (by decide) c

theorem isBlank_toLower (c : Char) : isBlank c.toLower = isBlank c :=
  apply_toLower (by decide) c

theorem isLetter_toLower (c : Char) : isLetter c.toLower = isLetter c :=
  apply_toLower (by decide) c

theorem isNameChar_toLower (c : Char) : isNameChar c.toLower = isNameChar c :=
  apply_toLower (by decide) c

theorem upperChar_toLower (c : Char) : upperChar c.toLower = upperChar c :=
  apply_toLower (by decide) c

theorem utf8Size_toLower (c : Char) : c.toLower.utf8Size = c.utf8Size :=
  apply_toLower (by decide) c

theorem byteLength_asciiLower (text : Text) : text.asciiLower.byteLength = text.byteLength := by
  induction text with
  | nil =>
      rfl
  | cons c rest ih =>
      unfold asciiLower at ih ⊢
      rw [List.map_cons, byteLength, byteLength, ih, utf8Size_toLower]

theorem upper_asciiLower (text : Text) : text.asciiLower.upper = text.upper := by
  unfold upper asciiLower
  rw [List.flatMap_map]
  exact List.flatMap_congr fun c _ => upperChar_toLower c

theorem trimStart_asciiLower (text : Text) :
    text.asciiLower.trimStart = text.trimStart.asciiLower := by
  unfold trimStart asciiLower
  rw [List.dropWhile_map]
  congr 2
  exact funext isBlank_toLower

theorem head?_asciiLower (text : Text) : text.asciiLower.head? = text.head?.map Char.toLower :=
  List.head?_map

theorem getLast?_asciiLower (text : Text) :
    text.asciiLower.getLast? = text.getLast?.map Char.toLower :=
  List.getLast?_map

theorem take_asciiLower (n : Nat) (text : Text) :
    text.asciiLower.take n = asciiLower (text.take n) :=
  List.map_take.symm

theorem drop_asciiLower (n : Nat) (text : Text) :
    text.asciiLower.drop n = asciiLower (text.drop n) :=
  List.map_drop.symm

theorem not_mem_asciiLower {c : Char} (hc : c.isAlpha = false) {text : Text} (h : c ∉ text) :
    c ∉ text.asciiLower := by
  intro hmem
  rcases List.mem_map.mp hmem with ⟨d, hd, heq⟩
  have hsame := beq_toLower hc d
  rw [heq, beq_self_eq_true, eq_comm, beq_iff_eq] at hsame
  exact h (hsame ▸ hd)

end Text

/-!
# Regular expressions
-/

def CharSet.caseless : CharSet -> Bool
  | any => true
  | oneOf cs => cs.all (!·.isAlpha)
  | noneOf cs => cs.all (!·.isAlpha)
  | letter _ => true
  | blank => true
  | digit => true
  | word => true
  | nameStart => true
  | either a b => a.caseless && b.caseless

theorem CharSet.has_toLower {set : CharSet} (h : set.caseless = true) (c : Char) :
    set.has c.toLower = set.has c := by
  induction set with
  | any => rfl
  | oneOf cs => exact elem_toLower h c
  | noneOf cs => exact congrArg not (elem_toLower h c)
  | letter l =>
      have hfold : foldLetter c.toLower = foldLetter c :=
        apply_toLower (by decide) c
      unfold has
      rw [hfold]
  | blank => exact Text.isBlank_toLower c
  | digit => exact apply_toLower (f := digit.has) (by decide) c
  | word => exact Text.isWord_toLower c
  | nameStart => exact apply_toLower (f := nameStart.has) (by decide) c
  | either a b iha ihb =>
      rcases Bool.and_eq_true_iff.mp h with ⟨ha, hb⟩
      unfold has
      rw [iha ha, ihb hb]

namespace Regex

def caseless (r : Regex) : Bool :=
  (r :: tails r).all fun tail => (ways tail).all fun way => way.1.caseless

theorem advance_toLower {ways : List (CharSet × Regex)}
    (h : forall way, way ∈ ways -> way.1.caseless = true) (c : Char) :
    advance c.toLower ways = advance c ways := by
  induction ways with
  | nil =>
      rfl
  | cons way ways ih =>
      rw [advance_cons, advance_cons, CharSet.has_toLower (h way List.mem_cons_self),
        ih fun other hother => h other (List.mem_cons_of_mem _ hother)]

/-- The threads of a match are tails of the expression, so that each of them reads a
small letter as it reads the capital one. -/
theorem run_asciiLower {r : Regex} (hr : r.caseless = true) {threads : List Regex}
    (hthreads : forall thread, thread ∈ threads -> thread ∈ r :: tails r)
    {before before' : Option Char} (hbefore : isWordAt before' = isWordAt before) (text : Text) :
    run before' threads text.asciiLower = run before threads text := by
  induction text generalizing before before' threads with
  | nil =>
      exact run_congr_before hbefore []
  | cons c rest ih =>
      have hside : isWordAt (some c.toLower) = isWordAt (some c) := Text.isWord_toLower c
      have hheads : threads.flatMap (heads before' (some c.toLower)) =
          threads.flatMap (heads before (some c)) :=
        List.flatMap_congr fun thread _ => heads_congr hbefore hside (Or.inr rfl)
      have hways : forall way, way ∈ (cut (threads.flatMap (heads before (some c)))).1 ->
          way.1.caseless = true := by
        intro way hway
        rcases List.mem_flatMap.mp (mem_of_cut hway) with ⟨thread, hthread, hhead⟩
        have hall := List.all_eq_true.mp hr thread (hthreads thread hthread)
        exact List.all_eq_true.mp hall way (mem_ways_of_heads hhead)
      change run before' threads (c.toLower :: Text.asciiLower rest) = _
      rw [run_cons, run_cons, hheads, advance_toLower hways, ih ?_ hside]
      intro tail htail
      exact List.mem_cons_of_mem _ (mem_tails_of_advance hthreads htail).1

theorem matchLength?_asciiLower {r : Regex} (hr : r.caseless = true) (text : Text) :
    r.matchLength? text.asciiLower = r.matchLength? text :=
  run_asciiLower hr (fun _ hthread => List.mem_singleton.mp hthread ▸ List.mem_cons_self) rfl text

end Regex

/-!
# Conditions on the surroundings
-/

namespace Surroundings

def lowered (s : Surroundings) : Surroundings :=
  ⟨s.before.map Char.toLower, s.matched.asciiLower, s.after.asciiLower⟩

def IgnoresCase (guard : Surroundings -> Bool) : Prop :=
  forall s, guard s.lowered = guard s

theorem ignoresCase_true : IgnoresCase fun _ => true :=
  fun _ => rfl

theorem ignoresCase_notAfterName : IgnoresCase notAfterName := by
  intro s
  unfold notAfterName
  rw [beforeHas_eq, beforeHas_eq, lowered, any_toLower Text.isNameChar_toLower]

theorem ignoresCase_beforePeriod : IgnoresCase beforePeriod := by
  intro s
  unfold beforePeriod lowered
  rw [Text.trimStart_asciiLower, Text.head?_asciiLower, beq_some_eq_any, beq_some_eq_any]
  exact any_toLower (beq_toLower rfl) _

theorem ignoresCase_afterPeriod : IgnoresCase afterPeriod := by
  intro s
  unfold afterPeriod lowered
  rw [beq_some_eq_any, beq_some_eq_any]
  exact any_toLower (beq_toLower rfl) _

theorem ignoresCase_beforeParenthesis : IgnoresCase beforeParenthesis := by
  intro s
  unfold beforeParenthesis lowered
  rw [Text.head?_asciiLower, beq_some_eq_any, beq_some_eq_any]
  exact any_toLower (beq_toLower rfl) _

theorem ignoresCase_notIndexing : IgnoresCase notIndexing := by
  intro s
  unfold notIndexing
  rw [beforeHas_eq, beforeHas_eq, lowered, any_toLower]
  intro c
  rw [Text.isNameChar_toLower, beq_toLower rfl, beq_toLower rfl]

theorem ignoresCase_numberStandsAlone : IgnoresCase numberStandsAlone := by
  intro s
  rw [numberStandsAlone_eq, numberStandsAlone_eq, lowered, Text.head?_asciiLower,
    Text.head?_asciiLower, beq_some_eq_any, beq_some_eq_any, any_toLower, any_toLower, any_toLower]
  · intro c
    rw [Text.isNameChar_toLower, beq_toLower rfl, beq_toLower rfl]
  · exact beq_toLower rfl
  · intro c
    rw [Text.isLetter_toLower, beq_toLower rfl]

end Surroundings

/-!
# Rules
-/

namespace Rule

open Surroundings

theorem rules_caseless (dialect : Dialect) :
    (ofDialect dialect).all (·.regex.caseless) = true := by
  apply all_ofDialect
  · cases dialect with
    | generic => decide
    | postgresql => decide
    | mysql => decide
  · decide

theorem guards_ignoreCase (dialect : Dialect) :
    forall rule, rule ∈ ofDialect dialect -> IgnoresCase rule.guard := by
  cases dialect <;>
    simp [ofDialect, comments, marks, quotedNames, dollarQuotes, placeholders, specialNames, words,
      numbers, strings, phrases, plain, guarded, ignoresCase_true, ignoresCase_notAfterName,
      ignoresCase_beforePeriod, ignoresCase_afterPeriod, ignoresCase_beforeParenthesis,
      ignoresCase_notIndexing, ignoresCase_numberStandsAlone]

theorem matchLength?_asciiLower {rule : Rule} (hregex : rule.regex.caseless = true)
    (hguard : IgnoresCase rule.guard) (before : Option Char) (text : Text) :
    rule.matchLength? (before.map Char.toLower) text.asciiLower =
      rule.matchLength? before text := by
  unfold matchLength?
  rw [Regex.matchLength?_asciiLower hregex]
  rcases rule.regex.matchLength? text with _ | _ | n
  · rfl
  · rfl
  · have hsame := hguard ⟨before, text.take (n + 1), text.drop (n + 1)⟩
    unfold lowered at hsame
    dsimp only at hsame
    change (if rule.guard ⟨before.map Char.toLower, text.asciiLower.take (n + 1),
      text.asciiLower.drop (n + 1)⟩ then _ else _) = _
    rw [Text.take_asciiLower, Text.drop_asciiLower, hsame]
    rfl

theorem first?_asciiLower (dialect : Dialect) (before : Option Char) (text : Text) :
    first? (ofDialect dialect) (before.map Char.toLower) text.asciiLower =
      first? (ofDialect dialect) before text := by
  have hrules : forall rule, rule ∈ ofDialect dialect ->
      (rule.matchLength? (before.map Char.toLower) text.asciiLower).map (rule.action, ·) =
        (rule.matchLength? before text).map (rule.action, ·) := by
    intro rule hrule
    rw [matchLength?_asciiLower (List.all_eq_true.mp (rules_caseless dialect) rule hrule)
      (guards_ignoreCase dialect rule hrule)]
  unfold first?
  generalize ofDialect dialect = rules at hrules
  induction rules with
  | nil =>
      rfl
  | cons rule rules ih =>
      rw [List.findSome?_cons, List.findSome?_cons, hrules rule List.mem_cons_self,
        ih fun other hother => hrules other (List.mem_cons_of_mem _ hother)]

end Rule

/-!
# Tokens
-/

theorem Vocabulary.classify_asciiLower (v : Vocabulary) (word : Text) :
    v.classify word.asciiLower = v.classify word := by
  unfold classify
  rw [Text.upper_asciiLower]

def Token.lowered (token : Token) : Token :=
  { token with value := token.value.asciiLower }

namespace Scan

variable {config : LexerConfig}

def lowered (scan : Scan) : Scan :=
  { scan with before := scan.before.map Char.toLower, rest := scan.rest.asciiLower }

theorem classify_lowered (scan : Scan) : scan.lowered.classify config = scan.classify config := by
  unfold classify lowered
  dsimp only
  rw [Rule.first?_asciiLower]
  rcases Rule.first? (Rule.ofDialect config.dialect) scan.before scan.rest with
    _ | ⟨category | _, n⟩
  · rfl
  · rfl
  · dsimp only
    rw [Text.take_asciiLower, Vocabulary.classify_asciiLower]

theorem outcome_of_no_dollar {scan : Scan} (htag : scan.dollarTag = none)
    (hdollar : '$' ∉ scan.rest) :
    scan.outcome config =
      ((scan.classify config).1, (scan.classify config).2, none) := by
  unfold outcome
  rw [htag]
  dsimp only
  rw [if_neg]
  intro hmark
  have hvalue := (Bool.and_eq_true_iff.mp hmark).2
  unfold Token.isDollarMark at hvalue
  simp only [Bool.and_eq_true, beq_iff_eq] at hvalue
  exact hdollar (List.mem_of_mem_take (List.mem_of_head? hvalue.1.2))

theorem next?_lowered {scan : Scan} (htag : scan.dollarTag = none) (hdollar : '$' ∉ scan.rest) :
    scan.lowered.next? config =
      (scan.next? config).map fun (token, after) => (token.lowered, after.lowered) := by
  have hdollar' : '$' ∉ scan.lowered.rest := Text.not_mem_asciiLower rfl hdollar
  have htag' : scan.lowered.dollarTag = none := htag
  have houtcome : scan.lowered.outcome config = scan.outcome config := by
    rw [outcome_of_no_dollar htag hdollar, outcome_of_no_dollar htag' hdollar', classify_lowered]
  unfold next?
  rw [houtcome]
  cases hrest : scan.rest with
  | nil =>
      rw [show scan.lowered.rest = [] by rw [lowered, hrest]; rfl]
      rfl
  | cons c rest =>
      have hlowered : scan.lowered.rest = Text.asciiLower (c :: rest) := by
        rw [lowered, hrest]
      rw [hlowered]
      change some _ = some _
      rw [Text.take_asciiLower, Text.drop_asciiLower, Text.getLast?_asciiLower,
        Text.byteLength_asciiLower]
      rfl

theorem tokens_lowered (budget : Nat) {scan : Scan} (htag : scan.dollarTag = none)
    (hdollar : '$' ∉ scan.rest) :
    tokens config budget scan.lowered = (tokens config budget scan).map Token.lowered := by
  induction budget generalizing scan with
  | zero =>
      rfl
  | succ budget ih =>
      unfold tokens
      rw [next?_lowered htag hdollar]
      cases hnext : scan.next? config with
      | none =>
          rfl
      | some result =>
          rcases result with ⟨token, after⟩
          have hafter : after.dollarTag = none ∧ '$' ∉ after.rest := by
            unfold next? at hnext
            rw [outcome_of_no_dollar htag hdollar] at hnext
            split at hnext
            · cases hnext
            · cases hnext
              exact ⟨rfl, fun hmem => hdollar (List.mem_of_mem_drop hmem)⟩
          dsimp only [Option.map_some]
          rw [ih hafter.1 hafter.2]
          rfl

end Scan

theorem tokenize_asciiLower (config : LexerConfig) {text : Text} (hdollar : '$' ∉ text) :
    tokenize config text.asciiLower = (tokenize config text).map Token.lowered := by
  have hstart : Scan.dollarTag { rest := text } = none := rfl
  unfold tokenize
  rw [Text.asciiLower, List.length_map]
  exact Scan.tokens_lowered text.length hstart hdollar

/-- Whatever the dialect and the additional keywords, two texts without a dollar sign
that differ only in the case of ASCII letters have as many tokens: one by one these
are of the same category, start at the same byte, and differ only in that case. -/
theorem tokenize_ignores_case (config : LexerConfig) {a b : Text} (hdollar : '$' ∉ a)
    (hcase : Text.sameIgnoringCase a b = true) :
    List.Forall₂
      (fun t u => t.category = u.category ∧ t.position = u.position ∧
        Text.sameIgnoringCase t.value u.value = true)
      (tokenize config a) (tokenize config b) := by
  have hlower : a.asciiLower = b.asciiLower := beq_iff_eq.mp hcase
  have hdollar' : '$' ∉ b := by
    intro hmem
    apply Text.not_mem_asciiLower rfl hdollar
    rw [hlower]
    exact List.mem_map_of_mem (f := Char.toLower) hmem
  have htokens : (tokenize config a).map Token.lowered = (tokenize config b).map Token.lowered := by
    rw [← tokenize_asciiLower config hdollar, ← tokenize_asciiLower config hdollar', hlower]
  rw [← List.forall₂_eq_eq_eq, List.forall₂_map_left_iff, List.forall₂_map_right_iff] at htokens
  refine htokens.imp ?_
  intro t u hsame
  simp only [Token.lowered, Token.mk.injEq] at hsame
  rcases hsame with ⟨hcategory, hvalue, hposition⟩
  exact ⟨hcategory, hposition, beq_iff_eq.mpr hvalue⟩

theorem tokenize_ignores_case_hexadecimal :
    '$' ∉ Text.of "Select 0xAb Union All" ∧
      Text.sameIgnoringCase (Text.of "Select 0xAb Union All") (Text.of "sELECT 0XaB uNION aLL") =
        true ∧
      List.Forall₂
        (fun t u => t.category = u.category ∧ t.position = u.position ∧
          Text.sameIgnoringCase t.value u.value = true)
        (tokenize ⟨.mysql, Vocabulary.ofDialect .mysql⟩ (Text.of "Select 0xAb Union All"))
        (tokenize ⟨.mysql, Vocabulary.ofDialect .mysql⟩ (Text.of "sELECT 0XaB uNION aLL")) :=
  ⟨by decide, by decide, tokenize_ignores_case _ (by decide) (by decide)⟩

end SqlLayout
