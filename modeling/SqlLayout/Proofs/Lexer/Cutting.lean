import Mathlib.Data.List.TakeWhile
import SqlLayout.Proofs.Lexer.Agreement
import SqlLayout.Proofs.Regex.Cutting

/-!
# Rules on a text that is cut off

A piece of a text is read on its own: what stood before it was a blank or a
semicolon, and what stood behind it starts with a blank or follows a semicolon.
The rules of every dialect find the same matches in the piece, those of line
comments up to its end.  The only opening that a cut can go through is `# `.
-/

namespace SqlLayout

/-!
# Pieces
-/

/-- A piece of a text and what stands behind it. -/
structure CutOff (front behind : Text) : Prop where
  ne_nil : front ≠ []
  solid : forall c, front.getLast? = some c -> Text.isBlank c = false
  side : Bare behind.head? ∨ front.getLast? = some ';'

def Loose (side : Option Char) : Prop :=
  forall c, side = some c -> Text.isBlank c = true ∨ c = ';'

def Beside (a b : Option Char) : Prop :=
  a = b ∨ Loose a ∧ Loose b

namespace CutOff

variable {front behind taken : Text}

theorem exists_last (h : CutOff front behind) :
    exists c, front.getLast? = some c ∧ c ∈ front ∧ Text.isBlank c = false := by
  cases hlast : front.getLast? with
  | none =>
      exact absurd (List.getLast?_eq_none_iff.mp hlast) h.ne_nil
  | some c =>
      exact ⟨c, rfl, List.mem_of_getLast? hlast, h.solid c hlast⟩

theorem tail {rest : Text} (h : CutOff (taken ++ rest) behind) (hne : rest ≠ []) :
    CutOff rest behind := by
  have hlast : (taken ++ rest).getLast? = rest.getLast? := by
    rw [List.getLast?_append]
    cases hrest : rest.getLast? with
    | none =>
        exact absurd (List.getLast?_eq_none_iff.mp hrest) hne
    | some c =>
        rfl
  refine ⟨hne, ?_, ?_⟩
  · rw [← hlast]
    exact h.solid
  · rw [← hlast]
    exact h.side

theorem isWordAt_side (h : CutOff front behind) :
    Regex.isWordAt behind.head? = false ∨ front.getLast? = some ';' := by
  refine h.side.imp_left fun hbare => ?_
  cases hhead : behind.head? with
  | none =>
      rfl
  | some c =>
      exact not_isWordAt_blank (hbare c hhead)

theorem exists_beyond (h : CutOff front behind) {n : Nat} (hn : front.length < n)
    (hlength : n <= (front ++ behind).length) :
    exists c, c ∈ (front ++ behind).take n ∧ (Text.isBlank c = true ∨ c = ';') := by
  have htake : (front ++ behind).take n = front ++ behind.take (n - front.length) := by
    rw [List.take_append, List.take_of_length_le (Nat.le_of_lt hn)]
  rw [htake]
  rcases h.side with hbare | hsemicolon
  · cases behind with
    | nil =>
        rw [List.append_nil] at hlength
        exact absurd hlength (Nat.not_le.mpr hn)
    | cons c behind =>
        refine ⟨c, List.mem_append_right _ ?_, Or.inl (hbare c rfl)⟩
        cases hm : n - front.length with
        | zero =>
            omega
        | succ m =>
            rw [List.take_succ_cons]
            exact List.mem_cons_self
  · exact ⟨';', List.mem_append_left _ (List.mem_of_getLast? hsemicolon), Or.inr rfl⟩

end CutOff

/-!
# Conditions on the surroundings
-/

namespace Surroundings

def Blind (guard : Surroundings -> Bool) : Prop :=
  forall before matched after matched' after',
    guard ⟨before, matched, after⟩ = guard ⟨before, matched', after'⟩

theorem any_of_loose {side : Option Char} (h : Loose side) {p : Char -> Bool}
    (hblank : forall c, Text.isBlank c = true -> p c = false) (hsemicolon : p ';' = false) :
    side.any p = false := by
  cases side with
  | none =>
      rfl
  | some c =>
      rcases h c rfl with hc | rfl
      · exact hblank c hc
      · exact hsemicolon

def IgnoresLoose (guard : Surroundings -> Bool) : Prop :=
  forall before matched after, Loose before ->
    guard ⟨before, matched, after⟩ = guard ⟨none, matched, after⟩

theorem ignoresLoose_true : IgnoresLoose fun _ => true :=
  fun _ _ _ _ => rfl

theorem ignoresLoose_notAfterName : IgnoresLoose notAfterName := by
  intro before matched after h
  unfold notAfterName
  rw [beforeHas_eq, beforeHas_eq, any_of_loose h (fun c => not_isNameChar_of_blank) (by decide)]
  rfl

theorem ignoresLoose_beforePeriod : IgnoresLoose beforePeriod :=
  fun _ _ _ _ => rfl

theorem ignoresLoose_afterPeriod : IgnoresLoose afterPeriod := by
  intro before matched after h
  unfold afterPeriod
  rw [beq_some_eq_any, any_of_loose h (fun c hc => beq_false_of_blank hc rfl) (by decide)]
  rfl

theorem ignoresLoose_beforeParenthesis : IgnoresLoose beforeParenthesis :=
  fun _ _ _ _ => rfl

theorem ignoresLoose_notIndexing : IgnoresLoose notIndexing := by
  intro before matched after h
  unfold notIndexing
  rw [beforeHas_eq, beforeHas_eq,
    any_of_loose h (fun c hc => not_endsOperand_of_blank hc rfl rfl) (by decide)]
  rfl

theorem ignoresLoose_numberStandsAlone : IgnoresLoose numberStandsAlone := by
  intro before matched after h
  rw [numberStandsAlone_eq, numberStandsAlone_eq,
    any_of_loose h (fun c hc => not_endsOperand_of_blank hc rfl rfl) (by decide)]
  rfl

theorem IgnoresLoose.beside {guard : Surroundings -> Bool} (h : IgnoresLoose guard)
    {before before' : Option Char} (hbeside : Beside before before') (matched after : Text) :
    guard ⟨before, matched, after⟩ = guard ⟨before', matched, after⟩ := by
  rcases hbeside with rfl | ⟨hloose, hloose'⟩
  · rfl
  · rw [h before matched after hloose, h before' matched after hloose']

end Surroundings

namespace Rule

open Surroundings

/-- A rule that does not tell what is in front, and whose condition does not look
behind the match either, or whose match has neither a blank nor a semicolon. -/
structure Local (rule : Rule) : Prop where
  front : IgnoresLoose rule.guard
  behind : Blind rule.guard ∨
    Respects rule.guard ∧ (rule.regex.blankless && rule.regex.lacks ';') = true

theorem local_plain (regex : Regex) (category : Category) : (plain regex category).Local :=
  ⟨ignoresLoose_true, Or.inl fun _ _ _ _ _ => rfl⟩

theorem local_lookUp (regex : Regex) : Local { regex := regex, action := .lookUp } :=
  ⟨ignoresLoose_true, Or.inl fun _ _ _ _ _ => rfl⟩

theorem local_notAfterName (regex : Regex) (category : Category) :
    (guarded regex category notAfterName).Local :=
  ⟨ignoresLoose_notAfterName, Or.inl fun _ _ _ _ _ => rfl⟩

theorem local_notIndexing (regex : Regex) (category : Category) :
    (guarded regex category notIndexing).Local :=
  ⟨ignoresLoose_notIndexing, Or.inl fun _ _ _ _ _ => rfl⟩

theorem local_name {guard : Surroundings -> Bool} (hfront : IgnoresLoose guard)
    (h : Respects guard) : (guarded nameWord .name guard).Local :=
  ⟨hfront, Or.inr ⟨h, rfl⟩⟩

theorem local_comments (openings : List String) :
    forall rule, rule ∈ comments openings -> rule.Local := by
  simp [comments, local_plain]

theorem local_marks : forall rule, rule ∈ marks -> rule.Local := by
  simp [marks, local_plain]

theorem local_quotedNames : forall rule, rule ∈ quotedNames -> rule.Local := by
  simp [quotedNames, local_plain]

theorem local_dollarQuotes : forall rule, rule ∈ dollarQuotes -> rule.Local := by
  simp [dollarQuotes, local_notAfterName]

theorem local_placeholders : forall rule, rule ∈ placeholders -> rule.Local := by
  simp [placeholders, local_plain, local_notAfterName]

theorem local_specialNames : forall rule, rule ∈ specialNames -> rule.Local := by
  simp [specialNames, local_plain]

theorem local_numbers : forall rule, rule ∈ numbers -> rule.Local := by
  have hregexes :
      numbers.all (fun rule => rule.regex.blankless && rule.regex.lacks ';') = true := by
    decide
  intro rule hrule
  have hguard : rule.guard = numberStandsAlone := by
    simp only [numbers, List.mem_cons, List.not_mem_nil, or_false] at hrule
    rcases hrule with rfl | rfl | rfl | rfl
    · rfl
    · rfl
    · rfl
    · rfl
  refine ⟨?_, Or.inr ⟨?_, List.all_eq_true.mp hregexes rule hrule⟩⟩
  · rw [hguard]
    exact ignoresLoose_numberStandsAlone
  · rw [hguard]
    exact respects_numberStandsAlone

theorem local_words : forall rule, rule ∈ words -> rule.Local := by
  unfold words
  simp only [List.append_assoc, List.forall_mem_append]
  refine ⟨?_, local_numbers, ?_, ?_, ?_⟩
  · simp [local_name, ignoresLoose_beforePeriod, ignoresLoose_afterPeriod,
      ignoresLoose_beforeParenthesis, respects_beforePeriod, respects_afterPeriod,
      respects_beforeParenthesis]
  · simp [strings, local_plain, local_notIndexing]
  · simp [phrases, local_plain]
  · simp [local_plain, local_lookUp]

theorem rules_local (dialect : Dialect) :
    forall rule, rule ∈ ofDialect dialect -> rule.Local := by
  cases dialect with
  | generic =>
      simp only [ofDialect, List.append_assoc, List.forall_mem_append]
      exact ⟨local_comments _, local_marks, local_quotedNames, local_dollarQuotes,
        local_placeholders, local_specialNames, local_words⟩
  | postgresql =>
      simp only [ofDialect, List.append_assoc, List.forall_mem_append]
      exact ⟨local_comments _, local_marks, local_dollarQuotes, local_placeholders, local_words⟩
  | mysql =>
      simp only [ofDialect, List.append_assoc, List.forall_mem_append]
      exact ⟨local_comments _, local_marks, local_quotedNames, local_placeholders,
        local_specialNames, local_words⟩

/-!
# Line comments
-/

/-- An expression that takes a line from one of some openings on. -/
structure TakesLine (r : Regex) (openings : List Text) : Prop where
  starts : forall text n, r.matchLength? text = some n ->
    exists opening, opening ∈ openings ∧ opening <+: text
  takes : forall opening, opening ∈ openings -> forall rest,
    r.matchLength? (opening ++ rest) = some (opening.length + lineLength rest)

end Rule

namespace Dialect

def lineOpenings : Dialect -> List Text
  | generic => [['-', '-'], ['#', ' ']]
  | postgresql => [['-', '-']]
  | mysql => [['-', '-'], ['#']]

def hintOpenings (dialect : Dialect) : List Text :=
  dialect.lineOpenings.map (· ++ ['+'])

/-- The expression of the line comments of a dialect. -/
def lineComment (dialect : Dialect) : Regex :=
  Rule.lineFrom (Regex.oneOf (dialect.lineOpenings.map fun opening =>
    Regex.sequence (opening.map Regex.char)))

def lineHint (dialect : Dialect) : Regex :=
  Rule.lineFrom (Regex.oneOf (dialect.lineOpenings.map fun opening =>
    Regex.sequence (opening.map Regex.char)) ++ Regex.sequence (['+'].map Regex.char))

end Dialect

namespace Rule

open Regex Surroundings

theorem exists_opening {dialect : Dialect} {u : Text}
    (h : Spells (oneOf (dialect.lineOpenings.map fun opening => sequence (opening.map char))) u) :
    u ∈ dialect.lineOpenings := by
  have hplain :
      (dialect.lineOpenings.all fun opening => opening.all fun c => !c.isAlpha) = true := by
    cases dialect with
    | generic => decide
    | postgresql => decide
    | mysql => decide
  rcases h.exists_of_oneOf with ⟨r, hr, hspells⟩
  rcases List.mem_map.mp hr with ⟨opening, hopening, rfl⟩
  rw [hspells.eq_chars (List.all_eq_true.mp hplain opening hopening)]
  exact hopening

theorem prefix_of_lineFrom {opening : Regex} {text : Text} {n : Nat}
    (h : (lineFrom opening).matchLength? text = some n) :
    exists u, Spells opening u ∧ u <+: text := by
  generalize htake : text.take n = taken at *
  have hspells := (Regex.spells_of_matchLength? h).2
  have hstarts := List.take_prefix n text
  rw [htake] at hspells hstarts
  cases hspells with
  | @seq _ _ u v hu _ =>
      exact ⟨u, hu, (List.prefix_append u v).trans hstarts⟩

theorem takesLine_of_follow {r : Regex} {openings : List Text}
    (hstarts : forall text n, r.matchLength? text = some n ->
      exists opening, opening ∈ openings ∧ opening <+: text)
    (hfollow : (openings.all fun opening => follow none [r] opening == some [lineRest]) = true) :
    TakesLine r openings := by
  refine ⟨hstarts, fun opening hopening rest => ?_⟩
  exact run_of_follow (beq_iff_eq.mp (List.all_eq_true.mp hfollow opening hopening))
    fun last => run_lineRest last rest

theorem takesLine_comment (dialect : Dialect) :
    TakesLine dialect.lineComment dialect.lineOpenings := by
  apply takesLine_of_follow
  · intro text n h
    rcases prefix_of_lineFrom h with ⟨u, hu, hstarts⟩
    exact ⟨u, exists_opening hu, hstarts⟩
  · cases dialect with
    | generic => decide
    | postgresql => decide
    | mysql => decide

theorem takesLine_hint (dialect : Dialect) :
    TakesLine dialect.lineHint dialect.hintOpenings := by
  apply takesLine_of_follow
  · intro text n h
    rcases prefix_of_lineFrom h with ⟨u, hu, hstarts⟩
    cases hu with
    | @seq _ _ u v hu hv =>
        rw [hv.eq_chars rfl] at hstarts
        exact ⟨_, List.mem_map_of_mem (exists_opening hu), hstarts⟩
  · cases dialect with
    | generic => decide
    | postgresql => decide
    | mysql => decide

theorem lineLength_cut (front behind : Text) :
    lineLength front = min (lineLength (front ++ behind)) front.length := by
  induction front with
  | nil =>
      rw [List.length_nil, Nat.min_zero]
      rfl
  | cons c front ih =>
      rw [List.cons_append]
      unfold lineLength
      by_cases hfeed : c = '\n'
      · rw [if_pos hfeed, if_pos hfeed, List.length_cons]
        omega
      · rw [if_neg hfeed, if_neg hfeed]
        by_cases hreturn : c = '\r'
        · rw [if_pos hreturn, if_pos hreturn]
          cases front with
          | nil =>
              rw [List.head?_nil, if_neg (Option.some_ne_none _).symm]
              split
              · rfl
              · rfl
          | cons d front =>
              rw [List.cons_append, List.head?_cons, List.head?_cons, List.length_cons,
                List.length_cons]
              split
              · omega
              · omega
        · rw [if_neg hreturn, if_neg hreturn, ih, List.length_cons]
          omega

theorem TakesLine.cut {r : Regex} {openings : List Text} (h : TakesLine r openings)
    {front behind : Text} {n : Nat} (hwhole : r.matchLength? (front ++ behind) = some n) :
    r.matchLength? front = some (min n front.length) ∨
      exists opening, opening ∈ openings ∧ opening <+: front ++ behind ∧
        front.length < opening.length ∧ opening.length <= n := by
  rcases h.starts _ _ hwhole with ⟨opening, hopening, rest, hrest⟩
  rw [← hrest, h.takes opening hopening, Option.some.injEq] at hwhole
  rcases List.append_eq_append_iff.mp hrest with ⟨inner, rfl, rfl⟩ | ⟨beyond, hbeyond, _⟩
  · left
    rw [h.takes opening hopening, lineLength_cut inner behind, List.length_append, ← hwhole]
    congr 1
    omega
  · rcases eq_or_ne beyond [] with rfl | hne
    · left
      rw [List.append_nil] at hbeyond
      subst hbeyond
      have htakes := h.takes opening hopening []
      rw [List.append_nil] at htakes
      rw [htakes, ← hwhole]
      congr 1
      change opening.length + 0 = _
      omega
    · right
      have hlength := List.length_pos_iff.mpr hne
      refine ⟨opening, hopening, ⟨rest, hrest⟩, ?_, ?_⟩
      · rw [hbeyond, List.length_append]
        omega
      · omega

theorem TakesLine.upTo {r : Regex} {openings : List Text} (h : TakesLine r openings)
    (front behind : Text) :
    UpTo front.length (r.matchLength? (front ++ behind)) (r.matchLength? front) := by
  cases hwhole : r.matchLength? (front ++ behind) with
  | none =>
      refine Or.inl ⟨rfl, ?_⟩
      rw [Option.eq_none_iff_forall_ne_some]
      intro n hpart
      rcases h.starts _ _ hpart with ⟨opening, hopening, rest, rfl⟩
      rw [List.append_assoc, h.takes opening hopening] at hwhole
      cases hwhole
  | some n =>
      refine Or.inr ⟨n, rfl, ?_⟩
      intro hle
      rcases h.cut hwhole with hpart | ⟨_, _, _, hshort, hlong⟩
      · rw [hpart, Nat.min_eq_left hle]
      · exact absurd hle (Nat.not_le.mpr (Nat.lt_of_lt_of_le hshort hlong))

/-!
# One rule on a piece
-/

/-- All rules but those of line comments can be cut off, and only they and blanks end
with blanks. -/
theorem rules_cuttable (dialect : Dialect) :
    (ofDialect dialect).all (fun rule =>
      (rule.regex.cuttable && (rule.regex.endsSolid || rule.regex == Regex.gap)) ||
        rule.regex == dialect.lineComment && rule.action == .emit .lineComment ||
        rule.regex == dialect.lineHint && rule.action == .emit .lineHint) = true := by
  apply all_ofDialect
  · cases dialect with
    | generic => decide
    | postgresql => decide
    | mysql => decide
  · have hcuttable : beyondComments.all (fun rule =>
        rule.regex.cuttable && (rule.regex.endsSolid || rule.regex == Regex.gap)) = true := by
      decide
    rw [List.all_eq_true] at hcuttable ⊢
    intro rule hrule
    rw [hcuttable rule hrule]
    rfl

/-- A rule that can be cut off and whose matches do not end with a blank unless they
are blanks, or the rule of a kind of line comments. -/
theorem cuttable_cases {dialect : Dialect} {rule : Rule} (hrule : rule ∈ ofDialect dialect) :
    rule.regex.cuttable = true ∧ (rule.regex.endsSolid = true ∨ rule.regex = Regex.gap) ∨
      rule.regex = dialect.lineComment ∧ rule.action = .emit .lineComment ∨
      rule.regex = dialect.lineHint ∧ rule.action = .emit .lineHint := by
  have hrules := List.all_eq_true.mp (rules_cuttable dialect) rule hrule
  simp only [Bool.or_eq_true, Bool.and_eq_true, beq_iff_eq] at hrules
  exact or_assoc.mp hrules

def Unseen (front behind : Text) : Prop :=
  (forall c, c ∈ behind -> Text.isBlank c = true) ∨ ';' ∈ front

section

variable {dialect : Dialect} {rule : Rule} {rules : List Rule} {before before' : Option Char}
  {front behind : Text} {n m : Nat}

theorem regex_upTo (hrule : rule ∈ ofDialect dialect) (hcut : CutOff front behind) :
    UpTo front.length (rule.regex.matchLength? (front ++ behind))
      (rule.regex.matchLength? front) := by
  rcases cuttable_cases hrule with ⟨hcuttable, _⟩ | ⟨hcomment, _⟩ | ⟨hhint, _⟩
  · exact matchLength?_cut hcuttable hcut.isWordAt_side
  · rw [hcomment]
    exact (takesLine_comment dialect).upTo front behind
  · rw [hhint]
    exact (takesLine_hint dialect).upTo front behind

theorem matchLength?_of_regex {text : Text} (h : rule.regex.matchLength? text = some n)
    (hn : 0 < n) (before : Option Char) :
    rule.matchLength? before text =
      if rule.guard ⟨before, text.take n, text.drop n⟩ then some n else none := by
  unfold matchLength?
  rw [h]
  cases n with
  | zero =>
      exact absurd hn (Nat.lt_irrefl 0)
  | succ n =>
      rfl

/-- Where blanks are all that was cut off, or a semicolon is left, the condition of a
rule holds for a match in the piece if it holds in the text. -/
theorem Local.guard_cut (h : rule.Local) (hcut : CutOff front behind)
    (hbeside : Beside before before') (hseen : Blind rule.guard ∨ Unseen front behind)
    (hspells : rule.regex.Spells (front.take n)) :
    rule.guard ⟨before, front.take n, front.drop n ++ behind⟩ =
      rule.guard ⟨before', front.take n, front.drop n⟩ := by
  rw [h.front.beside hbeside]
  rcases h.behind with hblind | ⟨hrespects, hregex⟩
  · exact hblind _ _ _ _ _
  · rcases Bool.and_eq_true_iff.mp hregex with ⟨_, hlacks⟩
    rcases hseen with hblind | hunseen
    · exact hblind _ _ _ _ _
    · rcases eq_or_ne (front.drop n) [] with hnil | hne
      · rw [List.take_of_length_le (List.drop_eq_nil_iff.mp hnil)] at hspells ⊢
        rcases hunseen with hblank | hsemicolon
        · rw [hnil, List.nil_append]
          have hhead : Bare behind.head? :=
            fun c hc => hblank c (List.mem_of_head? hc)
          have htrim : Text.trimStart behind = [] :=
            List.dropWhile_eq_nil_iff.mpr hblank
          exact hrespects _ _ ⟨Or.inl rfl, rfl, Or.inr ⟨hhead, nofun⟩, by rw [htrim]; rfl⟩
        · exact absurd hsemicolon (hspells.not_mem hlacks)
      · have hrest : CutOff (front.drop n) behind := by
          rw [← List.take_append_drop n front] at hcut
          exact hcut.tail hne
        rcases hrest.exists_last with ⟨c, _, hmem, hsolid⟩
        refine hrespects _ _ ⟨Or.inl rfl, rfl, Or.inl ?_, ?_⟩
        · rw [List.head?_append_of_ne_nil _ hne]
        · have htrim : Text.trimStart (front.drop n) ≠ [] := by
            intro hempty
            have hblank := List.dropWhile_eq_nil_iff.mp hempty c hmem
            rw [hsolid] at hblank
            cases hblank
          have happend : Text.trimStart (front.drop n ++ behind) =
              Text.trimStart (front.drop n) ++ behind := by
            unfold Text.trimStart at htrim ⊢
            rw [List.dropWhile_append, if_neg]
            rw [List.isEmpty_iff]
            exact htrim
          rw [happend, List.head?_append_of_ne_nil _ htrim]

theorem Local.blind_of_beyond (h : rule.Local) (hcut : CutOff front behind)
    (hspells : rule.regex.Spells ((front ++ behind).take n))
    (hlength : n <= (front ++ behind).length) (hn : front.length < n) : Blind rule.guard := by
  rcases h.behind with hblind | ⟨_, hregex⟩
  · exact hblind
  · rcases Bool.and_eq_true_iff.mp hregex with ⟨hblankless, hlacks⟩
    rcases hcut.exists_beyond hn hlength with ⟨c, hmem, hblank | rfl⟩
    · rw [hspells.solid hblankless c hmem] at hblank
      cases hblank
    · exact absurd hmem (hspells.not_mem hlacks)

/-- A rule finds a match in the text and in the piece, unless the match in the text
goes beyond the piece. -/
theorem matchLength?_upTo (hrule : rule ∈ ofDialect dialect) (hcut : CutOff front behind)
    (hbeside : Beside before before') (hseen : Blind rule.guard ∨ Unseen front behind) :
    UpTo front.length (rule.matchLength? before (front ++ behind))
      (rule.matchLength? before' front) := by
  have hlocal := rules_local dialect rule hrule
  rcases regex_upTo hrule hcut with ⟨hwhole, hpart⟩ | ⟨n, hwhole, hpart⟩
  · exact Or.inl ⟨matchLength?_none hwhole before, matchLength?_none hpart before'⟩
  · rcases Nat.eq_zero_or_pos n with rfl | hpos
    · exact Or.inl ⟨matchLength?_zero hwhole before,
        matchLength?_zero (hpart (Nat.zero_le _)) before'⟩
    · rcases Regex.spells_of_matchLength? hwhole with ⟨hlength, hspells⟩
      rw [matchLength?_of_regex hwhole hpos]
      rcases Nat.lt_or_ge front.length n with hbeyond | hwithin
      · have hblind := hlocal.blind_of_beyond hcut hspells hlength hbeyond
        split
        · exact Or.inr ⟨n, rfl, fun hle => absurd hle (Nat.not_le.mpr hbeyond)⟩
        · rename_i hguard
          refine Or.inl ⟨rfl, ?_⟩
          unfold matchLength?
          split
          · rfl
          · rfl
          · rw [if_neg]
            rw [← hlocal.front.beside hbeside, hblind before _ _ _ _]
            exact hguard
      · rw [List.take_append_of_le_length hwithin] at hspells ⊢
        rw [matchLength?_of_regex (hpart hwithin) hpos, List.drop_append_of_le_length hwithin,
          hlocal.guard_cut hcut hbeside hseen hspells]
        split
        · exact Or.inr ⟨n, rfl, fun _ => rfl⟩
        · exact Or.inl ⟨rfl, rfl⟩

/-- A rule whose match goes beyond the piece applies to what its expression finds in
the piece. -/
theorem matchLength?_beyond (hrule : rule ∈ ofDialect dialect) (hcut : CutOff front behind)
    (hbeside : Beside before before') (hwhole : rule.matchLength? before (front ++ behind) = some n)
    (hn : front.length < n) (hpart : rule.regex.matchLength? front = some m) (hm : 0 < m) :
    rule.matchLength? before' front = some m := by
  have hlocal := rules_local dialect rule hrule
  rcases spells_of_matchLength? hwhole with ⟨hpos, hlength, hspells⟩
  rw [matchLength?_of_regex (regex_of_matchLength? hwhole) hpos] at hwhole
  have hguard : rule.guard ⟨before, (front ++ behind).take n, (front ++ behind).drop n⟩ = true := by
    by_contra hnot
    rw [if_neg hnot] at hwhole
    cases hwhole
  rw [matchLength?_of_regex hpart hm, if_pos]
  rw [← hlocal.front.beside hbeside, ← hguard]
  exact hlocal.blind_of_beyond hcut hspells hlength hn _ _ _ _ _

end

end Rule
end SqlLayout
