import SqlLayout.Proofs.Layout.LetterCase
import SqlLayout.Proofs.Lexer.Marks
import SqlLayout.Proofs.Lexer.QuotedStrings

/-!
# Keywords that hold a text in quotes

One phrase of the lexer takes a string along: a cast to a time zone with the name of the
zone.  It is a keyword as a whole, so changing the case of keywords changes the name.  No
other keyword has a quote in it.
-/

namespace SqlLayout

/-!
# Texts between quotes
-/

namespace Text

/-- Of the pieces between quotes those inside: every second one, if a quote follows. -/
def inside : List Text -> List Text
  | _ :: inner :: next :: rest => inner :: inside (next :: rest)
  | _ => []

/-- The texts between single quotes. -/
def quotedParts (text : Text) : List Text :=
  inside (splitAt '\'' text)

theorem splitAt_of_not_mem {separator : Char} {text : Text} (h : separator ∉ text) :
    splitAt separator text = [text] := by
  induction text with
  | nil =>
      rfl
  | cons c rest ih =>
      have hc : (c == separator) = false :=
        beq_false_of_ne fun heq => h (heq ▸ List.mem_cons_self)
      rw [splitAt, ih (List.not_mem_of_not_mem_cons h), hc, if_neg Bool.false_ne_true]

theorem splitAt_append {separator : Char} {front : Text} (h : separator ∉ front) (rest : Text) :
    splitAt separator (front ++ separator :: rest) = front :: splitAt separator rest := by
  induction front with
  | nil =>
      rw [List.nil_append, splitAt, if_pos (beq_self_eq_true separator)]
  | cons c front ih =>
      have hc : (c == separator) = false :=
        beq_false_of_ne fun heq => h (heq ▸ List.mem_cons_self)
      rw [List.cons_append, splitAt, ih (List.not_mem_of_not_mem_cons h), hc,
        if_neg Bool.false_ne_true]

theorem quotedParts_of_not_mem {text : Text} (h : '\'' ∉ text) : quotedParts text = [] := by
  rw [quotedParts, splitAt_of_not_mem h]
  rfl

theorem quotedParts_pair {front inner : Text} (hfront : '\'' ∉ front) (hinner : '\'' ∉ inner) :
    quotedParts (front ++ '\'' :: (inner ++ ['\''])) = [inner] := by
  rw [quotedParts, splitAt_append hfront, splitAt_append hinner]
  rfl

/-!
# Quotes have no case
-/

theorem eq_quote_of_mem_upperChar {c : Char} (h : '\'' ∈ upperChar c) : c = '\'' := by
  rcases maps_upperChar.image c '\'' h with hself | himage
  · rw [hself] at h
    exact (List.mem_singleton.mp h).symm
  · exact absurd himage (by decide +kernel)

theorem eq_quote_of_mem_lowerChar {c : Char} (h : '\'' ∈ lowerChar c) : c = '\'' := by
  rcases maps_lowerChar.image c '\'' h with hself | himage
  · rw [hself] at h
    exact (List.mem_singleton.mp h).symm
  · exact absurd himage (by decide +kernel)

theorem quote_not_mem_upper {text : Text} (h : '\'' ∉ text) : '\'' ∉ text.upper := by
  intro hmem
  rcases List.mem_flatMap.mp hmem with ⟨c, hc, hquote⟩
  exact h (eq_quote_of_mem_upperChar hquote ▸ hc)

theorem quote_not_mem_flatMap_lowerChar {text : Text} (h : '\'' ∉ text) :
    '\'' ∉ text.flatMap lowerChar := by
  intro hmem
  rcases List.mem_flatMap.mp hmem with ⟨c, hc, hquote⟩
  exact h (eq_quote_of_mem_lowerChar hquote ▸ hc)

theorem upperChar_quote : upperChar '\'' = ['\''] := by
  decide

theorem lowerChar_quote : lowerChar '\'' = ['\''] := by
  decide

theorem lowerAfter_quote (before rest : Text) :
    lowerAfter before ('\'' :: rest) = '\'' :: lowerAfter ('\'' :: before) rest := by
  rw [lowerAfter, ne_capitalSigma lowerChar_quote, if_neg Bool.false_ne_true, lowerChar_quote]
  rfl

/-- What is lowered in front of a text is some text, with a quote only if there was one.
The forms of its sigmas depend on what follows. -/
theorem exists_lowerAfter_append (before front rest : Text) :
    exists image, lowerAfter before (front ++ rest) =
        image ++ lowerAfter (front.reverse ++ before) rest ∧ ('\'' ∉ front -> '\'' ∉ image) := by
  induction front generalizing before with
  | nil =>
      exact ⟨[], rfl, id⟩
  | cons c front ih =>
      rcases ih (c :: before) with ⟨image, himage, hquote⟩
      rw [List.cons_append, lowerAfter, himage, List.reverse_cons, List.append_assoc,
        List.singleton_append, ← List.append_assoc]
      refine ⟨_, rfl, fun hnone hmem => ?_⟩
      rw [List.mem_cons, not_or] at hnone
      rcases List.mem_append.mp hmem with hfirst | hlater
      · split at hfirst
        · revert hfirst
          split
          · decide
          · decide
        · exact hnone.1 (eq_quote_of_mem_lowerChar hfirst).symm
      · exact hquote hnone.2 hlater

end Text

/-!
# Recasing a text in quotes
-/

namespace LetterCase

/-- Whether a case leaves a character alone that is not the first one. -/
def keeps : LetterCase -> Char -> Bool
  | upper, c => Text.upperChar c == [c]
  | lower, c => Text.lowerChar c == [c]
  | capitalize, c => Text.lowerChar c == [c]

theorem quote_not_mem_apply (case : LetterCase) {text : Text} (h : '\'' ∉ text) :
    '\'' ∉ case.apply text := by
  cases case with
  | upper =>
      exact Text.quote_not_mem_upper h
  | lower =>
      rcases Text.exists_lowerAfter_append [] text [] with ⟨image, himage, hquote⟩
      rw [List.append_nil, Text.lowerAfter, List.append_nil] at himage
      rw [apply, Text.lower, himage]
      exact hquote h
  | capitalize =>
      cases text with
      | nil =>
          exact h
      | cons first rest =>
          rw [List.mem_cons, not_or] at h
          intro hmem
          rcases List.mem_append.mp hmem with hraised | hlowered
          · exact h.1 (Text.eq_quote_of_mem_upperChar hraised).symm
          · exact Text.quote_not_mem_flatMap_lowerChar h.2 hlowered

/-- A case changes what stands in front of a quote and what stands in the quotes each for
itself. -/
theorem exists_apply_quoted (case : LetterCase) {front inner : Text} (hne : front ≠ [])
    (hfront : '\'' ∉ front) (hinner : '\'' ∉ inner) :
    exists front' inner', case.apply (front ++ '\'' :: (inner ++ ['\''])) =
        front' ++ '\'' :: (inner' ++ ['\'']) ∧ '\'' ∉ front' ∧ '\'' ∉ inner' ∧
      (inner' = inner <-> forall c, c ∈ inner -> case.keeps c = true) := by
  cases case with
  | upper =>
      refine ⟨front.upper, inner.upper, ?_, Text.quote_not_mem_upper hfront,
        Text.quote_not_mem_upper hinner, ?_⟩
      · simp only [apply, Text.upper, List.flatMap_append, List.flatMap_cons, List.flatMap_nil,
          Text.upperChar_quote, List.singleton_append, List.append_nil]
      · simp only [keeps, beq_iff_eq]
        exact Text.upper_eq_self_iff
  | lower =>
      rcases Text.exists_lowerAfter_append [] front ('\'' :: (inner ++ ['\''])) with
        ⟨front', hfirst, hquote⟩
      rcases Text.exists_lowerAfter_append ('\'' :: (front.reverse ++ [])) inner ['\''] with
        ⟨inner', hsecond, hquote'⟩
      rw [Text.lowerAfter_quote, Text.lowerAfter] at hsecond
      refine ⟨front', inner', ?_, hquote hfront, hquote' hinner, ?_⟩
      · rw [apply, Text.lower, hfirst, Text.lowerAfter_quote, hsecond]
      · have hfixed : forall c, c ∈ ['\''] -> Text.lowerChar c = [c] :=
          List.forall_mem_singleton.mpr Text.lowerChar_quote
        have hself : Text.lowerAfter ('\'' :: (front.reverse ++ [])) (inner ++ ['\'']) =
              inner ++ ['\''] <->
            forall c, c ∈ inner ++ ['\''] -> Text.lowerChar c = [c] :=
          Text.lowerAfter_eq_self_iff
        rw [hsecond, List.append_left_inj, List.forall_mem_append,
          and_iff_left hfixed] at hself
        simp only [keeps, beq_iff_eq]
        exact hself
  | capitalize =>
      cases front with
      | nil =>
          exact absurd rfl hne
      | cons first front =>
          rw [List.mem_cons, not_or] at hfront
          refine ⟨Text.upperChar first ++ front.flatMap Text.lowerChar,
            inner.flatMap Text.lowerChar, ?_, ?_, Text.quote_not_mem_flatMap_lowerChar hinner, ?_⟩
          · simp only [apply, List.cons_append, List.flatMap_append, List.flatMap_cons,
              List.flatMap_nil, Text.lowerChar_quote, List.nil_append, List.append_assoc]
          · intro hmem
            rcases List.mem_append.mp hmem with hraised | hlowered
            · exact hfront.1 (Text.eq_quote_of_mem_upperChar hraised).symm
            · exact Text.quote_not_mem_flatMap_lowerChar hfront.2 hlowered
          · simp only [keeps, beq_iff_eq]
            exact Text.flatMap_lowerChar_eq_self_iff

end LetterCase

/-!
# Keywords
-/

namespace Rule

/-- A cast to a time zone. -/
def zoneCast : Regex :=
  Regex.sequence
    [Regex.spaced ["AT", "TIME", "ZONE"], Regex.gap, Regex.char '\'',
     Regex.plus (Regex.chars (.noneOf ['\''])), Regex.char '\'']

theorem unquoted_rules (dialect : Dialect) :
    (ofDialect dialect).all (fun rule =>
      match rule.action with
      | .emit category => !category.isKeyword || rule.regex.lacks '\'' ||
          category == .zoneCast && rule.regex == zoneCast
      | .lookUp => rule.regex.lacks '\'') = true := by
  cases dialect with
  | generic => decide
  | postgresql => decide
  | mysql => decide

theorem exists_zone {text : Text} (h : zoneCast.Spells text) :
    exists front zone, text = front ++ '\'' :: (zone ++ ['\'']) ∧ front ≠ [] ∧
      '\'' ∉ front ∧ '\'' ∉ zone := by
  unfold zoneCast at h
  cases h with
  | @seq _ _ phrase _ hphrase h =>
  cases h with
  | @seq _ _ blanks _ hblanks h =>
  cases h with
  | seq hopening h =>
  cases h with
  | @seq _ _ zone _ hzone hclosing =>
  have hfront := Regex.Spells.seq hphrase hblanks
  refine ⟨phrase ++ blanks, zone, ?_, ?_, hfront.not_mem (by decide), hzone.not_mem (by decide)⟩
  · rw [hopening.eq_char rfl, hclosing.eq_char rfl, List.append_assoc, List.singleton_append]
  · intro hnil
    rw [hnil] at hfront
    exact absurd hfront.mayBeEmpty (by decide)

end Rule

/-- A keyword has no quote in it, or is a cast and ends with the name of its zone in
quotes. -/
theorem Scan.keyword_quotes {config : LexerConfig} {scan after : Scan} {token : Token}
    (hnext : scan.next? config = some (token, after)) (hkeyword : token.isKeyword = true) :
    '\'' ∉ token.value ∨ token.category = .zoneCast ∧
      exists front zone, token.value = front ++ '\'' :: (zone ++ ['\'']) ∧ front ≠ [] ∧
        '\'' ∉ front ∧ '\'' ∉ zone := by
  have hother : forall category, category.isKeyword = false -> token.category ≠ category := by
    rintro category hno rfl
    exact absurd hkeyword (ne_true_of_eq_false hno)
  have htag := (outside_of_category hnext (hother .string rfl) (hother .builtin rfl)).1
  rcases next?_outcome hnext with ⟨hclass, hvalue, _, _⟩
  rw [outcome_plain_eq htag] at hclass hvalue
  cases hfirst : Rule.first? (Rule.ofDialect config.dialect) scan.before scan.rest with
  | none =>
      rw [classify_of_stuck hfirst] at hclass
      exact absurd hclass (hother .error rfl)
  | some found =>
      rcases found with ⟨action, n⟩
      rw [classify_of_found hfirst] at hclass hvalue
      rcases Rule.exists_of_first? hfirst with ⟨rule, hrule, haction, _, _, hspells⟩
      rw [← hvalue] at hspells
      have hrules := List.all_eq_true.mp (Rule.unquoted_rules config.dialect) rule hrule
      rw [haction] at hrules
      cases action with
      | emit category =>
          have hemit : category = token.category := hclass.symm
          have hisKeyword : category.isKeyword = true := hemit ▸ hkeyword
          dsimp only at hrules
          rw [hisKeyword, Bool.not_true, Bool.false_or, Bool.or_eq_true, Bool.and_eq_true,
            beq_iff_eq, beq_iff_eq] at hrules
          rcases hrules with hlacks | ⟨hzone, hregex⟩
          · exact Or.inl (hspells.not_mem hlacks)
          · rw [hregex] at hspells
            exact Or.inr ⟨hemit.symm.trans hzone, Rule.exists_zone hspells⟩
      | lookUp =>
          exact Or.inl (hspells.not_mem hrules)

/-- The filter for the case of keywords leaves what stands between quotes as it is just
where the case leaves each character there as it is, and there is such a text only in a
cast to a time zone. -/
theorem keyword_case_keeps_quoted_iff {config : LexerConfig} {sql : Text} {token : Token}
    (htoken : token ∈ tokenize config sql) (hkeyword : token.isKeyword = true)
    (case : LetterCase) :
    (Text.quotedParts ((LeafFilter.keywordCase case).apply token).value =
        Text.quotedParts token.value <->
      forall part, part ∈ Text.quotedParts token.value -> forall c, c ∈ part ->
        case.keeps c = true) ∧
      (token.category ≠ .zoneCast -> Text.quotedParts token.value = []) := by
  have hvalue : ((LeafFilter.keywordCase case).apply token).value = case.apply token.value := by
    rw [LeafFilter.apply, if_pos hkeyword]
  rw [hvalue]
  rcases (emits_tokenize config sql).exists_place htoken with ⟨place, after, hnext⟩
  rcases Scan.keyword_quotes hnext hkeyword with
    hnone | ⟨hcast, front, zone, hzone, hne, hfront, hinner⟩
  · rw [Text.quotedParts_of_not_mem hnone,
      Text.quotedParts_of_not_mem (case.quote_not_mem_apply hnone)]
    exact ⟨⟨fun _ part hpart => absurd hpart List.not_mem_nil, fun _ => rfl⟩, fun _ => rfl⟩
  · rcases case.exists_apply_quoted hne hfront hinner with
      ⟨front', zone', happly, hfront', hzone', hkeeps⟩
    rw [hzone, happly, Text.quotedParts_pair hfront hinner, Text.quotedParts_pair hfront' hzone',
      List.singleton_inj, List.forall_mem_singleton]
    exact ⟨hkeeps, fun hother => absurd hcast hother⟩

/-- A zone that is written in capitals is kept by capitals. -/
theorem keyword_case_keeps_quoted_capitals :
    exists token, token ∈ tokenize LexerConfig.default (Text.of "at time zone 'Z+2'") ∧
      token.isKeyword = true ∧
      ((LeafFilter.keywordCase .upper).apply token).value = Text.of "AT TIME ZONE 'Z+2'" ∧
      Text.quotedParts token.value = [Text.of "Z+2"] ∧
      Text.quotedParts ((LeafFilter.keywordCase .upper).apply token).value =
        [Text.of "Z+2"] := by
  let token : Token := ⟨.zoneCast, Text.of "at time zone 'Z+2'", some 0⟩
  have htokens : tokenize LexerConfig.default (Text.of "at time zone 'Z+2'") = [token] := by
    decide
  have hmem : token ∈ tokenize LexerConfig.default (Text.of "at time zone 'Z+2'") :=
    htokens ▸ List.mem_singleton_self token
  have hparts : Text.quotedParts token.value = [Text.of "Z+2"] := by
    decide
  have hkeeps := (keyword_case_keeps_quoted_iff hmem (by decide) .upper).1
  rw [hparts] at hkeeps
  have hcapitals : ((Text.of "Z+2").all LetterCase.upper.keeps) = true := by
    decide
  exact ⟨token, hmem, by decide, by decide, hparts,
    hkeeps.mpr (List.forall_mem_singleton.mpr (List.all_eq_true.mp hcapitals))⟩

/-- A zone that is written in small letters is changed by capitals. -/
theorem keyword_case_changes_zone :
    exists token, token ∈ tokenize LexerConfig.default (Text.of "at time zone 'utc'") ∧
      token.isKeyword = true ∧ Text.quotedParts token.value = [Text.of "utc"] ∧
      Text.quotedParts ((LeafFilter.keywordCase .upper).apply token).value =
        [Text.of "UTC"] := by
  let token : Token := ⟨.zoneCast, Text.of "at time zone 'utc'", some 0⟩
  have htokens : tokenize LexerConfig.default (Text.of "at time zone 'utc'") = [token] := by
    decide
  exact ⟨token, htokens ▸ List.mem_singleton_self token, by decide, by decide,
    by decide⟩

end SqlLayout
