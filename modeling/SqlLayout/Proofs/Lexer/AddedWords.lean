import Mathlib.Data.List.Forall2
import SqlLayout.Lexer.Basic

/-!
# Words that the caller adds

The words of the caller are looked up behind all dictionaries, so that they make
keywords of names and leave every word that a dictionary knows as it is.  Neither a
name nor a keyword opens a dollar-quoted body, and no condition of a rule asks for a
category; so the lexer cuts the text at the same places with and without them.
-/

namespace SqlLayout

/-!
# The vocabulary
-/

theorem Vocabulary.dictionaries_without_names (dialect : Dialect) :
    (ofDialect dialect).dictionaries.all
      (·.all fun entry => entry.2.all fun group => group.1 != .name) = true := by
  cases dialect with
  | generic => decide
  | postgresql => decide
  | mysql => decide

theorem Dictionary.find?_ne_name {dictionary : Dictionary}
    (h : (dictionary.all fun entry => entry.2.all fun group => group.1 != .name) = true)
    {word : Text} {category : Category} (hfound : dictionary.find? word = some category) :
    category ≠ .name := by
  unfold find? at hfound
  split at hfound
  · cases hfound
  · split at hfound
    · cases hfound
    · rename_i groups hgroups
      rcases Option.map_eq_some_iff.mp hfound with ⟨group, hgroup, rfl⟩
      rcases List.lookup_eq_some_iff.mp hgroups with ⟨front, back, hentry, _⟩
      have hgroups : groups.all (fun group => group.1 != .name) = true := by
        rw [hentry] at h
        simp only [List.all_append, List.all_cons, Bool.and_eq_true] at h
        exact h.2.1
      have hne := List.all_eq_true.mp hgroups group (List.mem_of_find?_eq_some hgroup)
      exact bne_iff_ne.mp hne

namespace Vocabulary

variable {v extended : Vocabulary} {words : List Text} (h : v.extend words = .ok extended)
include h

theorem extend_eq : extended = { v with added := v.added ++ words.map Text.upper } := by
  unfold extend at h
  split at h
  · cases h
  · cases h
    rfl

/-- An added word is the only reason for another category, and the category is then
that of a keyword in place of that of a name. -/
theorem classify_extend (word : Text) :
    extended.classify word = v.classify word ∨
      v.classify word = .name ∧ extended.classify word = .keyword ∧
        exists added, added ∈ words ∧ word.upper = added.upper := by
  rw [extend_eq h]
  unfold classify
  dsimp only
  cases v.dictionaries.findSome? (·.find? word.upper) with
  | some category =>
      exact Or.inl rfl
  | none =>
      dsimp only
      cases hadded : v.added.elem word.upper with
      | true =>
          left
          rw [if_pos rfl, if_pos]
          exact List.elem_iff.mpr (List.mem_append_left _ (List.elem_iff.mp hadded))
      | false =>
          rw [if_neg Bool.false_ne_true]
          by_cases hmem : word.upper ∈ words.map Text.upper
          · rcases List.mem_map.mp hmem with ⟨added, hword, heq⟩
            right
            rw [if_pos (List.elem_iff.mpr (List.mem_append_right _ hmem))]
            exact ⟨rfl, rfl, added, hword, heq.symm⟩
          · left
            rw [if_neg]
            intro helem
            rcases List.mem_append.mp (List.elem_iff.mp helem) with hold | hnew
            · rw [List.elem_iff.mpr hold] at hadded
              cases hadded
            · exact hmem hnew

theorem knows_extend
    (hnames : v.dictionaries.all
      (·.all fun entry => entry.2.all fun group => group.1 != .name) = true)
    {word : Text} (hword : word ∈ words) : extended.knows word = true := by
  rw [extend_eq h]
  unfold knows classify
  dsimp only
  cases hfound : v.dictionaries.findSome? (·.find? word.upper) with
  | some category =>
      rcases List.exists_of_findSome?_eq_some hfound with ⟨dictionary, hdictionary, hsome⟩
      exact bne_iff_ne.mpr
        (Dictionary.find?_ne_name (List.all_eq_true.mp hnames dictionary hdictionary) hsome)
  | none =>
      dsimp only
      rw [if_pos]
      · rfl
      · exact List.elem_iff.mpr (List.mem_append_right _ (List.mem_map_of_mem hword))

end Vocabulary

/-!
# Tokens
-/

/-- A token as it is read when some words are added. -/
structure Token.Reclassified (words : List Text) (token again : Token) : Prop where
  value_eq : again.value = token.value
  position_eq : again.position = token.position
  category_eq : again.category = token.category ∨
    token.category = .name ∧ again.category = .keyword ∧
      exists word, word ∈ words ∧ token.value.upper = word.upper

namespace Scan

variable {config : LexerConfig} {extended : Vocabulary} {words : List Text}
  (h : config.vocabulary.extend words = .ok extended)
include h

theorem classify_extend (scan : Scan) :
    (scan.classify ⟨config.dialect, extended⟩).2 = (scan.classify config).2 ∧
      ((scan.classify ⟨config.dialect, extended⟩).1 = (scan.classify config).1 ∨
        (scan.classify config).1 = .name ∧
          (scan.classify ⟨config.dialect, extended⟩).1 = .keyword ∧
          exists word, word ∈ words ∧
            Text.upper (scan.rest.take (scan.classify config).2) = word.upper) := by
  unfold classify
  dsimp only
  rcases Rule.first? (Rule.ofDialect config.dialect) scan.before scan.rest with
    _ | ⟨category | _, n⟩
  · exact ⟨rfl, Or.inl rfl⟩
  · exact ⟨rfl, Or.inl rfl⟩
  · exact ⟨rfl, Vocabulary.classify_extend h _⟩

theorem outcome_extend (scan : Scan) :
    (scan.outcome ⟨config.dialect, extended⟩).2 = (scan.outcome config).2 ∧
      ((scan.outcome ⟨config.dialect, extended⟩).1 = (scan.outcome config).1 ∨
        (scan.outcome config).1 = .name ∧
          (scan.outcome ⟨config.dialect, extended⟩).1 = .keyword ∧
          exists word, word ∈ words ∧
            Text.upper (scan.rest.take (scan.outcome config).2.1) = word.upper) := by
  unfold outcome
  cases scan.dollarTag with
  | some tag =>
      exact ⟨rfl, Or.inl rfl⟩
  | none =>
      rcases scan.classify_extend h with ⟨hlength, hcategory⟩
      dsimp only
      refine ⟨?_, hcategory⟩
      rw [hlength]
      rcases hcategory with hsame | ⟨hname, hkeyword, _⟩
      · rw [hsame]
      · -- Neither category is the one of a dollar mark.
        rw [hname, hkeyword]
        rfl

theorem next?_extend (scan : Scan) :
    scan.next? config = none ∧ scan.next? ⟨config.dialect, extended⟩ = none ∨
      exists token again after, scan.next? config = some (token, after) ∧
        scan.next? ⟨config.dialect, extended⟩ = some (again, after) ∧
        token.Reclassified words again := by
  have hsame := scan.outcome_extend h
  unfold next?
  cases hscan : scan.rest with
  | nil =>
      exact Or.inl ⟨rfl, rfl⟩
  | cons c rest =>
      rw [hscan] at hsame
      right
      revert hsame
      rcases scan.outcome config with ⟨category, n, tag⟩
      rcases scan.outcome ⟨config.dialect, extended⟩ with ⟨category', n', tag'⟩
      rintro ⟨hrest, hcategory⟩
      dsimp only at hrest hcategory
      cases hrest
      exact ⟨_, _, _, rfl, rfl, ⟨rfl, rfl, hcategory⟩⟩

theorem tokens_extend (budget : Nat) (scan : Scan) :
    List.Forall₂ (Token.Reclassified words) (tokens config budget scan)
      (tokens ⟨config.dialect, extended⟩ budget scan) := by
  induction budget generalizing scan with
  | zero =>
      exact List.Forall₂.nil
  | succ budget ih =>
      unfold tokens
      rcases scan.next?_extend h with ⟨hnone, hnone'⟩ | ⟨token, again, after, hsome, hsome', hsame⟩
      · rw [hnone, hnone']
        exact List.Forall₂.nil
      · rw [hsome, hsome']
        exact List.Forall₂.cons hsame (ih after)

end Scan

/-!
# Options
-/

theorem LexerOptions.check_eq_ok_iff {options : LexerOptions} {config : LexerConfig} :
    options.check = .ok config <->
      readDialect options.dialect = .ok config.dialect ∧
        readVocabulary config.dialect options.keywords = .ok config.vocabulary := by
  unfold check
  cases hdialect : readDialect options.dialect with
  | error e =>
      simp [bind, Except.bind]
  | ok dialect =>
      cases hvocabulary : readVocabulary dialect options.keywords with
      | error e =>
          simp only [bind, Except.bind, hvocabulary, reduceCtorEq, false_iff, Except.ok.injEq]
          rintro ⟨rfl, hok⟩
          rw [hvocabulary] at hok
          cases hok
      | ok vocabulary =>
          rcases config with ⟨dialect', vocabulary'⟩
          simp only [bind, Except.bind, hvocabulary, pure, Except.pure, Except.ok.injEq,
            LexerConfig.mk.injEq]
          constructor
          · rintro ⟨rfl, rfl⟩
            exact ⟨rfl, hvocabulary⟩
          · rintro ⟨rfl, hok⟩
            rw [hvocabulary, Except.ok.injEq] at hok
            exact ⟨rfl, hok⟩

/-- Where additional keywords are accepted, a text has the same pieces with and
without them.  A piece is of another category only if it is a name without them and a
keyword with them, and then it is one of them up to case.  They are all known words. -/
theorem added_words_reclassify_names {dialect : Option Text} {words : List Text}
    {config : LexerConfig}
    (h : LexerOptions.check { dialect := dialect, keywords := some words } = .ok config) :
    (forall word, word ∈ words -> config.vocabulary.knows word = true) ∧
      exists plain, LexerOptions.check { dialect := dialect } = .ok plain ∧
        forall text, List.Forall₂ (Token.Reclassified words) (tokenize plain text)
          (tokenize config text) := by
  rcases LexerOptions.check_eq_ok_iff.mp h with ⟨hdialect, hvocabulary⟩
  have hextend : (Vocabulary.ofDialect config.dialect).extend words = .ok config.vocabulary :=
    hvocabulary
  constructor
  · intro word hword
    exact Vocabulary.knows_extend hextend (Vocabulary.dictionaries_without_names config.dialect)
      hword
  · refine ⟨⟨config.dialect, Vocabulary.ofDialect config.dialect⟩, ?_, ?_⟩
    · exact LexerOptions.check_eq_ok_iff.mpr ⟨hdialect, rfl⟩
    · intro text
      exact Scan.tokens_extend hextend text.length { rest := text }

theorem added_words_reclassify_names_bar :
    LexerOptions.check { keywords := some [Text.of "Bar", Text.of "select"] } =
        .ok ⟨.generic, { Vocabulary.ofDialect .generic with
          added := [Text.of "BAR", Text.of "SELECT"] }⟩ ∧
      ((forall word, word ∈ [Text.of "Bar", Text.of "select"] ->
          Vocabulary.knows
            { Vocabulary.ofDialect .generic with added := [Text.of "BAR", Text.of "SELECT"] } word =
              true) ∧
        exists plain, LexerOptions.check {} = .ok plain ∧
          forall text, List.Forall₂ (Token.Reclassified [Text.of "Bar", Text.of "select"])
            (tokenize plain text)
            (tokenize ⟨.generic,
              { Vocabulary.ofDialect .generic with
                added := [Text.of "BAR", Text.of "SELECT"] }⟩ text)) :=
  have hcheck : LexerOptions.check
      { dialect := none, keywords := some [Text.of "Bar", Text.of "select"] } =
        .ok ⟨.generic,
          { Vocabulary.ofDialect .generic with added := [Text.of "BAR", Text.of "SELECT"] }⟩ :=
    LexerOptions.check_eq_ok_iff.mpr ⟨rfl, rfl⟩
  ⟨hcheck, added_words_reclassify_names hcheck⟩

end SqlLayout
