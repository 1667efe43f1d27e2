import SqlLayout.Grouping.Scans
import SqlLayout.Proofs.Lexer.LetterCase
import SqlLayout.Proofs.Lexer.QuotedStrings
import SqlLayout.Proofs.Regex.Derivatives

/-!
# Keywords that statements begin with

A keyword that selects, changes or defines is a word of a dictionary, or CREATE with what
belongs to it.  None of them reads as NULL, as AS or as a type, the keywords for which the
passes make an exception.
-/

namespace SqlLayout

namespace Text

/-!
# Words of a text
-/

theorem wordsAfter_solid {text run : Text} (h : forall c, c ∈ text -> isBlank c = false)
    (hrun : run ≠ []) : wordsAfter run text = [run.reverse ++ text] := by
  induction text generalizing run with
  | nil =>
      rw [wordsAfter, if_neg (by simpa using hrun), List.append_nil]
  | cons c rest ih =>
      rw [List.forall_mem_cons] at h
      rw [wordsAfter, if_neg (by simp [h.1]), ih h.2 (List.cons_ne_nil c run)]
      simp

theorem words_solid {text : Text} (h : forall c, c ∈ text -> isBlank c = false)
    (hne : text ≠ []) : words text = [text] := by
  cases text with
  | nil =>
      exact absurd rfl hne
  | cons c rest =>
      rw [List.forall_mem_cons] at h
      rw [words, wordsAfter, if_neg (by simp [h.1]), wordsAfter_solid h.2 (List.cons_ne_nil c [])]
      rfl

theorem exists_wordsAfter {run : Text} (hrun : run ≠ []) (text : Text) :
    exists piece rest, wordsAfter run text = (run.reverse ++ piece) :: rest := by
  induction text generalizing run with
  | nil =>
      exact ⟨[], [], by rw [wordsAfter, if_neg (by simpa using hrun), List.append_nil]⟩
  | cons c text ih =>
      rw [wordsAfter]
      split
      · rw [if_neg (by simpa using hrun)]
        exact ⟨[], wordsAfter [] text, by rw [List.append_nil]⟩
      · rcases ih (List.cons_ne_nil c run) with ⟨piece, rest, heq⟩
        exact ⟨c :: piece, rest, by rw [heq]; simp⟩

theorem exists_join_words {c : Char} (hc : isBlank c = false) (text : Text) :
    exists rest, join [' '] (words (c :: text)) = c :: rest := by
  rcases exists_wordsAfter (List.cons_ne_nil c []) text with ⟨piece, rest, heq⟩
  rw [words, wordsAfter, if_neg (by simp [hc]), heq]
  cases rest with
  | nil =>
      exact ⟨piece, rfl⟩
  | cons second rest =>
      exact ⟨piece ++ [' '] ++ join [' '] (second :: rest), rfl⟩

end Text

namespace Token

/-!
# What keywords read as
-/

variable {token : Token}

theorem normalized_solid (hkeyword : token.isKeyword = true)
    (h : forall c, c ∈ token.value -> Text.isBlank c = false) :
    token.normalized = token.value.upper := by
  unfold normalized
  rw [if_pos hkeyword]
  by_cases hne : token.value = []
  · rw [hne]
    rfl
  · rw [Text.words_solid h hne]
    rfl

theorem exists_normalized (hkeyword : token.isKeyword = true) {c : Char} {text : Text}
    (hvalue : token.value = c :: text) (hc : Text.isBlank c = false) :
    exists rest, token.normalized = Text.upperChar c ++ rest := by
  rcases Text.exists_join_words hc text with ⟨rest, heq⟩
  refine ⟨Text.upper rest, ?_⟩
  unfold normalized
  rw [if_pos hkeyword, hvalue, heq]
  rfl

/-- The keywords for which a pass makes an exception. -/
def exceptions : List Text := [Text.of "NULL", Text.of "AS"] ++ Pass.literalTypes

/-- A keyword that selects, changes or defines, and none of the exceptions. -/
structure Leading (token : Token) : Prop where
  category_eq : token.category = .dml ∨ token.category = .ddl
  normalized_ne : forall word, word ∈ exceptions -> token.normalized ≠ word

theorem isKeyword_of_category (h : token.category = .dml ∨ token.category = .ddl) :
    token.isKeyword = true := by
  unfold isKeyword
  rcases h with hdml | hddl
  · rw [hdml]
    rfl
  · rw [hddl]
    rfl

theorem not_isTypeWord (hkeyword : token.isKeyword = true) {word : Text}
    (hword : word ∈ Pass.literalTypes) (hne : token.normalized ≠ word) :
    Pass.isTypeWord word token = false := by
  apply Bool.eq_false_iff.mpr
  intro htype
  have hsame : token.value.asciiLower = word.asciiLower :=
    beq_iff_eq.mp (Bool.and_eq_true_iff.mp htype).2
  have hword' : forall word, word ∈ Pass.literalTypes ->
      (word.asciiLower.all fun c => !Text.isBlank c) = true ∧ word.upper = word := by
    decide
  rcases hword' word hword with ⟨hsolid, hupper⟩
  have hvalue : forall c, c ∈ token.value -> Text.isBlank c = false := by
    intro c hc
    have hlower : c.toLower ∈ word.asciiLower := by
      rw [← hsame]
      exact List.mem_map_of_mem hc
    rw [← Text.isBlank_toLower]
    simpa using List.all_eq_true.mp hsolid _ hlower
  apply hne
  rw [normalized_solid hkeyword hvalue, ← Text.upper_asciiLower, hsame, Text.upper_asciiLower,
    hupper]

theorem Leading.not_isTypeWord (h : token.Leading) {word : Text}
    (hword : word ∈ Pass.literalTypes) : Pass.isTypeWord word token = false :=
  Token.not_isTypeWord (isKeyword_of_category h.category_eq) hword
    (h.normalized_ne word (List.mem_append_right _ hword))

end Token

/-!
# What the lexer reads
-/

theorem Vocabulary.classify_exception {options : LexerOptions} {config : LexerConfig}
    (hcheck : options.check = .ok config) {word : Text} (hword : word.upper ∈ Token.exceptions) :
    config.vocabulary.classify word ≠ .dml ∧ config.vocabulary.classify word ≠ .ddl := by
  have htables : forall dialect, forall word, word ∈ Token.exceptions ->
      ((ofDialect dialect).dictionaries.findSome? (·.find? word)).all
        (fun category => category != .dml && category != .ddl) = true := by
    intro dialect
    cases dialect with
    | generic => decide
    | postgresql => decide
    | mysql => decide
  have hfound := htables config.dialect word.upper hword
  rw [← dictionaries_of_check hcheck] at hfound
  unfold classify
  dsimp only
  cases hfind : config.vocabulary.dictionaries.findSome? (·.find? word.upper) with
  | some category =>
      rw [hfind, Option.all_some, Bool.and_eq_true, bne_iff_ne, bne_iff_ne] at hfound
      exact hfound
  | none =>
      dsimp only
      split
      · exact ⟨nofun, nofun⟩
      · exact ⟨nofun, nofun⟩

theorem CharSet.solid_of_skipsBlanks {set : CharSet} (h : set.skipsBlanks = true) {c : Char}
    (hc : set.has c = true) : Text.isBlank c = false := by
  apply Bool.eq_false_iff.mpr
  intro hblank
  rw [CharSet.not_has_of_skipsBlanks h hblank] at hc
  cases hc

def Regex.lookedUp : Regex :=
  .seq (.chars .word) (.star (.chars (.either (.oneOf ['$', '#']) .word)))

theorem Regex.solid_of_lookedUp {text : Text} (h : lookedUp.Spells text) :
    forall c, c ∈ text -> Text.isBlank c = false := by
  intro c hc
  cases h with
  | @seq _ _ u v hu hv =>
      rcases List.mem_append.mp hc with hleft | hright
      · rcases spells_chars hu with ⟨d, rfl, hhas⟩
        rw [List.mem_singleton.mp hleft]
        exact CharSet.solid_of_skipsBlanks rfl hhas
      · exact CharSet.solid_of_skipsBlanks rfl (hv.all_star_chars c hright)

namespace Rule

/-- What is read as a keyword of this sort without a look at the dictionaries starts with
a C. -/
theorem leading_rules (dialect : Dialect) :
    (ofDialect dialect).all (fun rule =>
      match rule.action with
      | .emit category => category != .dml && category != .ddl ||
          rule.regex.firstSets == [CharSet.letter 'c']
      | .lookUp => rule.regex == Regex.lookedUp) = true := by
  apply all_ofDialect
  · cases dialect with
    | generic => decide
    | postgresql => decide
    | mysql => decide
  · decide

end Rule

theorem CharSet.upperChar_of_letter_c {c : Char} (h : (CharSet.letter 'c').has c = true) :
    Text.upperChar c = ['C'] := by
  have hfold : foldLetter c = 'c' := beq_iff_eq.mp h
  by_cases hcapital : c ∈ capitals
  · have hcapitals : capitals.all
        (fun c => foldLetter c != 'c' || Text.upperChar c == ['C']) = true := by
      decide
    have hc := List.all_eq_true.mp hcapitals c hcapital
    rw [hfold] at hc
    exact eq_of_beq hc
  · have hc : c = 'c' := by
      unfold foldLetter at hfold
      rw [toLower_eq_self hcapital] at hfold
      split at hfold
      · exact hfold
      · split at hfold
        · cases hfold
        · split at hfold
          · cases hfold
          · exact hfold
    rw [hc]
    decide

namespace Scan

variable {config : LexerConfig} {scan after : Scan} {token : Token}

theorem leading_of_next? {options : LexerOptions} (hcheck : options.check = .ok config)
    (hnext : scan.next? config = some (token, after))
    (hcategory : token.category = .dml ∨ token.category = .ddl) : token.Leading := by
  refine ⟨hcategory, fun word hword hnormalized => ?_⟩
  have hother : forall other, other ≠ .dml -> other ≠ .ddl -> token.category ≠ other := by
    rintro other hdml hddl rfl
    rcases hcategory with heq | heq
    · exact hdml heq
    · exact hddl heq
  have hkeyword : token.isKeyword = true := Token.isKeyword_of_category hcategory
  have htag := (outside_of_category hnext (hother _ nofun nofun) (hother _ nofun nofun)).1
  rcases next?_outcome hnext with ⟨hclass, hvalue, _, _⟩
  rw [outcome_plain_eq htag] at hclass hvalue
  dsimp only at hclass hvalue
  cases hfirst : Rule.first? (Rule.ofDialect config.dialect) scan.before scan.rest with
  | none =>
      rw [classify_of_stuck hfirst] at hclass
      exact hother .error nofun nofun hclass
  | some found =>
      rcases found with ⟨action, n⟩
      rw [classify_of_found hfirst] at hclass hvalue
      rcases Rule.exists_of_first? hfirst with ⟨rule, hrule, haction, hpos, hle, hspells⟩
      have hrules := List.all_eq_true.mp (Rule.leading_rules config.dialect) rule hrule
      rw [haction] at hrules
      rw [← hvalue] at hspells
      cases action with
      | emit category =>
          have hemit : category = token.category := hclass.symm
          have hsets : rule.regex.firstSets = [CharSet.letter 'c'] := by
            rcases Bool.or_eq_true_iff.mp hrules with hothers | hsets
            · rw [Bool.and_eq_true, bne_iff_ne, bne_iff_ne, hemit] at hothers
              exact (hcategory.elim hothers.1 hothers.2).elim
            · exact beq_iff_eq.mp hsets
          -- Every exception starts with another letter.
          have hletters : forall word, word ∈ Token.exceptions -> word.head? ≠ some 'C' := by
            decide
          apply hletters word hword
          cases hchars : token.value with
          | nil =>
              have hlength := congrArg List.length hvalue
              rw [hchars, List.length_take] at hlength
              dsimp only [List.length_nil] at hlength
              omega
          | cons c rest =>
              rw [hchars] at hspells
              rcases hspells.first with ⟨set, hset, hhas⟩
              rw [hsets, List.mem_singleton] at hset
              rw [hset] at hhas
              have hc := CharSet.solid_of_skipsBlanks rfl hhas
              rcases Token.exists_normalized hkeyword hchars hc with ⟨more, hmore⟩
              rw [← hnormalized, hmore, CharSet.upperChar_of_letter_c hhas]
              rfl
      | lookUp =>
          have hsolid : forall c, c ∈ token.value -> Text.isBlank c = false := by
            rw [beq_iff_eq.mp hrules] at hspells
            exact Regex.solid_of_lookedUp hspells
          rw [Token.normalized_solid hkeyword hsolid] at hnormalized
          rw [← hnormalized] at hword
          rw [← hvalue] at hclass
          rcases Vocabulary.classify_exception hcheck hword with ⟨hdml, hddl⟩
          rcases hcategory with heq | heq
          · exact hdml (hclass.symm.trans heq)
          · exact hddl (hclass.symm.trans heq)

end Scan

theorem leading_of_mem_tokenize {options : LexerOptions} {config : LexerConfig}
    (hcheck : options.check = .ok config) {sql : Text} {token : Token}
    (htoken : token ∈ tokenize config sql)
    (hcategory : token.category = .dml ∨ token.category = .ddl) : token.Leading := by
  rcases (emits_tokenize config sql).exists_place htoken with ⟨place, after, hnext⟩
  exact Scan.leading_of_next? hcheck hnext hcategory

end SqlLayout
