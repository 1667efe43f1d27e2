import SqlLayout.Proofs.Lexer.AddedWords
import SqlLayout.Proofs.Lexer.WordRules

/-!
# Words that are read as one token

A word that the caller adds has been tested character by character.  The lexer reads it
back as one token unless a number or one of a few keywords stands at its start, and if its
characters are those of the word pattern.
-/

namespace SqlLayout

/-!
# Numbers at the start of a word
-/

namespace Text

/-- What the pattern of a word asks for. -/
structure FitsPattern (word : Text) : Prop where
  first : exists c rest, word = c :: rest ∧ isWord c = true
  signs : forall c, c ∈ word -> isWord c = true ∨ c = '$' ∨ c = '#'

end Text

namespace Rule

open Regex

variable {word : Text}

section

variable (h : word.Accepted) (hpattern : word.FitsPattern) {set : CharSet}
  (hwords : forall c, set.has c = true -> Text.isWord c = true)
  (hdigits : forall c, CharSet.digit.has c = true -> set.has c = true)
include h hpattern hwords hdigits

theorem stands_alone_iff (matched : Text) {behind : Text}
    (hmem : forall c, c ∈ behind -> c ∈ word) :
    Stops set behind ∧ Surroundings.numberStandsAlone ⟨none, matched, behind⟩ = true <->
      Stops .word behind := by
  have hguard : Surroundings.numberStandsAlone ⟨none, matched, behind⟩ =
      !(behind.head?.any fun c => Text.isLetter c || c == '_') := by
    unfold Surroundings.numberStandsAlone Surroundings.beforeHas
    dsimp only
    rw [Bool.and_false, Bool.not_false, Bool.and_true]
    cases behind.head? with
    | none => rfl
    | some c => rfl
  rw [hguard]
  cases behind with
  | nil =>
      exact ⟨fun _ c hc => (nomatch hc), fun _ => ⟨fun c hc => (nomatch hc), rfl⟩⟩
  | cons c rest =>
      have hc := hmem c List.mem_cons_self
      rw [List.head?_cons, Option.any_some, Bool.not_eq_true', Bool.or_eq_false_iff,
        beq_eq_false_iff_ne]
      constructor
      · rintro ⟨hstops, hletter, hunderscore⟩ d hd
        cases hd
        apply Bool.eq_false_iff.mpr
        intro hword
        have hname : Text.isNameChar c = true := by
          have hsign := h.signs c hc
          rw [Text.isWordSign, Bool.or_eq_true, Bool.or_eq_true, beq_iff_eq, beq_iff_eq] at hsign
          rcases hsign with (hname | rfl) | rfl
          · exact hname
          · exact absurd hword (by decide)
          · exact absurd hword (by decide)
        rcases Text.letter_or_digit hname hword with hyes | hyes | hyes
        · rw [hletter] at hyes
          cases hyes
        · exact hunderscore hyes
        · have hno := hstops c rfl
          rw [hdigits c hyes] at hno
          cases hno
      · intro hstops
        have hword : Text.isWord c = false := hstops c rfl
        constructor
        · intro d hd
          cases hd
          apply Bool.eq_false_iff.mpr
          intro hset
          rw [hwords c hset] at hword
          cases hword
        · rcases hpattern.signs c hc with hyes | rfl | rfl
          · rw [hyes] at hword
            cases hword
          · decide
          · decide

theorem matchLength?_number {regex : Regex} {form : Text -> Bool}
    (hmeasures : Measures regex set form) (category : Category) :
    (guarded regex category Surroundings.numberStandsAlone).matchLength? none word =
      if form word.wordHead then some word.wordHead.length else none := by
  have hsign : forall c, c = '-' ∨ c = '.' -> c ∉ word := by
    rintro c (rfl | rfl) hc
    · exact absurd (h.signs _ hc) (by decide)
    · exact absurd (h.signs _ hc) (by decide)
  have hiff := fun n => hmeasures.matchLength?_iff (n := n) (hsign _ (Or.inl rfl))
    (hsign _ (Or.inr rfl))
  by_cases hform : form word.wordHead = true
  · rcases word.exists_behind_wordHead with ⟨behind, hword, hstops⟩
    have hmem : forall c, c ∈ behind -> c ∈ word := fun c hc =>
      hword ▸ List.mem_append_right _ hc
    have halone := (stands_alone_iff h hpattern hwords hdigits word.wordHead hmem).mpr hstops
    have hne : word.wordHead ≠ [] := by
      rcases hpattern.first with ⟨c, rest, rfl, hc⟩
      rw [Text.wordHead, List.takeWhile_cons_of_pos hc]
      exact List.cons_ne_nil _ _
    have hmatch := (hiff _).mpr ⟨_, behind, hword, rfl, hform, halone.1⟩
    rw [if_pos hform]
    generalize word.wordHead = head at hword hmatch halone hne
    rw [hword] at hmatch ⊢
    rw [matchLength?_some hmatch hne]
    exact if_pos halone.2
  · rw [if_neg hform]
    cases hmatch :
        (guarded regex category Surroundings.numberStandsAlone).matchLength? none word with
    | none =>
        rfl
    | some n =>
        rcases (hiff n).mp (regex_of_matchLength? hmatch) with
          ⟨front, behind, rfl, rfl, hfront, hstops⟩
        have hguard := guard_of_matchLength? hmatch
        rw [List.take_left, List.drop_left] at hguard
        have hbehind := (stands_alone_iff h hpattern hwords hdigits front
          fun c hc => List.mem_append_right _ hc).mp ⟨hstops, hguard⟩
        rw [Text.eq_wordHead (hmeasures.isWord front hfront) hbehind] at hform
        exact absurd hfront hform

end

theorem matchLength?_lookedUp (hpattern : word.FitsPattern) :
    Rule.matchLength? { regex := lookedUp, action := .lookUp } none word = some word.length := by
  have hset : forall c, c ∈ word -> CharSet.has (.either (.oneOf ['$', '#']) .word) c = true := by
    intro c hc
    simp only [CharSet.has, Bool.or_eq_true, List.elem_iff, List.mem_cons, List.not_mem_nil,
      or_false]
    exact (hpattern.signs c hc).symm
  rcases hpattern.first with ⟨c, rest, rfl, hfirst⟩
  have hc : CharSet.word.has c = true := hfirst
  have hrun : (Rule.regex { regex := lookedUp, action := .lookUp }).matchLength? (c :: rest) =
      some (rest.length + 1) := by
    dsimp only
    rw [Regex.matchLength?, lookedUp, run_chars_seq hc, run_star_chars,
      List.takeWhile_eq_self_iff.mpr fun d hd => hset d (List.mem_cons_of_mem _ hd)]
    rfl
  exact matchLength?_of_regex hrun (Nat.succ_pos _) none

def Chooses (word : Text) (rule : Rule) (choice : Category × (Text -> Bool)) : Prop :=
  rule.action = .emit choice.1 ∧ rule.matchLength? none word =
    if choice.2 word.wordHead then some word.wordHead.length else none

theorem first?_of_chooses {rules late : List Rule} {choices : List (Category × (Text -> Bool))}
    (h : List.Forall₂ (Chooses word) rules choices) :
    first? (rules ++ late) none word =
      match choices.find? fun choice => choice.2 word.wordHead with
      | some choice => some (.emit choice.1, word.wordHead.length)
      | none => first? late none word := by
  induction h with
  | nil =>
      rfl
  | @cons rule choice rules choices hchooses _ ih =>
      unfold first? at ih ⊢
      rw [List.cons_append, List.findSome?_cons, hchooses.2, hchooses.1, List.find?_cons]
      cases choice.2 word.wordHead with
      | true =>
          rfl
      | false =>
          exact ih

/-- What the word characters at the start can be read as before the word is looked up. -/
def wordChoices : List (Category × (Text -> Bool)) :=
  [(.keyword, Text.readsOne prefixWords), (.hexadecimal, Text.isHexadecimal),
   (.float, Text.isFloat), (.integer, Text.isInteger), (.keyword, Text.readsOne ["JOIN"]),
   (.keyword, Text.readsOne ["END"]), (.ddl, Text.readsOne ["CREATE"]),
   (.comparison, Text.readsOne comparisonWords)]

theorem first?_eq_choice (h : word.Accepted) (hpattern : word.FitsPattern) (dialect : Dialect) :
    first? (ofDialect dialect) none word =
      match wordChoices.find? fun choice => choice.2 word.wordHead with
      | some choice => some (.emit choice.1, word.wordHead.length)
      | none => some (.lookUp, word.length) := by
  have hchoices : List.Forall₂ (Chooses word)
      (plain (oneOfTexts prefixWords ++ wordBoundary) .keyword :: wordRules.take 7)
      wordChoices := by
    refine .cons ⟨rfl, ?_⟩ (.cons ⟨rfl, ?_⟩ (.cons ⟨rfl, ?_⟩ (.cons ⟨rfl, ?_⟩ (.cons ⟨rfl, ?_⟩
      (.cons ⟨rfl, ?_⟩ (.cons ⟨rfl, ?_⟩ (.cons ⟨rfl, ?_⟩ .nil)))))))
    · exact matchLength?_words h (by decide) (by decide) _
    · exact matchLength?_number h hpattern (fun _ => CharSet.isWord_of_hexDigit)
        (fun _ => CharSet.hexDigit_of_digit) measures_hexadecimal _
    · exact matchLength?_number h hpattern (fun _ => CharSet.isWord_of_digit) (fun _ => id)
        measures_exponential _
    · exact matchLength?_number h hpattern (fun _ => CharSet.isWord_of_digit) (fun _ => id)
        measures_integer _
    · exact matchLength?_words h (by decide) (by decide) _
    · exact matchLength?_words h (by decide) (by decide) _
    · exact matchLength?_words h (by decide) (by decide) _
    · exact matchLength?_words h (by decide) (by decide) _
  have hlast : first? (wordRules.drop 7) none word = some (.lookUp, word.length) := by
    change first? [{ regex := lookedUp, action := .lookUp }] none word = _
    rw [first?, List.findSome?_cons, matchLength?_lookedUp hpattern]
    rfl
  have hrules : plain (oneOfTexts prefixWords ++ wordBoundary) .keyword :: wordRules =
      plain (oneOfTexts prefixWords ++ wordBoundary) .keyword :: wordRules.take 7 ++
        wordRules.drop 7 :=
    rfl
  rw [first?_word h, hrules, first?_of_chooses hchoices, hlast]

def outsideTable : List Category := [.hexadecimal, .float, .integer, .comparison, .error]

theorem fitsPattern_of_first? (h : word.Accepted) {dialect : Dialect} {action : Action} {n : Nat}
    (hfirst : first? (ofDialect dialect) none word = some (action, n)) (hn : word.length <= n)
    (haction : forall category, action = .emit category -> category ∉ outsideTable) :
    word.FitsPattern := by
  have hletters : forall (texts : List String) {regex : Regex} {category : Category},
      regex.prune (CharSet.avoids Text.isWordSign) = some (oneOfTexts texts ++ wordBoundary) ->
      lettered texts = true -> (plain regex category).matchLength? none word = some n ->
      word.FitsPattern := by
    intro texts regex category hregex htexts hmatch
    rw [matchLength?_words h hregex htexts] at hmatch
    split at hmatch
    · rename_i hreads
      cases hmatch
      rcases word.exists_behind_wordHead with ⟨behind, hword, _⟩
      have hbehind : behind = [] := by
        have hlength := congrArg List.length hword
        rw [List.length_append] at hlength
        exact List.eq_nil_of_length_eq_zero (by omega)
      rw [hbehind, List.append_nil] at hword
      rw [← hword] at hreads
      have hlower := (Text.isLower_of_readsOne htexts hreads).2
      rcases h.first with ⟨c, rest, rfl, _⟩
      exact ⟨⟨c, rest, rfl, CharSet.isWord_of_fold (hlower c List.mem_cons_self)⟩,
        fun d hd => Or.inl (CharSet.isWord_of_fold (hlower d hd))⟩
    · cases hmatch
  rw [first?_word h] at hfirst
  rcases List.exists_of_findSome?_eq_some hfirst with ⟨rule, hrule, hmatch⟩
  rcases Option.map_eq_some_iff.mp hmatch with ⟨m, hm, hpair⟩
  rw [Prod.mk.injEq] at hpair
  rcases hpair with ⟨rfl, rfl⟩
  simp only [wordRules, List.mem_cons, List.not_mem_nil, or_false] at hrule
  rcases hrule with rfl | rfl | rfl | rfl | rfl | rfl | rfl | rfl | rfl
  · exact hletters prefixWords (by decide) (by decide) hm
  · exact absurd (by decide) (haction .hexadecimal rfl)
  · exact absurd (by decide) (haction .float rfl)
  · exact absurd (by decide) (haction .integer rfl)
  · exact hletters ["JOIN"] (by decide) (by decide) hm
  · exact hletters ["END"] (by decide) (by decide) hm
  · exact hletters ["CREATE"] (by decide) (by decide) hm
  · exact absurd (by decide) (haction .comparison rfl)
  · rcases spells_of_matchLength? hm with ⟨_, _, hspells⟩
    rw [List.take_of_length_le hn] at hspells
    cases hspells with
    | seq hinitial hrest =>
        rcases spells_chars hinitial with ⟨c, rfl, hc⟩
        refine ⟨⟨c, _, rfl, hc⟩, ?_⟩
        intro d hd
        rcases List.mem_cons.mp hd with rfl | hd
        · exact Or.inl hc
        · have hset := hrest.all_star_chars d hd
          simp only [CharSet.has, Bool.or_eq_true, List.elem_iff, List.mem_cons, List.not_mem_nil,
            or_false] at hset
          exact hset.symm

end Rule

/-!
# Categories of words
-/

namespace Text

variable {p : Text} {words : List String}

/-- What reads as a word in capitals without a K, which has a form of its own, is that word in
upper case. -/
theorem upper_of_reads {word : String} (hword : (word.toList.all fun c =>
      c.toLower.isLower && c.toLower != 'k' && c.toLower.toUpper == c) = true)
    (h : reads word p = true) : p.upper = word.toList := by
  have hmap := beq_iff_eq.mp h
  clear h
  generalize word.toList = cs at hword hmap
  induction cs generalizing p with
  | nil =>
      rw [List.map_eq_nil_iff.mp hmap]
      rfl
  | cons c cs ih =>
      cases p with
      | nil =>
          cases hmap
      | cons d p =>
          rw [List.map_cons, List.map_cons, List.cons.injEq] at hmap
          rw [List.all_cons, Bool.and_eq_true, Bool.and_eq_true, Bool.and_eq_true, bne_iff_ne,
            beq_iff_eq] at hword
          rcases hword with ⟨⟨⟨hlower, hk⟩, hupper⟩, hrest⟩
          rw [← hmap.1] at hlower hk hupper
          have hform := CharSet.of_letterForms (p := fun d => CharSet.foldLetter d == 'k' ||
            upperChar d == [(CharSet.foldLetter d).toUpper]) (by decide) hlower
          rw [beq_false_of_ne hk, Bool.false_or, beq_iff_eq, hupper] at hform
          rw [upper, List.flatMap_cons, hform]
          exact congrArg (c :: ·) (ih hrest hmap.2)

theorem not_readsOne {others : List String}
    (happart : (words.all fun word => others.all fun other =>
      word.toList.map Char.toLower != other.toList.map Char.toLower) = true)
    (h : readsOne words p = true) : readsOne others p = false := by
  apply Bool.eq_false_iff.mpr
  intro hother
  rcases List.any_eq_true.mp h with ⟨word, hword, hreads⟩
  rcases List.any_eq_true.mp hother with ⟨other, hmem, hreads'⟩
  have hne := List.all_eq_true.mp (List.all_eq_true.mp happart word hword) other hmem
  rw [← beq_iff_eq.mp hreads, ← beq_iff_eq.mp hreads', bne_self_eq_false] at hne
  cases hne

theorem not_isNumber (hwords : Regex.lettered words = true) (h : readsOne words p = true) :
    isNumber p = false := by
  apply Bool.eq_false_iff.mpr
  intro hnumber
  rcases exists_digit hnumber with ⟨c, rest, rfl, hc⟩
  rw [CharSet.not_digit_of_fold ((isLower_of_readsOne hwords h).2 c List.mem_cons_self)] at hc
  cases hc

end Text

section

variable {options : LexerOptions} {config : LexerConfig} (hcheck : options.check = .ok config)
include hcheck

theorem Vocabulary.classify_not_outside (word : Text) :
    config.vocabulary.classify word ∉ Rule.outsideTable := by
  have htables : config.vocabulary.dictionaries.all (fun dictionary =>
      dictionary.all fun entry =>
        entry.2.all fun group => !Rule.outsideTable.elem group.1) = true := by
    rw [dictionaries_of_check hcheck]
    cases config.dialect with
    | generic => decide
    | postgresql => decide
    | mysql => decide
  have hplain := classify_of_all (p := fun category => !Rule.outsideTable.elem category) htables
    (by decide) (by decide) word
  rw [Bool.not_eq_true'] at hplain
  intro hmem
  rw [List.elem_iff.mpr hmem] at hplain
  cases hplain

theorem Vocabulary.classify_of_readsOne {words : List String} {category : Category} {p : Text}
    (hwords : (words.all fun word => word.toList.all fun c =>
      c.toLower.isLower && c.toLower != 'k' && c.toLower.toUpper == c) = true)
    (htable : ([Dialect.generic, .postgresql, .mysql].all fun dialect => words.all fun word =>
      (Vocabulary.ofDialect dialect).dictionaries.findSome? (·.find? word.toList) ==
        some category) = true) (h : Text.readsOne words p = true) :
    config.vocabulary.classify p = category := by
  rcases List.any_eq_true.mp h with ⟨word, hword, hreads⟩
  have hdialect : config.dialect ∈ [Dialect.generic, .postgresql, .mysql] := by
    cases config.dialect with
    | generic => decide
    | postgresql => decide
    | mysql => decide
  have hfound := List.all_eq_true.mp (List.all_eq_true.mp htable _ hdialect) word hword
  unfold classify
  dsimp only
  rw [dictionaries_of_check hcheck,
    Text.upper_of_reads (List.all_eq_true.mp hwords word hword) hreads, beq_iff_eq.mp hfound]

end

/-!
# Words that are read back
-/

namespace Scan

section

variable {config : LexerConfig} {text : Text}

theorem classify_start_of_found {action : Action} {n : Nat}
    (h : Rule.first? (Rule.ofDialect config.dialect) none text = some (action, n)) :
    classify config { rest := text } =
      (action.categoryOf config.vocabulary (text.take n), n) :=
  classify_of_found h

theorem classify_start_of_stuck
    (h : Rule.first? (Rule.ofDialect config.dialect) none text = none) :
    classify config { rest := text } = (.error, 1) :=
  classify_of_stuck h

end

theorem tokenize_eq_singleton_iff (config : LexerConfig) {text : Text} (hne : text ≠ [])
    (category : Category) : tokenize config text = [⟨category, text, some 0⟩] <->
      (classify config { rest := text }).1 = category ∧
        text.length <= (classify config { rest := text }).2 := by
  have hemits := emits_tokenize config text
  constructor
  · intro htokens
    rw [htokens] at hemits
    cases hemits with
    | emit hnext _ =>
        rcases next?_outcome hnext with ⟨hclass, hvalue, _, _⟩
        rw [outcome_plain_eq rfl] at hclass hvalue
        refine ⟨hclass.symm, ?_⟩
        have hlength := congrArg List.length hvalue
        dsimp only at hlength
        rw [List.length_take] at hlength
        omega
  · rintro ⟨hclass, hlength⟩
    cases text with
    | nil =>
        exact absurd rfl hne
    | cons c rest =>
        have hrest : Scan.rest { rest := c :: rest } ≠ [] := List.cons_ne_nil c rest
        have hfirst : exists token after,
            next? config { rest := c :: rest } = some (token, after) :=
          exists_next? hrest
        rcases hfirst with ⟨token, after, hnext⟩
        rcases next?_outcome hnext with ⟨hcategory, hvalue, _, _⟩
        rw [outcome_plain_eq rfl] at hcategory hvalue
        dsimp only at hcategory hvalue
        rw [List.take_of_length_le hlength] at hvalue
        rcases next?_spec (ready_start _) hnext with ⟨_, hposition, hrest, _, _⟩
        have hstop : after.rest = [] := by
          rw [hvalue] at hrest
          exact List.append_right_eq_self.mp hrest.symm
        have htoken : token = ⟨category, c :: rest, some 0⟩ := by
          rcases token with ⟨tokenCategory, value, position⟩
          dsimp only at hcategory hvalue hposition
          rw [hcategory.trans hclass, hvalue, hposition]
        rw [htoken] at hnext
        exact hemits.unique (Emits.emit hnext (Emits.stop (next?_eq_none_iff.mpr hstop)))

end Scan

namespace Rule

/-- The words that are read as keywords before words are looked up. -/
def keywordWords : List String := prefixWords ++ (["JOIN"] ++ (["END"] ++ ["CREATE"]))

end Rule

/-- The words that the lexer reads back as one token: they are of the pattern, the part in
front of the first dollar or number sign is no number and no comparison, and it is no keyword
that is read without a look at the dictionaries, unless it is all of the word. -/
structure Text.ReadsBack (word : Text) : Prop where
  pattern : word.FitsPattern
  number : word.wordHead.isNumber = false
  comparison : readsOne Rule.comparisonWords word.wordHead = false
  keyword : readsOne Rule.keywordWords word.wordHead = true -> word.wordHead = word

theorem Vocabulary.accepted_of_check {dialect : Option Text} {word : Text} {config : LexerConfig}
    (h : LexerOptions.check { dialect := dialect, keywords := some [word] } = .ok config) :
    word.Accepted := by
  have hextend : (Vocabulary.ofDialect config.dialect).extend [word] = .ok config.vocabulary :=
    (LexerOptions.check_eq_ok_iff.mp h).2
  unfold extend at hextend
  split at hextend
  · cases hextend
  · rename_i hfind
    have hword := List.find?_eq_none.mp hfind word (List.mem_singleton_self word)
    rw [Bool.not_eq_true', Bool.not_eq_false] at hword
    exact Text.accepted_of_isSingleWord hword

section

variable {choice : Category × (Text -> Bool)} (hchoice : choice ∈ Rule.wordChoices) {p : Text}
include hchoice

theorem Rule.not_outside_of_choice (h : choice.2 p = true) (hnumber : p.isNumber = false)
    (hcomparison : Text.readsOne Rule.comparisonWords p = false) :
    choice.1 ∉ outsideTable := by
  rw [Text.isNumber, Bool.or_eq_false_iff, Bool.or_eq_false_iff] at hnumber
  simp only [wordChoices, List.mem_cons, List.not_mem_nil, or_false] at hchoice
  rcases hchoice with rfl | rfl | rfl | rfl | rfl | rfl | rfl | rfl
  · decide
  · exact absurd h (ne_true_of_eq_false hnumber.1.2)
  · exact absurd h (ne_true_of_eq_false hnumber.2)
  · exact absurd h (ne_true_of_eq_false hnumber.1.1)
  · decide
  · decide
  · decide
  · exact absurd h (ne_true_of_eq_false hcomparison)

/-- The keywords that are read without a look at the dictionaries have the same category
there. -/
theorem Vocabulary.classify_choice {options : LexerOptions} {config : LexerConfig}
    (hcheck : options.check = .ok config) (hcategory : choice.1 ∉ Rule.outsideTable)
    (h : choice.2 p = true) :
    Text.readsOne Rule.keywordWords p = true ∧ config.vocabulary.classify p = choice.1 := by
  have hreads : forall words, (words.all fun word => Rule.keywordWords.elem word) = true ->
      Text.readsOne words p = true -> Text.readsOne Rule.keywordWords p = true := by
    intro words hsub hreads
    rcases List.any_eq_true.mp hreads with ⟨word, hword, hread⟩
    exact List.any_eq_true.mpr
      ⟨word, List.elem_iff.mp (List.all_eq_true.mp hsub word hword), hread⟩
  simp only [Rule.wordChoices, List.mem_cons, List.not_mem_nil, or_false] at hchoice
  rcases hchoice with rfl | rfl | rfl | rfl | rfl | rfl | rfl | rfl
  · exact ⟨hreads _ (by decide) h,
      classify_of_readsOne hcheck (by decide) (by decide) h⟩
  · exact absurd (by decide) hcategory
  · exact absurd (by decide) hcategory
  · exact absurd (by decide) hcategory
  · exact ⟨hreads _ (by decide) h,
      classify_of_readsOne hcheck (by decide) (by decide) h⟩
  · exact ⟨hreads _ (by decide) h,
      classify_of_readsOne hcheck (by decide) (by decide) h⟩
  · exact ⟨hreads _ (by decide) h,
      classify_of_readsOne hcheck (by decide) (by decide) h⟩
  · exact absurd (by decide) hcategory

end

theorem Text.wordHead_eq_self {word : Text} (h : word.length <= word.wordHead.length) :
    word.wordHead = word :=
  (List.takeWhile_prefix _).sublist.eq_of_length_le h

theorem Text.readsBack_of_no_choice {word : Text} (hpattern : word.FitsPattern)
    (h : forall choice, choice ∈ Rule.wordChoices -> ¬ choice.2 word.wordHead = true) :
    word.ReadsBack := by
  simp only [Rule.wordChoices, List.forall_mem_cons, Bool.not_eq_true] at h
  rcases h with ⟨hearly, hhexadecimal, hfloat, hinteger, hjoin, hend, hcreate, hlike, _⟩
  refine ⟨hpattern, ?_, hlike, ?_⟩
  · rw [isNumber, hinteger, hhexadecimal, hfloat]
    rfl
  · intro hkeyword
    rw [readsOne, Rule.keywordWords, List.any_append, List.any_append, List.any_append] at hkeyword
    rw [readsOne] at hearly hjoin hend hcreate
    rw [hearly, hjoin, hend, hcreate] at hkeyword
    cases hkeyword

/-- A word that the caller adds is read back as one token, of the category that the vocabulary
gives it, just if it is one of those that the lexer reads back. -/
theorem added_word_is_one_token_iff {dialect : Option Text} {word : Text} {config : LexerConfig}
    (h : LexerOptions.check { dialect := dialect, keywords := some [word] } = .ok config) :
    tokenize config word = [⟨config.vocabulary.classify word, word, some 0⟩] <->
      word.ReadsBack := by
  have haccepted := Vocabulary.accepted_of_check h
  have hne : word ≠ [] := by
    rcases haccepted.first with ⟨c, rest, rfl, _⟩
    exact List.cons_ne_nil c rest
  rw [Scan.tokenize_eq_singleton_iff config hne]
  constructor
  · rintro ⟨hclass, hlength⟩
    cases hfirst : Rule.first? (Rule.ofDialect config.dialect) none word with
    | none =>
        rw [Scan.classify_start_of_stuck hfirst] at hclass
        exact absurd (hclass ▸ by decide) (Vocabulary.classify_not_outside h word)
    | some found =>
        rcases found with ⟨action, n⟩
        rw [Scan.classify_start_of_found hfirst] at hclass hlength
        have hpattern : word.FitsPattern := by
          apply Rule.fitsPattern_of_first? haccepted hfirst hlength
          rintro category rfl houtside
          exact Vocabulary.classify_not_outside h word (hclass ▸ houtside)
        rw [Rule.first?_eq_choice haccepted hpattern] at hfirst
        split at hfirst
        · rename_i choice hfind
          cases hfirst
          have hhead := Text.wordHead_eq_self hlength
          have hchosen := List.find?_some hfind
          have houtside : choice.1 ∉ Rule.outsideTable := by
            intro hmem
            exact Vocabulary.classify_not_outside h word (hclass ▸ hmem)
          have hkeyword := (Vocabulary.classify_choice (List.mem_of_find?_eq_some hfind) h
            houtside hchosen).1
          exact ⟨hpattern, Text.not_isNumber (by decide) hkeyword,
            Text.not_readsOne (by decide) hkeyword, fun _ => hhead⟩
        · rename_i hfind
          exact Text.readsBack_of_no_choice hpattern (List.find?_eq_none.mp hfind)
  · intro hback
    have hfirst := Rule.first?_eq_choice haccepted hback.pattern config.dialect
    split at hfirst
    · rename_i choice hfind
      have hmem := List.mem_of_find?_eq_some hfind
      have hchosen := List.find?_some hfind
      have houtside := Rule.not_outside_of_choice hmem hchosen hback.number hback.comparison
      rcases Vocabulary.classify_choice hmem h houtside hchosen with ⟨hkeyword, hclass⟩
      rw [Scan.classify_start_of_found hfirst, hback.keyword hkeyword]
      rw [hback.keyword hkeyword] at hclass
      exact ⟨hclass.symm, Nat.le_refl _⟩
    · rw [Scan.classify_start_of_found hfirst]
      refine ⟨?_, Nat.le_refl _⟩
      dsimp only [Action.categoryOf]
      rw [List.take_length]

/-- Behind a dollar sign a word may go on as it likes. -/
theorem added_word_is_one_token_iff_sign :
    exists config, LexerOptions.check { dialect := none, keywords := some [Text.of "zap$in"] } =
        .ok config ∧
      tokenize config (Text.of "zap$in") = [⟨.keyword, Text.of "zap$in", some 0⟩] := by
  let config : LexerConfig :=
    ⟨.generic, { Vocabulary.ofDialect .generic with added := [Text.of "ZAP$IN"] }⟩
  have hcheck : LexerOptions.check { dialect := none, keywords := some [Text.of "zap$in"] } =
      .ok config :=
    LexerOptions.check_eq_ok_iff.mpr ⟨rfl, rfl⟩
  have hclass : config.vocabulary.classify (Text.of "zap$in") = .keyword := by
    decide
  have hsigns : ((Text.of "zap$in").all fun c => Text.isWord c || c == '$' || c == '#') = true := by
    decide
  simp only [List.all_eq_true, Bool.or_eq_true, beq_iff_eq, or_assoc] at hsigns
  have hback : Text.ReadsBack (Text.of "zap$in") :=
    { pattern := ⟨⟨'z', _, rfl, by decide⟩, hsigns⟩
      number := by decide
      comparison := by decide
      keyword := by decide }
  refine ⟨config, hcheck, ?_⟩
  rw [(added_word_is_one_token_iff hcheck).mpr hback, hclass]

/-- A keyword in front of a dollar sign is cut off from the word. -/
theorem added_word_cut_at_sign :
    ¬ forall (dialect : Option Text) (word : Text) (config : LexerConfig),
      LexerOptions.check { dialect := dialect, keywords := some [word] } = .ok config ->
      tokenize config word = [⟨config.vocabulary.classify word, word, some 0⟩] := by
  let config : LexerConfig :=
    ⟨.generic, { Vocabulary.ofDialect .generic with added := [Text.of "IN$X"] }⟩
  have hcheck : LexerOptions.check { dialect := none, keywords := some [Text.of "in$x"] } =
      .ok config :=
    LexerOptions.check_eq_ok_iff.mpr ⟨rfl, rfl⟩
  have htokens : tokenize config (Text.of "in$x") =
      [⟨.keyword, Text.of "in", some 0⟩, ⟨.error, Text.of "$", some 2⟩,
       ⟨.name, Text.of "x", some 3⟩] := by
    decide +kernel
  intro hall
  have hone := congrArg List.length (hall none (Text.of "in$x") config hcheck)
  rw [htokens] at hone
  cases hone

end SqlLayout
