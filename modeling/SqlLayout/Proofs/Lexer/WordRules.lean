import SqlLayout.Proofs.Lexer.Numbers
import SqlLayout.Proofs.Lexer.StatementWords

/-!
# Rules at the start of a word

At the start of a word that the caller may add most rules have nothing to read: they ask for
another character there, or for one that no such word has.  Of the others those for keywords
read the word characters in front of the first dollar or number sign, if these are one of
their words.
-/

namespace SqlLayout

/-!
# Texts of words
-/

namespace Text

def reads (word : String) (p : Text) : Bool :=
  p.map CharSet.foldLetter == word.toList.map Char.toLower

def readsOne (words : List String) (p : Text) : Bool :=
  words.any fun word => reads word p

end Text

namespace Regex

variable {before : Option Char} {u behind : Text} {words : List String}

def lettered (words : List String) : Bool :=
  words.all fun word => !word.toList.isEmpty &&
    word.toList.all fun c => c.isAlpha && c.toLower.isLower

theorem takes_letters_iff {cs : Text} (hcs : (cs.all Char.isAlpha) = true) :
    Takes (sequence (cs.map char)) before u behind <->
      u.map CharSet.foldLetter = cs.map Char.toLower := by
  induction cs generalizing before u with
  | nil =>
      rw [List.map_nil, List.map_nil, List.map_eq_nil_iff]
      constructor
      · intro h
        cases h
        rfl
      · rintro rfl
        exact Takes.empty
  | cons c cs ih =>
      rcases Bool.and_eq_true_iff.mp hcs with ⟨hc, hrest⟩
      have hchar : forall before u behind, Takes (char c) before u behind <->
          exists d, u = [d] ∧ CharSet.foldLetter d = c.toLower := by
        intro before u behind
        rw [char, if_pos hc]
        constructor
        · intro h
          cases h with
          | @chars _ d _ _ hset => exact ⟨d, rfl, beq_iff_eq.mp hset⟩
        · rintro ⟨d, rfl, hd⟩
          exact Takes.chars (beq_iff_eq.mpr hd)
      cases cs with
      | nil =>
          refine (hchar before u behind).trans ?_
          constructor
          · rintro ⟨d, rfl, hd⟩
            rw [List.map_singleton, List.map_singleton, hd]
          · intro hmap
            cases u with
            | nil => cases hmap
            | cons d u =>
                rw [List.map_cons, List.map_singleton, List.cons.injEq, List.map_eq_nil_iff] at hmap
                exact ⟨d, by rw [hmap.2], hmap.1⟩
      | cons c' cs =>
          constructor
          · intro h
            cases h with
            | seq hfirst hsecond =>
                rcases (hchar _ _ _).mp hfirst with ⟨d, rfl, hd⟩
                rw [List.singleton_append, List.map_cons, List.map_cons, hd,
                  (ih hrest).mp hsecond]
          · intro hmap
            cases u with
            | nil => cases hmap
            | cons d u =>
                rw [List.map_cons, List.map_cons, List.cons.injEq] at hmap
                exact Takes.seq (u := [d]) ((hchar _ _ _).mpr ⟨d, rfl, hmap.1⟩)
                  ((ih hrest).mpr hmap.2)

theorem takes_oneOf_iff {rs : List Regex} : Takes (oneOf rs) before u behind <->
    exists r, r ∈ rs ∧ Takes r before u behind := by
  induction rs with
  | nil =>
      constructor
      · intro h
        cases h with
        | chars hset => cases hset
      · rintro ⟨r, hr, _⟩
        cases hr
  | cons first rest ih =>
      cases rest with
      | nil =>
          simp only [List.mem_singleton, exists_eq_left]
          rfl
      | cons second rest =>
          constructor
          · intro h
            cases h with
            | left hfirst => exact ⟨first, List.mem_cons_self, hfirst⟩
            | right hrest =>
                rcases ih.mp hrest with ⟨r, hr, htakes⟩
                exact ⟨r, List.mem_cons_of_mem _ hr, htakes⟩
          · rintro ⟨r, hr, htakes⟩
            rcases List.mem_cons.mp hr with rfl | hr
            · exact Takes.left htakes
            · exact Takes.right (ih.mpr ⟨r, hr, htakes⟩)

theorem takes_oneOfTexts_iff (hwords : lettered words = true) :
    Takes (oneOfTexts words) before u behind <-> Text.readsOne words u = true := by
  rw [oneOfTexts, takes_oneOf_iff, Text.readsOne, List.any_eq_true]
  have hletters : forall word, word ∈ words -> (word.toList.all Char.isAlpha) = true := by
    intro word hword
    have hword := List.all_eq_true.mp hwords word hword
    rw [Bool.and_eq_true, List.all_eq_true] at hword
    exact List.all_eq_true.mpr fun c hc => (Bool.and_eq_true_iff.mp (hword.2 c hc)).1
  constructor
  · rintro ⟨r, hr, htakes⟩
    rcases List.mem_map.mp hr with ⟨word, hword, rfl⟩
    exact ⟨word, hword, beq_iff_eq.mpr ((takes_letters_iff (hletters word hword)).mp htakes)⟩
  · rintro ⟨word, hword, hreads⟩
    exact ⟨text word, List.mem_map_of_mem hword,
      (takes_letters_iff (hletters word hword)).mpr (beq_iff_eq.mp hreads)⟩

end Regex

namespace Text

variable {words : List String} {p : Text}

theorem isLower_of_readsOne (hwords : Regex.lettered words = true) (h : readsOne words p = true) :
    p ≠ [] ∧ forall c, c ∈ p -> (CharSet.foldLetter c).isLower = true := by
  rcases List.any_eq_true.mp h with ⟨word, hword, hreads⟩
  have hmap := beq_iff_eq.mp hreads
  have hword := List.all_eq_true.mp hwords word hword
  rw [Bool.and_eq_true, Bool.not_eq_true', List.isEmpty_eq_false_iff, List.all_eq_true] at hword
  constructor
  · rintro rfl
    exact hword.1 (List.map_eq_nil_iff.mp hmap.symm)
  · intro c hc
    have hfold := List.mem_map_of_mem (f := CharSet.foldLetter) hc
    rw [hmap] at hfold
    rcases List.mem_map.mp hfold with ⟨d, hd, heq⟩
    rw [← heq]
    exact (Bool.and_eq_true_iff.mp (hword.2 d hd)).2

end Text

namespace Regex

theorem takes_words_iff {words : List String} {u behind : Text} (hwords : lettered words = true) :
    Takes (oneOfTexts words ++ wordBoundary) none u behind <->
      Text.readsOne words u = true ∧ Stops .word behind := by
  have hstops : isWordAt behind.head? = false <-> Stops .word behind := by
    unfold isWordAt Stops
    cases behind.head? with
    | none => exact ⟨fun _ _ hc => (nomatch hc), fun _ => rfl⟩
    | some c => exact ⟨fun hc d hd => Option.some.inj hd ▸ hc, fun hall => hall c rfl⟩
  have hlast : Text.readsOne words u = true -> isWordAt (lastOr none u) = true := by
    intro hreads
    rcases Text.isLower_of_readsOne hwords hreads with ⟨hne, hletters⟩
    rw [lastOr, Option.or_none, List.getLast?_eq_some_getLast hne]
    exact CharSet.isWord_of_fold (hletters _ (List.getLast_mem hne))
  constructor
  · intro h
    cases h with
    | seq htext hboundary =>
        cases hboundary with
        | wordBoundary hdiffer =>
            rw [List.append_nil] at hlast ⊢
            have hreads := (takes_oneOfTexts_iff hwords).mp htext
            rw [hlast hreads, bne_iff_ne, ne_eq, eq_comm, Bool.not_eq_true] at hdiffer
            exact ⟨hreads, hstops.mp hdiffer⟩
  · rintro ⟨hreads, hbehind⟩
    have hboundary : Takes .wordBoundary (lastOr none u) [] behind := by
      apply Takes.wordBoundary
      rw [hlast hreads, hstops.mpr hbehind]
      rfl
    rw [← List.append_nil u]
    exact Takes.seq ((takes_oneOfTexts_iff hwords).mpr hreads) hboundary

end Regex

/-!
# Rules that a word passes by
-/

namespace CharSet

variable {set : CharSet} {p : Char -> Bool} {c : Char}

def avoids (p : Char -> Bool) : CharSet -> Bool
  | blank => true
  | oneOf cs => !cs.any p
  | _ => false

theorem not_has_of_avoids (hblanks : forall c, Text.isBlank c = true -> p c = false)
    (h : set.avoids p = true) (hc : p c = true) : set.has c = false := by
  apply Bool.eq_false_iff.mpr
  intro hhas
  cases set with
  | blank =>
      rw [hblanks c hhas] at hc
      cases hc
  | oneOf cs =>
      rw [avoids, Bool.not_eq_true', List.any_eq_false] at h
      exact h c (List.elem_iff.mp hhas) hc
  | any => cases h
  | noneOf cs => cases h
  | letter l => cases h
  | digit => cases h
  | word => cases h
  | nameStart => cases h
  | either a b => cases h

end CharSet

def Text.isWordSign (c : Char) : Bool :=
  Text.isNameChar c || c == '$' || c == '#'

theorem Text.not_isWordSign_of_blank (c : Char) (hc : isBlank c = true) :
    isWordSign c = false := by
  have hsign : forall d, isBlank d = false -> c ≠ d := by
    rintro d hd rfl
    rw [hd] at hc
    cases hc
  rw [isWordSign, Surroundings.not_isNameChar_of_blank hc, beq_false_of_ne (hsign '$' (by decide)),
    beq_false_of_ne (hsign '#' (by decide))]
  rfl

/-- What the caller may add is a name character with such characters behind it. -/
structure Text.Accepted (word : Text) : Prop where
  first : exists c rest, word = c :: rest ∧ Text.isNameChar c = true
  signs : forall c, c ∈ word -> Text.isWordSign c = true

theorem Text.accepted_of_isSingleWord {word : Text} (h : Vocabulary.isSingleWord word = true) :
    word.Accepted := by
  cases word with
  | nil =>
      cases h
  | cons c rest =>
      rcases Bool.and_eq_true_iff.mp h with ⟨hc, hrest⟩
      refine ⟨⟨c, rest, rfl, hc⟩, ?_⟩
      intro d hd
      rcases List.mem_cons.mp hd with rfl | hd
      · rw [isWordSign, hc, Bool.true_or, Bool.true_or]
      · exact List.all_eq_true.mp hrest d hd

namespace Rule

open Regex

/-- No word that may be added starts with a match of the rule. -/
def passed (rule : Rule) : Bool :=
  rule.regex.firstSets.all (CharSet.avoids Text.isNameChar) ||
    (rule.regex.prune (CharSet.avoids Text.isWordSign)).isNone

/-- The words that rules for keywords read by themselves. -/
def prefixWords : List String := ["CASE", "IN", "VALUES", "USING", "FROM", "AS"]

def comparisonWords : List String := ["LIKE", "ILIKE", "RLIKE", "REGEXP"]

def createPhrase : Regex :=
  sequence [text "CREATE", opt (gap ++ spaced ["OR", "REPLACE"]), wordBoundary]

def likePhrase : Regex :=
  sequence [opt (text "NOT" ++ gap), oneOfTexts comparisonWords, wordBoundary]

def wordRules : List Rule :=
  [guarded hexadecimal .hexadecimal Surroundings.numberStandsAlone,
   guarded exponential .float Surroundings.numberStandsAlone,
   guarded integer .integer Surroundings.numberStandsAlone,
   plain joinPhrase .keyword, plain endPhrase .keyword, plain createPhrase .ddl,
   plain likePhrase .comparison, { regex := lookedUp, action := .lookUp }]

theorem guard_of_matchLength? {rule : Rule} {before : Option Char} {text : Text} {n : Nat}
    (h : rule.matchLength? before text = some n) :
    rule.guard ⟨before, text.take n, text.drop n⟩ = true := by
  rw [matchLength?_of_regex (regex_of_matchLength? h) (matchLength?_pos h)] at h
  split at h
  · assumption
  · cases h

theorem first?_append (front back : List Rule) (before : Option Char) (text : Text) :
    first? (front ++ back) before text =
      (first? front before text).or (first? back before text) :=
  List.findSome?_append

theorem first?_eq_none {rules : List Rule} {before : Option Char} {text : Text}
    (h : forall rule, rule ∈ rules -> rule.matchLength? before text = none) :
    first? rules before text = none := by
  unfold first?
  rw [List.findSome?_eq_none_iff]
  intro rule hrule
  rw [h rule hrule, Option.map_none]

theorem exists_passed (dialect : Dialect) :
    exists early middle, ofDialect dialect =
        early ++ ([plain (oneOfTexts prefixWords ++ wordBoundary) .keyword] ++ (middle ++ words)) ∧
      early.all passed = true ∧ middle.all passed = true := by
  cases dialect with
  | generic =>
      exact ⟨comments ["--", "# "] ++ marks ++ quotedNames ++ dollarQuotes ++ placeholders.take 4,
        specialNames, rfl, by decide, by decide⟩
  | postgresql =>
      exact ⟨comments ["--"] ++ marks ++ dollarQuotes ++ placeholders.take 4, [], rfl,
        by decide, rfl⟩
  | mysql =>
      exact ⟨comments ["--", "#"] ++ marks ++ quotedNames ++ placeholders.take 4, specialNames, rfl,
        by decide, by decide⟩

theorem words_eq : words = words.take 3 ++
    (wordRules.take 2 ++ ((numbers.drop 2).take 1 ++ ((wordRules.drop 2).take 1 ++ (strings ++
      ((wordRules.drop 3).take 2 ++ ((phrases.drop 2).take 3 ++ ((wordRules.drop 5).take 1 ++
        ((phrases.drop 6).take 6 ++ (wordRules.drop 6 ++ words.drop 24))))))))) :=
  rfl

section

variable {word : Text} (h : word.Accepted)
include h

theorem matchLength?_passed {rule : Rule} (hrule : rule.passed = true) :
    rule.matchLength? none word = none := by
  rcases Bool.or_eq_true_iff.mp hrule with hfirst | hpruned
  · rcases h.first with ⟨c, rest, rfl, hc⟩
    apply matchLength?_eq_none
    intro set hset
    exact CharSet.not_has_of_avoids (fun _ => Surroundings.not_isNameChar_of_blank)
      (List.all_eq_true.mp hfirst set hset) hc
  · cases hmatch : rule.matchLength? none word with
    | none =>
        rfl
    | some n =>
        have htakes := takes_of_matchLength? (regex_of_matchLength? hmatch)
        rcases exists_prune htakes fun set habsent c hc =>
          CharSet.not_has_of_avoids Text.not_isWordSign_of_blank habsent
            (h.signs c (List.mem_of_mem_take hc)) with ⟨r, hr, _⟩
        rw [hr] at hpruned
        cases hpruned

theorem first?_passed (rules : List Rule) (hrules : rules.all passed = true) :
    first? rules none word = none :=
  first?_eq_none fun _ hrule => matchLength?_passed h (List.all_eq_true.mp hrules _ hrule)

theorem first?_names : first? (words.take 3) none word = none := by
  have hsign : forall c, c ∈ word -> c ≠ '.' ∧ c ≠ '(' := by
    intro c hc
    have hc := h.signs c hc
    constructor
    · rintro rfl
      exact absurd hc (by decide)
    · rintro rfl
      exact absurd hc (by decide)
  apply first?_eq_none
  intro rule hrule
  cases hmatch : rule.matchLength? none word with
  | none =>
      rfl
  | some n =>
      have hguard := guard_of_matchLength? hmatch
      simp only [words, List.take_succ_cons, List.take_zero, List.cons_append, List.mem_cons,
        List.not_mem_nil, or_false] at hrule
      rcases hrule with rfl | rfl | rfl
      · have hhead : '.' ∈ Text.trimStart (word.drop n) :=
          List.mem_of_head? (beq_iff_eq.mp hguard)
        have hmem := List.mem_of_mem_drop ((List.dropWhile_sublist _).mem hhead)
        exact absurd rfl (hsign '.' hmem).1
      · cases hguard
      · have hhead : '(' ∈ word.drop n := List.mem_of_head? (beq_iff_eq.mp hguard)
        exact absurd rfl (hsign '(' (List.mem_of_mem_drop hhead)).2

theorem first?_word (dialect : Dialect) : first? (ofDialect dialect) none word =
    first? (plain (oneOfTexts prefixWords ++ wordBoundary) .keyword :: wordRules) none word := by
  have hkept : plain (oneOfTexts prefixWords ++ wordBoundary) .keyword :: wordRules =
      [plain (oneOfTexts prefixWords ++ wordBoundary) .keyword] ++ (wordRules.take 2 ++
        ((wordRules.drop 2).take 1 ++ ((wordRules.drop 3).take 2 ++ ((wordRules.drop 5).take 1 ++
          wordRules.drop 6)))) :=
    rfl
  rcases exists_passed dialect with ⟨early, middle, hrules, hearly, hmiddle⟩
  rw [hrules, hkept, words_eq]
  simp only [first?_append, first?_passed h early hearly, first?_passed h middle hmiddle,
    first?_names h,
    first?_passed h ((numbers.drop 2).take 1) (by decide),
    first?_passed h strings (by decide),
    first?_passed h ((phrases.drop 2).take 3) (by decide),
    first?_passed h ((phrases.drop 6).take 6) (by decide),
    first?_passed h (words.drop 24) (by decide), Option.none_or, Option.or_none]

end

end Rule

/-!
# What stands at the start of a word
-/

def Text.wordHead (text : Text) : Text :=
  text.takeWhile Text.isWord

theorem Text.eq_wordHead {front behind : Text} (hfront : forall c, c ∈ front -> isWord c = true)
    (hstops : Regex.Stops .word behind) : (front ++ behind).wordHead = front :=
  hstops.takeWhile_eq hfront

theorem Text.exists_behind_wordHead (text : Text) :
    exists behind, text = text.wordHead ++ behind ∧ Regex.Stops .word behind := by
  rcases Regex.exists_stops .word text with ⟨front, behind, rfl, hfront, hstops⟩
  exact ⟨behind, by rw [eq_wordHead hfront hstops], hstops⟩

namespace Rule

open Regex

variable {word : Text}

/-- A rule for words takes the word characters at the start if they read as one of its
words. -/
theorem matchLength?_words (h : word.Accepted) {regex : Regex} {texts : List String}
    (hregex : regex.prune (CharSet.avoids Text.isWordSign) =
      some (oneOfTexts texts ++ wordBoundary))
    (htexts : lettered texts = true) (category : Category) :
    (plain regex category).matchLength? none word =
      if Text.readsOne texts word.wordHead then some word.wordHead.length else none := by
  have hsound : forall n, regex.matchLength? word = some n ->
      Text.readsOne texts word.wordHead = true ∧ word.wordHead.length = n := by
    intro n hmatch
    have hle := (Regex.spells_of_matchLength? hmatch).1
    rcases exists_prune (takes_of_matchLength? hmatch) fun set habsent c hc =>
      CharSet.not_has_of_avoids Text.not_isWordSign_of_blank habsent
        (h.signs c (List.mem_of_mem_take hc)) with ⟨r, hr, htakes⟩
    rw [hregex, Option.some.injEq] at hr
    rcases (takes_words_iff htexts).mp (hr ▸ htakes) with ⟨hreads, hstops⟩
    have hhead : word.wordHead = word.take n := by
      have hletters := (Text.isLower_of_readsOne htexts hreads).2
      have hwhole := Text.eq_wordHead (fun c hc => CharSet.isWord_of_fold (hletters c hc)) hstops
      rwa [List.take_append_drop] at hwhole
    rw [hhead, List.length_take, Nat.min_eq_left hle]
    exact ⟨hreads, rfl⟩
  by_cases hreads : Text.readsOne texts word.wordHead = true
  · rcases word.exists_behind_wordHead with ⟨behind, hword, hstops⟩
    have htakes : Takes regex none word.wordHead behind :=
      takes_of_prune hregex ((takes_words_iff htexts).mpr ⟨hreads, hstops⟩)
    rcases Option.isSome_iff_exists.mp (isSome_matchLength?_iff.mpr ⟨_, _, hword, htakes⟩) with
      ⟨n, hmatch⟩
    have hlength := (hsound n hmatch).2
    have hpos : 0 < n := by
      rw [← hlength]
      exact List.length_pos_iff.mpr (Text.isLower_of_readsOne htexts hreads).1
    rw [if_pos hreads, hlength]
    have hrule : (plain regex category).regex.matchLength? word = some n := hmatch
    exact matchLength?_of_regex hrule hpos none
  · rw [if_neg hreads]
    cases hmatch : (plain regex category).matchLength? none word with
    | none =>
        rfl
    | some n =>
        exact absurd (hsound n (regex_of_matchLength? hmatch)).1 hreads

end Rule

end SqlLayout
