import SqlLayout.Proofs.Lexer.Deciding

/-!
# The tokens of a piece

The lexer reads a text, and by itself a piece that was cut out of it.  Up to the cut
both readings have the same tokens.  The token at the cut may be shorter in the piece
if it is a comment of a line or stands in a dollar body.  Where only the number sign
of an opening `# ` is left, the piece has an operator in place of the comment.
-/

namespace SqlLayout

/-!
# Dollar marks
-/

/-- A text that no cut goes through, for it has neither a blank nor a semicolon. -/
structure Unbroken (mark : Text) : Prop where
  ne_nil : mark ≠ []
  solid : forall c, c ∈ mark -> Text.isBlank c = false ∧ c ≠ ';'

namespace CutOff

variable {front behind mark : Text}

theorem prefix_iff (h : CutOff front behind) (hmark : Unbroken mark) :
    mark <+: front ++ behind <-> mark <+: front := by
  constructor
  · intro hstarts
    rcases Nat.lt_or_ge front.length mark.length with hlong | hshort
    · rcases h.exists_beyond hlong hstarts.length_le with ⟨c, hmem, hc⟩
      rw [← List.prefix_iff_eq_take.mp hstarts] at hmem
      rcases hmark.solid c hmem with ⟨hsolid, hsemicolon⟩
      rcases hc with hblank | heq
      · rw [hsolid] at hblank
        cases hblank
      · exact absurd heq hsemicolon
    · exact List.prefix_of_prefix_length_le hstarts (List.prefix_append front behind) hshort
  · intro hstarts
    exact hstarts.trans (List.prefix_append front behind)

theorem find?_cut (h : CutOff front behind) (hmark : Unbroken mark) :
    (exists n, n < front.length ∧ Text.find? mark (front ++ behind) = some n ∧
        Text.find? mark front = some n) ∨
      Text.find? mark front = none ∧
        forall n, Text.find? mark (front ++ behind) = some n -> front.length <= n := by
  induction front with
  | nil =>
      exact absurd rfl h.ne_nil
  | cons c front ih =>
      by_cases hstarts : mark <+: c :: front
      · exact Or.inl ⟨0, Nat.zero_lt_succ _, Text.find?_zero_iff.mpr
          ((h.prefix_iff hmark).mpr hstarts),
          Text.find?_zero_iff.mpr hstarts⟩
      · have hwhole : Text.find? mark (c :: front ++ behind) =
            (Text.find? mark (front ++ behind)).map (· + 1) := by
          rw [List.cons_append, Text.find?, if_neg]
          rw [List.isPrefixOf_iff_prefix, ← List.cons_append, h.prefix_iff hmark]
          exact hstarts
        have hpart : Text.find? mark (c :: front) = (Text.find? mark front).map (· + 1) := by
          rw [Text.find?, if_neg]
          rw [List.isPrefixOf_iff_prefix]
          exact hstarts
        rw [hwhole, hpart]
        have hrest : (exists n, n < front.length ∧ Text.find? mark (front ++ behind) = some n ∧
              Text.find? mark front = some n) ∨
            Text.find? mark front = none ∧
              forall n, Text.find? mark (front ++ behind) = some n -> front.length <= n := by
          rcases eq_or_ne front [] with rfl | hne
          · refine Or.inr ⟨?_, fun n _ => Nat.zero_le n⟩
            rw [Text.find?, if_neg]
            rw [List.isEmpty_iff]
            exact hmark.ne_nil
          · have hcut : CutOff ([c] ++ front) behind := h
            exact ih (hcut.tail hne)
        rcases hrest with ⟨n, hn, hwhole', hpart'⟩ | ⟨hnone, hlater⟩
        · rw [hwhole', hpart']
          exact Or.inl ⟨n + 1, Nat.succ_lt_succ hn, rfl, rfl⟩
        · rw [hnone]
          refine Or.inr ⟨rfl, ?_⟩
          intro n hn
          rcases Option.map_eq_some_iff.mp hn with ⟨m, hm, rfl⟩
          exact Nat.succ_le_succ (hlater m hm)

end CutOff

/-!
# Categories
-/

def Vocabulary.Wordy (vocabulary : Vocabulary) : Prop :=
  forall word, vocabulary.classify word ≠ .whitespace ∧ vocabulary.classify word ≠ .lineComment

theorem dictionaries_of_check {options : LexerOptions} {config : LexerConfig}
    (h : options.check = .ok config) :
    config.vocabulary.dictionaries = (Vocabulary.ofDialect config.dialect).dictionaries := by
  unfold LexerOptions.check at h
  cases hdialect : LexerOptions.readDialect options.dialect with
  | error e =>
      rw [hdialect] at h
      cases h
  | ok dialect =>
      rw [hdialect] at h
      dsimp only [bind, Except.bind] at h
      cases hvocabulary : LexerOptions.readVocabulary dialect options.keywords with
      | error e =>
          rw [hvocabulary] at h
          cases h
      | ok vocabulary =>
          rw [hvocabulary] at h
          cases h
          unfold LexerOptions.readVocabulary at hvocabulary
          split at hvocabulary
          · unfold Vocabulary.extend at hvocabulary
            split at hvocabulary
            · cases hvocabulary
            · cases hvocabulary
              rfl
          · cases hvocabulary
            rfl

theorem wordy_of_check {options : LexerOptions} {config : LexerConfig}
    (h : options.check = .ok config) : config.vocabulary.Wordy := by
  intro word
  have hword : (config.vocabulary.classify word != .whitespace &&
      config.vocabulary.classify word != .lineComment) = true := by
    apply Vocabulary.classify_of_all
      (p := fun category => category != .whitespace && category != .lineComment)
    · rw [dictionaries_of_check h]
      cases config.dialect with
      | generic => decide
      | postgresql => decide
      | mysql => decide
    · rfl
    · rfl
  rw [Bool.and_eq_true, bne_iff_ne, bne_iff_ne] at hword
  exact hword

/-- A token and what is read for it in a piece: comments of a line and dollar bodies
may be shorter there. -/
structure Token.CutTo (token token' : Token) : Prop where
  category : token'.category = token.category
  value : token'.value = token.value ∨ token.category = .lineComment ∨
    token.category = .lineHint ∨ token.category = .string

namespace Scan

variable {config : LexerConfig} {scan scan' after : Scan} {token : Token} {front behind : Text}

theorem exists_of_classify (hwordy : config.vocabulary.Wordy) {category : Category}
    (hcategory : category = .whitespace ∨ category = .lineComment)
    (h : (scan.classify config).1 = category) :
    exists n, Rule.first? (Rule.ofDialect config.dialect) scan.before scan.rest =
      some (.emit category, n) := by
  cases hfirst : Rule.first? (Rule.ofDialect config.dialect) scan.before scan.rest with
  | none =>
      rw [classify_of_stuck hfirst] at h
      subst h
      rcases hcategory with hcategory | hcategory
      · cases hcategory
      · cases hcategory
  | some found =>
      rcases found with ⟨action, n⟩
      rw [classify_of_found hfirst] at h
      cases action with
      | emit other =>
          exact ⟨n, by rw [← h]; rfl⟩
      | lookUp =>
          rcases hwordy (scan.rest.take n) with ⟨hwhitespace, hcomment⟩
          rcases hcategory with rfl | rfl
          · exact absurd h hwhitespace
          · exact absurd h hcomment

/-!
# Places
-/

theorem dollar_rules_unbroken (dialect : Dialect) :
    (Rule.ofDialect dialect).all (fun rule =>
      !(rule.regex.firstSets.any fun set => set.has '$') ||
        rule.regex.blankless && rule.regex.lacks ';') = true := by
  apply Rule.all_ofDialect
  · cases dialect with
    | generic => decide
    | postgresql => decide
    | mysql => decide
  · decide

theorem classify_unbroken (config : LexerConfig) (scan : Scan)
    (h : Token.isDollarMark (scan.rest.take (scan.classify config).2) = true) :
    Unbroken (scan.rest.take (scan.classify config).2) := by
  have hshape := h
  unfold Token.isDollarMark at hshape
  simp only [Bool.and_eq_true, decide_eq_true_eq, beq_iff_eq] at hshape
  rcases hshape with ⟨⟨hlength, hhead⟩, _⟩
  cases hfirst : Rule.first? (Rule.ofDialect config.dialect) scan.before scan.rest with
  | none =>
      rw [classify_of_stuck hfirst, List.length_take] at hlength
      exact absurd (Nat.le_trans hlength (Nat.min_le_left _ _)) (by decide)
  | some found =>
      rcases found with ⟨action, n⟩
      rw [classify_of_found hfirst] at hhead ⊢
      rcases Rule.exists_of_first? hfirst with ⟨rule, hrule, _, _, _, hspells⟩
      rcases List.head?_eq_some_iff.mp hhead with ⟨tail, htail⟩
      rw [htail] at hspells ⊢
      rcases hspells.first with ⟨set, hset, hhas⟩
      have hunbroken := List.all_eq_true.mp (dollar_rules_unbroken config.dialect) rule hrule
      rw [List.any_eq_true.mpr ⟨set, hset, hhas⟩, Bool.not_true, Bool.false_or,
        Bool.and_eq_true] at hunbroken
      refine ⟨List.cons_ne_nil _ _, ?_⟩
      intro c hc
      refine ⟨hspells.solid hunbroken.1 c hc, ?_⟩
      rintro rfl
      exact hspells.not_mem hunbroken.2 hc

theorem outcome_unbroken (config : LexerConfig)
    (h : forall mark, scan.dollarTag = some mark -> Unbroken mark) :
    forall mark, (scan.outcome config).2.2 = some mark -> Unbroken mark := by
  intro mark hmark
  unfold outcome at hmark
  split at hmark
  · rename_i tag htag
    split at hmark
    · cases hmark
    · cases hmark
      exact h mark htag
    · cases hmark
      exact h mark htag
  · dsimp only at hmark
    split at hmark
    · rename_i hopens
      cases hmark
      exact classify_unbroken config scan (Bool.and_eq_true_iff.mp hopens).2
    · cases hmark

/-- Only dollar bodies and marks are read where a mark is open, so any other token
stands outside, and leaves no mark open. -/
theorem outside_of_category (h : scan.next? config = some (token, after))
    (hstring : token.category ≠ .string) (hbuiltin : token.category ≠ .builtin) :
    scan.dollarTag = none ∧ after.dollarTag = none := by
  rcases next?_outcome h with ⟨hcategory, _, htag, _⟩
  rw [hcategory] at hstring hbuiltin
  rw [htag]
  unfold outcome at hstring hbuiltin ⊢
  cases hopen : scan.dollarTag with
  | none =>
      rw [hopen] at hbuiltin
      refine ⟨rfl, ?_⟩
      dsimp only at hbuiltin ⊢
      rw [beq_false_of_ne hbuiltin, Bool.false_and]
      rfl
  | some mark =>
      rw [hopen] at hstring hbuiltin
      dsimp only at hstring hbuiltin
      split at hstring
      · rename_i hfind
        rw [hfind] at hbuiltin
        exact absurd rfl hbuiltin
      · exact absurd rfl hstring
      · exact absurd rfl hstring

/-- A place in a text, and the place of a piece at which the same is left up to the
cut. -/
structure Parted (scan scan' : Scan) (front behind : Text) : Prop where
  rest : scan.rest = front ++ behind
  part : scan'.rest = front
  tag : scan'.dollarTag = scan.dollarTag
  beside : Beside scan.before scan'.before
  mark : forall mark, scan.dollarTag = some mark -> Unbroken mark

def KeptBy (config : LexerConfig) (scan scan' : Scan) (front : Text) : Prop :=
  (scan.outcome config).2.1 <= front.length ∧ scan'.outcome config = scan.outcome config ∨
    front.length <= (scan.outcome config).2.1 ∧
      ((scan.outcome config).1 = .lineComment ∨ (scan.outcome config).1 = .lineHint ∨
        (scan.outcome config).1 = .string) ∧
      (scan'.outcome config).1 = (scan.outcome config).1 ∧
      (scan'.outcome config).2.1 = front.length

theorem Parted.kept_inside (h : Parted scan scan' front behind) (hcut : CutOff front behind)
    {mark : Text} (htag : scan.dollarTag = some mark) : KeptBy config scan scan' front := by
  have hmark := h.mark mark htag
  have htag' : scan'.dollarTag = some mark := h.tag.trans htag
  have hpos := List.length_pos_iff.mpr hcut.ne_nil
  unfold KeptBy
  rcases hcut.find?_cut hmark with ⟨n, hn, hwhole, hpart⟩ | ⟨hpart, hlater⟩
  · rw [← h.rest] at hwhole
    rw [← h.part] at hpart
    left
    rcases Nat.eq_zero_or_pos n with rfl | hpositive
    · rw [outcome_mark config htag hwhole, outcome_mark config htag' hpart]
      rw [h.part, Text.find?_zero_iff] at hpart
      exact ⟨hpart.length_le, rfl⟩
    · have hne := Nat.ne_of_gt hpositive
      rw [outcome_inside config htag hwhole hne, outcome_inside config htag' hpart hne]
      exact ⟨Nat.le_of_lt hn, rfl⟩
  · rw [← h.part] at hpart
    right
    rw [outcome_unclosed config htag' hpart, h.part]
    cases hwhole : Text.find? mark scan.rest with
    | none =>
        rw [outcome_unclosed config htag hwhole, h.rest, List.length_append]
        exact ⟨Nat.le_add_right _ _, Or.inr (Or.inr rfl), rfl, rfl⟩
    | some n =>
        rw [h.rest] at hwhole
        have hle := hlater n hwhole
        rw [← h.rest] at hwhole
        rw [outcome_inside config htag hwhole (by omega)]
        exact ⟨hle, Or.inr (Or.inr rfl), rfl, rfl⟩

theorem Parted.kept_within (h : Parted scan scan' front behind) (htag : scan.dollarTag = none)
    {rule : Rule} {n : Nat} (hn : n <= front.length)
    (hdecides : Rule.Decides (Rule.ofDialect config.dialect) scan.before scan'.before front behind
      rule n) : KeptBy config scan scan' front := by
  have hwhole := hdecides.first
  have hpart := hdecides.later n (hdecides.within hn)
  rw [← h.rest] at hwhole
  rw [← h.part] at hpart
  have hvalue : scan'.rest.take n = scan.rest.take n := by
    rw [h.part, h.rest, List.take_append_of_le_length hn]
  unfold KeptBy
  rw [outcome_plain_eq htag, outcome_plain_eq (h.tag.trans htag), classify_of_found hwhole,
    classify_of_found hpart, hvalue]
  exact Or.inl ⟨hn, rfl⟩

theorem Parted.kept_beyond (h : Parted scan scan' front behind) (hcut : CutOff front behind)
    (htag : scan.dollarTag = none) {rule : Rule} {n : Nat} (hn : front.length < n)
    (hdecides : Rule.Decides (Rule.ofDialect config.dialect) scan.before scan'.before front behind
      rule n)
    (hblank : forall c, c ∈ behind.take (n - front.length) -> Text.isBlank c = true)
    (hkept : ¬ (config.dialect = .generic ∧ front = ['#'] ∧ rule.action = .emit .lineComment)) :
    KeptBy config scan scan' front := by
  have hwhole := hdecides.first
  rw [← h.rest] at hwhole
  rcases hdecides.beyond hcut h.beside hn hblank with ⟨haction, hpart⟩ | hhash
  · rw [← h.part] at hpart
    unfold KeptBy
    rw [outcome_plain_eq htag, outcome_plain_eq (h.tag.trans htag), classify_of_found hwhole,
      classify_of_found hpart, h.part]
    rcases haction with haction | haction
    · rw [haction]
      exact Or.inr ⟨Nat.le_of_lt hn, Or.inl rfl, rfl, rfl⟩
    · rw [haction]
      exact Or.inr ⟨Nat.le_of_lt hn, Or.inr (Or.inl rfl), rfl, rfl⟩
  · exact absurd hhash hkept

theorem Parted.kept_outside (h : Parted scan scan' front behind) (hcut : CutOff front behind)
    (hwordy : config.vocabulary.Wordy) (htag : scan.dollarTag = none)
    (hseen : Rule.Unseen front behind ∨ (scan.outcome config).1 = .whitespace ∨
      (scan.outcome config).1 = .lineComment)
    (hblank : forall c, c ∈ (scan.rest.take (scan.outcome config).2.1).drop front.length ->
      Text.isBlank c = true)
    (hkept : ¬ (config.dialect = .generic ∧ front = ['#'] ∧
      (scan.outcome config).1 = .lineComment)) :
    KeptBy config scan scan' front := by
  rw [outcome_plain_eq htag] at hseen hblank hkept
  dsimp only at hseen hblank hkept
  have hrules : Rule.Unseen front behind ∨ exists category n,
      (category = .whitespace ∨ category = .lineComment) ∧
        Rule.first? (Rule.ofDialect config.dialect) scan.before (front ++ behind) =
          some (.emit category, n) := by
    refine hseen.imp_right fun hcategory => ?_
    rcases exists_of_classify hwordy hcategory rfl with ⟨n, hfirst⟩
    rw [h.rest] at hfirst
    exact ⟨_, n, hcategory, hfirst⟩
  rcases Rule.first?_cut hcut h.beside hrules with ⟨hnone, hnone'⟩ | ⟨rule, n, hdecides⟩
  · rw [← h.rest] at hnone
    rw [← h.part] at hnone'
    unfold KeptBy
    rw [outcome_plain_eq htag, outcome_plain_eq (h.tag.trans htag), classify_of_stuck hnone,
      classify_of_stuck hnone']
    exact Or.inl ⟨List.length_pos_iff.mpr hcut.ne_nil, rfl⟩
  · rcases Nat.lt_or_ge front.length n with hbeyond | hwithin
    · have hwhole := hdecides.first
      rw [← h.rest] at hwhole
      rw [classify_of_found hwhole] at hblank hkept
      have hexcess : (scan.rest.take n).drop front.length = behind.take (n - front.length) := by
        rw [h.rest, List.take_append, List.take_of_length_le (Nat.le_of_lt hbeyond),
          List.drop_left]
      dsimp only at hblank
      rw [hexcess] at hblank
      apply h.kept_beyond hcut htag hbeyond hdecides hblank
      rintro ⟨hgeneric, hhash, haction⟩
      refine hkept ⟨hgeneric, hhash, ?_⟩
      rw [haction]
      rfl
    · exact h.kept_within htag hwithin hdecides

theorem exists_next? (h : scan.rest ≠ []) :
    exists token after, scan.next? config = some (token, after) := by
  cases hnext : scan.next? config with
  | none =>
      exact absurd (next?_eq_none_iff.mp hnext) h
  | some next =>
      exact ⟨next.1, next.2, rfl⟩

/-- The next token of the text is read in the piece as well, up to the cut.  Behind it
the places still correspond, or the piece is at its end. -/
theorem Parted.next?_cut (h : Parted scan scan' front behind) (hcut : CutOff front behind)
    (hwordy : config.vocabulary.Wordy) (hnext : scan.next? config = some (token, after))
    (hseen : Rule.Unseen front behind ∨ token.category = .whitespace ∨
      token.category = .lineComment)
    (hblank : forall c, c ∈ token.value.drop front.length -> Text.isBlank c = true)
    (hkept : ¬ (config.dialect = .generic ∧ front = ['#'] ∧ token.category = .lineComment)) :
    exists token' after', scan'.next? config = some (token', after') ∧ token.CutTo token' ∧
      ((exists rest, front = token.value ++ rest ∧ Parted after after' rest behind) ∨
        front <+: token.value ∧ after'.rest = []) := by
  rcases next?_outcome hnext with ⟨hcategory, hvalue, htag, _⟩
  rcases next?_after hnext with ⟨hrest, hbefore⟩
  have hne : scan'.rest ≠ [] := by
    rw [h.part]
    exact hcut.ne_nil
  rcases exists_next? hne with ⟨token', after', hnext'⟩
  rcases next?_outcome hnext' with ⟨hcategory', hvalue', htag', _⟩
  rcases next?_after hnext' with ⟨hrest', hbefore'⟩
  rw [hcategory] at hseen hkept
  rw [hvalue] at hblank
  have hread : KeptBy config scan scan' front := by
    cases hopen : scan.dollarTag with
    | none =>
        exact h.kept_outside hcut hwordy hopen hseen hblank hkept
    | some mark =>
        exact h.kept_inside hcut hopen
  refine ⟨token', after', hnext', ?_⟩
  rw [h.part] at hvalue' hrest'
  rw [h.rest] at hvalue hrest
  rcases hread with ⟨hwithin, hsame⟩ | ⟨hbeyond, hkind, hsame, hlength⟩
  · rw [hsame] at hcategory' hvalue' htag' hrest'
    rw [List.take_append_of_le_length hwithin] at hvalue
    rw [List.drop_append_of_le_length hwithin] at hrest
    have hvalues : token'.value = token.value := by
      rw [hvalue, hvalue']
    refine ⟨⟨hcategory'.trans hcategory.symm, Or.inl hvalues⟩,
      Or.inl ⟨front.drop (scan.outcome config).2.1, ?_, ?_⟩⟩
    · rw [hvalue, List.take_append_drop]
    · refine ⟨hrest, hrest', htag'.trans htag.symm, Or.inl ?_, ?_⟩
      · rw [hbefore, hbefore', hvalues]
      · rw [htag]
        exact outcome_unbroken config h.mark
  · rw [hlength] at hvalue' hrest'
    refine ⟨⟨?_, Or.inr ?_⟩, Or.inr ⟨?_, ?_⟩⟩
    · rw [hcategory', hsame, hcategory]
    · rw [hcategory]
      exact hkind
    · rw [hvalue, List.take_append, List.take_of_length_le hbeyond]
      exact List.prefix_append _ _
    · rw [hrest', List.drop_length]

/-- Where only the number sign is left of a line comment, the piece ends with an
operator. -/
theorem Parted.next?_hash (h : Parted scan scan' ['#'] behind)
    (hdialect : config.dialect = .generic)
    (hnext : scan.next? config = some (token, after)) (hcategory : token.category = .lineComment) :
    exists token' after', scan'.next? config = some (token', after') ∧
      token'.category = .operator ∧ token'.value = ['#'] ∧ after'.rest = [] := by
  have hne : scan'.rest ≠ [] := by
    rw [h.part]
    exact List.cons_ne_nil _ _
  have htag := (outside_of_category hnext (by rw [hcategory]; exact nofun)
    (by rw [hcategory]; exact nofun)).1
  have hfirst : Rule.first? (Rule.ofDialect config.dialect) scan'.before scan'.rest =
      some (.emit .operator, 1) := by
    rw [hdialect, h.part]
    exact Rule.first?_hash scan'.before
  rcases exists_next? hne with ⟨token', after', hnext'⟩
  rcases next?_outcome hnext' with ⟨hcategory', hvalue', _⟩
  have hrest' := (next?_after hnext').1
  rw [outcome_plain_eq (h.tag.trans htag), classify_of_found hfirst, h.part]
    at hcategory' hvalue' hrest'
  exact ⟨token', after', hnext', hcategory', hvalue', hrest'⟩

end Scan

/-!
# Behind blanks and line comments
-/

namespace Rule

theorem lineLength_pos {text : Text} (h : text ≠ []) : 0 < lineLength text := by
  cases text with
  | nil =>
      exact absurd rfl h
  | cons c rest =>
      unfold lineLength
      split
      · exact Nat.one_pos
      · split
        · split
          · exact Nat.two_pos
          · exact Nat.one_pos
        · exact Nat.succ_pos _

theorem take_lineLength_ne_nil {text : Text} (h : text ≠ []) :
    text.take (lineLength text) ≠ [] := by
  rw [Ne, List.take_eq_nil_iff]
  rintro (hzero | hnil)
  · exact absurd hzero (Nat.ne_of_gt (lineLength_pos h))
  · exact h hnil

theorem blank_of_lineLength {text : Text} {c : Char} (h : lineLength text < text.length)
    (hlast : (text.take (lineLength text)).getLast? = some c) : Text.isBlank c = true := by
  induction text with
  | nil =>
      cases hlast
  | cons d rest ih =>
      unfold lineLength at h hlast
      by_cases hfeed : d = '\n'
      · rw [if_pos hfeed] at hlast
        cases hlast
        rw [hfeed]
        rfl
      · rw [if_neg hfeed] at h hlast
        by_cases hreturn : d = '\r'
        · rw [if_pos hreturn] at hlast
          split at hlast
          · rename_i hhead
            rcases List.head?_eq_some_iff.mp hhead with ⟨tail, rfl⟩
            cases hlast
            rfl
          · cases hlast
            rw [hreturn]
            rfl
        · rw [if_neg hreturn] at h hlast
          have hshort : lineLength rest < rest.length := Nat.lt_of_succ_lt_succ h
          have hne : rest ≠ [] := by
            rintro rfl
            exact absurd hshort (Nat.not_lt_zero _)
          have htake := take_lineLength_ne_nil hne
          rw [List.take_succ_cons, List.getLast?_cons, List.getLast?_eq_some_getLast htake] at hlast
          apply ih hshort
          rw [List.getLast?_eq_some_getLast htake]
          exact hlast

theorem TakesLine.blank_of_matchLength? {r : Regex} {openings : List Text}
    (h : TakesLine r openings)
    {text : Text} {n : Nat} (hmatch : r.matchLength? text = some n) (hmore : n < text.length)
    {c : Char} (hlast : (text.take n).getLast? = some c) : Text.isBlank c = true := by
  rcases h.starts _ _ hmatch with ⟨opening, hopening, line, rfl⟩
  rw [h.takes opening hopening, Option.some.injEq] at hmatch
  rw [← hmatch, List.length_append, Nat.add_lt_add_iff_left] at hmore
  have hne : line ≠ [] := by
    rintro rfl
    exact absurd hmore (Nat.not_lt_zero _)
  rw [← hmatch, List.take_length_add_append,
    List.getLast?_append_of_ne_nil _ (take_lineLength_ne_nil hne)] at hlast
  exact blank_of_lineLength hmore hlast

theorem trailing_rules (dialect : Dialect) :
    (ofDialect dialect).all (fun rule =>
      (rule.action != .emit .whitespace || rule.regex == Regex.gap) &&
        (rule.action != .emit .lineComment || rule.regex == dialect.lineComment)) = true := by
  cases dialect with
  | generic => decide
  | postgresql => decide
  | mysql => decide

end Rule

namespace Scan

variable {config : LexerConfig} {scan after : Scan} {token : Token}

theorem exists_rule_of_next? (hwordy : config.vocabulary.Wordy)
    (hnext : scan.next? config = some (token, after))
    (hcategory : token.category = .whitespace ∨ token.category = .lineComment) :
    exists rule n, rule ∈ Rule.ofDialect config.dialect ∧ rule.action = .emit token.category ∧
      rule.matchLength? scan.before scan.rest = some n ∧ token.value = scan.rest.take n ∧
      after.rest = scan.rest.drop n := by
  have htag : scan.dollarTag = none := by
    rcases hcategory with hcategory | hcategory
    · exact (outside_of_category hnext (by rw [hcategory]; exact nofun)
        (by rw [hcategory]; exact nofun)).1
    · exact (outside_of_category hnext (by rw [hcategory]; exact nofun)
        (by rw [hcategory]; exact nofun)).1
  rcases next?_outcome hnext with ⟨hclass, hvalue, _, _⟩
  have hrest := (next?_after hnext).1
  rw [outcome_plain_eq htag] at hclass hvalue hrest
  rcases exists_of_classify hwordy hcategory hclass.symm with ⟨n, hfirst⟩
  rw [classify_of_found hfirst] at hvalue hrest
  rcases List.exists_of_findSome?_eq_some hfirst with ⟨rule, hrule, hmatch⟩
  rcases Option.map_eq_some_iff.mp hmatch with ⟨m, hm, hpair⟩
  rw [Prod.mk.injEq] at hpair
  rcases hpair with ⟨haction, rfl⟩
  exact ⟨rule, m, hrule, haction, hm, hvalue, hrest⟩

theorem blank_of_next? (hwordy : config.vocabulary.Wordy)
    (hnext : scan.next? config = some (token, after)) (hcategory : token.category = .whitespace)
    {c : Char} (hc : c ∈ token.value) : Text.isBlank c = true := by
  rcases exists_rule_of_next? hwordy hnext (Or.inl hcategory) with
    ⟨rule, n, hrule, haction, hmatch, hvalue, _⟩
  have hrules := List.all_eq_true.mp (Rule.trailing_rules config.dialect) rule hrule
  rw [haction, hcategory] at hrules
  have hgap : rule.regex = Regex.gap := by
    simpa using hrules
  have hspells := (Rule.spells_of_matchLength? hmatch).2.2
  rw [hgap] at hspells
  rw [hvalue] at hc
  exact hspells.all_plus_chars c hc

theorem loose_of_next? (hwordy : config.vocabulary.Wordy)
    (hnext : scan.next? config = some (token, after))
    (hcategory : token.category = .whitespace ∨ token.category = .lineComment)
    (hmore : after.rest ≠ []) : Loose after.before := by
  intro c hc
  rw [(next?_after hnext).2] at hc
  left
  rcases hcategory with hblank | hcomment
  · exact blank_of_next? hwordy hnext hblank (List.mem_of_getLast? hc)
  · rcases exists_rule_of_next? hwordy hnext (Or.inr hcomment) with
      ⟨rule, n, hrule, haction, hmatch, hvalue, hrest⟩
    have hrules := List.all_eq_true.mp (Rule.trailing_rules config.dialect) rule hrule
    rw [haction, hcomment] at hrules
    have hline : rule.regex = config.dialect.lineComment := by
      simpa using hrules
    have hregex := Rule.regex_of_matchLength? hmatch
    rw [hline] at hregex
    rw [hvalue] at hc
    apply (Rule.takesLine_comment config.dialect).blank_of_matchLength? hregex _ hc
    rw [← List.length_pos_iff, hrest, List.length_drop, Nat.sub_pos_iff_lt] at hmore
    exact hmore

end Scan
end SqlLayout
