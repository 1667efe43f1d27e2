import SqlLayout.Proofs.Lexer.Coverage
import SqlLayout.Proofs.Regex.Spelling

/-!
# Blanks and dollar marks

What the first character of a text says about the next token in the generic
dialect.  Blanks are read as one token.  A dollar mark opens a body whatever
stands around it, so the values of the tokens alone tell where a body is open.
-/

namespace SqlLayout

/-- The lexer that runs unless the caller asks for another one. -/
def LexerConfig.default : LexerConfig := ⟨.generic, Vocabulary.ofDialect .generic⟩

/-!
# Rules by the first character
-/

namespace Rule

theorem matchLength?_eq_none {rule : Rule} {c : Char}
    (h : forall set, set ∈ rule.regex.firstSets -> set.has c = false) (before : Option Char)
    (rest : Text) : rule.matchLength? before (c :: rest) = none := by
  unfold matchLength?
  split
  · rfl
  · rfl
  · rename_i n hn hmatch
    cases n with
    | zero =>
        exact absurd rfl hn
    | succ n =>
        rcases Regex.first_of_matchLength? hmatch with ⟨set, hset, hhas⟩
        rw [h set hset] at hhas
        cases hhas

theorem spells_of_matchLength? {rule : Rule} {before : Option Char} {text : Text} {n : Nat}
    (h : rule.matchLength? before text = some n) :
    0 < n ∧ n <= text.length ∧ rule.regex.Spells (text.take n) := by
  refine ⟨matchLength?_pos h, ?_⟩
  unfold matchLength? at h
  split at h
  · cases h
  · cases h
  · rename_i m _ hmatch
    split at h
    · cases h
      exact Regex.spells_of_matchLength? hmatch
    · cases h

theorem exists_of_first? {rules : List Rule} {before : Option Char} {text : Text}
    {action : Action} {n : Nat} (h : first? rules before text = some (action, n)) :
    exists rule, rule ∈ rules ∧ rule.action = action ∧ 0 < n ∧ n <= text.length ∧
      rule.regex.Spells (text.take n) := by
  rcases List.exists_of_findSome?_eq_some h with ⟨rule, hrule, hmatch⟩
  rcases Option.map_eq_some_iff.mp hmatch with ⟨m, hm, hpair⟩
  cases hpair
  exact ⟨rule, hrule, rfl, spells_of_matchLength? hm⟩

/-!
# Rules of a dialect
-/

def commentTexts : Dialect -> List String
  | .generic => ["--", "# "]
  | .postgresql => ["--"]
  | .mysql => ["--", "#"]

/-- The rules of the generic dialect behind those for comments; the other dialects have some
of them. -/
def beyondComments : List Rule :=
  marks ++ quotedNames ++ dollarQuotes ++ placeholders ++ specialNames ++ words

theorem mem_ofDialect {dialect : Dialect} {rule : Rule} (h : rule ∈ ofDialect dialect) :
    rule ∈ comments (commentTexts dialect) ∨ rule ∈ beyondComments := by
  cases dialect with
  | generic =>
      simp only [ofDialect, commentTexts, beyondComments, List.mem_append] at h ⊢
      grind
  | postgresql =>
      simp only [ofDialect, commentTexts, beyondComments, List.mem_append] at h ⊢
      grind
  | mysql =>
      simp only [ofDialect, commentTexts, beyondComments, List.mem_append] at h ⊢
      grind

/-- What holds of each rule is checked once for all dialects, comments apart. -/
theorem all_ofDialect {dialect : Dialect} {p : Rule -> Bool}
    (hcomments : (comments (commentTexts dialect)).all p = true)
    (hbeyond : beyondComments.all p = true) : (ofDialect dialect).all p = true := by
  rw [List.all_eq_true] at hcomments hbeyond ⊢
  intro rule hrule
  exact (mem_ofDialect hrule).elim (hcomments rule) (hbeyond rule)

/-!
# Rules of the generic dialect
-/

/-- The rules of a dialect start with those of its comments and the marks; comments start
with one of three characters. -/
theorem exists_comments (dialect : Dialect) :
    exists openings late, ofDialect dialect = comments openings ++ marks ++ late ∧
      (comments openings).all (fun rule => rule.regex.firstSets.all fun set =>
        [CharSet.oneOf ['-'], CharSet.oneOf ['#'], CharSet.oneOf ['/']].elem set) = true := by
  cases dialect with
  | generic =>
      refine ⟨["--", "# "],
        quotedNames ++ dollarQuotes ++ placeholders ++ specialNames ++ words, ?_,
        by decide⟩
      simp only [ofDialect, List.append_assoc]
  | postgresql =>
      refine ⟨["--"], dollarQuotes ++ placeholders ++ words, ?_, by decide⟩
      simp only [ofDialect, List.append_assoc]
  | mysql =>
      refine ⟨["--", "#"], quotedNames ++ placeholders ++ specialNames ++ words, ?_,
        by decide⟩
      simp only [ofDialect, List.append_assoc]

theorem blank_rules :
    (ofDialect .generic).all (fun rule =>
      match rule.action with
      | .emit category => !category.isWhitespace || rule.regex.firstSets == [CharSet.blank]
      | .lookUp => rule.regex.firstSets == [CharSet.word]) = true := by
  decide

def dollarPlaceholder : Regex :=
  Regex.chars (.oneOf ['$', ':', '?']) ++ Regex.plus (Regex.chars .word)

theorem dollar_rules :
    (ofDialect .generic).all (fun rule =>
      !(rule.regex.firstSets.any fun set => set.has '$') || rule.action == .emit .builtin ||
        rule.regex == dollarPlaceholder) = true := by
  decide

theorem not_has_of_blank {c d : Char} (hc : Text.isBlank c = true) (hd : Text.isBlank d = false) :
    (CharSet.oneOf [d]).has c = false := by
  cases hhas : (CharSet.oneOf [d]).has c with
  | false =>
      rfl
  | true =>
      have heq : c = d := by
        simpa [CharSet.has] using hhas
      rw [heq, hd] at hc
      cases hc

theorem first?_blank {dialect : Dialect} {c : Char} (hc : Text.isBlank c = true)
    (before : Option Char) (rest : Text) :
    first? (ofDialect dialect) before (c :: rest) =
      some (.emit .whitespace, ((c :: rest).takeWhile Text.isBlank).length) := by
  rcases exists_comments dialect with ⟨openings, late, hrules, hfirst⟩
  have hcomments : (comments openings).findSome? (fun rule =>
      (rule.matchLength? before (c :: rest)).map fun n => (rule.action, n)) = none := by
    rw [List.findSome?_eq_none_iff]
    intro rule hrule
    rw [matchLength?_eq_none]
    · rfl
    · intro set hset
      have hsets := List.all_eq_true.mp (List.all_eq_true.mp hfirst rule hrule) set hset
      simp only [List.elem_eq_mem, List.mem_cons, List.not_mem_nil, or_false,
        decide_eq_true_eq] at hsets
      rcases hsets with rfl | rfl | rfl
      · exact not_has_of_blank hc rfl
      · exact not_has_of_blank hc rfl
      · exact not_has_of_blank hc rfl
  have hgap : Regex.gap.matchLength? (c :: rest) =
      some ((c :: rest).takeWhile Text.isBlank).length := by
    have hset : CharSet.blank.has c = true := hc
    exact Regex.matchLength?_plus_chars hset rest
  have hrule : (plain Regex.gap .whitespace).matchLength? before (c :: rest) =
      some ((c :: rest).takeWhile Text.isBlank).length := by
    unfold matchLength? plain
    dsimp only
    rw [hgap, List.takeWhile_cons_of_pos hc, List.length_cons]
    rfl
  unfold first?
  rw [hrules, List.append_assoc, List.findSome?_append, hcomments, Option.none_or]
  unfold marks
  rw [List.cons_append, List.findSome?_cons_of_isSome]
  · rw [hrule]
    rfl
  · rw [hrule]
    rfl

end Rule

/-!
# The next token
-/

theorem Vocabulary.classify_of_all {vocabulary : Vocabulary} {p : Category -> Bool}
    (htables : vocabulary.dictionaries.all (fun dictionary =>
      dictionary.all fun entry => entry.2.all fun group => p group.1) = true)
    (hkeyword : p .keyword = true) (hname : p .name = true) (word : Text) :
    p (vocabulary.classify word) = true := by
  unfold classify
  dsimp only
  split
  · rename_i category hfind
    rcases List.exists_of_findSome?_eq_some hfind with ⟨dictionary, hdictionary, hcategory⟩
    unfold Dictionary.find? at hcategory
    split at hcategory
    · cases hcategory
    · split at hcategory
      · cases hcategory
      · rename_i groups hgroups
        rcases Option.map_eq_some_iff.mp hcategory with ⟨group, hgroup, rfl⟩
        rcases List.lookup_eq_some_iff.mp hgroups with ⟨front, back, heq, _⟩
        have hentries := List.all_eq_true.mp htables dictionary hdictionary
        rw [heq] at hentries
        have hgroups' := List.all_eq_true.mp hentries _ (List.mem_append_right _ List.mem_cons_self)
        exact List.all_eq_true.mp hgroups' group (List.mem_of_find?_eq_some hgroup)
  · split
    · exact hkeyword
    · exact hname

theorem Vocabulary.classify_solid (word : Text) :
    ((ofDialect .generic).classify word).isWhitespace = false := by
  have hsolid : (!((ofDialect .generic).classify word).isWhitespace) = true :=
    classify_of_all (p := fun category => !category.isWhitespace) (by decide) rfl rfl word
  rw [Bool.not_eq_true'] at hsolid
  exact hsolid

def Action.categoryOf (vocabulary : Vocabulary) (word : Text) : Action -> Category
  | emit category => category
  | lookUp => vocabulary.classify word

namespace Scan

variable {config : LexerConfig} {scan : Scan} {c : Char} {rest : Text}

theorem classify_of_found {action : Action} {n : Nat}
    (h : Rule.first? (Rule.ofDialect config.dialect) scan.before scan.rest = some (action, n)) :
    scan.classify config = (action.categoryOf config.vocabulary (scan.rest.take n), n) := by
  unfold classify
  rw [h]
  cases action with
  | emit category =>
      rfl
  | lookUp =>
      rfl

theorem classify_of_stuck
    (h : Rule.first? (Rule.ofDialect config.dialect) scan.before scan.rest = none) :
    scan.classify config = (.error, 1) := by
  unfold classify
  rw [h]

theorem classify_blank (hrest : scan.rest = c :: rest) (hc : Text.isBlank c = true) :
    scan.classify config = (.whitespace, (scan.rest.takeWhile Text.isBlank).length) := by
  have hfirst : Rule.first? (Rule.ofDialect config.dialect) scan.before scan.rest =
      some (.emit .whitespace, (scan.rest.takeWhile Text.isBlank).length) := by
    rw [hrest]
    exact Rule.first?_blank hc scan.before rest
  exact classify_of_found hfirst

theorem classify_cases (scan : Scan) :
    (exists rule, rule ∈ Rule.ofDialect .generic ∧
      rule.action = .emit (scan.classify .default).1 ∧
      rule.regex.Spells (scan.rest.take (scan.classify .default).2)) ∨
    (exists rule, rule ∈ Rule.ofDialect .generic ∧ rule.action = .lookUp ∧
      (scan.classify .default).1.isWhitespace = false ∧
      rule.regex.Spells (scan.rest.take (scan.classify .default).2)) ∨
    scan.classify .default = (.error, 1) := by
  unfold classify
  split
  · rename_i hfirst
    rcases Rule.exists_of_first? hfirst with ⟨rule, hrule, haction, _, _, hspells⟩
    exact Or.inl ⟨rule, hrule, haction, hspells⟩
  · rename_i hfirst
    rcases Rule.exists_of_first? hfirst with ⟨rule, hrule, haction, _, _, hspells⟩
    exact Or.inr (Or.inl ⟨rule, hrule, haction, Vocabulary.classify_solid _, hspells⟩)
  · exact Or.inr (Or.inr rfl)

theorem take_of_classify (hrest : scan.rest = c :: rest) :
    exists tail, scan.rest.take (scan.classify .default).2 = c :: tail := by
  have hpos : 0 < (scan.classify .default).2 := classify_pos scan
  cases hn : (scan.classify .default).2 with
  | zero =>
      rw [hn] at hpos
      exact absurd hpos (Nat.lt_irrefl 0)
  | succ n =>
      exact ⟨rest.take n, by rw [hrest, List.take_succ_cons]⟩

theorem classify_solid (hrest : scan.rest = c :: rest) (hc : Text.isBlank c = false) :
    (scan.classify .default).1.isWhitespace = false := by
  rcases take_of_classify hrest with ⟨tail, htail⟩
  rcases classify_cases scan with ⟨rule, hrule, haction, hspells⟩ | ⟨_, _, _, hsolid, _⟩ | herror
  · cases hcategory : (scan.classify .default).1.isWhitespace with
    | false =>
        rfl
    | true =>
        have hfirst := List.all_eq_true.mp Rule.blank_rules rule hrule
        rw [haction] at hfirst
        dsimp only at hfirst
        rw [hcategory, Bool.not_true, Bool.false_or, beq_iff_eq] at hfirst
        rw [htail] at hspells
        rcases hspells.first with ⟨set, hset, hhas⟩
        rw [hfirst, List.mem_singleton] at hset
        rw [hset] at hhas
        rw [show Text.isBlank c = true from hhas] at hc
        cases hc
  · exact hsolid
  · rw [herror]
    rfl

end Scan

/-!
# Dollar marks
-/

theorem not_dollarMark_of_placeholder {value : Text}
    (h : Rule.dollarPlaceholder.Spells value) : Token.isDollarMark value = false := by
  cases h with
  | @seq _ _ u v hu hv =>
      have hword := hv.all_plus_chars
      cases hv with
      | @seq _ _ a b ha hb =>
          cases ha with
          | @chars _ c _ =>
              have hlast : (u ++ ([c] ++ b)).getLast? ≠ some '$' := by
                rw [List.getLast?_append]
                intro hdollar
                cases hend : ([c] ++ b).getLast? with
                | none =>
                    rw [List.getLast?_eq_none_iff] at hend
                    cases hend
                | some d =>
                    rw [hend, Option.some_or] at hdollar
                    cases hdollar
                    exact absurd (hword '$' (List.mem_of_getLast? hend)) (by decide)
              unfold Token.isDollarMark
              rw [beq_false_of_ne hlast, Bool.and_false]

namespace Scan

theorem classify_dollarMark (scan : Scan)
    (h : Token.isDollarMark (scan.rest.take (scan.classify .default).2) = true) :
    (scan.classify .default).1 = .builtin := by
  have hshape := h
  unfold Token.isDollarMark at hshape
  simp only [Bool.and_eq_true, decide_eq_true_eq, beq_iff_eq] at hshape
  rcases hshape with ⟨⟨hlength, hhead⟩, _⟩
  rcases List.head?_eq_some_iff.mp hhead with ⟨tail, htail⟩
  rcases classify_cases scan with
    ⟨rule, hrule, haction, hspells⟩ | ⟨rule, hrule, haction, _, hspells⟩ | herror
  · have hstart := hspells
    rw [htail] at hstart
    rcases hstart.first with ⟨set, hset, hhas⟩
    have hrules := List.all_eq_true.mp Rule.dollar_rules rule hrule
    have hany : (rule.regex.firstSets.any fun set => set.has '$') = true :=
      List.any_eq_true.mpr ⟨set, hset, hhas⟩
    rw [hany, Bool.not_true, Bool.false_or, Bool.or_eq_true, beq_iff_eq, beq_iff_eq] at hrules
    rcases hrules with hbuiltin | hplaceholder
    · rw [haction, Action.emit.injEq] at hbuiltin
      exact hbuiltin
    · rw [hplaceholder] at hspells
      rw [not_dollarMark_of_placeholder hspells] at h
      cases h
  · rw [htail] at hspells
    rcases hspells.first with ⟨set, hset, hhas⟩
    have hfirst := List.all_eq_true.mp Rule.blank_rules rule hrule
    rw [haction] at hfirst
    rw [beq_iff_eq.mp hfirst, List.mem_singleton] at hset
    rw [hset] at hhas
    exact absurd hhas (by decide)
  · rw [herror, List.length_take] at hlength
    exact absurd (Nat.le_trans hlength (Nat.min_le_left _ _)) (by decide)

end Scan

theorem Text.find?_zero_iff {needle text : Text} :
    Text.find? needle text = some 0 <-> needle <+: text := by
  cases text with
  | nil =>
      simp [Text.find?, List.isEmpty_iff]
  | cons c rest =>
      unfold Text.find?
      rw [← List.isPrefixOf_iff_prefix]
      split
      · rename_i hstart
        simp [hstart]
      · rename_i hstart
        simp [hstart]

theorem Text.prefix_of_find? {needle text : Text} {n : Nat}
    (h : Text.find? needle text = some n) : needle <+: text.drop n := by
  induction text generalizing n with
  | nil =>
      unfold Text.find? at h
      split at h
      · rename_i hempty
        rw [List.isEmpty_iff.mp hempty]
        exact List.nil_prefix
      · cases h
  | cons c rest ih =>
      unfold Text.find? at h
      split at h
      · rename_i hstart
        cases h
        exact List.isPrefixOf_iff_prefix.mp hstart
      · rcases Option.map_eq_some_iff.mp h with ⟨m, hm, rfl⟩
        exact ih hm

theorem Text.not_infix_take_find? {needle : Text} (hne : needle ≠ []) (text : Text) :
    ¬ needle <:+: text.take ((Text.find? needle text).getD text.length) := by
  induction text with
  | nil =>
      rw [List.take_nil, List.infix_nil]
      exact hne
  | cons c rest ih =>
      unfold Text.find?
      split
      · rw [Option.getD_some, List.take_zero, List.infix_nil]
        exact hne
      · rename_i hstart
        have hlength : ((Text.find? needle rest).map (· + 1)).getD (c :: rest).length =
            (Text.find? needle rest).getD rest.length + 1 := by
          cases Text.find? needle rest with
          | none =>
              rfl
          | some n =>
              rfl
        rw [hlength, List.take_succ_cons, List.infix_cons_iff]
        rintro (hfront | hlater)
        · apply hstart
          rw [List.isPrefixOf_iff_prefix]
          exact hfront.trans (List.cons_prefix_cons.mpr ⟨rfl, List.take_prefix _ _⟩)
        · exact ih hlater

namespace Token

/-- The mark that is open after a token, told by its value. -/
def opens : Option Text -> Text -> Option Text
  | none, value => if isDollarMark value then some value else none
  | some tag, value => if value = tag then none else some tag

/-- What the lexer can read where a dollar mark is or is not open. -/
structure Fits (tag : Option Text) (token : Token) : Prop where
  ne_nil : token.value ≠ []
  body : tag ≠ none -> token.category = .string ∨ token.category = .builtin
  blank : token.isWhitespace = true -> forall c, c ∈ token.value -> Text.isBlank c = true
  solid : tag = none -> token.isWhitespace = false ->
    exists c rest, token.value = c :: rest ∧ Text.isBlank c = false
  mark : tag = none -> isDollarMark token.value = true -> token.category = .builtin

end Token

theorem Token.isWhitespace_of_category {token : Token} (h : token.category = .whitespace) :
    token.isWhitespace = true := by
  rw [isWhitespace, h]
  rfl

namespace Scan

theorem outcome_mark (config : LexerConfig) {scan : Scan} {mark : Text}
    (htag : scan.dollarTag = some mark) (hfind : Text.find? mark scan.rest = some 0) :
    scan.outcome config = (.builtin, mark.length, none) := by
  unfold outcome
  rw [htag]
  dsimp only
  rw [hfind]
  rfl

theorem outcome_inside (config : LexerConfig) {scan : Scan} {mark : Text} {n : Nat}
    (htag : scan.dollarTag = some mark) (hfind : Text.find? mark scan.rest = some n) (hn : n ≠ 0) :
    scan.outcome config = (.string, n, some mark) := by
  unfold outcome
  rw [htag]
  dsimp only
  rw [hfind]
  cases n with
  | zero =>
      exact absurd rfl hn
  | succ n =>
      rfl

theorem outcome_unclosed (config : LexerConfig) {scan : Scan} {mark : Text}
    (htag : scan.dollarTag = some mark) (hfind : Text.find? mark scan.rest = none) :
    scan.outcome config = (.string, scan.rest.length, some mark) := by
  unfold outcome
  rw [htag]
  dsimp only
  rw [hfind]

theorem outcome_body {scan : Scan} {tag : Text} (htag : scan.dollarTag = some tag) :
    ((scan.outcome .default).1 = .string ∨ (scan.outcome .default).1 = .builtin) ∧
      (scan.outcome .default).2.2 =
        Token.opens (some tag) (scan.rest.take (scan.outcome .default).2.1) := by
  have hshort : forall n, Text.find? tag scan.rest ≠ some 0 -> scan.rest.take n ≠ tag := by
    intro n hfind heq
    exact hfind (Text.find?_zero_iff.mpr (heq ▸ List.take_prefix n scan.rest))
  unfold outcome
  rw [htag]
  dsimp only
  split
  · rename_i hfind
    rcases Text.find?_zero_iff.mp hfind with ⟨tail, htail⟩
    refine ⟨Or.inr rfl, ?_⟩
    rw [← htail, List.take_left, Token.opens, if_pos rfl]
  · rename_i n hn hfind
    refine ⟨Or.inl rfl, ?_⟩
    rw [Token.opens, if_neg (hshort n (by rw [hfind]; simpa using hn))]
  · rename_i hfind
    refine ⟨Or.inl rfl, ?_⟩
    rw [Token.opens, if_neg (hshort _ (by rw [hfind]; exact nofun))]

theorem outcome_plain {scan : Scan} (htag : scan.dollarTag = none) :
    (scan.outcome .default).1 = (scan.classify .default).1 ∧
      (scan.outcome .default).2.1 = (scan.classify .default).2 ∧
      (scan.outcome .default).2.2 =
        Token.opens none (scan.rest.take (scan.outcome .default).2.1) := by
  unfold outcome
  rw [htag]
  refine ⟨rfl, rfl, ?_⟩
  change (if _ && _ then _ else _) = if Token.isDollarMark _ then _ else _
  cases hmark : Token.isDollarMark (scan.rest.take (scan.classify .default).2) with
  | false =>
      rw [Bool.and_false]
  | true =>
      rw [classify_dollarMark scan hmark]
      rfl

theorem next?_outcome {config : LexerConfig} {scan after : Scan} {token : Token}
    (h : scan.next? config = some (token, after)) :
    token.category = (scan.outcome config).1 ∧
      token.value = scan.rest.take (scan.outcome config).2.1 ∧
      after.dollarTag = (scan.outcome config).2.2 ∧
      exists c rest, scan.rest = c :: rest := by
  unfold next? at h
  split at h
  · cases h
  · rename_i c rest hrest
    rw [Option.some.injEq, Prod.mk.injEq] at h
    rcases h with ⟨rfl, rfl⟩
    exact ⟨rfl, rfl, rfl, c, rest, hrest⟩

theorem next?_after {config : LexerConfig} {scan after : Scan} {token : Token}
    (h : scan.next? config = some (token, after)) :
    after.rest = scan.rest.drop (scan.outcome config).2.1 ∧
      after.before = token.value.getLast? := by
  unfold next? at h
  split at h
  · cases h
  · rw [Option.some.injEq, Prod.mk.injEq] at h
    rcases h with ⟨rfl, rfl⟩
    exact ⟨rfl, rfl⟩

theorem outcome_plain_eq {config : LexerConfig} {scan : Scan} (htag : scan.dollarTag = none) :
    scan.outcome config =
      ((scan.classify config).1, (scan.classify config).2,
        if (scan.classify config).1 == .builtin &&
            Token.isDollarMark (scan.rest.take (scan.classify config).2) then
          some (scan.rest.take (scan.classify config).2)
        else none) := by
  unfold outcome
  rw [htag]

theorem next?_blanks {config : LexerConfig} {scan after : Scan} {token : Token}
    {blanks text : Text} (htag : scan.dollarTag = none) (hrest : scan.rest = blanks ++ text)
    (hne : blanks ≠ []) (hblanks : forall c, c ∈ blanks -> Text.isBlank c = true)
    (htext : forall c, text.head? = some c -> Text.isBlank c = false)
    (h : scan.next? config = some (token, after)) :
    token.category = .whitespace ∧ token.value = blanks ∧ after.rest = text ∧
      after.dollarTag = none := by
  have hrun : scan.rest.takeWhile Text.isBlank = blanks := by
    rw [hrest, List.takeWhile_append_of_pos hblanks]
    cases text with
    | nil =>
        exact List.append_nil blanks
    | cons c text =>
        rw [List.takeWhile_cons_of_neg, List.append_nil]
        rw [htext c rfl]
        exact Bool.false_ne_true
  have hclass : scan.classify config = (.whitespace, blanks.length) := by
    cases blanks with
    | nil =>
        exact absurd rfl hne
    | cons c blanks =>
        rw [classify_blank hrest (hblanks c List.mem_cons_self), hrun]
  rcases next?_outcome h with ⟨hcategory, hvalue, htag', _⟩
  have hrest' := (next?_after h).1
  rw [outcome_plain_eq htag, hclass] at hcategory hvalue htag' hrest'
  rw [hrest, List.take_left] at hvalue
  rw [hrest, List.drop_left] at hrest'
  exact ⟨hcategory, hvalue, hrest', htag'⟩

theorem next?_fits {scan after : Scan} {token : Token} (hready : scan.Ready)
    (h : scan.next? .default = some (token, after)) :
    token.Fits scan.dollarTag ∧ after.dollarTag = Token.opens scan.dollarTag token.value := by
  have hne := (next?_spec hready h).1
  rcases next?_outcome h with ⟨hcategory, hvalue, hafter, c, rest, hrest⟩
  rw [hafter, hvalue]
  cases htag : scan.dollarTag with
  | some tag =>
      rcases outcome_body htag with ⟨hbody, hopens⟩
      rw [← hcategory] at hbody
      refine ⟨⟨hne, fun _ => hbody, ?_, nofun, nofun⟩, hopens⟩
      intro hblank
      rcases hbody with hstring | hbuiltin
      · rw [Token.isWhitespace, hstring] at hblank
        cases hblank
      · rw [Token.isWhitespace, hbuiltin] at hblank
        cases hblank
  | none =>
      rcases outcome_plain htag with ⟨hclass, hlength, hopens⟩
      rw [hclass] at hcategory
      rw [hlength] at hvalue
      refine ⟨⟨hne, fun hnone => absurd rfl hnone, ?_, ?_, ?_⟩, hopens⟩
      · intro hblank
        cases hc : Text.isBlank c with
        | false =>
            rw [Token.isWhitespace, hcategory, classify_solid hrest hc] at hblank
            cases hblank
        | true =>
            intro d hd
            rw [hvalue, classify_blank hrest hc,
              ← List.prefix_iff_eq_take.mp (List.takeWhile_prefix _)] at hd
            exact List.all_eq_true.mp List.all_takeWhile d hd
      · intro _ hsolid
        rcases take_of_classify hrest with ⟨tail, htail⟩
        refine ⟨c, tail, by rw [hvalue, htail], ?_⟩
        cases hc : Text.isBlank c with
        | false =>
            rfl
        | true =>
            rw [Token.isWhitespace, hcategory, classify_blank hrest hc] at hsolid
            cases hsolid
      · intro _ hmark
        rw [hcategory]
        rw [hvalue] at hmark
        exact classify_dollarMark scan hmark

end Scan
end SqlLayout
