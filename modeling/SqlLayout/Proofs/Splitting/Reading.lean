import SqlLayout.Proofs.Splitting

/-!
# Reading one statement

A statement is read token by token.  `Reads` follows its blocks for as long as
no semicolon ends it; from such a run the first statement of a stream is known
without looking at its tokens again.
-/

namespace SqlLayout
namespace Token

/-- A semicolon, whether or not it ends a statement. -/
def isSemicolon (token : Token) : Bool :=
  token.isPunctuationIn [[';']]

/-- A dollar mark, whether it opens a body, closes it or stands inside. -/
def isDollarQuote (token : Token) : Bool :=
  token.category == .builtin && isDollarMark token.value

def isWord (word : String) (token : Token) : Bool :=
  token.isKeyword && token.normalized == Text.of word

theorem category_of_isSemicolon {token : Token} (h : token.isSemicolon = true) :
    token.category = .punctuation := by
  unfold isSemicolon isPunctuationIn hits at h
  rw [Bool.and_eq_true, beq_iff_eq] at h
  exact h.1

theorem isKeyword_of_isSemicolon {token : Token} (h : token.isSemicolon = true) :
    token.isKeyword = false := by
  unfold isKeyword
  rw [category_of_isSemicolon h]
  rfl

theorem isDollarQuote_of_isSemicolon {token : Token} (h : token.isSemicolon = true) :
    token.isDollarQuote = false := by
  unfold isDollarQuote
  rw [category_of_isSemicolon h]
  rfl

theorem isDollarQuote_of_isKeyword {token : Token} (h : token.isKeyword = true) :
    token.isDollarQuote = false := by
  unfold isDollarQuote
  have hne : token.category ≠ .builtin := by
    intro hcategory
    rw [isKeyword, hcategory] at h
    cases h
  rw [beq_false_of_ne hne, Bool.false_and]

theorem isDollarQuote_of_trails {token : Token} (h : token.trails = true) :
    token.isDollarQuote = false := by
  unfold trails at h
  unfold isDollarQuote
  rw [Bool.or_eq_true, beq_iff_eq, beq_iff_eq] at h
  rcases h with hblank | hcomment
  · rw [hblank]
    rfl
  · rw [hcomment]
    rfl

theorem isWord_iff {word : String} {token : Token} :
    token.isWord word = true <-> token.isKeyword = true ∧ token.normalized = Text.of word := by
  rw [isWord, Bool.and_eq_true, beq_iff_eq]

end Token

/-!
# One token
-/

namespace BlockState

variable {s : BlockState} {token : Token}

theorem step_eq (s : BlockState) (token : Token) :
    s.step token =
      if token.isDollarQuote then s.stepDollar token.value
      else if s.dollarTag.isSome || !token.isKeyword then s
      else s.stepKeyword token.category token.normalized :=
  rfl

theorem step_dollarQuote (h : token.isDollarQuote = true) :
    s.step token = s.stepDollar token.value :=
  if_pos h

theorem step_inside {mark : Text} (htag : s.dollarTag = some mark)
    (h : token.isDollarQuote = false) : s.step token = s := by
  rw [step_eq, if_neg (ne_true_of_eq_false h), if_pos (by rw [htag]; rfl)]

theorem step_plain (hword : token.isKeyword = false) (h : token.isDollarQuote = false) :
    s.step token = s := by
  rw [step_eq, if_neg (ne_true_of_eq_false h), if_pos (by rw [hword, Bool.not_false, Bool.or_true])]

theorem step_keyword (htag : s.dollarTag = none) (hword : token.isKeyword = true) :
    s.step token = s.stepKeyword token.category token.normalized := by
  rw [step_eq, if_neg (ne_true_of_eq_false (Token.isDollarQuote_of_isKeyword hword)), if_neg]
  rw [htag, hword]
  exact Bool.false_ne_true

theorem step_word {word : String} (htag : s.dollarTag = none) (h : token.isWord word = true) :
    s.step token = s.stepKeyword token.category (Text.of word) := by
  rcases Token.isWord_iff.mp h with ⟨hkeyword, hnormalized⟩
  rw [step_keyword htag hkeyword, hnormalized]

theorem step_semicolon (h : token.isSemicolon = true) : s.step token = s :=
  step_plain (Token.isKeyword_of_isSemicolon h) (Token.isDollarQuote_of_isSemicolon h)

theorem isEnd_semicolon (h : token.isSemicolon = true) : s.isEnd token = decide (s.level <= 0) := by
  change (decide (s.level <= 0) && token.isSemicolon) = decide (s.level <= 0)
  rw [h, Bool.and_true]

theorem isEnd_of_level_pos (h : 0 < s.level) : s.isEnd token = false := by
  unfold isEnd
  rw [decide_eq_false (Int.not_le.mpr h), Bool.false_and]

theorem isEnd_of_not_semicolon (h : token.isSemicolon = false) : s.isEnd token = false := by
  change (decide (s.level <= 0) && token.isSemicolon) = false
  rw [h, Bool.and_false]

theorem isEnd_keyword (h : token.isKeyword = true) : s.isEnd token = false := by
  apply isEnd_of_not_semicolon
  rw [← Bool.not_eq_true]
  intro hsemicolon
  rw [Token.isKeyword_of_isSemicolon hsemicolon] at h
  cases h

theorem isSemicolon_of_isEnd (h : s.isEnd token = true) : token.isSemicolon = true :=
  (Bool.and_eq_true_iff.mp h).2

/-!
# Several tokens
-/

/-- The blocks that are open after some tokens. -/
def after (s : BlockState) (tokens : List Token) : BlockState :=
  tokens.foldl step s

theorem after_append (s : BlockState) (front back : List Token) :
    s.after (front ++ back) = (s.after front).after back :=
  List.foldl_append

/-- Tokens that are read from a state to another one while the statement goes
on. -/
inductive Reads : BlockState -> List Token -> BlockState -> Prop where
  | nil {s : BlockState} : Reads s [] s
  | cons {s t : BlockState} {token : Token} {rest : List Token} :
      (s.step token).isEnd token = false ->
      Reads (s.step token) rest t ->
      Reads s (token :: rest) t

variable {t u : BlockState} {front back tokens : List Token}

theorem Reads.after_eq (h : Reads s tokens t) : s.after tokens = t := by
  induction h with
  | nil =>
      rfl
  | cons _ _ ih =>
      exact ih

theorem Reads.append (hfront : Reads s front t) (hback : Reads t back u) :
    Reads s (front ++ back) u := by
  induction hfront with
  | nil =>
      exact hback
  | cons hend _ ih =>
      exact Reads.cons hend (ih hback)

theorem Reads.step (hstep : s.step token = t) (hend : t.isEnd token = false)
    (hrest : Reads t tokens u) : Reads s (token :: tokens) u := by
  subst hstep
  exact Reads.cons hend hrest

theorem Reads.stay (h : forall token, token ∈ tokens -> s.step token = s ∧ s.isEnd token = false) :
    Reads s tokens s := by
  induction tokens with
  | nil =>
      exact Reads.nil
  | cons token rest ih =>
      rcases h token List.mem_cons_self with ⟨hstep, hend⟩
      exact Reads.step hstep hend (ih fun other hother => h other (List.mem_cons_of_mem _ hother))

end BlockState

/-!
# The first statement
-/

open BlockState

variable {s t : BlockState} {token : Token} {front : List Token}

theorem firstStatement_of_isEnd (h : (s.step token).isEnd token = true) (rest : List Token) :
    firstStatement s (token :: rest) =
      (token :: rest.takeWhile Token.trails, rest.dropWhile Token.trails) :=
  if_pos h

theorem firstStatement_of_not_isEnd (h : (s.step token).isEnd token = false) (rest : List Token) :
    firstStatement s (token :: rest) =
      (token :: (firstStatement (s.step token) rest).1, (firstStatement (s.step token) rest).2) :=
  if_neg (ne_true_of_eq_false h)

theorem firstStatement_of_reads (h : Reads s front t) (back : List Token) :
    firstStatement s (front ++ back) =
      (front ++ (firstStatement t back).1, (firstStatement t back).2) := by
  induction h with
  | nil =>
      rfl
  | cons hend _ ih =>
      rw [List.cons_append, firstStatement_of_not_isEnd hend, ih]
      rfl

theorem firstStatement_of_semicolon (h : Reads s front t) (hsemicolon : token.isSemicolon = true)
    (hlevel : t.level <= 0) (rest : List Token) :
    firstStatement s (front ++ token :: rest) =
      (front ++ token :: rest.takeWhile Token.trails, rest.dropWhile Token.trails) := by
  have hend : (t.step token).isEnd token = true := by
    rw [step_semicolon hsemicolon, isEnd_semicolon hsemicolon]
    exact decide_eq_true hlevel
  rw [firstStatement_of_reads h, firstStatement_of_isEnd hend]

/-!
# The statements after it
-/

theorem splitWithin_budget {a b : Nat} {tokens : List Token} (ha : tokens.length <= a)
    (hb : tokens.length <= b) : splitWithin a tokens = splitWithin b tokens := by
  induction a generalizing b tokens with
  | zero =>
      rw [List.eq_nil_of_length_eq_zero (Nat.le_zero.mp ha)]
      cases b with
      | zero =>
          rfl
      | succ b =>
          rfl
  | succ a ih =>
      cases tokens with
      | nil =>
          cases b with
          | zero =>
              rfl
          | succ b =>
              rfl
      | cons token rest =>
          cases b with
          | zero =>
              cases hb
          | succ b =>
              have hshorter := firstStatement_shortens {} token rest
              have ha' := Nat.le_trans hshorter (Nat.le_of_succ_le_succ ha)
              have hb' := Nat.le_trans hshorter (Nat.le_of_succ_le_succ hb)
              exact congrArg (List.cons _) (ih ha' hb')

/-- The rest of a stream is split as if it were a stream of its own. -/
theorem splitTokens_eq {tokens : List Token} (h : tokens ≠ []) :
    splitTokens tokens =
      (firstStatement {} tokens).1 :: splitTokens (firstStatement {} tokens).2 := by
  cases tokens with
  | nil =>
      exact absurd rfl h
  | cons token rest =>
      exact congrArg (List.cons _)
        (splitWithin_budget (firstStatement_shortens {} token rest) (Nat.le_refl _))

theorem splitStatements_eq {tokens first later : List Token} (hne : tokens ≠ [])
    (h : firstStatement {} tokens = (first, later)) :
    splitStatements tokens = Statement.ofTokens first :: splitStatements later := by
  unfold splitStatements
  rw [splitTokens_eq hne, h, List.map_cons]

theorem splitTokens_flatten (tokens : List Token) : (splitTokens tokens).flatten = tokens :=
  splitWithin_flatten (Nat.le_refl _)

theorem splitTokens_suffix {tokens : List Token} {earlier later : List (List Token)}
    (h : splitTokens tokens = earlier ++ later) : splitTokens later.flatten = later := by
  induction earlier generalizing tokens with
  | nil =>
      have htokens := splitTokens_flatten tokens
      rw [h, List.nil_append] at htokens
      rw [htokens, h, List.nil_append]
  | cons first earlier ih =>
      have hne : tokens ≠ [] := by
        rintro rfl
        cases h
      rw [splitTokens_eq hne, List.cons_append, List.cons.injEq] at h
      exact ih h.2

theorem firstStatement_of_splitTokens {tokens statement : List Token} {later : List (List Token)}
    (h : splitTokens tokens = statement :: later) :
    firstStatement {} tokens = (statement, later.flatten) := by
  have hne : tokens ≠ [] := by
    rintro rfl
    cases h
  rw [splitTokens_eq hne, List.cons.injEq] at h
  rw [← h.1, ← h.2, splitTokens_flatten]

end SqlLayout
