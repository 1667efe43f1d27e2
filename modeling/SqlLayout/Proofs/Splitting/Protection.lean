import SqlLayout.Proofs.Splitting.DollarBodies

/-!
# Semicolons in dollar bodies

On a stream of any origin semicolons can stand where a dollar mark is open.  The
mark only raises the level by one, so such a semicolon ends the statement if and
only if the level in front of the mark was negative, which takes a word that
closes a block without one that opens it.
-/

namespace SqlLayout

open Token

def Token.closingWords : List String :=
  ["END", "END IF", "END FOR", "END WHILE"]

def Token.isClosing (token : Token) : Bool :=
  closingWords.any token.isWord

namespace BlockState

variable {s : BlockState} {token : Token} {mark : Text}

/-!
# Inside of a body
-/

theorem step_opening (htag : s.dollarTag = none) (h : token.isDollarQuote = true) :
    s.step token = { s with dollarTag := some token.value, level := s.level + 1 } := by
  rw [step_dollarQuote h, stepDollar, htag]
  rfl

theorem step_not_isMark (htag : s.dollarTag = some mark) (h : token.isMark mark = false) :
    s.step token = s := by
  cases hquote : token.isDollarQuote with
  | false =>
      exact step_inside htag hquote
  | true =>
      rw [isMark, hquote, Bool.true_and, Bool.beq_comm] at h
      rw [step_dollarQuote hquote, stepDollar, htag]
      exact if_neg (ne_true_of_eq_false h)

theorem after_body {tokens : List Token} (htag : s.dollarTag = some mark)
    (h : forall token, token ∈ tokens -> token.isMark mark = false) : s.after tokens = s := by
  induction tokens with
  | nil =>
      rfl
  | cons token rest ih =>
      rw [List.forall_mem_cons] at h
      rw [after, List.foldl_cons, step_not_isMark htag h.1]
      exact ih h.2

theorem after_opening {before body : List Token} {opening : Token}
    (htag : (s.after before).dollarTag = none) (hopening : opening.isDollarQuote = true)
    (hbody : forall token, token ∈ body -> token.isMark opening.value = false) :
    s.after (before ++ opening :: body) =
      { s.after before with
        dollarTag := some opening.value, level := (s.after before).level + 1 } := by
  rw [after_append]
  change ((s.after before).step opening).after body = _
  rw [step_opening htag hopening]
  exact after_body rfl hbody

/-!
# The level without closing words
-/

/-- The level of a statement in which no block was closed that was not open. -/
structure Raised (s : BlockState) : Prop where
  level_nonneg : 0 <= s.level
  level_pos : s.dollarTag ≠ none -> 0 < s.level

theorem le_level_stepKeyword (s : BlockState) (category : Category) {word : Text}
    (h : forall other, other ∈ closingWords -> word ≠ Text.of other) :
    s.level <= (s.stepKeyword category word).level := by
  simp only [closingWords, List.forall_mem_cons] at h
  rcases h with ⟨hend, hendIf, hendFor, hendWhile, _⟩
  have hbranches :
      [Text.of "END IF", Text.of "END FOR", Text.of "END WHILE"].elem word = false := by
    simp [hendIf, hendFor, hendWhile]
  have hraise : s.level <= s.raise.level := Int.le_add_one (Int.le_refl _)
  unfold stepKeyword
  rw [hbranches, beq_false_of_ne hend]
  split
  · exact hraise
  · split
    · dsimp only
      split
      · exact hraise
      · exact Int.le_refl _
    · rw [if_neg Bool.false_ne_true, if_neg Bool.false_ne_true]
      split
      · exact Int.le_refl _
      · split
        · exact hraise
        · exact Int.le_refl _

theorem Raised.step (h : Raised s) (hclosing : token.isClosing = false) :
    Raised (s.step token) := by
  cases hquote : token.isDollarQuote with
  | true =>
      rw [step_dollarQuote hquote, stepDollar]
      cases htag : s.dollarTag with
      | none =>
          exact ⟨Int.le_add_one h.level_nonneg, fun _ => Int.lt_add_one_of_le h.level_nonneg⟩
      | some mark =>
          have hpos := h.level_pos (by rw [htag]; exact nofun)
          dsimp only
          split
          · exact ⟨Int.sub_nonneg_of_le hpos, fun hne => absurd rfl hne⟩
          · exact h
  | false =>
      rw [step_eq, if_neg (ne_true_of_eq_false hquote)]
      split
      · exact h
      · rename_i hword
        rw [Bool.or_eq_true, not_or, Bool.not_eq_true, Option.isSome_eq_false_iff,
          Option.isNone_iff_eq_none, Bool.not_eq_true', Bool.not_eq_false] at hword
        have hlevel : s.level <= (s.stepKeyword token.category token.normalized).level := by
          apply le_level_stepKeyword
          intro other hmem hother
          have hany : token.isClosing = true :=
            List.any_eq_true.mpr ⟨other, hmem, isWord_iff.mpr ⟨hword.2, hother⟩⟩
          rw [hclosing] at hany
          cases hany
        refine ⟨Int.le_trans h.level_nonneg hlevel, ?_⟩
        rw [dollarTag_stepKeyword, hword.1]
        exact fun hne => absurd rfl hne

theorem Raised.after {tokens : List Token} (h : Raised s)
    (hclosing : forall token, token ∈ tokens -> token.isClosing = false) :
    Raised (s.after tokens) := by
  induction tokens generalizing s with
  | nil =>
      exact h
  | cons token rest ih =>
      rw [List.forall_mem_cons] at hclosing
      exact ih (h.step hclosing.1) hclosing.2

theorem raised_start : Raised {} :=
  ⟨Int.le_refl 0, fun hne => absurd rfl hne⟩

/-!
# Semicolons inside of a body
-/

/-- A mark that is open after some tokens of a statement: those before it, the
mark itself, and those read since. -/
structure OpenedBy (mark : Text) (read before : List Token) (opening : Token)
    (body : List Token) : Prop where
  read_eq : read = before ++ opening :: body
  quote : opening.isDollarQuote = true
  value_eq : opening.value = mark
  outside : (BlockState.after {} before).dollarTag = none
  inside : forall token, token ∈ body -> token.isMark mark = false

theorem Reads.exists_openedBy {read : List Token} (h : Reads {} read s)
    (htag : s.dollarTag = some mark) :
    exists before opening body, OpenedBy mark read before opening body ∧
      s.level = (BlockState.after {} before).level + 1 := by
  have hafter := h.after_eq
  have hopen : read.foldl markAfter none = some mark := by
    rw [← htag, ← hafter, dollarTag_after]
  rcases exists_opening hopen with ⟨before, opening, body, rfl, hquote, rfl, houtside, hbody⟩ | h
  · have hbefore : (BlockState.after {} before).dollarTag = none := by
      rw [dollarTag_after]
      exact houtside
    refine ⟨before, opening, body, ⟨rfl, hquote, rfl, hbefore, hbody⟩, ?_⟩
    rw [← hafter, after_opening hbefore hquote hbody]
  · cases h.1

theorem exists_closing_of_level_neg {tokens : List Token}
    (h : (BlockState.after {} tokens).level < 0) :
    exists token, token ∈ tokens ∧ token.isClosing = true := by
  by_contra hnone
  have hclosing : forall token, token ∈ tokens -> token.isClosing = false := by
    intro token hmem
    rw [← Bool.not_eq_true]
    exact fun hclosing => hnone ⟨token, hmem, hclosing⟩
  exact absurd (raised_start.after hclosing).level_nonneg (Int.not_le.mpr h)

end BlockState

open BlockState

/-- A semicolon that is read where a dollar mark is open ends the statement if
the level in front of the mark was negative, and is a part of it like any other
token if not.  Only a word that closes a block makes the level negative. -/
theorem semicolon_in_dollar_body {read : List Token} {s : BlockState} {mark : Text}
    {semicolon : Token} (hreads : Reads {} read s) (htag : s.dollarTag = some mark)
    (hsemicolon : semicolon.isSemicolon = true) (rest : List Token) :
    exists before opening body, OpenedBy mark read before opening body ∧
      (firstStatement {} (read ++ semicolon :: rest) =
        if (BlockState.after {} before).level < 0 then
          (read ++ semicolon :: rest.takeWhile Token.trails, rest.dropWhile Token.trails)
        else
          (read ++ semicolon :: (firstStatement s rest).1, (firstStatement s rest).2)) ∧
      ((BlockState.after {} before).level < 0 ->
        exists token, token ∈ before ∧ token.isClosing = true) := by
  rcases hreads.exists_openedBy htag with ⟨before, opening, body, hopened, hlevel⟩
  refine ⟨before, opening, body, hopened, ?_, exists_closing_of_level_neg⟩
  split
  · rename_i hnegative
    apply firstStatement_of_semicolon hreads hsemicolon
    rw [hlevel]
    exact hnegative
  · rename_i hnonneg
    have hgoes : Reads s [semicolon] s := by
      apply Reads.step (step_semicolon hsemicolon) _ Reads.nil
      apply isEnd_of_level_pos
      rw [hlevel]
      exact Int.lt_add_one_of_le (Int.not_lt.mp hnonneg)
    have hall := firstStatement_of_reads (hreads.append hgoes) rest
    simpa using hall

/-- A word that closes no block, and a mark that opens a body after it. -/
def openedAfterEnd : List Token :=
  [⟨.keyword, Text.of "end", none⟩, ⟨.builtin, Text.of "$$", none⟩]

theorem reads_openedAfterEnd : Reads {} openedAfterEnd { dollarTag := some (Text.of "$$") } :=
  Reads.step rfl rfl (Reads.step (by decide) rfl Reads.nil)

theorem semicolon_in_dollar_body_after_end :
    Reads {} openedAfterEnd { dollarTag := some (Text.of "$$") } ∧
      Token.isSemicolon ⟨.punctuation, Text.of ";", none⟩ = true ∧
      exists before opening body,
        OpenedBy (Text.of "$$") openedAfterEnd before opening body ∧
          (firstStatement {} (openedAfterEnd ++
              ⟨.punctuation, Text.of ";", none⟩ :: [⟨.builtin, Text.of "$$", none⟩]) =
            if (BlockState.after {} before).level < 0 then
              (openedAfterEnd ++ [⟨.punctuation, Text.of ";", none⟩],
                [⟨.builtin, Text.of "$$", none⟩])
            else
              (openedAfterEnd ++
                [⟨.punctuation, Text.of ";", none⟩, ⟨.builtin, Text.of "$$", none⟩], [])) ∧
          ((BlockState.after {} before).level < 0 ->
            exists token, token ∈ before ∧ token.isClosing = true) :=
  ⟨reads_openedAfterEnd, rfl,
    semicolon_in_dollar_body reads_openedAfterEnd rfl rfl [⟨.builtin, Text.of "$$", none⟩]⟩

/-- After an `END` that closes nothing, a semicolon in a dollar body ends the
statement, and the mark that should close the body opens one in the next. -/
theorem dollar_body_cut_after_end :
    Reads {} openedAfterEnd { dollarTag := some (Text.of "$$") } ∧
      splitTokens (openedAfterEnd ++
          [⟨.punctuation, Text.of ";", none⟩, ⟨.builtin, Text.of "$$", none⟩]) =
        [openedAfterEnd ++ [⟨.punctuation, Text.of ";", none⟩],
         [⟨.builtin, Text.of "$$", none⟩]] :=
  ⟨reads_openedAfterEnd, by decide⟩

end SqlLayout
