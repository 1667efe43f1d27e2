import Mathlib.Data.List.TakeWhile
import SqlLayout.Proofs.Splitting.Routines

/-!
# Where statements end

A statement ends with the stream, or at a semicolon together with the blanks and
line comments behind it.  Nothing is carried over to the next statement, and what
stands behind the cut does not matter: each statement is split as if its tokens
were a stream of their own.  In a script that creates no routine and has no dollar
bodies no word raises the level, so each semicolon ends a statement.
-/

namespace SqlLayout

open BlockState

variable {s : BlockState} {front back tokens : List Token}

/-!
# The end of the first statement
-/

/-- Tokens with a semicolon that only blanks and line comments follow. -/
def EndsAtSemicolon (tokens : List Token) : Prop :=
  exists read semicolon trailing, tokens = read ++ semicolon :: trailing ∧
    semicolon.isSemicolon = true ∧ forall token, token ∈ trailing -> token.trails = true

/-- The first statement takes the whole stream, or a semicolon at its level ends
it. -/
theorem firstStatement_cases (s : BlockState) (tokens : List Token) :
    Reads s tokens (s.after tokens) ∧ firstStatement s tokens = (tokens, []) ∨
      exists read semicolon rest, tokens = read ++ semicolon :: rest ∧
        Reads s read (s.after read) ∧ semicolon.isSemicolon = true ∧ (s.after read).level <= 0 := by
  induction tokens generalizing s with
  | nil =>
      exact Or.inl ⟨Reads.nil, rfl⟩
  | cons token rest ih =>
      cases hend : (s.step token).isEnd token with
      | true =>
          have hsemicolon := isSemicolon_of_isEnd hend
          rw [step_semicolon hsemicolon, isEnd_semicolon hsemicolon] at hend
          exact Or.inr ⟨[], token, rest, rfl, Reads.nil, hsemicolon, of_decide_eq_true hend⟩
      | false =>
          rcases ih (s.step token) with ⟨hreads, hfirst⟩ |
            ⟨read, semicolon, behind, hrest, hreads, hsemicolon, hlevel⟩
          · refine Or.inl ⟨Reads.cons hend hreads, ?_⟩
            rw [firstStatement_of_not_isEnd hend, hfirst]
          · refine Or.inr ⟨token :: read, semicolon, behind, ?_, Reads.cons hend hreads,
              hsemicolon, hlevel⟩
            rw [hrest, List.cons_append]

theorem endsAtSemicolon_of_firstStatement (h : (firstStatement s tokens).2 ≠ []) :
    EndsAtSemicolon (firstStatement s tokens).1 := by
  rcases firstStatement_cases s tokens with ⟨_, hfirst⟩ |
    ⟨read, semicolon, rest, htokens, hreads, hsemicolon, hlevel⟩
  · rw [hfirst] at h
    exact absurd rfl h
  · rw [htokens, firstStatement_of_semicolon hreads hsemicolon hlevel]
    refine ⟨read, semicolon, _, rfl, hsemicolon, ?_⟩
    exact List.all_eq_true.mp List.all_takeWhile

theorem trails_head_firstStatement {token : Token}
    (h : (firstStatement s tokens).2.head? = some token) : token.trails = false := by
  rcases firstStatement_cases s tokens with ⟨_, hfirst⟩ |
    ⟨read, semicolon, rest, htokens, hreads, hsemicolon, hlevel⟩
  · rw [hfirst] at h
    cases h
  · rw [htokens, firstStatement_of_semicolon hreads hsemicolon hlevel] at h
    have hstops := List.head?_dropWhile_not Token.trails rest
    rw [h] at hstops
    exact hstops

/-- What follows the first statement, and even how much of it is there, does not
matter: the tokens in front of a cut are one statement if they lie inside of one. -/
theorem firstStatement_of_prefix (h : front <+: (firstStatement s (front ++ back)).1) :
    firstStatement s front = (front, []) := by
  induction front generalizing s with
  | nil =>
      rfl
  | cons token rest ih =>
      cases hend : (s.step token).isEnd token with
      | true =>
          rw [List.cons_append, firstStatement_of_isEnd hend, List.cons_prefix_cons] at h
          have htrails : forall other, other ∈ rest -> Token.trails other = true := by
            intro other hother
            exact List.all_eq_true.mp List.all_takeWhile other (h.2.subset hother)
          rw [firstStatement_of_isEnd hend, List.takeWhile_eq_self_iff.mpr htrails,
            List.dropWhile_eq_nil_iff.mpr htrails]
      | false =>
          rw [List.cons_append, firstStatement_of_not_isEnd hend, List.cons_prefix_cons] at h
          rw [firstStatement_of_not_isEnd hend, ih h.2]

/-!
# Statements by themselves
-/

theorem splitTokens_of_splitStatements {tokens : List Token} {statements : List Statement}
    (h : splitStatements tokens = statements) :
    splitTokens tokens = statements.map Statement.tokens ∧
      statements = (statements.map Statement.tokens).map Statement.ofTokens := by
  unfold splitStatements at h
  have htokens : statements.map Statement.tokens = splitTokens tokens := by
    rw [← h, List.map_map]
    exact List.map_id'' Statement.tokens_ofTokens _
  rw [htokens]
  exact ⟨rfl, h.symm⟩

theorem splitTokens_of_mem {statement : List Token} (h : statement ∈ splitTokens tokens) :
    splitTokens statement = [statement] := by
  rcases List.append_of_mem h with ⟨earlier, later, hsplit⟩
  have hfirst := firstStatement_of_splitTokens (splitTokens_suffix hsplit)
  have hne : statement ≠ [] := splitWithin_ne_nil h
  have hwithin : statement <+: (firstStatement {} (statement ++ later.flatten)).1 := by
    rw [← List.flatten_cons, hfirst]
  rw [splitTokens_eq hne, firstStatement_of_prefix hwithin]
  rfl

theorem flatten_ne_nil_of_splitTokens {earlier later : List (List Token)}
    (h : splitTokens tokens = earlier ++ later) (hlater : later ≠ []) : later.flatten ≠ [] := by
  rw [Ne, List.flatten_eq_nil_iff]
  rcases List.exists_mem_of_ne_nil later hlater with ⟨other, hother⟩
  have hmem : other ∈ splitTokens tokens := by
    rw [h]
    exact List.mem_append_right _ hother
  exact fun hall => splitWithin_ne_nil hmem (hall other hother)

theorem endsAtSemicolon_of_splitTokens {statement : List Token} {earlier later : List (List Token)}
    (h : splitTokens tokens = earlier ++ statement :: later) (hlater : later ≠ []) :
    EndsAtSemicolon statement := by
  have hfirst := firstStatement_of_splitTokens (splitTokens_suffix h)
  have hleft : (firstStatement {} (statement :: later).flatten).2 ≠ [] := by
    rw [hfirst]
    rw [← List.singleton_append, ← List.append_assoc] at h
    exact flatten_ne_nil_of_splitTokens h hlater
  have hends := endsAtSemicolon_of_firstStatement hleft
  rw [hfirst] at hends
  exact hends

theorem trails_head_of_splitTokens {statement : List Token} {earlier later : List (List Token)}
    (h : splitTokens tokens = earlier ++ statement :: later) (hearlier : earlier ≠ []) :
    exists first rest, statement = first :: rest ∧ first.trails = false := by
  have hmem : statement ∈ splitTokens tokens := by
    rw [h]
    exact List.mem_append_right _ List.mem_cons_self
  rcases List.exists_cons_of_ne_nil (splitWithin_ne_nil hmem) with ⟨first, rest, rfl⟩
  refine ⟨first, rest, rfl, ?_⟩
  rw [← List.dropLast_concat_getLast hearlier, List.append_assoc, List.singleton_append] at h
  have hbefore := firstStatement_of_splitTokens (splitTokens_suffix h)
  have hhead : (firstStatement {}
      (earlier.getLast hearlier :: (first :: rest) :: later).flatten).2.head? = some first := by
    rw [hbefore]
    rfl
  exact trails_head_firstStatement hhead

/-- Statements are split off one by one, without regard to what was read before and
what follows: a statement by itself, and the statements from one of them on, are
split as they are.  A statement with another one behind it ends at a semicolon and
what trails it; a statement with another one before it starts with a token that
does not trail. -/
theorem statements_are_local {tokens : List Token} {earlier later : List Statement}
    {statement : Statement} (h : splitStatements tokens = earlier ++ statement :: later) :
    splitStatements statement.tokens = [statement] ∧
      splitStatements ((statement :: later).flatMap Statement.tokens) = statement :: later ∧
      (later ≠ [] -> EndsAtSemicolon statement.tokens) ∧
      (earlier ≠ [] ->
        exists first rest, statement.tokens = first :: rest ∧ first.trails = false) := by
  rcases splitTokens_of_splitStatements h with ⟨hsplit, hstatements⟩
  rw [List.map_append, List.map_cons] at hsplit hstatements
  rw [List.map_append, List.map_cons] at hstatements
  have hlater : later = (later.map Statement.tokens).map Statement.ofTokens ∧
      statement = Statement.ofTokens statement.tokens := by
    have hsame := (List.append_inj hstatements (by rw [List.length_map, List.length_map])).2
    rw [List.cons.injEq] at hsame
    exact ⟨hsame.2, hsame.1⟩
  have hmem : statement.tokens ∈ splitTokens tokens := by
    rw [hsplit]
    exact List.mem_append_right _ List.mem_cons_self
  refine ⟨?_, ?_, ?_, ?_⟩
  · unfold splitStatements
    rw [splitTokens_of_mem hmem, List.map_singleton, ← hlater.2]
  · unfold splitStatements
    rw [List.flatMap_def, List.map_cons, splitTokens_suffix hsplit, List.map_cons, ← hlater.1,
      ← hlater.2]
  · intro hne
    apply endsAtSemicolon_of_splitTokens hsplit
    rwa [Ne, List.map_eq_nil_iff]
  · intro hne
    apply trails_head_of_splitTokens hsplit
    rwa [Ne, List.map_eq_nil_iff]

/-- Two statements, with a blank and a comment behind the first semicolon. -/
def commentedScript : List Token :=
  [⟨.name, Text.of "a", none⟩, ⟨.punctuation, Text.of ";", none⟩, ⟨.whitespace, Text.of " ", none⟩,
   ⟨.lineComment, Text.of "-- c", none⟩, ⟨.name, Text.of "b", none⟩]

theorem statements_are_local_commented :
    splitStatements commentedScript =
        [Statement.ofTokens (commentedScript.take 4)] ++
          Statement.ofTokens (commentedScript.drop 4) :: [] ∧
      splitStatements (Statement.ofTokens (commentedScript.drop 4)).tokens =
        [Statement.ofTokens (commentedScript.drop 4)] ∧
      exists first rest,
        (Statement.ofTokens (commentedScript.drop 4)).tokens = first :: rest ∧
          first.trails = false := by
  have hsplit : splitStatements commentedScript =
      [Statement.ofTokens (commentedScript.take 4)] ++
        Statement.ofTokens (commentedScript.drop 4) :: [] := by
    decide
  rcases statements_are_local hsplit with ⟨halone, _, _, hhead⟩
  exact ⟨hsplit, halone, hhead (List.cons_ne_nil _ _)⟩

/-!
# Scripts without routines
-/

/-- No routine is created, and neither a declaration nor a dollar body is open. -/
structure Uncreated (s : BlockState) : Prop where
  outside : s.dollarTag = none
  created : s.isCreate = false
  declared : s.inDeclare = false
  level : s.level <= 0

theorem uncreated_start : Uncreated {} :=
  ⟨rfl, rfl, rfl, Int.le_refl 0⟩

def IsScript (tokens : List Token) : Prop :=
  forall token, token ∈ tokens -> token.isCreate = false ∧ token.isDollarQuote = false

theorem Uncreated.stepKeyword (h : Uncreated s) {category : Category} {word : Text}
    (hcreate : (category == .ddl && word.startsWith (Text.of "CREATE")) = false) :
    Uncreated (s.stepKeyword category word) := by
  have hsink : s.level - 1 <= 0 := by
    have := h.level
    omega
  unfold BlockState.stepKeyword
  rw [hcreate]
  simp only [Bool.and_false, Bool.false_and, Bool.false_eq_true, if_false, h.declared, h.created,
    Bool.or_false]
  split
  · exact ⟨h.outside, rfl, rfl, h.level⟩
  · split
    · exact ⟨h.outside, h.created, h.declared, hsink⟩
    · split
      · exact ⟨h.outside, h.created, h.declared, hsink⟩
      · exact h

theorem Uncreated.step (h : Uncreated s) {token : Token} (hcreate : token.isCreate = false)
    (hmark : token.isDollarQuote = false) : Uncreated (s.step token) := by
  cases hword : token.isKeyword with
  | false =>
      rw [step_plain hword hmark]
      exact h
  | true =>
      rw [step_keyword h.outside hword]
      exact h.stepKeyword hcreate

/-- No script raises the level above zero, whatever its blocks. -/
theorem Uncreated.after (h : Uncreated s) (hscript : IsScript tokens) :
    Uncreated (s.after tokens) := by
  induction tokens generalizing s with
  | nil =>
      exact h
  | cons token rest ih =>
      rcases hscript token List.mem_cons_self with ⟨hcreate, hmark⟩
      exact ih (h.step hcreate hmark) fun other hother =>
        hscript other (List.mem_cons_of_mem _ hother)

/-- While no routine is created a statement goes on only over tokens that are no
semicolons. -/
theorem Uncreated.countP_of_reads {t : BlockState} (h : Uncreated s) (hscript : IsScript tokens)
    (hreads : Reads s tokens t) : tokens.countP Token.isSemicolon = 0 := by
  induction hreads with
  | nil =>
      rfl
  | @cons s t token rest hend _ ih =>
      rcases hscript token List.mem_cons_self with ⟨hcreate, hmark⟩
      have hnext := h.step hcreate hmark
      have hother : ¬ token.isSemicolon = true := by
        intro hsemicolon
        rw [isEnd_semicolon hsemicolon, decide_eq_true hnext.level] at hend
        cases hend
      rw [List.countP_cons_of_neg hother]
      exact ih hnext fun other hmem => hscript other (List.mem_cons_of_mem _ hmem)

theorem Token.isSemicolon_of_trails {token : Token} (h : token.trails = true) :
    token.isSemicolon = false := by
  rw [← Bool.not_eq_true]
  intro hsemicolon
  unfold trails at h
  rw [category_of_isSemicolon hsemicolon] at h
  cases h

theorem countP_semicolon_of_trails (h : forall token, token ∈ tokens -> token.trails = true) :
    tokens.countP Token.isSemicolon = 0 := by
  rw [List.countP_eq_zero]
  intro token hmem
  rw [Token.isSemicolon_of_trails (h token hmem)]
  exact Bool.false_ne_true

/-- In a script the first statement has a semicolon, unless it takes all tokens and
they have none. -/
theorem countP_firstStatement (hscript : IsScript tokens) :
    (firstStatement {} tokens).1.countP Token.isSemicolon = 1 ∨
      (firstStatement {} tokens).2 = [] ∧
        (firstStatement {} tokens).1.countP Token.isSemicolon = 0 := by
  rcases firstStatement_cases {} tokens with ⟨hreads, hfirst⟩ |
    ⟨read, semicolon, rest, rfl, hreads, hsemicolon, hlevel⟩
  · rw [hfirst]
    exact Or.inr ⟨rfl, uncreated_start.countP_of_reads hscript hreads⟩
  · left
    have hread : IsScript read :=
      fun token hmem => hscript token (List.mem_append_left _ hmem)
    rw [firstStatement_of_semicolon hreads hsemicolon hlevel, List.countP_append,
      uncreated_start.countP_of_reads hread hreads, List.countP_cons_of_pos hsemicolon,
      countP_semicolon_of_trails (List.all_eq_true.mp List.all_takeWhile)]

/-- In a script without routines and dollar bodies every semicolon ends a statement,
whichever words of blocks stand in it: each statement has exactly one, or none at
most if it is the last one, and no statement is empty. -/
theorem script_splits_at_semicolons {tokens : List Token}
    (hscript : forall token, token ∈ tokens ->
      token.isCreate = false ∧ token.isDollarQuote = false)
    {earlier later : List Statement} {statement : Statement}
    (h : splitStatements tokens = earlier ++ statement :: later) :
    statement.tokens ≠ [] ∧
      statement.tokens.countP Token.isSemicolon <= 1 ∧
      (later ≠ [] -> statement.tokens.countP Token.isSemicolon = 1) := by
  have hsplit := (splitTokens_of_splitStatements h).1
  rw [List.map_append, List.map_cons] at hsplit
  have hmem : statement.tokens ∈ splitTokens tokens := by
    rw [hsplit]
    exact List.mem_append_right _ List.mem_cons_self
  have hfirst := firstStatement_of_splitTokens (splitTokens_suffix hsplit)
  have hthere : IsScript (statement.tokens :: later.map Statement.tokens).flatten := by
    intro token htoken
    apply hscript token
    rw [← splitTokens_flatten tokens, hsplit, List.flatten_append]
    exact List.mem_append_right _ htoken
  have hcount := countP_firstStatement hthere
  rw [hfirst] at hcount
  refine ⟨splitWithin_ne_nil hmem, ?_, ?_⟩
  · rcases hcount with hone | ⟨_, hzero⟩
    · exact Nat.le_of_eq hone
    · rw [hzero]
      exact Nat.zero_le 1
  · intro hlater
    have hends := endsAtSemicolon_of_splitTokens hsplit (by rwa [Ne, List.map_eq_nil_iff])
    rcases hcount with hone | ⟨_, hzero⟩
    · exact hone
    · rcases hends with ⟨read, semicolon, trailing, htokens, hsemicolon, _⟩
      rw [List.countP_eq_zero] at hzero
      have hmember : semicolon ∈ statement.tokens := by
        rw [htokens]
        exact List.mem_append_right _ List.mem_cons_self
      exact absurd hsemicolon (hzero semicolon hmember)

/-- Words of blocks in a script without a routine. -/
def blockScript : List Token :=
  [⟨.keyword, Text.of "declare", none⟩, ⟨.keyword, Text.of "begin", none⟩,
   ⟨.punctuation, Text.of ";", none⟩, ⟨.keyword, Text.of "if", none⟩,
   ⟨.keyword, Text.of "end", none⟩, ⟨.punctuation, Text.of ";", none⟩,
   ⟨.keyword, Text.of "case", none⟩]

theorem script_splits_at_semicolons_blocks :
    (forall token, token ∈ blockScript ->
        token.isCreate = false ∧ token.isDollarQuote = false) ∧
      splitStatements blockScript =
        [Statement.ofTokens (blockScript.take 3)] ++
          Statement.ofTokens ((blockScript.drop 3).take 3) ::
            [Statement.ofTokens (blockScript.drop 6)] ∧
      (Statement.ofTokens ((blockScript.drop 3).take 3)).tokens.countP Token.isSemicolon = 1 := by
  have hscript : forall token, token ∈ blockScript ->
      token.isCreate = false ∧ token.isDollarQuote = false := by
    decide
  have hsplit : splitStatements blockScript =
      [Statement.ofTokens (blockScript.take 3)] ++
        Statement.ofTokens ((blockScript.drop 3).take 3) ::
          [Statement.ofTokens (blockScript.drop 6)] := by
    decide
  rcases script_splits_at_semicolons hscript hsplit with ⟨_, _, hcount⟩
  exact ⟨hscript, hsplit, hcount (List.cons_ne_nil _ _)⟩

end SqlLayout
