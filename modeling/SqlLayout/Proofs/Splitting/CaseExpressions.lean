import SqlLayout.Proofs.Splitting.Routines

/-!
# CASE expressions in routines

The word `CASE` opens no block, but the `END` of a CASE expression closes one.  In
the body of a created routine such an expression is thus read as a lone `END`:
what follows is read one level lower, and the first semicolon at the level of the
statement ends it, which may be one inside of the body.
-/

namespace SqlLayout

/-- A CASE expression without semicolons and without block words but its own
`END`. -/
inductive CaseExpression : List Token -> Prop where
  | intro {opening closing : Token} {arms : List Token} :
      opening.isWord "CASE" = true ->
      (forall token, token ∈ arms -> token.isNeutral = true) ->
      closing.isWord "END" = true ->
      CaseExpression (opening :: (arms ++ [closing]))

/-- A created routine up to its semicolon, cut in two at a place of its body. -/
inductive CutRoutine : List Token -> List Token -> Prop where
  | intro {lead head before behind tail : List Token} {create opening closing semicolon : Token} :
      (forall token, token ∈ lead -> token.isNeutral = true) ->
      create.isCreate = true ->
      (forall token, token ∈ head -> token.isNeutral = true ∨ token.isBranch = true) ->
      opening.isWord "BEGIN" = true ->
      Body (before ++ behind) ->
      closing.isWord "END" = true ->
      (forall token, token ∈ tail -> token.isNeutral = true) ->
      semicolon.isSemicolon = true ->
      CutRoutine (lead ++ create :: (head ++ opening :: before))
        (behind ++ closing :: (tail ++ [semicolon]))

theorem CutRoutine.routine {front back : List Token} (h : CutRoutine front back) :
    Routine (front ++ back) := by
  cases h with
  | intro hlead hcreate hhead hopening hbody hclosing htail hsemicolon =>
      have hroutine := Routine.intro hlead hcreate hhead hopening hbody hclosing htail hsemicolon
      simpa using hroutine

/-!
# The expression
-/

namespace Token

variable {token : Token}

theorem isNeutral_of_isWord {word : String} (h : token.isWord word = true)
    (hother : forall other, other ∈ blockWords -> Text.of word ≠ Text.of other) :
    token.isNeutral = true := by
  rcases isWord_iff.mp h with ⟨hkeyword, hnormalized⟩
  refine isNeutral_iff.mpr ⟨?_, isDollarQuote_of_isKeyword hkeyword, ?_⟩
  · rw [← Bool.not_eq_true]
    intro hsemicolon
    rw [isKeyword_of_isSemicolon hsemicolon] at hkeyword
    cases hkeyword
  · rw [← Bool.not_eq_true, isBlockWord, List.any_eq_true]
    rintro ⟨other, hmem, hword⟩
    apply hother other hmem
    rw [← hnormalized, (isWord_iff.mp hword).2]

end Token

open BlockState

theorem CaseExpression.reads {expression : List Token} (h : CaseExpression expression)
    {s : BlockState} (htag : s.dollarTag = none) (hcreate : s.isCreate = true) :
    Reads s expression { s with beginDepth := s.beginDepth - 1, level := s.level - 1 } := by
  cases h with
  | @intro opening closing arms hopening harms hclosing =>
      have hneutral : opening.isNeutral = true :=
        Token.isNeutral_of_isWord hopening (by decide)
      have hlead : forall token, token ∈ opening :: arms -> token.isNeutral = true :=
        List.forall_mem_cons.mpr ⟨hneutral, harms⟩
      have hreads := reads_neutral htag hlead
      rw [hcreate, Bool.true_or, ← hcreate] at hreads
      rw [← List.cons_append]
      apply hreads.append
      exact Reads.step (step_end htag hclosing) (isEnd_keyword (Token.isWord_iff.mp hclosing).1)
        Reads.nil

/-!
# Places in a body
-/

/-- At every place of a body the statement is in the body, and the rest of the
body leads back to its start. -/
theorem Body.exists_middle {tokens before behind : List Token} (h : Body tokens)
    (hsplit : tokens = before ++ behind) {s : BlockState} (hs : InBody s) :
    exists t, InBody t ∧ Reads s before t ∧ Reads t behind s := by
  induction h generalizing before behind s with
  | nil =>
      rcases List.append_eq_nil_iff.mp hsplit.symm with ⟨rfl, rfl⟩
      exact ⟨s, hs, Reads.nil, Reads.nil⟩
  | @plain token rest hplain hrest ih =>
      cases before with
      | nil =>
          have hwhole : behind = token :: rest := hsplit.symm
          rw [hwhole]
          exact ⟨s, hs, Reads.nil, (Body.plain hplain hrest).reads hs⟩
      | cons first before =>
          cases hsplit
          rcases ih rfl hs with ⟨t, ht, hbefore, hbehind⟩
          exact ⟨t, ht, Reads.step (step_of_isPlain hs.outside hs.created hplain)
            (isEnd_of_level_pos hs.level_pos) hbefore, hbehind⟩
  | @block first last opening closing inner rest hpair hopening hclosing hinner hrest ihInner
      ihRest =>
      cases before with
      | nil =>
          have hwhole : behind = opening :: (inner ++ closing :: rest) := hsplit.symm
          rw [hwhole]
          exact ⟨s, hs, Reads.nil, (Body.block hpair hopening hclosing hinner hrest).reads hs⟩
      | cons other before =>
          rw [List.cons_append, List.cons.injEq] at hsplit
          rcases hsplit with ⟨rfl, hsplit⟩
          rcases hs.block hpair hopening hclosing with ⟨hinside, hback⟩
          have hopened : (s.step opening).isEnd opening = false :=
            isEnd_of_level_pos hinside.level_pos
          have hclosed : s.isEnd closing = false := isEnd_of_level_pos hs.level_pos
          rcases List.append_eq_append_iff.mp hsplit with
            ⟨middle, rfl, hmiddle⟩ | ⟨middle, rfl, rfl⟩
          · -- The place is behind the inner body.
            cases middle with
            | nil =>
                have hbehind : behind = closing :: rest := hmiddle.symm
                rw [hbehind, List.append_nil]
                exact ⟨_, hinside, Reads.step rfl hopened (hinner.reads hinside),
                  Reads.step hback hclosed (hrest.reads hs)⟩
            | cons other middle =>
                rw [List.cons_append, List.cons.injEq] at hmiddle
                rcases hmiddle with ⟨rfl, hmiddle⟩
                rcases ihRest hmiddle hs with ⟨t, ht, hbefore, hbehind⟩
                refine ⟨t, ht, ?_, hbehind⟩
                apply Reads.step rfl hopened
                exact (hinner.reads hinside).append (Reads.step hback hclosed hbefore)
          · rcases ihInner rfl hinside with ⟨t, ht, hbefore, hbehind⟩
            exact ⟨t, ht, Reads.step rfl hopened hbefore,
              hbehind.append (Reads.step hback hclosed (hrest.reads hs))⟩

/-!
# Reading at a lower level
-/

namespace Token

/-- A token that neither starts a section of declarations nor marks a dollar
body. -/
def keepsSection (token : Token) : Bool :=
  !token.isDollarQuote && !token.isWord "DECLARE"

theorem keepsSection_of_isNeutral {token : Token} (h : token.isNeutral = true) :
    token.keepsSection = true := by
  rcases isNeutral_iff.mp h with ⟨_, hmark, hword⟩
  have hdeclare : token.isWord "DECLARE" = false := by
    rw [← Bool.not_eq_true]
    intro hdeclare
    have hany : token.isBlockWord = true :=
      List.any_eq_true.mpr ⟨"DECLARE", by decide, hdeclare⟩
    rw [hword] at hany
    cases hany
  rw [keepsSection, hmark, hdeclare]
  rfl

theorem keepsSection_of_isWord {token : Token} {word : String} (h : token.isWord word = true)
    (hne : Text.of word ≠ Text.of "DECLARE") : token.keepsSection = true := by
  rcases isWord_iff.mp h with ⟨hkeyword, hnormalized⟩
  have hdeclare : token.isWord "DECLARE" = false := by
    rw [← Bool.not_eq_true]
    intro hdeclare
    exact hne (hnormalized.symm.trans (isWord_iff.mp hdeclare).2)
  rw [keepsSection, isDollarQuote_of_isKeyword hkeyword, hdeclare]
  rfl

theorem keepsSection_of_isPlain {token : Token} (h : token.isPlain = true) :
    token.keepsSection = true := by
  rcases Bool.or_eq_true_iff.mp h with hneutral | hsemicolon
  · exact keepsSection_of_isNeutral hneutral
  · have hdeclare : token.isWord "DECLARE" = false := by
      rw [isWord, isKeyword_of_isSemicolon hsemicolon, Bool.false_and]
    rw [keepsSection, isDollarQuote_of_isSemicolon hsemicolon, hdeclare]
    rfl

end Token

theorem Body.keepsSection {tokens : List Token} (h : Body tokens) :
    forall token, token ∈ tokens -> token.keepsSection = true := by
  induction h with
  | nil =>
      intro token hmem
      cases hmem
  | plain hplain _ ih =>
      exact List.forall_mem_cons.mpr ⟨Token.keepsSection_of_isPlain hplain, ih⟩
  | @block first last opening closing inner rest hpair hopening hclosing _ _ ihInner ihRest =>
      have hwords : (blockPairs.all fun pair =>
          decide (Text.of pair.1 ≠ Text.of "DECLARE" ∧ Text.of pair.2 ≠ Text.of "DECLARE")) =
            true := by
        decide
      have hpair := of_decide_eq_true (List.all_eq_true.mp hwords _ hpair)
      rw [List.forall_mem_cons, List.forall_mem_append, List.forall_mem_cons]
      exact ⟨Token.keepsSection_of_isWord hopening hpair.1, ihInner,
        Token.keepsSection_of_isWord hclosing hpair.2, ihRest⟩

namespace BlockState

/-- Two statements of created routines, the second at a lower level and in no
deeper body than the first. -/
structure Lower (s t : BlockState) : Prop where
  outside : s.dollarTag = none
  outside_lower : t.dollarTag = none
  created : s.isCreate = true
  created_lower : t.isCreate = true
  depth_le : t.beginDepth <= s.beginDepth
  level_lt : t.level < s.level

variable {s t : BlockState}

/-- The same token keeps the second statement at a lower level: what raises the
level in the deeper body may not count in the other one, but never the other way
round. -/
theorem Lower.step (h : Lower s t) {token : Token} (htoken : token.keepsSection = true) :
    Lower (s.step token) (t.step token) := by
  rw [Token.keepsSection, Bool.and_eq_true, Bool.not_eq_true', Bool.not_eq_true'] at htoken
  rcases htoken with ⟨hmark, hdeclare⟩
  cases hblock : token.isBlockWord with
  | false =>
      rw [step_other h.outside hmark hblock, step_other h.outside_lower hmark hblock]
      exact ⟨h.outside, h.outside_lower, by simp [h.created], by simp [h.created_lower],
        h.depth_le, h.level_lt⟩
  | true =>
      rcases List.any_eq_true.mp hblock with ⟨word, hmem, hword⟩
      have hbranchOrEnd : word = "BEGIN" ∨ word = "END" ∨
          word ∈ ["END IF", "END FOR", "END WHILE"] ∨ word ∈ ["IF", "FOR", "WHILE"] := by
        simp only [Token.blockWords, List.mem_cons, List.not_mem_nil, or_false] at hmem ⊢
        rcases hmem with rfl | rfl | rfl | rfl | rfl | rfl | rfl | rfl | rfl
        · rw [hword] at hdeclare
          cases hdeclare
        all_goals simp
      have hdepth := h.depth_le
      have hlevel := h.level_lt
      rcases hbranchOrEnd with rfl | rfl | hend | hbranch
      · rw [step_begin h.outside h.created hword, step_begin h.outside_lower h.created_lower hword]
        exact ⟨h.outside, h.outside_lower, h.created, h.created_lower,
          Nat.succ_le_succ hdepth, Int.add_lt_add_right hlevel 1⟩
      · rw [step_end h.outside hword, step_end h.outside_lower hword]
        exact ⟨h.outside, h.outside_lower, h.created, h.created_lower,
          Nat.sub_le_sub_right hdepth 1, Int.sub_lt_sub_right hlevel 1⟩
      · rw [step_endBranch h.outside hend hword, step_endBranch h.outside_lower hend hword]
        exact ⟨h.outside, h.outside_lower, h.created, h.created_lower, hdepth,
          Int.sub_lt_sub_right hlevel 1⟩
      · have hopens : token.isBranch = true := List.any_eq_true.mpr ⟨word, hbranch, hword⟩
        rw [step_branch h.outside h.created hopens,
          step_branch h.outside_lower h.created_lower hopens]
        split
        · split
          · exact ⟨h.outside, h.outside_lower, h.created, h.created_lower, hdepth,
              Int.add_lt_add_right hlevel 1⟩
          · exact ⟨h.outside, h.outside_lower, h.created, h.created_lower, hdepth,
              Int.lt_add_one_of_le (Int.le_of_lt hlevel)⟩
        · rename_i hflat
          rw [if_neg (fun hpos => hflat (Nat.lt_of_lt_of_le hpos hdepth))]
          exact h

theorem Lower.after (h : Lower s t) {tokens : List Token}
    (htokens : forall token, token ∈ tokens -> token.keepsSection = true) :
    Lower (s.after tokens) (t.after tokens) := by
  induction tokens generalizing s t with
  | nil =>
      exact h
  | cons token rest ih =>
      rw [List.forall_mem_cons] at htokens
      exact ih (h.step htokens.1) htokens.2

/-!
# Where a statement ends
-/

/-- A statement goes on through tokens exactly if each semicolon among them is
read above its level. -/
theorem reads_iff {tokens : List Token} :
    Reads s tokens (s.after tokens) <->
      forall before semicolon behind, tokens = before ++ semicolon :: behind ->
        semicolon.isSemicolon = true -> 0 < (s.after before).level := by
  induction tokens generalizing s with
  | nil =>
      exact ⟨fun _ before semicolon behind hnil => by simp at hnil, fun _ => Reads.nil⟩
  | cons token rest ih =>
      constructor
      · intro hreads before semicolon behind hsplit hsemicolon
        cases hreads with
        | cons hend hrest =>
            cases before with
            | nil =>
                cases hsplit
                rw [step_semicolon hsemicolon, isEnd_semicolon hsemicolon,
                  decide_eq_false_iff_not, Int.not_le] at hend
                exact hend
            | cons first before =>
                cases hsplit
                exact ih.mp hrest before semicolon behind rfl hsemicolon
      · intro hall
        refine Reads.cons ?_ (ih.mpr ?_)
        · cases hsemicolon : token.isSemicolon with
          | false =>
              exact isEnd_of_not_semicolon hsemicolon
          | true =>
              rw [step_semicolon hsemicolon]
              exact isEnd_of_level_pos (hall [] token rest rfl hsemicolon)
        · intro before semicolon behind hsplit hsemicolon
          exact hall (token :: before) semicolon behind (congrArg (List.cons token) hsplit)
            hsemicolon

/-- A statement that comes to a semicolon below or at its level ends there, or
at an earlier one. -/
theorem exists_cut {tokens : List Token} {semicolon : Token}
    (hsemicolon : semicolon.isSemicolon = true) (hlevel : (s.after tokens).level <= 0)
    (rest : List Token) :
    exists kept cut, tokens ++ [semicolon] = kept ++ cut ∧
      firstStatement s (tokens ++ semicolon :: rest) =
        (kept ++ (cut ++ rest).takeWhile Token.trails, (cut ++ rest).dropWhile Token.trails) ∧
      (cut = [] <-> Reads s tokens (s.after tokens)) := by
  induction tokens generalizing s with
  | nil =>
      refine ⟨[semicolon], [], rfl, ?_, fun _ => Reads.nil, fun _ => rfl⟩
      exact firstStatement_of_semicolon Reads.nil hsemicolon hlevel rest
  | cons token tokens ih =>
      cases hend : (s.step token).isEnd token with
      | true =>
          refine ⟨[token], tokens ++ [semicolon], rfl, ?_, by simp, ?_⟩
          · rw [List.append_assoc, List.cons_append, firstStatement_of_isEnd hend]
            rfl
          · intro hreads
            cases hreads with
            | cons hgoes _ =>
                rw [hend] at hgoes
                cases hgoes
      | false =>
          rcases ih (s := s.step token) hlevel with ⟨kept, cut, hsplit, hfirst, hcut⟩
          refine ⟨token :: kept, cut, congrArg (List.cons token) hsplit, ?_, ?_⟩
          · rw [List.cons_append, firstStatement_of_not_isEnd hend, hfirst]
            rfl
          · rw [hcut]
            constructor
            · exact Reads.cons hend
            · intro hreads
              cases hreads with
              | cons _ hrest =>
                  exact hrest

end BlockState

/-!
# Routines with an expression
-/

theorem CutRoutine.exists_reads {front back : List Token} (h : CutRoutine front back) :
    exists s behind semicolon, back = behind ++ [semicolon] ∧ semicolon.isSemicolon = true ∧
      InBody s ∧ Reads {} front s ∧ Reads s behind { isCreate := true } ∧
      forall token, token ∈ behind -> token.keepsSection = true := by
  cases h with
  | @intro lead head before behind tail create opening closing semicolon hlead hcreate hhead
      hopening hbody hclosing htail hsemicolon =>
    rcases hbody.exists_middle rfl inBody_header with ⟨s, hs, hbefore, hbehind⟩
    refine ⟨s, behind ++ closing :: tail, semicolon, by simp, hsemicolon, hs,
      reads_header hlead hcreate hhead hopening hbefore, ?_, ?_⟩
    · apply hbehind.append
      apply Reads.step (step_end rfl hclosing) (isEnd_keyword (Token.isWord_iff.mp hclosing).1)
      exact reads_neutral rfl htail
    · intro token hmem
      rcases List.mem_append.mp hmem with hmem | hmem
      · exact hbody.keepsSection token (List.mem_append.mpr (Or.inr hmem))
      · rcases List.mem_cons.mp hmem with rfl | hmem
        · exact Token.keepsSection_of_isWord hclosing (by decide)
        · exact Token.keepsSection_of_isNeutral (htail token hmem)

/-- A CASE expression in the body of a created routine lowers the level by one.
The statement then ends with the routine or before: it ends in the body exactly if
a semicolon behind the expression is not read above the level of the statement. -/
theorem case_expression_cuts {front back expression : List Token} (h : CutRoutine front back)
    (hcase : CaseExpression expression) (rest : List Token) :
    (BlockState.after {} (front ++ expression)).level = (BlockState.after {} front).level - 1 ∧
      exists kept cut, back = kept ++ cut ∧
        splitStatements (front ++ expression ++ back ++ rest) =
          Statement.ofTokens
              (front ++ expression ++ kept ++ (cut ++ rest).takeWhile Token.trails) ::
            splitStatements ((cut ++ rest).dropWhile Token.trails) ∧
        (cut = [] <->
          forall before semicolon behind, back = before ++ semicolon :: behind ->
            semicolon.isSemicolon = true -> behind ≠ [] ->
            0 < (BlockState.after {} (front ++ expression ++ before)).level) := by
  rcases h.exists_reads with
    ⟨s, tokens, last, rfl, hlast, hs, hfront, hback, hkeeps⟩
  have hread := hfront.append (hcase.reads hs.outside hs.created)
  have hlower : Lower s { s with beginDepth := s.beginDepth - 1, level := s.level - 1 } :=
    ⟨hs.outside, hs.outside, hs.created, hs.created, Nat.sub_le _ _, Int.sub_lt_self _ Int.one_pos⟩
  have hlevel := (hlower.after hkeeps).level_lt
  rw [hback.after_eq] at hlevel
  refine ⟨by rw [hread.after_eq, hfront.after_eq], ?_⟩
  rcases exists_cut hlast (Int.le_of_lt hlevel) rest with ⟨kept, cut, hsplit, hfirst, hcut⟩
  refine ⟨kept, cut, hsplit, ?_, ?_⟩
  · apply splitStatements_eq (by simp)
    rw [List.append_assoc, List.append_assoc tokens, List.singleton_append,
      firstStatement_of_reads hread, hfirst]
    simp only [List.append_assoc]
  · rw [hcut, reads_iff]
    constructor
    · intro hall before semicolon behind hwhole hsemicolon hbehind
      rcases List.eq_nil_or_concat behind with rfl | ⟨behind, final, rfl⟩
      · exact absurd rfl hbehind
      · rw [List.concat_eq_append, ← List.cons_append, ← List.append_assoc] at hwhole
        have htokens := (List.append_inj' hwhole rfl).1
        rw [after_append, hread.after_eq]
        exact hall before semicolon behind htokens hsemicolon
    · intro hall before semicolon behind htokens hsemicolon
      have hlevel := hall before semicolon (behind ++ [last]) (by simp [htokens]) hsemicolon
        (by simp)
      rw [after_append, hread.after_eq] at hlevel
      exact hlevel

/-- A routine up to the end of a statement in its body, and what follows there. -/
def selectingRoutine : List Token × List Token :=
  ([⟨.ddl, Text.of "create", none⟩, ⟨.name, Text.of "p", none⟩, ⟨.keyword, Text.of "begin", none⟩,
    ⟨.dml, Text.of "select", none⟩],
   [⟨.punctuation, Text.of ";", none⟩, ⟨.keyword, Text.of "end", none⟩,
    ⟨.punctuation, Text.of ";", none⟩])

def caseExpression : List Token :=
  [⟨.keyword, Text.of "case", none⟩, ⟨.name, Text.of "x", none⟩, ⟨.keyword, Text.of "end", none⟩]

/-- What comes after the routine. -/
def afterRoutine : List Token :=
  [⟨.name, Text.of "c", none⟩]

theorem selectingRoutine_shape : CutRoutine selectingRoutine.1 selectingRoutine.2 :=
  @CutRoutine.intro [] [⟨.name, Text.of "p", none⟩] [⟨.dml, Text.of "select", none⟩]
    [⟨.punctuation, Text.of ";", none⟩] [] _ _ _ _ (by decide) (by decide) (by decide) (by decide)
    (.plain (by decide) (.plain (by decide) .nil)) (by decide) (by decide) (by decide)

theorem caseExpression_shape : CaseExpression caseExpression :=
  @CaseExpression.intro _ _ [⟨.name, Text.of "x", none⟩] (by decide) (by decide) (by decide)

theorem case_expression_cuts_select :
    CutRoutine selectingRoutine.1 selectingRoutine.2 ∧ CaseExpression caseExpression ∧
      (BlockState.after {} (selectingRoutine.1 ++ caseExpression)).level =
        (BlockState.after {} selectingRoutine.1).level - 1 ∧
      exists kept cut : List Token, selectingRoutine.2 = kept ++ cut ∧
        splitStatements
            (selectingRoutine.1 ++ caseExpression ++ selectingRoutine.2 ++ afterRoutine) =
          Statement.ofTokens (selectingRoutine.1 ++ caseExpression ++ kept ++
              (cut ++ afterRoutine).takeWhile Token.trails) ::
            splitStatements ((cut ++ afterRoutine).dropWhile Token.trails) ∧
        (cut = [] <->
          forall before semicolon behind, selectingRoutine.2 = before ++ semicolon :: behind ->
            semicolon.isSemicolon = true -> behind ≠ [] ->
            0 < (BlockState.after {} (selectingRoutine.1 ++ caseExpression ++ before)).level) :=
  ⟨selectingRoutine_shape, caseExpression_shape,
    case_expression_cuts selectingRoutine_shape caseExpression_shape _⟩

/-- Without the expression the routine is one statement.  With it the first
semicolon of the body ends the statement, and the end of the routine is a
statement of its own. -/
theorem case_expression_splits_body :
    Routine (selectingRoutine.1 ++ selectingRoutine.2) ∧ CaseExpression caseExpression ∧
      splitTokens (selectingRoutine.1 ++ selectingRoutine.2 ++ afterRoutine) =
        [selectingRoutine.1 ++ selectingRoutine.2, afterRoutine] ∧
      splitTokens (selectingRoutine.1 ++ caseExpression ++ selectingRoutine.2 ++ afterRoutine) =
        [selectingRoutine.1 ++ caseExpression ++ selectingRoutine.2.take 1,
         selectingRoutine.2.drop 1, afterRoutine] ∧
      splitTokens (selectingRoutine.1 ++ caseExpression ++ selectingRoutine.2 ++ afterRoutine) ≠
        [selectingRoutine.1 ++ caseExpression ++ selectingRoutine.2, afterRoutine] :=
  ⟨selectingRoutine_shape.routine, caseExpression_shape, by decide, by decide, by decide⟩

end SqlLayout
