import SqlLayout.Proofs.Grouping.FlatStatements

/-!
# Runs of names with commas between them

A statement that consists of names with commas between them, with blanks and comments
anywhere between these tokens.  However the blanks and comments of a run are grouped,
the groups can be told from the tokens: they stand in the order of the run.
-/

namespace SqlLayout

open Tree

/-!
# Runs
-/

def Token.isComma (t : Token) : Bool := t.isPunctuationIn [[',']]

/-- A further name of a run, with what stands in front of it. -/
structure RunItem where
  before : List Token
  comma : Token
  behind : List Token
  name : Token
  before_isTrivia : forall t, t ∈ before -> t.isTrivia = true
  isComma : comma.isComma = true
  behind_isTrivia : forall t, t ∈ behind -> t.isTrivia = true
  isName : name.category = .name

namespace RunItem

def tokens (item : RunItem) : List Token :=
  item.before ++ item.comma :: (item.behind ++ [item.name])

/-- No comment stands between the comma and the name. -/
def isClear (item : RunItem) : Bool := item.behind.all fun t => !t.isComment

end RunItem

/-- At least two names with commas between them. -/
structure CommaRun where
  first : Token
  rest : List RunItem
  isName : first.category = .name
  rest_ne : rest ≠ []

namespace CommaRun

def tokens (run : CommaRun) : List Token := run.first :: run.rest.flatMap RunItem.tokens

def marks (run : CommaRun) : List Token :=
  run.first :: run.rest.flatMap fun item => [item.comma, item.name]

/-- No comment stands between a comma and the name behind it. -/
def isClear (run : CommaRun) : Bool := run.rest.all RunItem.isClear

/-- One list stands in the tree of a statement, and it holds the names and the commas of
a run and no other tokens but blanks and comments. -/
def InOneList (run : CommaRun) (s : Statement) : Prop :=
  exists list, (s.tree.descendants s.root).filter (s.tree.isKind · .identifierList) = [list] ∧
    (s.tree.tokens list).filter (fun t => !t.isTrivia) = run.marks

end CommaRun

/-!
# Tokens of a run
-/

theorem exists_cut_of_not_mem {alpha : Type} {front rest before behind : List alpha} {mark : alpha}
    (h : front ++ rest = before ++ mark :: behind) (hmark : mark ∉ front) :
    exists more, before = front ++ more ∧ rest = more ++ mark :: behind := by
  rcases List.append_eq_append_iff.mp h with ⟨more, htake, hdrop⟩ | ⟨more, htake, hdrop⟩
  · exact ⟨more, htake, hdrop⟩
  · cases more with
    | nil =>
        rw [List.append_nil] at htake
        exact ⟨[], by rw [htake, List.append_nil], hdrop.symm⟩
    | cons other more =>
        rw [List.cons_append, List.cons.injEq] at hdrop
        rw [htake, hdrop.1] at hmark
        simp at hmark

namespace Token

theorem isComma_iff {t : Token} :
    t.isComma = true <-> t.category = .punctuation ∧ t.value = [','] :=
  isPunctuationIn_singleton_iff

theorem category_of_isComma {t : Token} (h : t.isComma = true) : t.category = .punctuation :=
  (isComma_iff.mp h).1

theorem isTrivia_of_isComma {t : Token} (h : t.isComma = true) : t.isTrivia = false := by
  unfold isTrivia isWhitespace isComment
  rw [category_of_isComma h]
  rfl

theorem isComment_of_isWhitespace {t : Token} (h : t.isWhitespace = true) :
    t.isComment = false := by
  unfold isWhitespace at h
  unfold isComment
  revert h
  cases t.category <;> decide

theorem isTrivia_of_isName {t : Token} (h : t.category = .name) : t.isTrivia = false := by
  unfold isTrivia isWhitespace isComment
  rw [h]
  rfl

end Token

theorem CommaRun.filter_tokens (run : CommaRun) :
    run.tokens.filter (fun t => !t.isTrivia) = run.marks := by
  have hname : forall t : Token, t.category = .name -> (!t.isTrivia) = true := by
    intro t ht
    rw [Token.isTrivia_of_isName ht]
    rfl
  have hnone : forall trivia : List Token, (forall t, t ∈ trivia -> t.isTrivia = true) ->
      trivia.filter (fun t => !t.isTrivia) = [] := by
    intro trivia htrivia
    apply List.filter_eq_nil_iff.mpr
    intro t ht
    rw [htrivia t ht]
    exact Bool.false_ne_true
  have hitem : forall item : RunItem,
      item.tokens.filter (fun t => !t.isTrivia) = [item.comma, item.name] := by
    intro item
    have hcomma : (!item.comma.isTrivia) = true := by
      rw [Token.isTrivia_of_isComma item.isComma]
      rfl
    rw [RunItem.tokens, List.filter_append, hnone _ item.before_isTrivia,
      List.filter_cons, if_pos hcomma, List.filter_append, hnone _ item.behind_isTrivia,
      List.filter_cons, if_pos (hname _ item.isName)]
    rfl
  rw [CommaRun.tokens, CommaRun.marks, List.filter_cons, if_pos (hname _ run.isName),
    List.filter_flatMap]
  congr 1
  exact List.flatMap_congr fun item _ => hitem item

namespace Rose

/-!
# Groups of a run
-/

/-- What a run consists of once its comments are grouped. -/
inductive RunPart (comment item : Rose -> Prop) : Rose -> Prop where
  | blank {rose : Rose} : rose.isBlank = true -> RunPart comment item rose
  | comma {t : Token} : t.isComma = true -> RunPart comment item (.token t)
  | comment {rose : Rose} : comment rose -> RunPart comment item rose
  | item {rose : Rose} : item rose -> RunPart comment item rose

/-- What follows an item: a comma, with blanks and some groups in front of it, blanks and
comments, and the next item.  The list is clear if it has no comment behind a comma. -/
inductive Continued (between comment item : Rose -> Prop) : Bool -> List Rose -> Prop where
  | done : Continued between comment item true []
  | more {gap behind rest : List Rose} {comma : Token} {next : Rose} {clear : Bool} :
      (forall rose, rose ∈ gap -> rose.isBlank = true ∨ between rose) -> comma.isComma = true ->
      (forall rose, rose ∈ behind -> rose.isBlank = true ∨ comment rose) -> item next ->
      Continued between comment item clear rest ->
      Continued between comment item (behind.all isBlank && clear)
        (gap ++ .token comma :: (behind ++ next :: rest))

def Listing (between comment item : Rose -> Prop) (clear : Bool) (roses : List Rose) : Prop :=
  exists first rest, roses = first :: rest ∧ item first ∧
    Continued between comment item clear rest

/-!
# Reading the order of the groups off the tokens
-/

/-- Comments hold trivia, a comment among it, and items hold a name and trivia. -/
structure HoldRun (comment item : Rose -> Prop) : Prop where
  comment_isTrivia : forall rose, comment rose -> forall t, t ∈ rose.tokens -> t.isTrivia = true
  exists_comment : forall rose, comment rose -> exists t, t ∈ rose.tokens ∧ t.isComment = true
  item_tokens : forall rose, item rose -> exists name trivia, rose.tokens = name :: trivia ∧
    name.category = .name ∧ forall t, t ∈ trivia -> t.isTrivia = true

variable {comment item : Rose -> Prop} {roses : List Rose}

theorem split_at_mark (hholds : HoldRun comment item)
    (hparts : forall rose, rose ∈ roses -> RunPart comment item rose) {trivia tail : List Token}
    {mark : Token} (htrivia : forall t, t ∈ trivia -> t.isTrivia = true)
    (hmark : mark.isTrivia = false) (htokens : tokensOf roses = trivia ++ mark :: tail) :
    exists gap rose rest, roses = gap ++ rose :: rest ∧
      (forall other, other ∈ gap -> other.isBlank = true ∨ comment other) ∧
      tokensOf gap = trivia ∧ tokensOf (rose :: rest) = mark :: tail ∧
      (item rose ∨ rose = .token mark ∧ mark.isComma = true) := by
  induction roses generalizing trivia with
  | nil =>
      cases trivia with
      | nil =>
          cases htokens
      | cons t rest =>
          cases htokens
  | cons head rest ih =>
      have hrest : forall rose, rose ∈ rest -> RunPart comment item rose :=
        fun rose hrose => hparts rose (List.mem_cons_of_mem _ hrose)
      -- A rose that holds trivia only stands in front of the token.
      have hpass : (forall t, t ∈ head.tokens -> t.isTrivia = true) ->
          (head.isBlank = true ∨ comment head) -> exists gap rose others,
            head :: rest = gap ++ rose :: others ∧
            (forall other, other ∈ gap -> other.isBlank = true ∨ comment other) ∧
            tokensOf gap = trivia ∧ tokensOf (rose :: others) = mark :: tail ∧
            (item rose ∨ rose = .token mark ∧ mark.isComma = true) := by
        intro hall hhead
        rw [tokensOf] at htokens
        have hnot : mark ∉ head.tokens := by
          intro hmem
          rw [hall mark hmem] at hmark
          cases hmark
        rcases exists_cut_of_not_mem htokens hnot with ⟨more, rfl, hmore⟩
        rcases ih hrest (fun t ht => htrivia t (List.mem_append_right _ ht)) hmore with
          ⟨gap, rose, others, rfl, hgap, hgapTokens, hroseTokens, hrose⟩
        refine ⟨head :: gap, rose, others, rfl, ?_, ?_, hroseTokens, hrose⟩
        · intro other hother
          rcases List.mem_cons.mp hother with rfl | hmem
          · exact hhead
          · exact hgap other hmem
        · rw [tokensOf, hgapTokens]
      -- A rose that begins with another token is the one that is looked for.
      have hstop : forall (t : Token) more, head.tokens = t :: more -> t.isTrivia = false ->
          trivia = [] ∧ t = mark := by
        intro t more hhead ht
        rw [tokensOf, hhead, List.cons_append] at htokens
        cases trivia with
        | nil =>
            exact ⟨rfl, (List.cons.inj htokens).1⟩
        | cons other trivia =>
            rw [(List.cons.inj htokens).1, htrivia other List.mem_cons_self] at ht
            cases ht
      cases hparts head List.mem_cons_self with
      | blank hblank =>
          apply hpass _ (Or.inl hblank)
          intro t ht
          rcases exists_of_isBlank hblank with ⟨other, rfl, hother⟩
          rw [Rose.tokens, List.mem_singleton] at ht
          rw [ht]
          unfold Token.isTrivia
          rw [hother]
          rfl
      | comment hcomment =>
          exact hpass (hholds.comment_isTrivia head hcomment) (Or.inr hcomment)
      | @comma t hcomma =>
          rcases hstop t [] rfl (Token.isTrivia_of_isComma hcomma) with ⟨rfl, rfl⟩
          exact ⟨[], _, rest, rfl, by simp, rfl, htokens, Or.inr ⟨rfl, hcomma⟩⟩
      | item hitem =>
          rcases hholds.item_tokens head hitem with ⟨name, more, hhead, hname, _⟩
          rcases hstop name more hhead (Token.isTrivia_of_isName hname) with ⟨rfl, rfl⟩
          exact ⟨[], head, rest, rfl, by simp, rfl, htokens, Or.inl hitem⟩

theorem all_isBlank (hholds : HoldRun comment item) {gap : List Rose}
    (hgap : forall rose, rose ∈ gap -> rose.isBlank = true ∨ comment rose) :
    gap.all isBlank = (tokensOf gap).all fun t => !t.isComment := by
  induction gap with
  | nil =>
      rfl
  | cons rose rest ih =>
      rw [List.forall_mem_cons] at hgap
      rw [List.all_cons, tokensOf, List.all_append, ih hgap.2]
      congr 1
      rcases hgap.1 with hblank | hcomment
      · rcases exists_of_isBlank hblank with ⟨t, rfl, ht⟩
        rw [hblank, Rose.tokens, List.all_cons, List.all_nil, Bool.and_true,
          Token.isComment_of_isWhitespace ht]
        rfl
      · rcases hholds.exists_comment rose hcomment with ⟨t, ht, htComment⟩
        have hblank : rose.isBlank = false := by
          apply Bool.eq_false_iff.mpr
          intro hblank
          rcases exists_of_isBlank hblank with ⟨other, rfl, hother⟩
          rw [Rose.tokens, List.mem_singleton] at ht
          rw [ht, Token.isComment_of_isWhitespace hother] at htComment
          cases htComment
        rw [hblank]
        symm
        apply List.all_eq_false.mpr
        exact ⟨t, ht, by rw [htComment]; simp⟩

theorem RunPart.tokens_ne (hholds : HoldRun comment item) {rose : Rose}
    (h : RunPart comment item rose) : rose.tokens ≠ [] := by
  intro hnil
  cases h with
  | blank hblank =>
      rcases exists_of_isBlank hblank with ⟨t, rfl, _⟩
      cases hnil
  | comma _ =>
      cases hnil
  | comment hcomment =>
      rcases hholds.exists_comment rose hcomment with ⟨t, ht, _⟩
      rw [hnil] at ht
      cases ht
  | item hitem =>
      rcases hholds.item_tokens rose hitem with ⟨name, trivia, htokens, _⟩
      rw [hnil] at htokens
      cases htokens

theorem eq_nil_of_tokensOf (hholds : HoldRun comment item)
    (hparts : forall rose, rose ∈ roses -> RunPart comment item rose)
    (htokens : tokensOf roses = []) : roses = [] := by
  cases roses with
  | nil =>
      rfl
  | cons rose rest =>
      rw [tokensOf, List.append_eq_nil_iff] at htokens
      exact absurd htokens.1 ((hparts rose List.mem_cons_self).tokens_ne hholds)

theorem continued_of_tokens (hholds : HoldRun comment item) (items : List RunItem)
    {trivia : List Token} (hparts : forall rose, rose ∈ roses -> RunPart comment item rose)
    (htrivia : forall t, t ∈ trivia -> t.isTrivia = true)
    (htokens : trivia ++ tokensOf roses = items.flatMap RunItem.tokens) :
    Continued comment comment item (items.all RunItem.isClear) roses := by
  induction items generalizing roses trivia with
  | nil =>
      rw [eq_nil_of_tokensOf hholds hparts (List.append_eq_nil_iff.mp htokens).2]
      exact Continued.done
  | cons next items ih =>
      rw [List.flatMap_cons, RunItem.tokens, List.append_assoc, List.cons_append,
        List.append_assoc, List.singleton_append] at htokens
      have hcomma := Token.isTrivia_of_isComma next.isComma
      have hnot : next.comma ∉ trivia := by
        intro hmem
        rw [htrivia next.comma hmem] at hcomma
        cases hcomma
      rcases exists_cut_of_not_mem htokens hnot with ⟨more, hbefore, hmore⟩
      rcases split_at_mark hholds hparts
          (fun t ht => next.before_isTrivia t (by rw [hbefore]; exact List.mem_append_right _ ht))
          hcomma hmore with
        ⟨gap, rose, rest, rfl, hgap, _, hrest, hrose⟩
      have hhead : rose = .token next.comma := by
        rcases hrose with hitem | ⟨heq, _⟩
        · rcases hholds.item_tokens rose hitem with ⟨name, others, hname, hcategory, _⟩
          rw [tokensOf, hname, List.cons_append, List.cons.injEq] at hrest
          rw [hrest.1, Token.category_of_isComma next.isComma] at hcategory
          cases hcategory
        · exact heq
      subst hhead
      rw [tokensOf, Rose.tokens, List.singleton_append, List.cons.injEq] at hrest
      have hpartsRest : forall rose, rose ∈ rest -> RunPart comment item rose :=
        fun rose hmem => hparts rose (by simp [hmem])
      rcases split_at_mark hholds hpartsRest next.behind_isTrivia
          (Token.isTrivia_of_isName next.isName) hrest.2 with
        ⟨behind, rose, others, rfl, hbehind, hbehindTokens, hothers, hrose⟩
      have hitem : item rose := by
        rcases hrose with hitem | ⟨_, hisComma⟩
        · exact hitem
        · have hcategory := Token.category_of_isComma hisComma
          rw [next.isName] at hcategory
          cases hcategory
      rcases hholds.item_tokens rose hitem with ⟨name, inside, hname, _, hinside⟩
      rw [tokensOf, hname, List.cons_append, List.cons.injEq] at hothers
      have hclear : next.isClear = behind.all isBlank := by
        rw [all_isBlank hholds hbehind, hbehindTokens]
        rfl
      rw [List.all_cons, hclear]
      exact Continued.more hgap next.isComma hbehind hitem
        (ih (fun rose hmem => hpartsRest rose (by simp [hmem])) hinside hothers.2)

theorem listing_of_tokens (hholds : HoldRun comment item) {run : CommaRun}
    (hparts : forall rose, rose ∈ roses -> RunPart comment item rose)
    (htokens : tokensOf roses = run.tokens) : Listing comment comment item run.isClear roses := by
  have htokens' : tokensOf roses = [] ++ run.first :: run.rest.flatMap RunItem.tokens := htokens
  rcases split_at_mark hholds hparts (by simp) (Token.isTrivia_of_isName run.isName) htokens' with
    ⟨gap, rose, rest, rfl, hgap, hgapTokens, hrest, hrose⟩
  have hnil : gap = [] := by
    apply eq_nil_of_tokensOf hholds _ hgapTokens
    exact fun rose hmem => hparts rose (by simp [hmem])
  subst hnil
  have hitem : item rose := by
    rcases hrose with hitem | ⟨_, hisComma⟩
    · exact hitem
    · have hcategory := Token.category_of_isComma hisComma
      rw [run.isName] at hcategory
      cases hcategory
  rcases hholds.item_tokens rose hitem with ⟨name, inside, hname, _, hinside⟩
  rw [tokensOf, hname, List.cons_append, List.cons.injEq] at hrest
  exact ⟨rose, rest, rfl, hitem, continued_of_tokens hholds run.rest
    (fun rose hmem => hparts rose (by simp [hmem])) hinside hrest.2⟩

end Rose
end SqlLayout
