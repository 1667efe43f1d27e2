import SqlLayout.Proofs.Grouping.CommaRuns

/-!
# Comments and names of a run

Of a run of names with commas between them the first passes group the comments, and
the names one by one.  The others up to the one for aliases find nothing in it.
-/

namespace SqlLayout

open Grouping Tree

/-!
# Names and their comments
-/

namespace Rose

def IsRemark (rose : Rose) : Prop :=
  rose.IsComment ∧ exists t, t ∈ rose.tokens ∧ t.isComment = true

def IsNameToken (rose : Rose) : Prop := exists t, rose = .token t ∧ t.category = .name

def IsLoneName (rose : Rose) : Prop :=
  exists t, rose = .group .identifier [.token t] ∧ t.category = .name

end Rose

def Token.InRun (t : Token) : Prop := t.isTrivia = true ∨ t.isComma = true ∨ t.category = .name

namespace Pass

open Rose

variable {limit : Nat}

theorem run_comments_lead (hlimit : 0 < limit) :
    Lead limit (fun rose => exists t, rose = .token t ∧ t.InRun) (RunPart IsRemark IsNameToken)
      [Pass.comments] := by
  refine (comments_stage hlimit).mono (fun _ h => h) ?_
  rintro rose (⟨t, rfl, htrivia | hcomma | hname, hnot⟩ | hremark)
  · unfold Token.isTrivia at htrivia
    rw [hnot, Bool.or_false] at htrivia
    exact RunPart.blank htrivia
  · exact RunPart.comma hcomma
  · exact RunPart.item ⟨t, rfl, hname⟩
  · exact RunPart.comment hremark

theorem arranges_all {p : List Rose -> Prop} {pairs : List (Survey × Trigger)}
    (h : forall pair, pair ∈ pairs -> Arranges limit p p [pair.1.pass]) :
    Arranges limit p p (pairs.map fun pair => pair.1.pass) := by
  induction pairs with
  | nil =>
      exact fun tree list _ harranged => ⟨tree, rfl, ChangesWithin.refl tree list, harranged⟩
  | cons pair rest ih =>
      rw [List.forall_mem_cons] at h
      exact arranges_append h.1 (ih h.2)

end Pass

/-!
# Passes that find nothing in a run
-/

/-- The passes that look neither for the tokens of a run nor for names and comments that
are grouped, without those behind the lists. -/
def Survey.strangers : List (Survey × Trigger) :=
  (triggers.take 8).drop 1 ++ (triggers.take 14).drop 9 ++ (triggers.take 17).drop 15

theorem Survey.strangers_subset : strangers ⊆ triggers.tail := by
  intro pair hpair
  rw [strangers, List.mem_append, List.mem_append] at hpair
  rw [← List.drop_one]
  rcases hpair with (hmem | hmem) | hmem
  · exact ((List.take_sublist 8 triggers).drop 1).subset hmem
  · exact (List.drop_sublist_drop_left triggers (by decide : 1 <= 9)).subset
      (((List.take_sublist 14 triggers).drop 9).subset hmem)
  · exact (List.drop_sublist_drop_left triggers (by decide : 1 <= 15)).subset
      (((List.take_sublist 17 triggers).drop 15).subset hmem)

theorem Survey.strangers_pass_over {t : Token} (h : t.InRun) {pair : Survey × Trigger}
    (hpair : pair ∈ strangers) : pair.2.token t = false := by
  rcases h with htrivia | hcomma | hname
  · exact Token.triggers_pass_over_trivia htrivia (strangers_subset hpair)
  · have hall : strangers.all (fun pair => !pair.2.token t) = true := by
      rcases t with ⟨category, value, position⟩
      rcases Token.isComma_iff.mp hcomma with ⟨hcategory, hvalue⟩
      dsimp only at hcategory hvalue
      subst hcategory hvalue
      rfl
    simpa using List.all_eq_true.mp hall pair hpair
  · have hall : strangers.all (fun pair => !pair.2.token t) = true := by
      rcases t with ⟨category, value, position⟩
      dsimp only at hname
      subst hname
      rfl
    simpa using List.all_eq_true.mp hall pair hpair

theorem Survey.strangers_kind {pair : Survey × Trigger} (hpair : pair ∈ strangers) :
    pair.2.kind .comment = false ∧ pair.2.kind .identifier = false := by
  have hall : strangers.all
      (fun pair => !pair.2.kind .comment && !pair.2.kind .identifier) = true := by
    decide
  simpa using List.all_eq_true.mp hall pair hpair

namespace Rose

variable {item : Rose -> Prop} {rose : Rose}

theorem RunPart.lacks {pair : Survey × Trigger} (hpair : pair ∈ Survey.strangers)
    (hitem : forall rose, item rose -> rose.Lacks pair.2) (h : RunPart IsRemark item rose) :
    rose.Lacks pair.2 := by
  cases h with
  | blank hblank =>
      rcases exists_of_isBlank hblank with ⟨t, rfl, ht⟩
      exact Lacks.token (Survey.strangers_pass_over
        (Or.inl (by rw [Token.isTrivia, ht]; rfl)) hpair)
  | comma hcomma =>
      exact Lacks.token (Survey.strangers_pass_over (Or.inr (Or.inl hcomma)) hpair)
  | comment hcomment =>
      exact hcomment.1.lacks_trigger (Survey.strangers_subset hpair) (Survey.strangers_kind hpair).1
  | item h =>
      exact hitem rose h

theorem IsNameToken.lacks {pair : Survey × Trigger} (hpair : pair ∈ Survey.strangers)
    (h : rose.IsNameToken) : rose.Lacks pair.2 := by
  rcases h with ⟨t, rfl, ht⟩
  exact Lacks.token (Survey.strangers_pass_over (Or.inr (Or.inr ht)) hpair)

theorem IsLoneName.lacks {pair : Survey × Trigger} (hpair : pair ∈ Survey.strangers)
    (h : rose.IsLoneName) : rose.Lacks pair.2 := by
  rcases h with ⟨t, rfl, ht⟩
  apply Lacks.group (Survey.strangers_kind hpair).2
  intro child hchild
  rw [List.mem_singleton.mp hchild]
  exact Lacks.token (Survey.strangers_pass_over (Or.inr (Or.inr ht)) hpair)

theorem RunPart.nests (hitem : forall rose, item rose -> Nests (fun _ => false) 1 rose)
    (h : RunPart IsRemark item rose) : Nests (fun _ => false) 1 rose := by
  cases h with
  | blank hblank =>
      rcases exists_of_isBlank hblank with ⟨t, rfl, _⟩
      exact Nests.token
  | comma _ =>
      exact Nests.token
  | comment hcomment =>
      exact hcomment.1.nests
  | item h =>
      exact hitem rose h

theorem IsNameToken.nests (h : rose.IsNameToken) : Nests (fun _ => false) 1 rose := by
  rcases h with ⟨t, rfl, _⟩
  exact Nests.token

theorem IsLoneName.nests (h : rose.IsLoneName) : Nests (fun _ => false) 1 rose := by
  rcases h with ⟨t, rfl, _⟩
  apply nests_of_tokens
  intro child hchild
  exact ⟨t, List.mem_singleton.mp hchild⟩

theorem RunPart.category_of_token {t : Token} (h : RunPart IsRemark IsNameToken (.token t))
    (ht : t.category = .name ∨ t.category = .doubleQuoted) : t.category = .name := by
  cases h with
  | blank hblank =>
      have hwhite : t.category.isWhitespace = true := hblank
      rcases ht with hname | hquoted
      · exact hname
      · rw [hquoted] at hwhite
        cases hwhite
  | comma hcomma =>
      rw [Token.category_of_isComma hcomma] at ht
      rcases ht with hname | hquoted
      · cases hname
      · cases hquoted
  | comment hcomment =>
      rcases hcomment.1 with ⟨children, heq, _⟩
      cases heq
  | item h =>
      rcases h with ⟨other, heq, hname⟩
      cases heq
      exact hname

end Rose

namespace Pass

open Rose

variable {limit : Nat} {item : Rose -> Prop}

theorem arranges_strangers {p : List Rose -> Prop} (hlimit : 1 < limit)
    (hp : forall roses, p roses -> forall rose, rose ∈ roses -> RunPart IsRemark item rose)
    (hlacks : forall pair, pair ∈ Survey.strangers -> forall rose, item rose -> rose.Lacks pair.2)
    (hnests : forall rose, item rose -> Nests (fun _ => false) 1 rose)
    {pairs : List (Survey × Trigger)} (hpairs : pairs ⊆ Survey.strangers) :
    Arranges limit p p (pairs.map fun pair => pair.1.pass) := by
  apply arranges_all
  intro pair hpair
  refine arranges_of_lacks (fun roses h rose hrose => (hp roses h rose hrose).nests hnests) hlimit
    pair (List.mem_of_mem_tail (Survey.strangers_subset (hpairs hpair))) ?_
  exact fun roses h rose hrose => (hp roses h rose hrose).lacks (hpairs hpair)
    (hlacks pair (hpairs hpair))

theorem run_identifiers_lead (hlimit : 1 < limit) :
    Lead limit (RunPart IsRemark IsNameToken) (RunPart IsRemark IsLoneName)
      [Pass.identifiers] := by
  refine (identifiers_stage ?_ (fun rose h => h.nests fun _ h => h.nests) hlimit).mono
    (fun _ h => h) ?_
  · intro rose h
    cases h with
    | blank hblank =>
        rcases exists_of_isBlank hblank with ⟨t, rfl, _⟩
        exact Rests.token
    | comma _ =>
        exact Rests.token
    | comment hcomment =>
        exact hcomment.1.rests (List.mem_of_getElem? (i := 7) rfl)
    | item h =>
        rcases h with ⟨t, rfl, _⟩
        exact Rests.token
  · rintro rose (⟨h, hnot⟩ | ⟨t, rfl, h, ht⟩)
    · cases h with
      | blank hblank =>
          exact RunPart.blank hblank
      | comma hcomma =>
          exact RunPart.comma hcomma
      | comment hcomment =>
          exact RunPart.comment hcomment
      | item h =>
          rcases h with ⟨t, rfl, ht⟩
          exact absurd ht (hnot t rfl)
    · exact RunPart.item ⟨t, rfl, h.category_of_token ht⟩

theorem run_parts_lead (hlimit : 1 < limit) :
    Lead limit (fun rose => exists t, rose = .token t ∧ t.InRun) (RunPart IsRemark IsLoneName)
      (Pass.all.take 14) := by
  have hidle : Arranges limit (Every (RunPart IsRemark IsNameToken))
      (Every (RunPart IsRemark IsNameToken))
      (((Survey.triggers.take 8).drop 1).map fun pair => pair.1.pass) := by
    refine arranges_strangers hlimit (fun _ h => h) (fun _ hpair _ h => h.lacks hpair)
      (fun _ h => h.nests) ?_
    exact fun _ hpair => List.mem_append_left _ (List.mem_append_left _ hpair)
  have hidle' : Arranges limit (Every (RunPart IsRemark IsLoneName))
      (Every (RunPart IsRemark IsLoneName))
      (((Survey.triggers.take 14).drop 9).map fun pair => pair.1.pass) := by
    refine arranges_strangers hlimit (fun _ h => h) (fun _ hpair _ h => h.lacks hpair)
      (fun _ h => h.nests) ?_
    exact fun _ hpair => List.mem_append_left _ (List.mem_append_right _ hpair)
  exact lead_append (run_comments_lead (Nat.lt_of_succ_lt hlimit)) <|
    lead_append (lead_iff_arranges.mpr hidle) <| lead_append (run_identifiers_lead hlimit) <|
    lead_iff_arranges.mpr hidle'

end Pass

end SqlLayout
