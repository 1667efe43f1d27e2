import SqlLayout.Proofs.Grouping.Operands
import SqlLayout.Proofs.Layout.FilledLists

/-!
# Spaces around operators

Between two neighbours of a list there comes a space if one of them is an operator and
neither is blank.  Each list is looked at alone, so two tokens that stand side by side
get no space between them where one ends a group and the other begins the next.
-/

namespace SqlLayout

/-- An operator or a comparison. -/
def Token.isOperator (token : Token) : Bool := token.category.isA .operator

theorem Token.isWhitespace_of_isOperator {token : Token} (h : token.isOperator = true) :
    token.isWhitespace = false := by
  unfold isOperator at h
  unfold isWhitespace
  revert h
  cases token.category <;> decide

/-- A token with a place in the source. -/
def Token.inSource (token : Token) : Bool := token.position.isSome

namespace Rose

def holdsOperator : Rose -> Bool
  | .token t => t.isOperator
  | .group _ _ => false

def isNode : Rose -> Bool
  | .token _ => false
  | .group _ _ => true

theorem isBlank_of_holdsOperator {rose : Rose} (h : rose.holdsOperator = true) :
    rose.isBlank = false := by
  cases rose with
  | token token =>
      exact Token.isWhitespace_of_isOperator h
  | group kind children =>
      cases h

/-!
# Spaces between neighbours
-/

def wantsSpace (left right : Rose) : Bool :=
  (left.holdsOperator || right.holdsOperator) && !left.isBlank && !right.isBlank

def gap : Option Rose -> Option Rose -> List Rose
  | some left, some right => if left.wantsSpace right then [.token (.blank [' '])] else []
  | _, _ => []

/-- Some roses with spaces between them, given what stands before. -/
def spaceAfter : Option Rose -> List Rose -> List Rose
  | _, [] => []
  | left, rose :: rest => gap left (some rose) ++ rose :: spaceAfter (some rose) rest

mutual

def spaced : Rose -> Rose
  | .token t => .token t
  | .group kind children => .group kind (spaceAfter none (spacedOf children))

def spacedOf : List Rose -> List Rose
  | [] => []
  | rose :: rest => rose.spaced :: spacedOf rest

end

theorem spacedOf_eq_map (roses : List Rose) : spacedOf roses = roses.map spaced := by
  induction roses with
  | nil =>
      rfl
  | cons rose rest ih =>
      rw [spacedOf, List.map_cons, ih]

theorem spaceAfter_append (left : Option Rose) (front back : List Rose) :
    spaceAfter left (front ++ back) =
      spaceAfter left front ++ spaceAfter (front.getLast?.or left) back := by
  induction front generalizing left with
  | nil =>
      rfl
  | cons rose rest ih =>
      have hlast : (rose :: rest).getLast?.or left = rest.getLast?.or (some rose) := by
        cases rest with
        | nil =>
            rfl
        | cons next rest =>
            rw [List.getLast?_cons_cons, List.getLast?_eq_some_getLast (List.cons_ne_nil _ _)]
            rfl
      rw [List.cons_append, spaceAfter, spaceAfter, ih, hlast, List.append_assoc, List.cons_append]

@[simp] theorem gap_none (right : Option Rose) : gap none right = [] := by
  cases right <;> rfl

theorem gap_of_isBlank {left right : Option Rose}
    (h : (exists rose, left = some rose ∧ rose.isBlank = true) ∨
      exists rose, right = some rose ∧ rose.isBlank = true) : gap left right = [] := by
  rcases h with ⟨rose, rfl, hblank⟩ | ⟨rose, rfl, hblank⟩
  · cases right with
    | none =>
        rfl
    | some right =>
        rw [gap, wantsSpace, hblank]
        simp
  · cases left with
    | none =>
        rfl
    | some left =>
        rw [gap, wantsSpace, hblank]
        simp

theorem gap_cases (left right : Option Rose) :
    gap left right = [] ∨ gap left right = [.token (.blank [' '])] := by
  cases left with
  | none =>
      exact Or.inl rfl
  | some left =>
      cases right with
      | none =>
          exact Or.inl rfl
      | some right =>
          rw [gap]
          split
          · exact Or.inr rfl
          · exact Or.inl rfl

theorem spaceAfter_gap (left : Option Rose) (back : List Rose) :
    spaceAfter left (gap left back.head? ++ back) = spaceAfter left back := by
  rcases gap_cases left back.head? with hgap | hgap
  · rw [hgap, List.nil_append]
  · rw [hgap]
    cases back with
    | nil =>
        cases left <;> cases hgap
    | cons rose rest =>
        rw [List.singleton_append, spaceAfter, spaceAfter, spaceAfter,
          gap_of_isBlank (Or.inr ⟨_, rfl, rfl⟩), gap_of_isBlank (Or.inl ⟨_, rfl, rfl⟩),
          show gap left (some rose) = [.token (.blank [' '])] from hgap]
        rfl

def Ready (left : Option Rose) (rest : List Rose) : Prop :=
  forall rose, left = some rose -> rose.holdsOperator = true ->
    forall next, rest.head? = some next -> next.isBlank = true

theorem ready_gap (left : Option Rose) (back : List Rose) :
    Ready left (gap left back.head? ++ back) := by
  rintro rose rfl hoperator next hnext
  cases back with
  | nil =>
      cases hnext
  | cons first rest =>
      rw [List.head?_cons, gap, wantsSpace, hoperator, isBlank_of_holdsOperator hoperator] at hnext
      cases hblank : first.isBlank with
      | false =>
          rw [hblank] at hnext
          cases hnext
          rfl
      | true =>
          rw [hblank] at hnext
          cases hnext
          exact hblank

theorem spaceAfter_of_quiet {left : Option Rose} {quiet back : List Rose}
    (h : forall rose, rose ∈ quiet -> rose.holdsOperator = false)
    (hready : Ready left (quiet ++ back)) : spaceAfter left quiet = quiet := by
  induction quiet generalizing left with
  | nil =>
      rfl
  | cons rose rest ih =>
      have hrose := h rose List.mem_cons_self
      have hgap : gap left (some rose) = [] := by
        cases left with
        | none =>
            rfl
        | some left =>
            rw [gap, wantsSpace, hrose, Bool.or_false]
            cases hleft : left.holdsOperator with
            | false =>
                rfl
            | true =>
                rw [hready left rfl hleft rose rfl]
                simp
      have hnext : Ready (some rose) (rest ++ back) := by
        rintro other heq hoperator
        cases heq
        rw [hrose] at hoperator
        cases hoperator
      rw [spaceAfter, hgap, ih (fun other hother => h other (List.mem_cons_of_mem _ hother)) hnext,
        List.nil_append]

theorem spaceAfter_eq_self {left : Option Rose} {quiet : List Rose}
    (h : forall rose, rose ∈ quiet -> rose.holdsOperator = false) (hready : Ready left quiet) :
    spaceAfter left quiet = quiet := by
  rw [← List.append_nil quiet] at hready
  exact spaceAfter_of_quiet h hready

/-!
# The tokens of the source
-/

@[simp] theorem filter_gap (left right : Option Rose) :
    (tokensOf (gap left right)).filter Token.inSource = [] := by
  rcases gap_cases left right with hgap | hgap
  · rw [hgap]
    rfl
  · rw [hgap]
    rfl

theorem filter_tokensOf_spaceAfter (left : Option Rose) (roses : List Rose) :
    (tokensOf (spaceAfter left roses)).filter Token.inSource =
      (tokensOf roses).filter Token.inSource := by
  induction roses generalizing left with
  | nil =>
      rfl
  | cons rose rest ih =>
      rw [spaceAfter, tokensOf_append, tokensOf, tokensOf, List.filter_append, filter_gap,
        List.nil_append, List.filter_append, List.filter_append, ih]

theorem filter_tokens_spaced : forall rose : Rose,
    rose.spaced.tokens.filter Token.inSource = rose.tokens.filter Token.inSource
  | .token t => by
      rw [spaced]
  | .group kind children => by
      rw [spaced, tokens, tokens, filter_tokensOf_spaceAfter, spacedOf_eq_map,
        tokensOf_eq_flatMap, tokensOf_eq_flatMap, List.flatMap_map, List.filter_flatMap,
        List.filter_flatMap]
      apply List.flatMap_congr
      intro child hchild
      exact filter_tokens_spaced child

theorem filter_tokensOf_spaced (left : Option Rose) (roses : List Rose) :
    (tokensOf (spaceAfter left (spacedOf roses))).filter Token.inSource =
      (tokensOf roses).filter Token.inSource := by
  rw [filter_tokensOf_spaceAfter, spacedOf_eq_map, tokensOf_eq_flatMap, tokensOf_eq_flatMap,
    List.flatMap_map, List.filter_flatMap, List.filter_flatMap]
  exact List.flatMap_congr fun rose _ => filter_tokens_spaced rose

theorem exists_tokens_around (kind : GroupKind) (before : List Rose) (child : Rose)
    (behind : List Rose) :
    exists early,
      (spaced (.group kind (before ++ child :: behind))).tokens =
        early ++ (child.spaced.tokens ++
          tokensOf (spaceAfter (some child.spaced) (spacedOf behind))) ∧
      early.filter Token.inSource = (tokensOf before).filter Token.inSource := by
  refine ⟨tokensOf (spaceAfter none (spacedOf before)) ++
    tokensOf (gap ((spacedOf before).getLast?.or none) (some child.spaced)), ?_, ?_⟩
  · rw [spaced, tokens, spacedOf_eq_map, spacedOf_eq_map, spacedOf_eq_map, List.map_append,
      List.map_cons, spaceAfter_append, spaceAfter, tokensOf_append, tokensOf_append, tokensOf,
      List.append_assoc]
  · rw [List.filter_append, filter_tokensOf_spaced, filter_gap, List.append_nil]

/-!
# Seams
-/

mutual

/-- For each two tokens in a row, whether the one ends a group and the other begins
the next child of the same list, which is a group too. -/
def seams : Rose -> List Bool
  | .token _ => []
  | .group _ children => seamsOf children

def seamsOf : List Rose -> List Bool
  | [] => []
  | rose :: rest =>
      rose.seams ++
        match rest with
        | [] => []
        | next :: _ => (rose.isNode && next.isNode) :: seamsOf rest

end

/-- A rose in which every group has a child. -/
inductive Full : Rose -> Prop where
  | token {t : Token} : Full (.token t)
  | group {kind : GroupKind} {children : List Rose} :
      children ≠ [] -> (forall child, child ∈ children -> Full child) ->
      Full (.group kind children)

theorem seamsOf_cons_cons (rose next : Rose) (rest : List Rose) :
    seamsOf (rose :: next :: rest) =
      rose.seams ++ (rose.isNode && next.isNode) :: seamsOf (next :: rest) := by
  rw [seamsOf]

theorem length_seamsOf {roses : List Rose} (hne : roses ≠ [])
    (h : forall rose, rose ∈ roses -> rose.seams.length + 1 = rose.tokens.length) :
    (seamsOf roses).length + 1 = (tokensOf roses).length := by
  induction roses with
  | nil =>
      exact absurd rfl hne
  | cons rose rest ih =>
      have hrose := h rose List.mem_cons_self
      cases rest with
      | nil =>
          rw [seamsOf, tokensOf, tokensOf, List.append_nil, List.append_nil]
          exact hrose
      | cons next rest =>
          have hrest := ih (List.cons_ne_nil _ _) fun other hother =>
            h other (List.mem_cons_of_mem _ hother)
          rw [seamsOf_cons_cons, tokensOf, List.length_append, List.length_append,
            List.length_cons, hrest, ← hrose]
          omega

theorem Full.length_seams {rose : Rose} (h : Full rose) :
    rose.seams.length + 1 = rose.tokens.length := by
  induction h with
  | token =>
      rfl
  | group hne _ ih =>
      exact length_seamsOf hne ih

theorem Full.tokens_ne_nil {rose : Rose} (h : Full rose) : rose.tokens ≠ [] := by
  have hlength := h.length_seams
  exact List.ne_nil_of_length_pos (by omega)

theorem exists_seamsOf_append {front back : List Rose}
    (h : forall rose, rose ∈ front -> Full rose) (hne : back ≠ []) :
    exists before, seamsOf (front ++ back) = before ++ seamsOf back ∧
      before.length = (tokensOf front).length := by
  induction front with
  | nil =>
      exact ⟨[], rfl, rfl⟩
  | cons rose rest ih =>
      rcases ih fun other hother => h other (List.mem_cons_of_mem _ hother) with
        ⟨before, hbefore, hlength⟩
      rcases List.exists_cons_of_ne_nil (List.append_ne_nil_of_right_ne_nil rest hne) with
        ⟨next, others, hnext⟩
      refine ⟨rose.seams ++ (rose.isNode && next.isNode) :: before, ?_, ?_⟩
      · rw [List.cons_append, hnext, seamsOf_cons_cons, ← hnext, hbefore, List.append_assoc,
          List.cons_append]
      · rw [tokensOf, List.length_append, List.length_append, List.length_cons, hlength,
          ← (h rose List.mem_cons_self).length_seams]
        omega

theorem getElem?_seamsOf_append {front back : List Rose}
    (h : forall rose, rose ∈ front -> Full rose) (hne : back ≠ []) (idx : Nat) :
    (seamsOf (front ++ back))[(tokensOf front).length + idx]? = (seamsOf back)[idx]? := by
  rcases exists_seamsOf_append h hne with ⟨before, hbefore, hlength⟩
  rw [hbefore, ← hlength, List.getElem?_append_right (Nat.le_add_right _ _),
    Nat.add_sub_cancel_left]

/-!
# The two sides of a group
-/

theorem Full.first_spaced {rose : Rose} (h : Full rose) {right : Token} {back : List Token}
    (htokens : rose.tokens = right :: back) :
    exists back', rose.spaced.tokens = right :: back' := by
  induction h generalizing back with
  | token =>
      exact ⟨back, htokens⟩
  | @group kind children hne hfull ih =>
      rcases List.exists_cons_of_ne_nil hne with ⟨first, rest, rfl⟩
      have hfirst := (hfull first List.mem_cons_self).tokens_ne_nil
      rcases List.exists_cons_of_ne_nil hfirst with ⟨token, others, hcons⟩
      rw [tokens, tokensOf, hcons, List.cons_append, List.cons.injEq] at htokens
      rw [htokens.1] at hcons
      rcases ih first List.mem_cons_self hcons with ⟨back', hback'⟩
      rw [spaced, spacedOf, spaceAfter, tokens, gap_none, List.nil_append, tokensOf, hback',
        List.cons_append]
      exact ⟨_, rfl⟩

theorem Full.last_spaced {rose : Rose} (h : Full rose) {left : Token} {front : List Token}
    (htokens : rose.tokens = front ++ [left]) :
    exists front', rose.spaced.tokens = front' ++ [left] := by
  induction h generalizing front with
  | token =>
      exact ⟨front, htokens⟩
  | @group kind children hne hfull ih =>
      rcases List.eq_nil_or_concat children with rfl | ⟨rest, last, rfl⟩
      · exact absurd rfl hne
      · rw [List.concat_eq_append] at hfull htokens ih ⊢
        have hmem : last ∈ rest ++ [last] := by simp
        rcases List.eq_nil_or_concat last.tokens with hnil | ⟨others, token, hconcat⟩
        · exact absurd hnil (hfull last hmem).tokens_ne_nil
        · rw [List.concat_eq_append] at hconcat
          rw [tokens, tokensOf_append, tokensOf, tokensOf, List.append_nil, hconcat,
            ← List.append_assoc] at htokens
          have hsame := List.append_inj_right' htokens rfl
          rw [hsame] at hconcat
          rcases ih last hmem hconcat with ⟨front', hfront'⟩
          rw [spaced, spacedOf_eq_map, List.map_append, spaceAfter_append, List.map_singleton,
            spaceAfter, spaceAfter, tokens, tokensOf_append, tokensOf_append, tokensOf, tokensOf,
            hfront', List.append_nil, ← List.append_assoc, ← List.append_assoc]
          exact ⟨_, rfl⟩

/-!
# Two tokens side by side
-/

theorem tokensOf_split {roses : List Rose} (h : forall rose, rose ∈ roses -> rose.tokens ≠ [])
    {front back : List Token} {left right : Token}
    (htokens : tokensOf roses = front ++ left :: right :: back) :
    (exists before rose behind f b, roses = before ++ rose :: behind ∧
        rose.tokens = f ++ left :: right :: b ∧ front = tokensOf before ++ f) ∨
      exists before first next behind f b, roses = before ++ first :: next :: behind ∧
        first.tokens = f ++ [left] ∧ next.tokens = right :: b ∧ front = tokensOf before ++ f := by
  induction roses generalizing front with
  | nil =>
      cases front <;> cases htokens
  | cons rose rest ih =>
      rw [tokensOf] at htokens
      rcases append_eq_append_cons htokens with ⟨more, rfl, hrest⟩ | ⟨more, hrose, hbehind⟩
      · -- Both tokens stand behind the first rose.
        rcases ih (fun other hother => h other (List.mem_cons_of_mem _ hother)) hrest with
          ⟨before, other, behind, f, b, rfl, hother, rfl⟩ |
          ⟨before, first, next, behind, f, b, rfl, hfirst, hnext, rfl⟩
        · refine Or.inl ⟨rose :: before, other, behind, f, b, rfl, hother, ?_⟩
          rw [tokensOf, List.append_assoc]
        · refine Or.inr ⟨rose :: before, first, next, behind, f, b, rfl, hfirst, hnext, ?_⟩
          rw [tokensOf, List.append_assoc]
      · cases more with
        | nil =>
            cases rest with
            | nil =>
                cases hbehind
            | cons next behind =>
                rcases List.exists_cons_of_ne_nil
                  (h next (List.mem_cons_of_mem _ List.mem_cons_self)) with ⟨other, b, hnext⟩
                rw [List.nil_append, tokensOf, hnext, List.cons_append, List.cons.injEq] at hbehind
                rw [← hbehind.1] at hnext
                exact Or.inr ⟨[], rose, next, behind, front, b, rfl, hrose, hnext, rfl⟩
        | cons other more =>
            rw [List.cons_append, List.cons.injEq] at hbehind
            rw [← hbehind.1] at hrose
            exact Or.inl ⟨[], rose, rest, front, more, rfl, hrose, rfl⟩

theorem spaced_of_operator {rose : Rose} {token : Token} (hmem : token ∈ rose.tokens)
    (h : token.isOperator = true) :
    rose.spaced.isBlank = false ∧ rose.spaced.holdsOperator = !rose.isNode := by
  cases rose with
  | token t =>
      have heq : token = t := List.mem_singleton.mp hmem
      rw [← heq, spaced]
      exact ⟨Token.isWhitespace_of_isOperator h, h⟩
  | group kind children =>
      exact ⟨rfl, rfl⟩

theorem gap_of_operators {first next : Rose} {left right : Token} (hfirst : left ∈ first.tokens)
    (hnext : right ∈ next.tokens) (hleft : left.isOperator = true)
    (hright : right.isOperator = true) :
    gap (some first.spaced) (some next.spaced) =
      if (first.isNode && next.isNode) = true then [] else [.token (.blank [' '])] := by
  rcases spaced_of_operator hfirst hleft with ⟨hblank, hoperator⟩
  rcases spaced_of_operator hnext hright with ⟨hblank', hoperator'⟩
  rw [gap, wantsSpace, hblank, hblank', hoperator, hoperator']
  cases first.isNode <;> cases next.isNode <;> rfl

/-- What stands between two operators side by side once there are spaces: nothing at a
seam, else one space. -/
theorem Full.spaced_between {rose : Rose} (h : Full rose) {front back : List Token}
    {left right : Token} (htokens : rose.tokens = front ++ left :: right :: back)
    (hleft : left.isOperator = true) (hright : right.isOperator = true) :
    exists front' back',
      rose.spaced.tokens = front' ++ left ::
        ((if rose.seams[front.length]? = some true then [] else [.blank [' ']]) ++
          right :: back') ∧
      front'.filter Token.inSource = front.filter Token.inSource := by
  induction h generalizing front back with
  | token =>
      cases front with
      | nil =>
          cases htokens
      | cons token front =>
          cases front <;> cases htokens
  | @group kind children hne hfull ih =>
      rcases tokensOf_split (fun child hchild => (hfull child hchild).tokens_ne_nil) htokens with
        ⟨before, child, behind, f, b, rfl, hchild, rfl⟩ |
        ⟨before, first, next, behind, f, b, rfl, hfirst, hnext, rfl⟩
      · -- Both stand in one child.
        have hmem : child ∈ before ++ child :: behind := by simp
        have hbefore : forall other, other ∈ before -> Full other := fun other hother =>
          hfull other (List.mem_append_left _ hother)
        rcases ih child hmem hchild with ⟨front', back', hafter, hfront'⟩
        rcases exists_tokens_around kind before child behind with ⟨early, hspaced, hearly⟩
        have hseam : (seamsOf (before ++ child :: behind))[(tokensOf before ++ f).length]? =
            child.seams[f.length]? := by
          have hseams := (hfull child hmem).length_seams
          rw [hchild, List.length_append, List.length_cons, List.length_cons] at hseams
          have hlt : f.length < child.seams.length := by omega
          rw [List.length_append, getElem?_seamsOf_append hbefore (List.cons_ne_nil _ _)]
          cases behind <;> rw [seamsOf, List.getElem?_append_left hlt]
        rw [hspaced, hafter, seams, hseam]
        refine ⟨early ++ front',
          back' ++ tokensOf (spaceAfter (some child.spaced) (spacedOf behind)), ?_, ?_⟩
        · simp only [List.append_assoc, List.cons_append]
        · rw [List.filter_append, hearly, hfront', List.filter_append]
      · -- They stand on the two sides of neighbours.
        have hmem : first ∈ before ++ first :: next :: behind := by simp
        have hmem' : next ∈ before ++ first :: next :: behind := by simp
        have hbefore : forall other, other ∈ before -> Full other := fun other hother =>
          hfull other (List.mem_append_left _ hother)
        rcases (hfull first hmem).last_spaced hfirst with ⟨f', hf'⟩
        rcases (hfull next hmem').first_spaced hnext with ⟨b', hb'⟩
        rcases exists_tokens_around kind before first (next :: behind) with
          ⟨early, hspaced, hearly⟩
        have hfilter : f'.filter Token.inSource = f.filter Token.inSource := by
          have hsame := filter_tokens_spaced first
          rw [hfirst, hf', List.filter_append, List.filter_append] at hsame
          exact List.append_cancel_right hsame
        have hseam : (seamsOf (before ++ first :: next :: behind))[(tokensOf before ++ f).length]? =
            some (first.isNode && next.isNode) := by
          have hseams := (hfull first hmem).length_seams
          rw [hfirst, List.length_append, List.length_singleton, Nat.add_right_cancel_iff] at hseams
          rw [List.length_append, getElem?_seamsOf_append hbefore (List.cons_ne_nil _ _),
            seamsOf_cons_cons, ← hseams, List.getElem?_append_right (Nat.le_refl _), Nat.sub_self,
            List.getElem?_cons_zero]
        rw [hspaced, hf', seams, hseam, spacedOf, spaceAfter, tokensOf_append, tokensOf, hb',
          gap_of_operators (by simp [hfirst]) (by simp [hnext]) hleft hright]
        refine ⟨early ++ f', b' ++ tokensOf (spaceAfter (some next.spaced) (spacedOf behind)),
          ?_, ?_⟩
        · cases first.isNode && next.isNode <;> simp [tokensOf, tokens]
        · rw [List.filter_append, hearly, hfilter, List.filter_append]

end Rose
end SqlLayout
