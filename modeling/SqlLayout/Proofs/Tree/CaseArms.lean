import SqlLayout.Tree.Parts

/-!
# The arms of a CASE

The arms hold the children of the group in order.  Left out are the CASE keyword, the
blanks if asked, and what stands from an END up to the next WHEN, THEN or ELSE.  Each arm
starts with the WHEN or the ELSE that opens it; only in front of the first of these keywords
there may be an arm without one.
-/

namespace SqlLayout
namespace Tree

variable {tree : Tree} {id : NodeId}

/-!
# Keywords
-/

theorem isKeywordIn_unique {word other : Text} (h : tree.isKeywordIn id [word] = true)
    (hother : tree.isKeywordIn id [other] = true) :
    Text.asciiLower word = Text.asciiLower other := by
  unfold isKeywordIn hits tokenHas at h hother
  cases htoken : tree.token? id with
  | none =>
      rw [htoken] at h
      cases h
  | some token =>
      rw [htoken] at h hother
      simp only [Token.hits, Bool.and_eq_true, beq_iff_eq] at h hother
      have hkeyword : token.isKeyword = true := by
        unfold Token.isKeyword
        rw [h.1]
        rfl
      rw [hkeyword] at h hother
      simp only [List.isEmpty_cons, if_true, Bool.false_or, List.any_cons, List.any_nil,
        Bool.or_false, Text.sameIgnoringCase, beq_iff_eq] at h hother
      exact h.2.symm.trans hother.2

theorem not_isKeywordIn {word other : Text} (h : tree.isKeywordIn id [word] = true)
    (hne : Text.asciiLower word ≠ Text.asciiLower other) : tree.isKeywordIn id [other] = false :=
  Bool.eq_false_iff.mpr fun hother => hne (isKeywordIn_unique h hother)

theorem not_isKeywordIn_of_isWhitespace (h : tree.isWhitespace id = true) (words : List Text) :
    tree.isKeywordIn id words = false := by
  apply Bool.eq_false_iff.mpr
  intro hword
  unfold isWhitespace tokenHas at h
  unfold isKeywordIn hits tokenHas at hword
  cases htoken : tree.token? id with
  | none =>
      rw [htoken] at h
      cases h
  | some token =>
      rw [htoken] at h hword
      dsimp only at h hword
      have hcategory : token.category = .keyword := eq_of_beq (Bool.and_eq_true_iff.mp hword).1
      rw [Token.isWhitespace, hcategory] at h
      cases h

def opensArm (tree : Tree) (id : NodeId) : Bool :=
  tree.isKeywordIn id [Text.of "WHEN"] || tree.isKeywordIn id [Text.of "ELSE"]

theorem opensArm_cases (tree : Tree) (id : NodeId) :
    tree.isKeywordIn id [Text.of "WHEN"] = true ∨ tree.isKeywordIn id [Text.of "ELSE"] = true ∨
      tree.opensArm id = false := by
  cases hopens : tree.opensArm id with
  | false =>
      exact Or.inr (Or.inr rfl)
  | true =>
      rcases Bool.or_eq_true_iff.mp hopens with hwhen | helse
      · exact Or.inl hwhen
      · exact Or.inr (Or.inl helse)

/-- Whether a child is an END, or stands behind one and is no WHEN, THEN or ELSE.  What is
known of the child in front of it is `ended`. -/
def isEnded (tree : Tree) (ended : Bool) (id : NodeId) : Bool :=
  (ended || tree.isKeywordIn id [Text.of "END"])
    && !(tree.opensArm id || tree.isKeywordIn id [Text.of "THEN"])

/-- The children without those from an END up to the next WHEN, THEN or ELSE. -/
def unended (tree : Tree) : Bool -> List NodeId -> List NodeId
  | _, [] => []
  | ended, id :: rest =>
      if tree.isEnded ended id then unended tree true rest else id :: unended tree false rest

def isPassed (tree : Tree) (skipBlank : Bool) (id : NodeId) : Bool :=
  tree.isKeywordIn id [Text.of "CASE"] || (skipBlank && tree.isWhitespace id)

/-- The children that the arms of a CASE are made of. -/
def caseBody (tree : Tree) (id : NodeId) (skipBlank : Bool) : List NodeId :=
  (tree.unended false (tree.children id)).filter fun child => !tree.isPassed skipBlank child

theorem not_isKeywordIn_of_isPassed {skipBlank : Bool} (h : tree.isPassed skipBlank id = true)
    {word : Text} (hne : Text.asciiLower (Text.of "CASE") ≠ Text.asciiLower word) :
    tree.isKeywordIn id [word] = false := by
  rcases Bool.or_eq_true_iff.mp h with hcase | hblank
  · exact not_isKeywordIn hcase hne
  · exact not_isKeywordIn_of_isWhitespace (Bool.and_eq_true_iff.mp hblank).2 _

theorem isEnded_of_isPassed {skipBlank : Bool} (h : tree.isPassed skipBlank id = true)
    (ended : Bool) : tree.isEnded ended id = ended := by
  unfold isEnded opensArm
  rw [not_isKeywordIn_of_isPassed h (by decide), not_isKeywordIn_of_isPassed h (by decide),
    not_isKeywordIn_of_isPassed h (by decide), not_isKeywordIn_of_isPassed h (by decide)]
  simp

/-!
# Arms
-/

namespace CaseArm

/-- The condition and then the value. -/
def nodes (arm : CaseArm) : List NodeId := arm.condition.getD [] ++ arm.value

/-- An arm in front of the first WHEN and the first ELSE. -/
structure Leads (tree : Tree) (arm : CaseArm) : Prop where
  condition : arm.condition ≠ none
  nonempty : arm.nodes ≠ []
  unopened : forall child, child ∈ arm.nodes -> tree.opensArm child = false

/-- An arm whose condition starts with a WHEN, or without a condition one whose value starts
with an ELSE, and that has no other of these keywords. -/
inductive Opens (tree : Tree) : CaseArm -> Prop where
  | whenArm {keyword : NodeId} {more value : List NodeId} :
      tree.isKeywordIn keyword [Text.of "WHEN"] = true ->
      (forall child, child ∈ more ++ value -> tree.opensArm child = false) ->
      Opens tree ⟨some (keyword :: more), value⟩
  | elseArm {keyword : NodeId} {more : List NodeId} :
      tree.isKeywordIn keyword [Text.of "ELSE"] = true ->
      (forall child, child ∈ more -> tree.opensArm child = false) ->
      Opens tree ⟨none, keyword :: more⟩

def GoesOn (arm : CaseArm) (part : ArmPart) : Prop :=
  part = .condition -> arm.condition ≠ none ∧ arm.value = []

variable {arm : CaseArm} {part : ArmPart} {child : NodeId}

theorem nodes_push (hdone : part ≠ .done) (hpart : arm.GoesOn part) :
    (arm.push part child).nodes = arm.nodes ++ [child] := by
  unfold nodes push
  cases part with
  | condition =>
      rw [(hpart rfl).2, List.append_nil, List.append_nil, Option.getD_some]
  | value =>
      rw [List.append_assoc]
  | done =>
      exact absurd rfl hdone

theorem goesOn_push (hpart : arm.GoesOn part) : (arm.push part child).GoesOn part := by
  rintro rfl
  exact ⟨nofun, (hpart rfl).2⟩

theorem leads_push (hcondition : arm.condition ≠ none)
    (hnodes : forall other, other ∈ arm.nodes -> tree.opensArm other = false)
    (hdone : part ≠ .done) (hpart : arm.GoesOn part) (hchild : tree.opensArm child = false) :
    (arm.push part child).Leads tree := by
  have hpush : (arm.push part child).nodes = arm.nodes ++ [child] := nodes_push hdone hpart
  constructor
  · cases part with
    | condition =>
        exact nofun
    | value =>
        exact hcondition
    | done =>
        exact absurd rfl hdone
  · rw [hpush]
    exact List.append_ne_nil_of_right_ne_nil _ (List.cons_ne_nil _ _)
  · rw [hpush]
    exact List.forall_mem_append.mpr ⟨hnodes, List.forall_mem_singleton.mpr hchild⟩

theorem Opens.push (h : arm.Opens tree) (hdone : part ≠ .done) (hpart : arm.GoesOn part)
    (hchild : tree.opensArm child = false) : (arm.push part child).Opens tree := by
  cases h with
  | @whenArm keyword more value hwhen hmore =>
      cases part with
      | condition =>
          have hempty : value = [] := (hpart rfl).2
          subst hempty
          rw [List.append_nil] at hmore
          refine Opens.whenArm hwhen ?_
          rw [List.append_nil]
          exact List.forall_mem_append.mpr ⟨hmore, List.forall_mem_singleton.mpr hchild⟩
      | value =>
          refine Opens.whenArm hwhen ?_
          rw [← List.append_assoc]
          exact List.forall_mem_append.mpr ⟨hmore, List.forall_mem_singleton.mpr hchild⟩
      | done =>
          exact absurd rfl hdone
  | elseArm helse hmore =>
      cases part with
      | condition =>
          exact absurd rfl (hpart rfl).1
      | value =>
          exact Opens.elseArm helse
            (List.forall_mem_append.mpr ⟨hmore, List.forall_mem_singleton.mpr hchild⟩)
      | done =>
          exact absurd rfl hdone

end CaseArm

/-- Arms in order: at first there may be one without a keyword. -/
def ArmsInOrder (tree : Tree) (arms : List CaseArm) : Prop :=
  exists (lead : Option CaseArm) (rest : List CaseArm), arms = lead.toList ++ rest ∧
    (forall arm, lead = some arm -> arm.Leads tree) ∧ forall arm, arm ∈ rest -> arm.Opens tree

namespace ArmsInOrder

variable {arms front : List CaseArm} {arm after : CaseArm}

theorem append (h : tree.ArmsInOrder arms) (harm : arm.Opens tree) :
    tree.ArmsInOrder (arms ++ [arm]) := by
  rcases h with ⟨lead, rest, rfl, hlead, hrest⟩
  exact ⟨lead, rest ++ [arm], List.append_assoc .., hlead,
    List.forall_mem_append.mpr ⟨hrest, List.forall_mem_singleton.mpr harm⟩⟩

theorem replace (h : tree.ArmsInOrder (front ++ [arm]))
    (hleads : arm.Leads tree -> after.Leads tree) (hopens : arm.Opens tree -> after.Opens tree) :
    tree.ArmsInOrder (front ++ [after]) := by
  rcases h with ⟨lead, rest, heq, hlead, hrest⟩
  rcases List.eq_nil_or_concat rest with rfl | ⟨others, last, rfl⟩
  · cases lead with
    | none =>
        exact absurd heq (List.append_ne_nil_of_right_ne_nil _ (List.cons_ne_nil _ _))
    | some first =>
        rw [List.append_nil] at heq
        rcases List.append_inj' (heq.trans (List.nil_append _).symm) rfl with ⟨rfl, hsame⟩
        cases hsame
        refine ⟨some after, [], rfl, ?_, nofun⟩
        intro other hother
        cases hother
        exact hleads (hlead arm rfl)
  · rw [List.concat_eq_append, ← List.append_assoc] at heq
    rcases List.append_inj' heq rfl with ⟨rfl, hsame⟩
    cases hsame
    rw [List.concat_eq_append] at hrest
    rcases List.forall_mem_append.mp hrest with ⟨hothers, hlast⟩
    exact ⟨lead, others ++ [after], List.append_assoc .., hlead, List.forall_mem_append.mpr
      ⟨hothers, List.forall_mem_singleton.mpr (hopens (List.forall_mem_singleton.mp hlast))⟩⟩

end ArmsInOrder

/-!
# One child
-/

section

variable (arms : List CaseArm) (part : ArmPart) {child : NodeId}

theorem stepCase_when (h : tree.isKeywordIn child [Text.of "WHEN"] = true) :
    tree.stepCase arms part child = (arms ++ [⟨some [child], []⟩], .condition) := by
  simp [stepCase, h, CaseArm.push, CaseArm.opened]

theorem stepCase_else (h : tree.isKeywordIn child [Text.of "ELSE"] = true) :
    tree.stepCase arms part child = (arms ++ [⟨none, [child]⟩], .value) := by
  have hwhen : tree.isKeywordIn child [Text.of "WHEN"] = false := not_isKeywordIn h (by decide)
  have hthen : tree.isKeywordIn child [Text.of "THEN"] = false := not_isKeywordIn h (by decide)
  simp [stepCase, h, hwhen, hthen, CaseArm.push]

theorem stepCase_ended (h : tree.isEnded (part == .done) child = true) :
    tree.stepCase arms part child = (arms, .done) := by
  unfold isEnded opensArm at h
  simp only [Bool.and_eq_true, Bool.not_eq_true', Bool.or_eq_false_iff] at h
  rcases h with ⟨hends, ⟨hwhen, helse⟩, hthen⟩
  have hpart : (if tree.isKeywordIn child [Text.of "END"] then (arms, ArmPart.done)
      else (arms, part)) = (arms, .done) := by
    rcases Bool.or_eq_true_iff.mp hends with hdone | hend
    · rw [beq_iff_eq.mp hdone, ite_self]
    · rw [if_pos hend]
  unfold stepCase
  rw [hwhen, helse, hthen, if_neg Bool.false_ne_true, if_neg Bool.false_ne_true,
    if_neg Bool.false_ne_true, hpart]
  dsimp only
  rw [bne_self_eq_false, Bool.false_and, if_neg Bool.false_ne_true]
  rcases List.eq_nil_or_concat arms with rfl | ⟨front, last, rfl⟩
  · rfl
  · rw [List.concat_eq_append, List.getLast?_concat, List.dropLast_concat]
    rfl

def goesTo (tree : Tree) (part : ArmPart) (child : NodeId) : ArmPart :=
  if tree.isKeywordIn child [Text.of "THEN"] then .value else part

variable {part}

theorem goesTo_ne_done (hended : tree.isEnded (part == .done) child = false)
    (hopens : tree.opensArm child = false) : tree.goesTo part child ≠ .done := by
  unfold goesTo
  split
  next =>
    exact nofun
  next hthen =>
    rintro rfl
    rw [isEnded, hopens, Bool.eq_false_iff.mpr hthen] at hended
    cases hended

theorem stepCase_goes (hended : tree.isEnded (part == .done) child = false)
    (hopens : tree.opensArm child = false) :
    tree.stepCase arms part child =
      (arms.dropLast ++ [(arms.getLast?.getD CaseArm.opened).push (tree.goesTo part child) child],
        tree.goesTo part child) := by
  have hdone := goesTo_ne_done hended hopens
  rcases Bool.or_eq_false_iff.mp hopens with ⟨hwhen, helse⟩
  have hpart : (if tree.isKeywordIn child [Text.of "THEN"] then (arms, ArmPart.value)
      else if tree.isKeywordIn child [Text.of "ELSE"] then (arms ++ [⟨none, []⟩], .value)
      else if tree.isKeywordIn child [Text.of "END"] then (arms, .done) else (arms, part)) =
      (arms, tree.goesTo part child) := by
    unfold goesTo
    split
    next =>
      rfl
    next hthen =>
      have hend : tree.isKeywordIn child [Text.of "END"] = false := by
        rw [isEnded, hopens, Bool.eq_false_iff.mpr hthen, Bool.or_self, Bool.not_false,
          Bool.and_true] at hended
        exact (Bool.or_eq_false_iff.mp hended).2
      rw [helse, hend, if_neg Bool.false_ne_true, if_neg Bool.false_ne_true]
  unfold stepCase
  rw [hwhen, if_neg Bool.false_ne_true, hpart]
  dsimp only
  rw [bne_iff_ne.mpr hdone, Bool.true_and]
  rcases List.eq_nil_or_concat arms with rfl | ⟨front, last, rfl⟩
  · rfl
  · rw [List.concat_eq_append, List.getLast?_concat, List.dropLast_concat, if_neg (by simp),
      List.getLast?_concat, List.dropLast_concat]
    rfl

theorem stepCase_done (part : ArmPart) (child : NodeId) :
    ((tree.stepCase arms part child).2 == .done) = tree.isEnded (part == .done) child := by
  cases hended : tree.isEnded (part == .done) child with
  | true =>
      rw [stepCase_ended _ _ hended]
      rfl
  | false =>
      rw [beq_eq_false_iff_ne]
      rcases tree.opensArm_cases child with hwhen | helse | hopens
      · rw [stepCase_when _ _ hwhen]
        exact nofun
      · rw [stepCase_else _ _ helse]
        exact nofun
      · rw [stepCase_goes _ hended hopens]
        exact goesTo_ne_done hended hopens

end

/-!
# All children
-/

/-- The arms and the part after the children of `body`. -/
structure ArmsRead (tree : Tree) (state : List CaseArm × ArmPart) (body : List NodeId) : Prop where
  nodes : state.1.flatMap CaseArm.nodes = body
  arranged : tree.ArmsInOrder state.1
  goesOn : (state.1.getLast?.getD CaseArm.opened).GoesOn state.2

namespace ArmsRead

variable {state : List CaseArm × ArmPart} {body : List NodeId} {child : NodeId}

theorem start (tree : Tree) : tree.ArmsRead ([], .condition) [] :=
  ⟨rfl, ⟨none, [], rfl, nofun, nofun⟩, fun _ => ⟨nofun, rfl⟩⟩

theorem ended (h : tree.ArmsRead state body)
    (hended : tree.isEnded (state.2 == .done) child = true) :
    tree.ArmsRead (tree.stepCase state.1 state.2 child) body := by
  rw [stepCase_ended _ _ hended]
  exact ⟨h.nodes, h.arranged, nofun⟩

theorem opens (h : tree.ArmsRead state body) {arm : CaseArm} {part : ArmPart}
    (harm : arm.Opens tree) (hnodes : arm.nodes = [child]) (hpart : arm.GoesOn part) :
    tree.ArmsRead (state.1 ++ [arm], part) (body ++ [child]) := by
  refine ⟨?_, h.arranged.append harm, ?_⟩
  · rw [List.flatMap_append, h.nodes, List.flatMap_singleton, hnodes]
  · rw [List.getLast?_concat]
    exact hpart

theorem goes (h : tree.ArmsRead state body)
    (hended : tree.isEnded (state.2 == .done) child = false)
    (hopens : tree.opensArm child = false) :
    tree.ArmsRead (tree.stepCase state.1 state.2 child) (body ++ [child]) := by
  rcases state with ⟨arms, part⟩
  have hdone := goesTo_ne_done hended hopens
  have hpart : (arms.getLast?.getD CaseArm.opened).GoesOn (tree.goesTo part child) := by
    intro hcondition
    unfold goesTo at hcondition
    split at hcondition
    · cases hcondition
    · exact h.goesOn hcondition
  rw [stepCase_goes _ hended hopens]
  have hnodes := h.nodes
  have harranged := h.arranged
  rcases List.eq_nil_or_concat arms with rfl | ⟨front, last, rfl⟩
  · refine ⟨?_, ⟨some _, [], rfl, ?_, nofun⟩, CaseArm.goesOn_push hpart⟩
    · rw [← hnodes]
      exact (List.flatMap_singleton ..).trans (CaseArm.nodes_push hdone hpart)
    · intro arm harm
      cases harm
      exact CaseArm.leads_push nofun nofun hdone hpart hopens
  · rw [List.concat_eq_append] at *
    rw [List.getLast?_concat, Option.getD_some] at hpart ⊢
    rw [List.dropLast_concat]
    refine ⟨?_, harranged.replace ?_ ?_, ?_⟩
    · rw [List.flatMap_append, List.flatMap_singleton] at hnodes ⊢
      rw [CaseArm.nodes_push hdone hpart, ← List.append_assoc, hnodes]
    · exact fun hleads => CaseArm.leads_push hleads.condition hleads.unopened hdone hpart hopens
    · exact fun hlast => hlast.push hdone hpart hopens
    · rw [List.getLast?_concat, Option.getD_some]
      exact CaseArm.goesOn_push hpart

theorem step (h : tree.ArmsRead state body)
    (hended : tree.isEnded (state.2 == .done) child = false) :
    tree.ArmsRead (tree.stepCase state.1 state.2 child) (body ++ [child]) := by
  rcases tree.opensArm_cases child with hwhen | helse | hopens
  · rw [stepCase_when _ _ hwhen]
    exact h.opens (.whenArm hwhen nofun) rfl fun _ => ⟨nofun, rfl⟩
  · rw [stepCase_else _ _ helse]
    exact h.opens (.elseArm helse nofun) rfl nofun
  · exact h.goes hended hopens

theorem foldl (skipBlank : Bool) :
    forall (children : List NodeId) {state : List CaseArm × ArmPart} {body : List NodeId},
      tree.ArmsRead state body ->
      tree.ArmsRead
        (children.foldl (fun state child => if tree.isPassed skipBlank child then state
          else tree.stepCase state.1 state.2 child) state)
        (body ++ (tree.unended (state.2 == .done) children).filter
          fun child => !tree.isPassed skipBlank child)
  | [], _, _, h => by
      rw [unended, List.filter_nil, List.append_nil]
      exact h
  | child :: rest, state, body, h => by
      rw [List.foldl_cons]
      cases hpassed : tree.isPassed skipBlank child with
      | true =>
          rw [if_pos rfl]
          have hsame := isEnded_of_isPassed hpassed (state.2 == .done)
          have hrest := foldl skipBlank rest h
          unfold unended
          rw [hsame]
          cases hended : state.2 == .done with
          | true =>
              rw [hended] at hrest
              rw [if_pos rfl]
              exact hrest
          | false =>
              rw [hended] at hrest
              rw [if_neg Bool.false_ne_true, List.filter_cons_of_neg (by rw [hpassed]; exact nofun)]
              exact hrest
      | false =>
          rw [if_neg Bool.false_ne_true]
          unfold unended
          cases hended : tree.isEnded (state.2 == .done) child with
          | true =>
              have hrest := foldl skipBlank rest (h.ended hended)
              rw [stepCase_done, hended] at hrest
              rw [if_pos rfl]
              exact hrest
          | false =>
              have hrest := foldl skipBlank rest (h.step hended)
              rw [stepCase_done, hended] at hrest
              rw [if_neg Bool.false_ne_true, List.filter_cons_of_pos (by rw [hpassed]; rfl),
                List.append_cons]
              exact hrest

end ArmsRead

/-- The arms of a CASE hold the children of the group, in order, without the CASE keyword,
without the blanks if asked, and without what an END takes away.  Each arm starts with its
keyword, a first one in front of every WHEN and ELSE apart. -/
theorem cases_partition (tree : Tree) (id : NodeId) (skipBlank : Bool) :
    (tree.cases id skipBlank).flatMap CaseArm.nodes = tree.caseBody id skipBlank ∧
      tree.ArmsInOrder (tree.cases id skipBlank) := by
  have h := ArmsRead.foldl skipBlank (tree.children id) (ArmsRead.start tree)
  exact ⟨h.nodes, h.arranged⟩

end Tree
end SqlLayout
