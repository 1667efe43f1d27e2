import SqlLayout.Proofs.Grouping.Surveys
import SqlLayout.Proofs.Tree.Rose

/-!
# What a pass needs in order to act

A pass acts in a list only if some child of the list is of a sort that the pass
looks for: a token, or a group of some kind.
-/

namespace SqlLayout

/-- Sorts of tokens and of groups. -/
structure Trigger where
  token : Token -> Bool := fun _ => false
  kind : GroupKind -> Bool := fun _ => false

namespace Trigger

def fires (trigger : Trigger) (tree : Tree) (id : NodeId) : Bool :=
  tree.tokenHas id trigger.token || (tree.kind? id).any trigger.kind

end Trigger

/-- A rose that holds nothing of some sorts. -/
inductive Rose.Lacks (trigger : Trigger) : Rose -> Prop where
  | token {token : Token} : trigger.token token = false -> Lacks trigger (.token token)
  | group {kind : GroupKind} {children : List Rose} : trigger.kind kind = false ->
      (forall child, child ∈ children -> Lacks trigger child) ->
      Lacks trigger (.group kind children)

namespace Rose

variable {trigger : Trigger}

theorem lacks_group_iff {kind : GroupKind} {children : List Rose} :
    Lacks trigger (.group kind children) <->
      trigger.kind kind = false ∧ forall child, child ∈ children -> Lacks trigger child := by
  constructor
  · intro h
    cases h with
    | group hkind hchildren =>
        exact ⟨hkind, hchildren⟩
  · intro h
    exact Lacks.group h.1 h.2

end Rose

/-!
# The triggers of the passes
-/

namespace Survey

def Needs (survey : Survey) (trigger : Trigger) : Prop :=
  forall tree list idx, survey.acts tree list idx = true ->
    exists id, id ∈ tree.children list ∧ trigger.fires tree id = true

def openingTrigger (kind : GroupKind) : Trigger where
  token := fun token => kind.opening?.any token.hits

def triggers : List (Survey × Trigger) :=
  [(ofSeeker .comments (some .comment) .comment,
      { token := fun token => token.category.isA .comment }),
   (ofPairs .squareBrackets, openingTrigger .squareBrackets),
   (ofPairs .parenthesis, openingTrigger .parenthesis),
   (ofSeeker .functions (some .function) .call, { kind := (· == .parenthesis) }),
   (ofSeeker .whereClauses (some .whereClause) .whereWord, openingTrigger .whereClause),
   (ofPairs .caseBlock, openingTrigger .caseBlock),
   (ofRule .period, { token := fun token => token.isPunctuationIn [['.']] }),
   (ofRule .subscript, { kind := (· == .squareBrackets) }),
   (ofSeeker .identifiers (some .identifier) .name,
      { token := fun token => token.category == .name || token.category == .doubleQuoted }),
   (ofSeeker .typedLiterals (some .typedLiteral) .typeWord,
      { token := fun token => Pass.literalTypes.any fun word => Pass.isTypeWord word token }),
   (ofRule .operator,
      { token := fun token => token.category == .operator || token.category == .wildcard }),
   (ofSeeker .orderings (some .identifier) .ordering,
      { token := fun token => token.category == .order }),
   (ofRule .typecast, { token := fun token => token.isPunctuationIn [[':', ':']] }),
   (ofRule .aliasWithAs,
      { token := fun token => token.isKeyword && token.normalized == Text.of "AS" }),
   (ofSeeker .aliases (some .identifier) .aliased, { kind := (· == .identifier) }),
   (ofRule .assignment, { token := fun token => token.hits ⟨.assignment, [[':', '=']]⟩ }),
   (ofRule .comparison, { token := fun token => token.category == .comparison }),
   (ofSeeker .trailingComments none .trailingComment, { kind := (· == .comment) }),
   (ofRule .identifierList, { token := fun token => token.isPunctuationIn [[',']] }),
   (ofPairs .ifBlock, openingTrigger .ifBlock),
   (ofPairs .forBlock, openingTrigger .forBlock),
   (ofPairs .beginBlock, openingTrigger .beginBlock)]

theorem triggers_map_fst : triggers.map Prod.fst = all := rfl

end Survey

namespace Trigger

variable {trigger : Trigger} {tree : Tree} {id : NodeId}

theorem fires_of_tokenHas {p : Token -> Bool} (h : tree.tokenHas id p = true)
    (hp : forall token, p token = true -> trigger.token token = true) :
    trigger.fires tree id = true := by
  rcases Tree.tokenHas_iff.mp h with ⟨token, htoken, hhas⟩
  simp [fires, Tree.tokenHas, htoken, hp token hhas]

theorem fires_of_isCategory {category : Category} (h : tree.isCategory id category = true)
    (hp : forall token, token.category = category -> trigger.token token = true) :
    trigger.fires tree id = true := by
  rcases Tree.isCategory_iff.mp h with ⟨token, htoken, hcategory⟩
  simp [fires, Tree.tokenHas, htoken, hp token hcategory]

theorem fires_of_isKind {kind : GroupKind} (h : tree.isKind id kind = true)
    (hp : trigger.kind kind = true) : trigger.fires tree id = true := by
  have hkind : tree.kind? id = some kind := beq_iff_eq.mp h
  simp [fires, hkind, hp]

end Trigger

namespace Survey

variable {tree : Tree} {list : NodeId} {idx : Nat}

theorem exists_of_seeker_acts {pass : Pass} {closed : Option GroupKind} {seeker : Seeker}
    (h : (ofSeeker pass closed seeker).acts tree list idx = true) :
    exists id span, tree.child? list idx = some id ∧ seeker.accepts tree id = true ∧
      seeker.span? tree list idx id = some span := by
  have hacts : seeker.acts tree list idx = true := (Bool.and_eq_true_iff.mp h).2
  unfold Seeker.acts at hacts
  split at hacts
  · rename_i id hchild
    rcases Bool.and_eq_true_iff.mp hacts with ⟨haccepts, hspan⟩
    rcases Option.isSome_iff_exists.mp hspan with ⟨span, hsome⟩
    exact ⟨id, span, hchild, haccepts, hsome⟩
  · cases hacts

theorem needs_of_accepts {pass : Pass} {closed : Option GroupKind} {seeker : Seeker}
    {trigger : Trigger}
    (h : forall tree id, seeker.accepts tree id = true -> trigger.fires tree id = true) :
    (ofSeeker pass closed seeker).Needs trigger := by
  intro tree list idx hacts
  rcases exists_of_seeker_acts hacts with ⟨id, _, hchild, haccepts, _⟩
  exact ⟨id, List.mem_of_getElem? hchild, h tree id haccepts⟩

theorem needs_of_span {pass : Pass} {closed : Option GroupKind} {seeker : Seeker}
    {trigger : Trigger}
    (h : forall tree list idx id span, tree.child? list idx = some id ->
      seeker.span? tree list idx id = some span ->
      exists other, other ∈ tree.children list ∧ trigger.fires tree other = true) :
    (ofSeeker pass closed seeker).Needs trigger := by
  intro tree list idx hacts
  rcases exists_of_seeker_acts hacts with ⟨id, span, hchild, _, hspan⟩
  exact h tree list idx id span hchild hspan

theorem needs_of_isOp {rule : BinaryRule} {trigger : Trigger}
    (h : forall tree id, rule.isOp tree id = true -> trigger.fires tree id = true) :
    (ofRule rule).Needs trigger := by
  intro tree list idx hacts
  change rule.acts tree list idx = true at hacts
  unfold BinaryRule.acts at hacts
  split at hacts
  · rename_i id hchild
    rw [Bool.and_eq_true, Bool.and_eq_true] at hacts
    exact ⟨id, List.mem_of_getElem? hchild, h tree id hacts.1.2⟩
  · cases hacts

theorem pairs_needs (kind : GroupKind) : (ofPairs kind).Needs (openingTrigger kind) := by
  intro tree list idx hacts
  unfold ofPairs at hacts
  dsimp only at hacts
  split at hacts
  · rename_i opening closing hopening _
    unfold Tree.closesPair at hacts
    split at hacts
    · rcases List.any_eq_true.mp (Bool.and_eq_true_iff.mp hacts).2 with ⟨id, hmem, hopens⟩
      refine ⟨id, List.mem_of_mem_take hmem, ?_⟩
      apply Trigger.fires_of_tokenHas (Bool.and_eq_true_iff.mp hopens).2
      intro token hhits
      rw [openingTrigger, hopening]
      exact hhits
    · cases hacts
  · cases hacts

theorem call_needs :
    (ofSeeker .functions (some .function) .call).Needs { kind := (· == .parenthesis) } := by
  apply needs_of_span
  intro tree list idx id span _ hspan
  rcases Seeker.call_span hspan with ⟨parens, other, hnext, hkind, _⟩
  exact ⟨other, List.mem_of_getElem? (Tree.next_some hnext).2.1,
    Trigger.fires_of_isKind hkind rfl⟩

theorem name_needs :
    (ofSeeker .identifiers (some .identifier) .name).Needs
      { token := fun token => token.category == .name || token.category == .doubleQuoted } := by
  apply needs_of_span
  intro tree list idx id span hchild hspan
  refine ⟨id, List.mem_of_getElem? hchild, ?_⟩
  rcases Seeker.name_span hspan with ⟨hname, _⟩
  rcases Bool.or_eq_true_iff.mp hname with hname | hquoted
  · exact Trigger.fires_of_isCategory hname fun token h => by simp [h]
  · exact Trigger.fires_of_isCategory hquoted fun token h => by simp [h]

theorem typeWord_needs :
    (ofSeeker .typedLiterals (some .typedLiteral) .typeWord).Needs
      { token := fun token =>
          Pass.literalTypes.any fun word => Pass.isTypeWord word token } := by
  apply needs_of_span
  intro tree list idx id span hchild hspan
  refine ⟨id, List.mem_of_getElem? hchild, ?_⟩
  rcases Option.map_eq_some_iff.mp hspan with ⟨stop, hstop, _⟩
  unfold Pass.typedLiteralEnd? at hstop
  split at hstop
  · rename_i hword
    exact Trigger.fires_of_tokenHas hword fun _ h => h
  · cases hstop

theorem aliased_needs :
    (ofSeeker .aliases (some .identifier) .aliased).Needs { kind := (· == .identifier) } := by
  apply needs_of_span
  intro tree list idx id span _ hspan
  rcases Seeker.aliased_span hspan with ⟨name, other, hnext, hkind, _⟩
  exact ⟨other, List.mem_of_getElem? (Tree.next_some hnext).2.1,
    Trigger.fires_of_isKind hkind rfl⟩

theorem triggers_needs : forall pair, pair ∈ triggers -> pair.1.Needs pair.2 := by
  intro pair hpair
  unfold triggers at hpair
  simp only [List.mem_cons, List.not_mem_nil, or_false] at hpair
  rcases hpair with rfl | rfl | rfl | rfl | rfl | rfl | rfl | rfl | rfl | rfl | rfl | rfl |
    rfl | rfl | rfl | rfl | rfl | rfl | rfl | rfl | rfl | rfl
  · exact needs_of_accepts fun _ _ h => Trigger.fires_of_tokenHas h fun _ h => h
  · exact pairs_needs _
  · exact pairs_needs _
  · exact call_needs
  · exact needs_of_accepts fun _ _ h => Trigger.fires_of_tokenHas h fun _ h => h
  · exact pairs_needs _
  · exact needs_of_isOp fun _ _ h => Trigger.fires_of_tokenHas h fun _ h => h
  · exact needs_of_isOp fun _ _ h => Trigger.fires_of_isKind h rfl
  · exact name_needs
  · exact typeWord_needs
  · apply needs_of_isOp
    intro tree id h
    rcases Bool.or_eq_true_iff.mp h with hoperator | hwildcard
    · exact Trigger.fires_of_isCategory hoperator fun token h => by simp [h]
    · exact Trigger.fires_of_isCategory hwildcard fun token h => by simp [h]
  · exact needs_of_accepts fun _ _ h => Trigger.fires_of_isCategory h fun token h => by simp [h]
  · exact needs_of_isOp fun _ _ h => Trigger.fires_of_tokenHas h fun _ h => h
  · apply needs_of_isOp
    intro tree id h
    rcases Bool.and_eq_true_iff.mp h with ⟨hkeyword, hword⟩
    rcases Tree.tokenHas_iff.mp hkeyword with ⟨token, htoken, hword'⟩
    unfold Tree.normalized at hword
    rw [htoken] at hword
    simp [Trigger.fires, Tree.tokenHas, htoken, hword', hword]
  · exact aliased_needs
  · exact needs_of_isOp fun _ _ h => Trigger.fires_of_tokenHas h fun _ h => h
  · exact needs_of_isOp fun _ _ h => Trigger.fires_of_isCategory h fun token h => by simp [h]
  · exact needs_of_accepts fun _ _ h => Trigger.fires_of_isKind h rfl
  · exact needs_of_isOp fun _ _ h => Trigger.fires_of_tokenHas h fun _ h => h
  · exact pairs_needs _
  · exact pairs_needs _
  · exact pairs_needs _

end Survey
end SqlLayout
