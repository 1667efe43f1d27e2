import SqlLayout.Proofs.Grouping.Layers

/-!
# From operations to lists

The passes that join what stands in a list: orderings, casts, aliases,
assignments, comparisons, comments behind a group, and lists.  None of them finds
anything in an operand; the layers around the operands are as many as these passes
can make of any list.
-/

namespace SqlLayout

open Grouping Tree

namespace Rose

/-- What the operations leave in a list: comments, names, which may grow, and
other operands. -/
inductive Settled (room : Nat) : Rose -> Prop where
  | comment {rose : Rose} : rose.IsComment -> Settled room rose
  | name {children : List Rose} :
      (forall child, child ∈ children -> exists t, child = .token t ∧ t.relates = false) ->
      Settled room (.group .identifier children)
  | operand {kind : GroupKind} {children : List Rose} : Operand (.group kind children) ->
      kind ≠ .identifier -> Nests (fun _ => false) room (.group kind children) ->
      Settled room (.group kind children)

variable {room n : Nat} {rose : Rose} {kind : GroupKind} {children : List Rose}
  {kinds : GroupKind -> Bool}

theorem Operand.relates_of_identifier (h : Operand (.group .identifier children)) :
    forall child, child ∈ children -> exists t, child = Rose.token t ∧ t.relates = false := by
  cases h with
  | name hname =>
      rcases hname with ⟨_, heq, htokens, _⟩
      cases heq
      intro child hchild
      rcases htokens child hchild with ⟨t, rfl, hsimple⟩
      refine ⟨t, rfl, Token.relates_of_joins ?_⟩
      unfold Token.joins
      rw [hsimple]
      rfl
  | literal hliteral =>
      rcases hliteral with ⟨_, _, heq, _⟩
      cases heq

theorem Item.layered (h : Item (fun _ => True) Operand rose)
    (hnests : Nests (fun _ => false) room rose) : Layered (Settled room) kinds 0 rose := by
  cases h with
  | token _ =>
      exact Layered.token
  | comment hcomment =>
      exact Layered.base (Settled.comment hcomment)
  | operand hoperand =>
      cases rose with
      | token t =>
          exact Layered.token
      | group kind children =>
          apply Layered.base
          by_cases hkind : kind = .identifier
          · subst hkind
            exact Settled.name hoperand.relates_of_identifier
          · exact Settled.operand hoperand hkind hnests

theorem Settled.nests (hroom : 1 <= room) (rose : Rose) (h : Settled room rose) :
    Nests (fun _ => false) room rose := by
  cases h with
  | comment hcomment =>
      exact hcomment.nests.mono hroom
  | name hchildren =>
      refine (nests_of_tokens ?_).mono hroom
      intro child hchild
      rcases hchildren child hchild with ⟨t, rfl, _⟩
      exact ⟨t, rfl⟩
  | operand _ _ hnests =>
      exact hnests

theorem Settled.kind_of_group (h : Settled room (.group kind children)) :
    kind ∈ [GroupKind.comment, .identifier, .typedLiteral, .operation] := by
  cases h with
  | comment hcomment =>
      rcases hcomment with ⟨_, heq, _⟩
      cases heq
      decide
  | name _ =>
      decide
  | operand hoperand _ _ =>
      rcases hoperand.kind_of_group with rfl | rfl | rfl
      · decide
      · decide
      · decide

theorem Settled.isComment (h : Settled room (.group .comment children)) :
    (Rose.group .comment children).IsComment := by
  cases h with
  | comment hcomment =>
      exact hcomment
  | operand hoperand _ _ =>
      rcases hoperand.kind_of_group with heq | heq | heq
      · cases heq
      · cases heq
      · cases heq

/-!
# Passes that find nothing
-/

theorem Settled.lacks (h : Settled room rose) : rose.Lacks { token := Token.relates } := by
  cases h with
  | comment hcomment =>
      exact hcomment.lacks
  | name hchildren =>
      apply Lacks.group rfl
      intro child hchild
      rcases hchildren child hchild with ⟨t, rfl, ht⟩
      exact Lacks.token ht
  | operand hoperand _ _ =>
      exact hoperand.lacks_relates

theorem Settled.rests (pair : Survey × Trigger) (hpair : pair ∈ Survey.triggers.tail)
    (hname : forall children : List Rose,
      (forall child, child ∈ children -> exists t, child = Rose.token t) ->
      (Rose.group .identifier children).Rests pair.1)
    (hoperand : forall rose, Operand rose -> rose.Rests pair.1) (rose : Rose)
    (h : Settled room rose) : rose.Rests pair.1 := by
  cases h with
  | comment hcomment =>
      exact hcomment.rests hpair
  | name hchildren =>
      apply hname
      intro child hchild
      rcases hchildren child hchild with ⟨t, rfl, _⟩
      exact ⟨t, rfl⟩
  | operand h _ _ =>
      exact hoperand _ h

theorem Settled.tokens_of_identifier (h : Settled room (.group .identifier children)) :
    forall child, child ∈ children -> exists t, child = Rose.token t ∧ t.relates = false := by
  cases h with
  | comment hcomment =>
      rcases hcomment with ⟨_, heq, _⟩
      cases heq
  | name hchildren =>
      exact hchildren
  | operand _ hne _ =>
      exact absurd rfl hne

theorem Settled.layered_of_identifier (children : List Rose)
    (h : Settled room (.group .identifier children)) :
    forall child, child ∈ children -> Layered (Settled room) kinds n child := by
  intro child hchild
  rcases h.tokens_of_identifier child hchild with ⟨t, rfl, _⟩
  exact Layered.token

theorem Settled.merged {first group : Rose} {rest : List Rose}
    (hfirst : Layered (Settled room) (· == .identifier) 0 first)
    (hhost : (exists inner, first = .group .identifier inner) ∨
      exists t, first = Rose.token t ∧ t.relates = false)
    (hrest : forall child, child ∈ rest -> exists t, child = Rose.token t ∧ t.relates = false)
    (h : Merged .identifier true first rest group) : Settled room group := by
  cases h with
  | wrapped hother =>
      apply Settled.name
      intro child hmem
      rcases List.mem_cons.mp hmem with rfl | hmem
      · rcases hhost with ⟨inner, heq⟩ | htoken
        · exact absurd heq (hother rfl inner)
        · exact htoken
      · exact hrest child hmem
  | absorbed _ heq =>
      subst heq
      apply Settled.name
      intro child hmem
      rcases List.mem_append.mp hmem with hmem | hmem
      · cases hfirst with
        | base h =>
            exact h.tokens_of_identifier child hmem
      · exact hrest child hmem

/-!
# Groups with comments behind them
-/

/-- What comments leave of a group that takes them in. -/
structure Hosted (room : Nat) (rose : Rose) : Prop where
  lacks : rose.Lacks { token := Token.relates }
  nests : Nests (fun _ => false) room rose
  other : forall children, rose ≠ .group .identifierList children

theorem Settled.hosted (hroom : 1 <= room) (rose : Rose) (h : Settled room rose) :
    Hosted room rose where
  lacks := h.lacks
  nests := h.nests hroom
  other := by
    rintro children rfl
    exact absurd h.kind_of_group (by decide)

theorem Layered.hosts {inner rest : List Rose} (hroom : 2 <= room)
    (h : Layered (Hosted room) kinds n (.group kind inner))
    (hrest : forall rose, rose ∈ rest -> rose.isBlank = true ∨ rose.IsComment) :
    Layered (Hosted room) kinds n (.group kind (inner ++ rest)) := by
  have hone : 1 <= room := Nat.le_of_succ_le hroom
  cases h with
  | base hhosted =>
      apply Layered.base
      refine ⟨?_, ?_, ?_⟩
      · rcases lacks_group_iff.mp hhosted.lacks with ⟨hkind, hchildren⟩
        apply Lacks.group hkind
        intro child hchild
        rcases List.mem_append.mp hchild with hmem | hmem
        · exact hchildren child hmem
        · rcases hrest child hmem with hblank | hcomment
          · rcases exists_of_isBlank hblank with ⟨t, rfl, ht⟩
            exact Lacks.token (Token.relates_of_isWhitespace ht)
          · exact hcomment.lacks
      · have hnests := hhosted.nests
        cases hnests with
        | free hfree _ =>
            cases hfree
        | group hall =>
            apply Nests.group
            intro child hchild
            rcases List.mem_append.mp hchild with hmem | hmem
            · exact hall child hmem
            · rcases hrest child hmem with hblank | hcomment
              · rcases exists_of_isBlank hblank with ⟨t, rfl, _⟩
                exact Nests.token
              · exact hcomment.nests.mono (Nat.le_of_succ_le_succ hroom)
      · rintro children heq
        cases heq
        exact hhosted.other inner rfl
  | group hkind hall =>
      apply Layered.group hkind
      intro child hchild
      rcases List.mem_append.mp hchild with hmem | hmem
      · exact hall child hmem
      · rcases hrest child hmem with hblank | hcomment
        · exact layered_of_isBlank hblank
        · exact Layered.base (Settled.hosted hone child (Settled.comment hcomment))

end Rose

namespace Pass

open Rose

variable {limit n room : Nat}

/-!
# Orderings, casts and aliases
-/

theorem orderings_lead (hone : 1 <= room) (hroom : room < limit) :
    Lead limit (Layered (Settled room) (· == .identifier) 0)
      (Layered (Settled room) (· == .identifier) 0) [Pass.orderings] := by
  have hregular : Survey.orderings.Regular :=
    Survey.regular_ofSeeker Seeker.orderings_plan (fun _ _ => rfl) (fun _ _ => rfl)
      (List.mem_of_getElem? (i := 11) rfl)
  refine lead_of_rests hregular ?_ (0 + room) (fun rose h => h.nests (Settled.nests hone))
    (by rwa [Nat.zero_add]) ?_
  · intro rose h
    refine h.rests_of_closed ?_ ?_
    · intro kind hkind
      rw [beq_iff_eq.mp hkind]
      rfl
    · exact Settled.rests (Survey.orderings, _) (List.mem_of_getElem? (i := 10) rfl)
        (fun _ _ => Rests.closed rfl) fun rose h => h.rests_orderings
  · intro tree after list hwf hstands hwalk
    refine Seeker.walks_done Seeker.orderings_plan hregular.sound 0 ?_ (fun _ h => h) ?_ hwf
      hstands.1 hstands.2 hwalk
    · intro tree list idx id span next hspan
      rcases Seeker.ordering_span hspan with ⟨_, _, _, _, rfl, rfl⟩
      rfl
    · intro tree place hit id span next front first rest back group hwf hchild haccepts hspan hroses
        hfront hrest _ hwalked hmerged
      rcases Seeker.ordering_span hspan with ⟨prev, other, hprev, hhost, rfl, rfl⟩
      dsimp only at hfront hrest hmerged
      subst hfront
      have hfirst := rose_of_span_start hroses (prev_some hprev).2.1
      apply Layered.base
      refine Settled.merged ?_ ?_ ?_ hmerged
      · apply hwalked.all fun _ h => h
        rw [hroses]
        simp
      · rw [hfirst]
        rcases Bool.or_eq_true_iff.mp hhost with hkind | hnumber
        · exact Or.inl ⟨_, hwf.rose_of_isKind hkind⟩
        · right
          rcases rose_of_tokenHas hnumber with ⟨t, hrose, hp⟩
          refine ⟨t, hrose, Token.relates_eq_false_of_category ?_ ?_ ?_⟩
          all_goals
            intro heq
            rw [heq] at hp
            revert hp
            decide
      · intro child hmem
        rcases mem_rest_of_prev hwf hroses hprev hrest hchild hmem with hblank | heq
        · rcases exists_of_isBlank hblank with ⟨t, rfl, ht⟩
          exact ⟨t, rfl, Token.relates_of_isWhitespace ht⟩
        · rcases rose_of_isCategory haccepts with ⟨t, hrose, hcategory⟩
          refine ⟨t, heq.trans hrose, Token.relates_eq_false_of_category ?_ ?_ ?_⟩
          all_goals
            rw [hcategory]
            decide

theorem typecast_lead (hone : 1 <= room) (hroom : n + room < limit) :
    Lead limit (Layered (Settled room) (· == .identifier) n)
      (Layered (Settled room) (· == .identifier) (n + 1)) [Pass.binary .typecast] := by
  refine Survey.lead_of_closed (List.mem_of_getElem? (i := 12) rfl)
    ⟨BinaryRule.typecast_sound, rfl, fun h => by cases h⟩ ?_ Settled.layered_of_identifier
    (Settled.nests hone) hroom
  exact Settled.rests (Survey.ofRule .typecast, _) (List.mem_of_getElem? (i := 11) rfl)
    (fun _ _ => Rests.closed rfl) fun rose h => h.rests_typecast

theorem aliasWithAs_lead (hone : 1 <= room) (hroom : n + room < limit) :
    Lead limit (Layered (Settled room) (· == .identifier) n)
      (Layered (Settled room) (· == .identifier) (n + 1)) [Pass.binary .aliasWithAs] := by
  refine Survey.lead_of_closed (List.mem_of_getElem? (i := 13) rfl)
    ⟨BinaryRule.fromPrevToNext_sound rfl, rfl, fun h => by cases h⟩ ?_
    Settled.layered_of_identifier (Settled.nests hone) hroom
  exact Settled.rests (Survey.ofRule .aliasWithAs, _) (List.mem_of_getElem? (i := 12) rfl)
    (fun _ _ => Rests.closed rfl) fun rose h => h.rests_aliasWithAs

theorem aliases_lead (hone : 1 <= room) (hroom : n + room < limit) :
    Lead limit (Layered (Settled room) (· == .identifier) n)
      (Layered (Settled room) (· == .identifier) (n + 1)) [Pass.aliases] := by
  have hregular : Survey.aliases.Regular :=
    Survey.regular_ofSeeker Seeker.aliases_plan (fun _ _ => rfl) (fun _ _ => rfl)
      (List.mem_of_getElem? (i := 14) rfl)
  refine lead_of_rests hregular ?_ (n + room) (fun rose h => h.nests (Settled.nests hone)) hroom ?_
  · intro rose h
    refine h.rests_of_closed ?_ ?_
    · intro kind hkind
      rw [beq_iff_eq.mp hkind]
      rfl
    · exact Settled.rests (Survey.aliases, _) (List.mem_of_getElem? (i := 13) rfl)
        (fun _ _ => Rests.closed rfl) fun rose h => h.rests_aliases
  · intro tree after list hwf hstands hwalk
    have hsub : forall rose, Layered (Settled room) (· == .identifier) n rose ->
        Grown (Settled room) (· == .identifier) n .identifier rose :=
      fun _ h => Or.inl h
    have hdone : exists roses, after.rose list = .group .statement roses ∧ forall rose,
        rose ∈ roses -> Grown (Settled room) (· == .identifier) n .identifier rose := by
      refine Seeker.walks_done Seeker.aliases_plan hregular.sound 1 ?_ hsub ?_ hwf hstands.1
        hstands.2 hwalk
      · intro tree list idx id span next hspan
        rcases Seeker.aliased_span hspan with ⟨_, _, _, _, rfl, rfl⟩
        rfl
      · intro tree place hit id span next front first rest back group hwf hchild _ hspan hroses
          hfront hrest hplace hwalked hmerged
        rcases Seeker.aliased_span hspan with ⟨_, _, _, _, rfl, rfl⟩
        dsimp only at hfront hrest hmerged
        refine Grown.merged Settled.layered_of_identifier ?_ ?_ (fun h => by cases h) hmerged
        · apply hwalked.all hsub
          rw [hroses]
          simp
        · intro rose hmem
          rcases exists_child_of_mem_rest hroses hmem with ⟨idx, below, hlt, _, hbelow, rfl⟩
          exact hwalked.todo idx _ (getElem?_roses hbelow) (by omega)
    rcases hdone with ⟨roses, heq, hall⟩
    exact ⟨roses, heq, fun rose hrose => (hall rose hrose).layered rfl⟩

/-!
# Assignments, comparisons and lists
-/

theorem isComparisonOperand_not_comparison (tree : Tree) (id : NodeId)
    (h : BinaryRule.isComparisonOperand tree id = true) : tree.isKind id .comparison = false := by
  apply Bool.eq_false_iff.mpr
  intro hkind
  have hgroup : tree.isGroup id = true := isGroup_iff_kind?.mpr ⟨_, beq_iff_eq.mp hkind⟩
  unfold BinaryRule.isComparisonOperand isAIn isKeywordIn hits isKindIn at h
  rw [tokenHas_of_isGroup hgroup, tokenHas_of_isGroup hgroup, beq_iff_eq.mp hkind] at h
  revert h
  decide

theorem assignment_lead (hone : 1 <= room) (hroom : n + room < limit) :
    Lead limit (Layered (Settled room) (· != .comment) n)
      (Layered (Settled room) (· != .comment) (2 * n + 1)) [Pass.binary .assignment] := by
  refine Survey.lead_of_joins (List.mem_of_getElem? (i := 15) rfl)
    ⟨BinaryRule.assignment_sound, rfl, fun h => by cases h⟩ rfl ?_ ?_ (Settled.nests hone) hroom
  · exact fun rose h => (Survey.relates_needs (by simp)).rests h.lacks
  · rintro kind children h rfl
    exact absurd h.kind_of_group (by decide)

theorem comparison_lead (hone : 1 <= room) (hroom : n + room < limit) :
    Lead limit (Layered (Settled room) (· != .comment) n)
      (Layered (Settled room) (· != .comment) (2 * n + 1)) [Pass.binary .comparison] := by
  refine Survey.lead_of_joins (List.mem_of_getElem? (i := 16) rfl)
    ⟨BinaryRule.fromPrevToNext_sound rfl, rfl, fun _ => isComparisonOperand_not_comparison⟩ rfl ?_
    ?_ (Settled.nests hone) hroom
  · exact fun rose h => (Survey.relates_needs (by simp)).rests h.lacks
  · rintro kind children h rfl
    exact absurd h.kind_of_group (by decide)

theorem identifierList_lead (hroom : n + room < limit) :
    Lead limit (Layered (Hosted room) (· != .comment) n)
      (Layered (Hosted room) (· != .comment) (2 * n + 1)) [Pass.binary .identifierList] := by
  refine Survey.lead_of_joins (List.mem_of_getElem? (i := 18) rfl)
    ⟨BinaryRule.fromPrevToNext_sound rfl, rfl, fun h => by cases h⟩ rfl ?_ ?_
    (fun _ h => h.nests) hroom
  · exact fun rose h => (Survey.relates_needs (by simp)).rests h.lacks
  · rintro kind children h rfl
    exact h.other children rfl

/-!
# Comments behind a group
-/

theorem rose_of_commentHost? {tree : Tree} (hwf : tree.WellFormed) {id : NodeId}
    {kind : GroupKind} (h : commentHost? tree id = some kind) :
    exists inner, tree.rose id = .group kind inner := by
  unfold commentHost? at h
  split at h
  · rename_i found hfound
    split at h
    · cases h
    · cases h
      exact ⟨_, hwf.rose_of_kind? hfound⟩
  · cases h

theorem trailingComments_prepares (hone : 1 <= room) :
    Survey.trailingComments.Prepares (Settled room) (Hosted room) (· != .comment) id
      fun n rose => Layered (Hosted room) (· != .comment) n rose ∧
        forall children, rose = .group .comment children -> rose.IsComment where
  rests := by
    refine Settled.rests (Survey.trailingComments, _) (List.mem_of_getElem? (i := 16) rfl) ?_
      fun rose h => h.rests_trailingComments
    intro children htokens
    apply (Survey.triggers_needs (Survey.trailingComments, _)
      (List.mem_of_getElem? (i := 17) rfl)).rests_of_tokens
    intro child hchild
    rcases htokens child hchild with ⟨t, rfl⟩
    exact ⟨t, rfl, rfl⟩
  widen := fun _ _ h => h.widen (Settled.hosted hone) fun _ h => h
  same := by
    intro n rose h
    refine ⟨h.widen (Settled.hosted hone) fun _ h => h, ?_⟩
    rintro children rfl
    cases h with
    | base hsettled =>
        exact hsettled.isComment
    | group hkind _ =>
        cases hkind
  group := by
    intro n kind children hkind hall
    refine ⟨Layered.group hkind hall, ?_⟩
    rintro _ ⟨rfl, rfl⟩
    cases hkind

theorem trailingComments_lead (htwo : 2 <= room) (hroom : n + room < limit) :
    Lead limit (Layered (Settled room) (· != .comment) n)
      (Layered (Hosted room) (· != .comment) n) [Pass.trailingComments] := by
  have hone : 1 <= room := Nat.le_of_succ_le htwo
  have hregular : Survey.trailingComments.Regular :=
    Survey.regular_ofSeeker Seeker.trailingComments_plan (fun _ _ => rfl) (fun _ _ => rfl)
      (List.mem_of_getElem? (i := 17) rfl)
  refine hregular.lead_layers (trailingComments_prepares hone) ?_ (Settled.nests hone) hroom
  intro n tree after list kind hwf hlist hroses hwalk
  refine Seeker.walks_done Seeker.trailingComments_plan hregular.sound 0 ?_ (fun _ h => h.1) ?_ hwf
    hlist hroses hwalk
  · intro tree list idx id span next hspan
    rcases Seeker.trailingComment_span hspan with ⟨prev, other, kind, _, _, rfl, rfl⟩
    rfl
  · intro tree place hit id span next front first rest back group hwf hchild haccepts hspan hroses
      hfront hrest hplace hwalked hmerged
    rcases Seeker.trailingComment_span hspan with ⟨prev, other, kind, hprev, hhost, rfl, _⟩
    dsimp only at hfront hrest hmerged
    subst hfront
    rcases rose_of_commentHost? hwf hhost with ⟨inner, hinner⟩
    have hfirst := (rose_of_span_start hroses (prev_some hprev).2.1).trans hinner
    have hdone := hwalked.all (fun _ h => h.1) first (by
      rw [hroses]
      simp)
    have htail : forall rose, rose ∈ rest -> rose.isBlank = true ∨ rose.IsComment := by
      intro rose hmem
      rcases mem_rest_of_prev hwf hroses hprev hrest hchild hmem with hblank | rfl
      · exact Or.inl hblank
      · right
        exact (hwalked.todo hit _ (getElem?_roses hchild) hplace).2 _
          (hwf.rose_of_isKind haccepts)
    cases hmerged with
    | wrapped hother =>
        exact absurd hfirst (hother rfl inner)
    | absorbed _ heq =>
        rw [heq] at hdone
        exact hdone.hosts htwo htail

/-!
# All of them
-/

theorem lists_lead (htwo : 2 <= room) (hroom : 15 + room < limit) :
    Lead limit (Layered (Settled room) (· == .identifier) 0)
      (Layered (Hosted room) (· != .comment) 31) ((Pass.all.drop 11).take 8) := by
  have hone : 1 <= room := Nat.le_of_succ_le htwo
  have hlt : forall n, n <= 15 -> n + room < limit := fun n hn => by omega
  have hwiden : forall rose, Layered (Settled room) (· == .identifier) 3 rose ->
      Layered (Settled room) (· != .comment) 3 rose := by
    intro rose h
    refine h.widen (fun _ h => h) ?_
    intro kind hkind
    rw [beq_iff_eq.mp hkind]
    rfl
  exact lead_append (orderings_lead hone (by omega)) <|
    lead_append (typecast_lead hone (hlt 0 (by decide))) <|
    lead_append (aliasWithAs_lead hone (hlt 1 (by decide))) <|
    lead_append ((aliases_lead hone (hlt 2 (by decide))).mono (fun _ h => h) hwiden) <|
    lead_append (assignment_lead hone (hlt 3 (by decide))) <|
    lead_append (comparison_lead hone (hlt 7 (by decide))) <|
    lead_append (trailingComments_lead htwo (hlt 15 (by decide))) <|
    identifierList_lead (hlt 15 (by decide))

end Pass

end SqlLayout
