import SqlLayout.Proofs.Grouping.Stages

/-!
# Layers of groups

Passes that join what stands in a list put groups around roses that they do not
look into.  A walk along a list puts at most one more group around each of its
roses: what is joined to a group of the kind goes into that group.
-/

namespace SqlLayout

open Grouping Tree

namespace Rose

/-- At most so many groups, of some kinds, around roses of a base. -/
inductive Layered (base : Rose -> Prop) (kinds : GroupKind -> Bool) : Nat -> Rose -> Prop where
  | token {n : Nat} {t : Token} : Layered base kinds n (.token t)
  | base {n : Nat} {rose : Rose} : base rose -> Layered base kinds n rose
  | group {n : Nat} {kind : GroupKind} {children : List Rose} : kinds kind = true ->
      (forall child, child ∈ children -> Layered base kinds n child) ->
      Layered base kinds (n + 1) (.group kind children)

variable {base wider : Rose -> Prop} {kinds more : GroupKind -> Bool} {n m : Nat} {rose : Rose}

theorem Layered.mono (h : Layered base kinds n rose) (hle : n <= m) :
    Layered base kinds m rose := by
  induction h generalizing m with
  | token =>
      exact Layered.token
  | base h =>
      exact Layered.base h
  | group hkind _ ih =>
      cases m with
      | zero =>
          exact absurd hle (Nat.not_succ_le_zero _)
      | succ m =>
          exact Layered.group hkind fun child hchild =>
            ih child hchild (Nat.le_of_succ_le_succ hle)

theorem Layered.widen (h : Layered base kinds n rose) (hbase : forall rose, base rose -> wider rose)
    (hkinds : forall kind, kinds kind = true -> more kind = true) : Layered wider more n rose := by
  induction h with
  | token =>
      exact Layered.token
  | base h =>
      exact Layered.base (hbase _ h)
  | group hkind _ ih =>
      exact Layered.group (hkinds _ hkind) ih

theorem Layered.nests (h : Layered base kinds n rose) {room : Nat}
    (hbase : forall rose, base rose -> Nests (fun _ => false) room rose) :
    Nests (fun _ => false) (n + room) rose := by
  induction h with
  | token =>
      exact Nests.token
  | base h =>
      exact (hbase _ h).mono (Nat.le_add_left _ _)
  | @group n kind children _ _ ih =>
      rw [Nat.add_right_comm]
      exact Nests.group ih

theorem Layered.rests_of_closed (h : Layered base kinds n rose) {survey : Survey}
    (hclosed : forall kind, kinds kind = true -> survey.opensKind kind = false)
    (hbase : forall rose, base rose -> rose.Rests survey) : rose.Rests survey := by
  cases h with
  | token =>
      exact Rests.token
  | base h =>
      exact hbase _ h
  | group hkind _ =>
      exact Rests.closed (hclosed _ hkind)

theorem layered_of_isBlank (h : rose.isBlank = true) : Layered base kinds n rose := by
  rcases exists_of_isBlank h with ⟨t, rfl, _⟩
  exact Layered.token

/-!
# One walk
-/

/-- At most so many layers, or one more that is a group of the kind that the walk
makes. -/
def Grown (base : Rose -> Prop) (kinds : GroupKind -> Bool) (n : Nat) (kind : GroupKind)
    (rose : Rose) : Prop :=
  Layered base kinds n rose ∨ exists children, rose = .group kind children ∧
    forall child, child ∈ children -> Layered base kinds n child

theorem Grown.layered {kind : GroupKind} (h : Grown base kinds n kind rose)
    (hkind : kinds kind = true) : Layered base kinds (n + 1) rose := by
  rcases h with h | ⟨children, rfl, hall⟩
  · exact h.mono (Nat.le_succ n)
  · exact Layered.group hkind hall

theorem Grown.merged {kind : GroupKind} {extend : Bool} {first group : Rose} {rest : List Rose}
    (hbase : forall children, base (.group kind children) ->
      forall child, child ∈ children -> Layered base kinds n child)
    (hfirst : Grown base kinds n kind first)
    (hrest : forall rose, rose ∈ rest -> Layered base kinds n rose)
    (hnew : extend = false -> forall children, first ≠ .group kind children)
    (h : Merged kind extend first rest group) : Grown base kinds n kind group := by
  right
  cases h with
  | wrapped hother =>
      refine ⟨_, rfl, ?_⟩
      have hne : forall children, first ≠ .group kind children := by
        cases extend with
        | true =>
            exact hother rfl
        | false =>
            exact hnew rfl
      intro child hchild
      rcases List.mem_cons.mp hchild with rfl | hmem
      · rcases hfirst with hlayered | ⟨children, heq, _⟩
        · exact hlayered
        · exact absurd heq (hne children)
      · exact hrest child hmem
  | @absorbed inner _ heq =>
      subst heq
      refine ⟨_, rfl, ?_⟩
      intro child hchild
      rcases List.mem_append.mp hchild with hmem | hmem
      · rcases hfirst with hlayered | ⟨children, heq, hall⟩
        · cases hlayered with
          | base h =>
              exact hbase inner h child hmem
          | group _ hall =>
              exact (hall child hmem).mono (Nat.le_succ _)
        · cases heq
          exact hall child hmem
      · exact hrest child hmem

end Rose

open Rose

/-!
# Rules that join
-/

namespace BinaryRule

variable {rule : BinaryRule} {base : Rose -> Prop} {kinds : GroupKind -> Bool} {n : Nat}

/-- A rule that marks no operator, and joins a group of its own kind only by
extending it. -/
structure Joins (rule : BinaryRule) : Prop where
  sound : rule.Sound
  retag : rule.retag = none
  own : rule.extend = false -> forall (tree : Tree) id, rule.acceptsPrev tree id = true ->
    tree.isKind id rule.kind = false

theorem Joins.walks_layered (h : rule.Joins) (hsound : (Pass.binary rule).Sound)
    (hkind : kinds rule.kind = true)
    (hbase : forall children, base (.group rule.kind children) ->
      forall child, child ∈ children -> Layered base kinds n child)
    {tree after : Tree} {list : NodeId} {kind : GroupKind} (hwf : tree.WellFormed)
    (hlist : tree.kind? list = some kind)
    (hroses : forall rose, rose ∈ (tree.children list).map tree.rose -> Layered base kinds n rose)
    (hwalk : (Pass.binary rule).Walks list tree after) :
    exists roses, after.rose list = .group kind roses ∧
      forall rose, rose ∈ roses -> Layered base kinds (n + 1) rose := by
  have hsub : forall rose, Layered base kinds n rose -> Grown base kinds n rule.kind rose :=
    fun rose hrose => Or.inl hrose
  have hdone : exists roses, after.rose list = .group kind roses ∧
      forall rose, rose ∈ roses -> Grown base kinds n rule.kind rose := by
    refine walks_done h.sound hsub ?_ hsound hwf hlist hroses hwalk
    intro tree left blanks op behind group hwf hsite hleft hop hbehind hmerged
    rw [retagged_of_none h.retag] at hmerged
    refine Grown.merged hbase hleft ?_ ?_ hmerged
    · intro rose hrose
      rcases List.mem_append.mp hrose with hmem | hmem
      · exact layered_of_isBlank (hsite.isBlank rose hmem)
      · rcases List.mem_cons.mp hmem with rfl | hmem
        · exact hop
        · exact hbehind rose hmem
    · intro hextend children heq
      rcases hsite.acceptsPrev with ⟨id, hmem, hrose, haccepts⟩
      rw [heq] at hrose
      have hnot := h.own hextend tree id haccepts
      rw [isKind, (hwf.kind?_of_rose (hwf.child_lt_size hmem) hrose).1] at hnot
      simp at hnot
  rcases hdone with ⟨roses, heq, hall⟩
  exact ⟨roses, heq, fun rose hrose => (hall rose hrose).layered hkind⟩

end BinaryRule

/-!
# Runs into the layers
-/

theorem forall_of_forall₂ {alpha : Type} {p q : alpha -> Prop} {related : alpha -> alpha -> Prop}
    (hpq : forall old new, p old -> related old new -> q new) {olds news : List alpha}
    (h : List.Forall₂ related olds news) (hall : forall old, old ∈ olds -> p old) :
    forall new, new ∈ news -> q new := by
  induction h with
  | nil =>
      exact List.forall_mem_nil q
  | cons hfirst _ ih =>
      rw [List.forall_mem_cons] at hall
      exact List.forall_mem_cons.mpr ⟨hpq _ _ hall.1 hfirst, ih hall.2⟩

namespace Survey

variable {survey : Survey} {base wider : Rose -> Prop} {kinds : GroupKind -> Bool}
  {grows : Nat -> Nat} {todo : Nat -> Rose -> Prop}

/-- What a run does to a group: nothing if the group rests, and what is known of
the layers of its children. -/
structure Turned (survey : Survey) (base wider : Rose -> Prop) (kinds : GroupKind -> Bool)
    (grows : Nat -> Nat) (old new : Rose) : Prop where
  spares : survey.Spares old new
  layers : forall kind olds n, old = .group kind olds ->
    (forall child, child ∈ olds -> Layered base kinds n child) ->
    exists news, new = .group kind news ∧
      forall child, child ∈ news -> Layered wider kinds (grows n) child

/-- What a walk finds to do after the runs on the groups of its list. -/
structure Prepares (survey : Survey) (base wider : Rose -> Prop) (kinds : GroupKind -> Bool)
    (grows : Nat -> Nat) (todo : Nat -> Rose -> Prop) : Prop where
  rests : forall rose, base rose -> rose.Rests survey
  widen : forall n rose, Layered base kinds n rose -> Layered wider kinds (grows n) rose
  same : forall n rose, Layered base kinds n rose -> todo n rose
  group : forall n kind children, kinds kind = true ->
    (forall child, child ∈ children -> Layered wider kinds (grows n) child) ->
    todo (n + 1) (.group kind children)

theorem Prepares.todo_of_entered (h : survey.Prepares base wider kinds grows todo) {n : Nat}
    {old new : Rose} (hold : Layered base kinds n old)
    (hentered : Rose.Entered survey.opensKind (survey.Turned base wider kinds grows) old new) :
    todo n new := by
  cases hentered with
  | same =>
      exact h.same n _ hold
  | run hopens hturned =>
      cases hold with
      | base hbase =>
          rw [hturned.spares _ _ rfl hopens (h.rests _ hbase)]
          exact h.same n _ (Layered.base hbase)
      | group hkind hall =>
          rcases hturned.layers _ _ _ rfl hall with ⟨news, rfl, hnews⟩
          exact h.group _ _ news hkind hnews

/-- A run of a pass that leaves the base alone goes through the layers.  What it
does to the lists is known from what a walk does to a list whose groups have been
run on. -/
theorem Regular.lead_layers (hregular : survey.Regular)
    (hprepares : survey.Prepares base wider kinds grows todo)
    (hwalks : forall n (tree after : Tree) list kind, tree.WellFormed ->
      tree.kind? list = some kind ->
      (forall rose, rose ∈ (tree.children list).map tree.rose -> todo n rose) ->
      survey.pass.Walks list tree after ->
      exists roses, after.rose list = .group kind roses ∧
        forall rose, rose ∈ roses -> Layered wider kinds (grows n) rose)
    {limit n room : Nat} (hnests : forall rose, base rose -> Nests (fun _ => false) room rose)
    (hroom : n + room < limit) :
    Pass.Lead limit (Layered base kinds n) (Layered wider kinds (grows n)) [survey.pass] := by
  apply Pass.lead_singleton
  intro tree list hwf hstands
  have hrun : exists after, exec (survey.pass.run limit limit list) tree = (.ok (), after) ∧
      tree.ChangesWithin list after ∧
      survey.Turned base wider kinds grows (tree.rose list) (after.rose list) := by
    refine hregular.run_turns ?_ ?_ limit hwf (isGroup_iff_kind?.mpr ⟨_, hstands.1⟩)
      ((hstands.nests hwf fun rose hrose => hrose.nests hnests).mono hroom)
    · intro kind children _ _
      refine ⟨fun _ _ _ _ _ => rfl, ?_⟩
      rintro _ _ n ⟨rfl, rfl⟩ hall
      exact ⟨children, rfl, fun child hchild => hprepares.widen n child (hall child hchild)⟩
    · intro tree after list kind olds hwf hkind hnot holds hwalk
      refine ⟨?_, ?_⟩
      · rintro _ _ ⟨rfl, rfl⟩ hopens hrest
        exact absurd ⟨hopens, hrest⟩ hnot
      · rintro _ _ n ⟨rfl, rfl⟩ hall
        refine hwalks n tree after list kind hwf hkind ?_ hwalk
        exact @forall_of_forall₂ Rose (Layered base kinds n) (todo n) _
          (fun _ _ hold => hprepares.todo_of_entered hold) _ _ holds hall
  rcases hrun with ⟨after, hexec, hchanges, hturned⟩
  refine ⟨after, hexec, hchanges, ?_⟩
  apply (hchanges.wellFormed hwf).stands
  · exact Nat.lt_of_lt_of_le (lt_size_of_content? (content?_of_kind? hstands.1))
      (size_le_of_steps hchanges.steps)
  · exact hturned.layers .statement _ n (hwf.rose_of_kind? hstands.1) hstands.2

/-!
# Rules that join
-/

theorem lead_of_closed {rule : BinaryRule} (hmem : Survey.ofRule rule ∈ Survey.all)
    (hjoins : rule.Joins) (hrests : forall rose, base rose -> rose.Rests (ofRule rule)) {n : Nat}
    (hown : forall children, base (.group rule.kind children) ->
      forall child, child ∈ children -> Layered base (· == rule.kind) n child)
    {limit room : Nat} (hnests : forall rose, base rose -> Nests (fun _ => false) room rose)
    (hroom : n + room < limit) :
    Pass.Lead limit (Layered base (· == rule.kind) n) (Layered base (· == rule.kind) (n + 1))
      [Pass.binary rule] := by
  have hregular := regular_ofRule hmem
  refine Pass.lead_of_rests hregular ?_ (n + room) (fun rose h => h.nests hnests) hroom ?_
  · intro rose h
    refine h.rests_of_closed ?_ hrests
    intro kind hkind
    rw [beq_iff_eq.mp hkind]
    unfold opensKind ofRule
    simp
  · intro tree after list hwf hstands hwalk
    refine hjoins.walks_layered hregular.sound ?_ hown hwf hstands.1 hstands.2 hwalk
    exact beq_self_eq_true rule.kind

theorem lead_of_joins {rule : BinaryRule} (hmem : Survey.ofRule rule ∈ Survey.all)
    (hjoins : rule.Joins) (hkind : kinds rule.kind = true)
    (hrests : forall rose, base rose -> rose.Rests (ofRule rule))
    (hother : forall kind children, base (.group kind children) -> kind ≠ rule.kind)
    {limit n room : Nat} (hnests : forall rose, base rose -> Nests (fun _ => false) room rose)
    (hroom : n + room < limit) :
    Pass.Lead limit (Layered base kinds n) (Layered base kinds (2 * n + 1))
      [Pass.binary rule] := by
  have hregular := regular_ofRule hmem
  have hprepares : (ofRule rule).Prepares base base kinds (fun n => 2 * n + 1)
      fun n => Layered base kinds (2 * n) := by
    refine ⟨hrests, ?_, ?_, ?_⟩
    · exact fun n rose hrose => hrose.mono (by omega)
    · exact fun n rose hrose => hrose.mono (by omega)
    · exact fun n kind children hkinds hall => Layered.group hkinds hall
  refine hregular.lead_layers hprepares ?_ hnests hroom
  intro n tree after list kind hwf hlist hroses hwalk
  refine hjoins.walks_layered hregular.sound hkind ?_ hwf hlist hroses hwalk
  exact fun children hbase => absurd rfl (hother _ children hbase)

end Survey
end SqlLayout
