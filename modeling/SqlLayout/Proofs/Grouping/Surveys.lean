import SqlLayout.Proofs.Grouping.Idle

/-!
# Where the passes have something to do

For each pass a survey says at which positions of a list the pass would group a
span, and which groups it does not look into.  It is read off the tree without a
run of the pass; a run changes nothing exactly where the survey finds nothing.
-/

namespace SqlLayout

/-!
# Surveys
-/

/-- Whether a rule would group the child at a position with its neighbours. -/
def BinaryRule.acts (rule : BinaryRule) (tree : Tree) (list : NodeId) (idx : Nat) : Bool :=
  match tree.child? list idx with
  | some id =>
      !tree.isWhitespace id && rule.isOp tree id
        && (rule.span? tree list ((tree.prev list idx true).map Prod.fst) idx).isSome
  | none => false

/-- Whether the child at a position closes a pair that is opened before it. -/
def Tree.closesPair (tree : Tree) (opening closing : TokenPattern) (list : NodeId) (idx : Nat) :
    Bool :=
  match tree.child? list idx with
  | some id =>
      tree.shutsPair opening closing id
        && ((tree.children list).take idx).any (tree.opensPair opening)
  | none => false

structure Survey where
  pass : Pass
  /-- The kind of the groups that the pass does not look into. -/
  closed : Option GroupKind
  acts : Tree -> NodeId -> Nat -> Bool

namespace Survey

def opens (survey : Survey) (tree : Tree) (id : NodeId) : Bool :=
  match survey.closed with
  | some kind => !tree.isKind id kind
  | none => true

def ofSeeker (pass : Pass) (closed : Option GroupKind) (seeker : Seeker) : Survey where
  pass := pass
  closed := closed
  acts := fun tree list idx => pass.applies tree list && seeker.acts tree list idx

def ofRule (rule : BinaryRule) : Survey where
  pass := .binary rule
  closed := some rule.kind
  acts := rule.acts

def ofPairs (kind : GroupKind) : Survey where
  pass := .pairs kind
  closed := some kind
  acts := fun tree list idx =>
    match kind.opening?, kind.closing? with
    | some opening, some closing => tree.closesPair opening closing list idx
    | _, _ => false

/-- The surveys of the passes in order. -/
def all : List Survey :=
  [ofSeeker .comments (some .comment) .comment, ofPairs .squareBrackets, ofPairs .parenthesis,
   ofSeeker .functions (some .function) .call,
   ofSeeker .whereClauses (some .whereClause) .whereWord, ofPairs .caseBlock, ofRule .period,
   ofRule .subscript, ofSeeker .identifiers (some .identifier) .name,
   ofSeeker .typedLiterals (some .typedLiteral) .typeWord, ofRule .operator,
   ofSeeker .orderings (some .identifier) .ordering, ofRule .typecast, ofRule .aliasWithAs,
   ofSeeker .aliases (some .identifier) .aliased, ofRule .assignment, ofRule .comparison,
   ofSeeker .trailingComments none .trailingComment, ofRule .identifierList, ofPairs .ifBlock,
   ofPairs .forBlock, ofPairs .beginBlock]

theorem all_map_pass : all.map Survey.pass = Pass.all := rfl

/-- A run of the pass with room left changes nothing exactly if the pass acts at
no position of the list and changes nothing in the groups that it looks into. -/
def Faithful (survey : Survey) : Prop :=
  forall (tree : Tree) (list : NodeId) (limit room : Nat), tree.WellFormed ->
    (Grouping.Idle (survey.pass.run limit (room + 1) list) tree <->
      (forall idx, survey.acts tree list idx = false) ∧
        forall id, id ∈ tree.sublists list -> survey.opens tree id = true ->
          Grouping.Idle (survey.pass.run limit room id) tree)

end Survey

/-!
# Walks
-/

theorem forall_le_iff {p : Nat -> Prop} {n : Nat} :
    (forall i, n <= i -> p i) <-> p n ∧ forall i, n + 1 <= i -> p i := by
  constructor
  · intro h
    exact ⟨h n (Nat.le_refl n), fun i hi => h i (Nat.le_of_succ_le hi)⟩
  · intro h i hi
    rcases Nat.lt_or_eq_of_le hi with hlt | heq
    · exact h.2 i hlt
    · rw [← heq]
      exact h.1

namespace Pass

variable {pass : Pass} {visited : NodeId -> Prop} {tree : Tree} {list : NodeId} {budget : Nat}
  {cursor : Cursor}

theorem quiet_of_end (h : pass.plan tree list cursor = none) :
    pass.Quiet visited tree list budget cursor := by
  cases budget with
  | zero =>
      trivial
  | succ budget =>
      intro move hmove
      rw [h] at hmove
      cases hmove

theorem quiet_of_move {move : Move} (h : pass.plan tree list cursor = some move) :
    pass.Quiet visited tree list (budget + 1) cursor <->
      move.span = none ∧ (forall id, move.visit = some id -> visited id) ∧
        pass.Quiet visited tree list budget move.cursor := by
  constructor
  · intro hquiet
    exact hquiet move h
  · intro hmove other hother
    rw [h] at hother
    cases hother
    exact hmove

end Pass

/-!
# Passes that look for a child
-/

namespace Seeker

variable {seeker : Seeker} {pass : Pass} {tree : Tree} {list : NodeId}

theorem acts_of_refused {idx : Nat}
    (h : forall id, tree.child? list idx = some id -> seeker.accepts tree id = false) :
    seeker.acts tree list idx = false := by
  unfold acts
  cases hchild : tree.child? list idx with
  | none =>
      rfl
  | some id =>
      dsimp only
      rw [h id hchild, Bool.false_and]

theorem acts_of_accepted {idx : Nat} {id : NodeId} (hchild : tree.child? list idx = some id)
    (hid : seeker.accepts tree id = true) :
    seeker.acts tree list idx = (seeker.span? tree list idx id).isSome := by
  unfold acts
  rw [hchild]
  dsimp only
  rw [hid, Bool.true_and]

theorem quiet_iff (hplan : pass.plan = seeker.plan) (visited : NodeId -> Prop) (budget : Nat)
    (cursor : Cursor) (hbudget : tree.childCount list <= cursor.idx + budget) :
    pass.Quiet visited tree list budget cursor <->
      forall idx, cursor.idx <= idx -> seeker.acts tree list idx = false := by
  induction budget generalizing cursor with
  | zero =>
      refine ⟨?_, fun _ => trivial⟩
      intro _ idx hidx
      apply acts_of_refused
      intro id hchild
      have := Tree.child?_lt hchild
      omega
  | succ budget ih =>
      have hmove : pass.plan tree list cursor = seeker.plan tree list cursor := by
        rw [hplan]
      unfold plan at hmove
      rcases hhit : tree.nextBy list cursor.idx (seeker.accepts tree) with _ | ⟨hit, id⟩
      · rw [hhit] at hmove
        refine ⟨?_, fun _ => Pass.quiet_of_end hmove⟩
        intro _ idx hidx
        exact acts_of_refused fun id hchild => Tree.nextBy_none hhit hidx hchild
      · rcases Tree.nextBy_some hhit with ⟨hle, hchild, haccepted, hbefore⟩
        have hacts := acts_of_accepted hchild haccepted
        rw [hhit] at hmove
        dsimp only at hmove
        cases hspan : seeker.span? tree list hit id with
        | some pair =>
            rcases pair with ⟨span, next⟩
            rw [hspan] at hmove hacts
            rw [Pass.quiet_of_move hmove]
            constructor
            · intro h
              cases h.1
            · intro h
              rw [h hit hle] at hacts
              cases hacts
        | none =>
            rw [hspan] at hmove hacts
            rw [Pass.quiet_of_move hmove, ih (Pass.goto (hit + 1)).cursor (by
              dsimp only [Pass.goto]
              omega)]
            constructor
            · intro h idx hidx
              rcases Nat.lt_trichotomy idx hit with hlt | heq | hgt
              · exact acts_of_refused fun other hother => hbefore idx other hidx hlt hother
              · rw [heq, hacts]
                rfl
              · exact h.2.2 idx hgt
            · intro h
              refine ⟨rfl, ?_, ?_⟩
              · intro other hother
                cases hother
              · intro idx hidx
                dsimp only [Pass.goto] at hidx
                exact h idx (by omega)

end Seeker

theorem Survey.ofSeeker_faithful {pass : Pass} {closed : Option GroupKind} {seeker : Seeker}
    (hsound : pass.Sound) (hplan : pass.plan = seeker.plan)
    (henters : pass.enters = (ofSeeker pass closed seeker).opens) :
    (ofSeeker pass closed seeker).Faithful := by
  intro tree list limit room hwf
  have hquiet : forall visited : NodeId -> Prop,
      pass.Quiet visited tree list (tree.childCount list) {} <->
        forall idx, 0 <= idx -> seeker.acts tree list idx = false :=
    fun visited => Seeker.quiet_iff hplan visited _ {} (Nat.le_add_left _ _)
  change Grouping.Idle (pass.run limit (room + 1) list) tree <-> _
  rw [Pass.idle_run_iff hsound hwf, hquiet, and_comm, ← henters]
  refine and_congr ?_ Iff.rfl
  change _ <-> forall idx, (pass.applies tree list && seeker.acts tree list idx) = false
  cases pass.applies tree list with
  | true =>
      simp
  | false =>
      simp

/-!
# Passes that go from child to child
-/

/-- What a pass does at a place where an invariant of the walk holds: it groups
where it acts, and goes on to the next child where it does not. -/
structure Pass.StepsThrough (pass : Pass) (tree : Tree) (list : NodeId) (acts : Nat -> Bool)
    (visits : NodeId -> Bool) (cursor : Cursor) (invariant : Cursor -> Prop) : Prop where
  ends : tree.child? list cursor.idx = none -> pass.plan tree list cursor = none
  moves : forall id, tree.child? list cursor.idx = some id ->
    exists move, pass.plan tree list cursor = some move ∧
      (acts cursor.idx = true -> move.span ≠ none) ∧
      (acts cursor.idx = false -> move.span = none ∧
        move.visit = (if visits id then some id else none) ∧
        move.cursor.idx = cursor.idx + 1 ∧ invariant move.cursor)

theorem Pass.quiet_iff_of_steps {pass : Pass} {tree : Tree} {list : NodeId} {acts : Nat -> Bool}
    {visits : NodeId -> Bool} {invariant : Cursor -> Prop}
    (hacts : forall idx, tree.childCount list <= idx -> acts idx = false)
    (hstep : forall cursor, invariant cursor ->
      pass.StepsThrough tree list acts visits cursor invariant)
    (visited : NodeId -> Prop) (budget : Nat) (cursor : Cursor)
    (hbudget : tree.childCount list <= cursor.idx + budget) (hcursor : invariant cursor) :
    pass.Quiet visited tree list budget cursor <->
      forall idx, cursor.idx <= idx -> acts idx = false ∧
        forall id, tree.child? list idx = some id -> visits id = true -> visited id := by
  -- The budget covers the children from the place on; behind them nothing is left.
  have hend : forall n, tree.childCount list <= n -> forall idx, n <= idx ->
      acts idx = false ∧
        forall id, tree.child? list idx = some id -> visits id = true -> visited id := by
    intro n hcount idx hidx
    refine ⟨hacts idx (Nat.le_trans hcount hidx), ?_⟩
    intro id hchild
    have := Tree.child?_lt hchild
    omega
  induction budget generalizing cursor with
  | zero =>
      exact ⟨fun _ => hend cursor.idx hbudget, fun _ => trivial⟩
  | succ budget ih =>
      have hsteps := hstep cursor hcursor
      cases hchild : tree.child? list cursor.idx with
      | none =>
          have hcount : tree.childCount list <= cursor.idx := List.getElem?_eq_none_iff.mp hchild
          exact ⟨fun _ => hend cursor.idx hcount, fun _ => quiet_of_end (hsteps.ends hchild)⟩
      | some id =>
          rcases hsteps.moves id hchild with ⟨move, hplan, hacting, hpassing⟩
          rw [quiet_of_move hplan, forall_le_iff, hchild]
          cases hact : acts cursor.idx with
          | true =>
              constructor
              · intro h
                exact absurd h.1 (hacting hact)
              · intro h
                cases h.1.1
          | false =>
              rcases hpassing hact with ⟨hspan, hvisit, hidx, hinvariant⟩
              have hrest := ih move.cursor (by omega) hinvariant
              rw [hidx] at hrest
              constructor
              · intro h
                refine ⟨⟨rfl, ?_⟩, hrest.mp h.2.2⟩
                intro other hother hvisits
                cases hother
                exact h.2.1 id (by rw [hvisit, if_pos hvisits])
              · intro h
                refine ⟨hspan, ?_, hrest.mpr h.2⟩
                intro other hother
                rw [hvisit] at hother
                split at hother
                · rename_i hvisits
                  cases hother
                  exact h.1.2 id rfl hvisits
                · cases hother

/-!
# Constructs around an operator
-/

namespace BinaryRule

variable {rule : BinaryRule} {tree : Tree} {list : NodeId}

theorem acts_of_end {idx : Nat} (h : tree.childCount list <= idx) :
    rule.acts tree list idx = false := by
  unfold acts Tree.child?
  rw [List.getElem?_eq_none h]

theorem stepsThrough (cursor : Cursor)
    (hprev : cursor.prev = (tree.prev list cursor.idx true).map Prod.fst) :
    (Pass.binary rule).StepsThrough tree list (rule.acts tree list) (fun _ => false) cursor
      fun cursor => cursor.prev = (tree.prev list cursor.idx true).map Prod.fst where
  ends := fun hchild => plan_of_end hchild
  moves := by
    intro id hchild
    have hnext : tree.prev list (cursor.idx + 1) true =
        if tree.isSkipped id true false then tree.prev list cursor.idx true
        else some (cursor.idx, id) :=
      Tree.prev_succ hchild
    have hskipped : tree.isSkipped id true false = tree.isWhitespace id := by
      simp [Tree.isSkipped]
    rw [hskipped] at hnext
    unfold acts
    rw [hchild, ← hprev]
    dsimp only
    rcases rule.plan_of_child hchild with
      ⟨hblank, hplan⟩ | ⟨hblank, hop, start, stop, hspan, hplan⟩ | ⟨hblank, hop, hplan⟩
    · rw [hblank, if_pos rfl] at hnext
      refine ⟨_, hplan, by simp [hblank], fun _ => ⟨rfl, rfl, rfl, ?_⟩⟩
      dsimp only [Move.skip]
      rw [hnext, hprev]
    · exact ⟨_, hplan, by simp, by simp [hblank, hop, hspan]⟩
    · rw [hblank, if_neg Bool.false_ne_true] at hnext
      refine ⟨_, hplan, ?_, fun _ => ⟨rfl, rfl, rfl, ?_⟩⟩
      · intro hacts
        rw [Bool.and_eq_true, Bool.and_eq_true] at hacts
        rw [hop hacts.1.2] at hacts
        cases hacts.2
      · dsimp only [Move.skip]
        rw [hnext]
        rfl

end BinaryRule

theorem Survey.ofRule_faithful {rule : BinaryRule} (hsound : (Pass.binary rule).Sound) :
    (ofRule rule).Faithful := by
  intro tree list limit room hwf
  have hquiet : forall visited : NodeId -> Prop,
      (Pass.binary rule).Quiet visited tree list (tree.childCount list) {} <->
        forall idx, 0 <= idx -> rule.acts tree list idx = false ∧
          forall id, tree.child? list idx = some id -> false = true -> visited id :=
    fun visited => Pass.quiet_iff_of_steps (fun _ => BinaryRule.acts_of_end)
      BinaryRule.stepsThrough visited _ {} (Nat.le_add_left _ _) rfl
  change Grouping.Idle ((Pass.binary rule).run limit (room + 1) list) tree <-> _
  rw [Pass.idle_run_iff hsound hwf, hquiet, and_comm]
  refine and_congr ?_ Iff.rfl
  constructor
  · intro h idx
    exact (h rfl idx (Nat.zero_le idx)).1
  · intro h _ idx _
    exact ⟨h idx, fun id _ hfalse => absurd hfalse Bool.false_ne_true⟩

/-!
# Matching pairs
-/

namespace Pass

variable {opening closing : TokenPattern} {tree : Tree} {list : NodeId}

theorem closesPair_of_end {idx : Nat} (h : tree.childCount list <= idx) :
    tree.closesPair opening closing list idx = false := by
  unfold Tree.closesPair Tree.child?
  rw [List.getElem?_eq_none h]

/-- As long as nothing is grouped, an opening token waits exactly if there is one
before the place of the walk. -/
def OpensKnown (opening : TokenPattern) (tree : Tree) (list : NodeId) (cursor : Cursor) : Prop :=
  ((tree.children list).take cursor.idx).any (tree.opensPair opening) = !cursor.opens.isEmpty

theorem pairs_plan {kind : GroupKind} (hopening : kind.opening? = some opening)
    (hclosing : kind.closing? = some closing) :
    (Pass.pairs kind).plan = planPair kind opening closing := by
  funext tree list cursor
  unfold pairs
  dsimp only
  rw [hopening, hclosing]

theorem pairs_stepsThrough {kind : GroupKind} (hopening : kind.opening? = some opening)
    (hclosing : kind.closing? = some closing) (cursor : Cursor)
    (hopens : OpensKnown opening tree list cursor) :
    (Pass.pairs kind).StepsThrough tree list (tree.closesPair opening closing list)
      (fun id => tree.isGroup id && !tree.isKind id kind) cursor
      (OpensKnown opening tree list) where
  ends := by
    intro hchild
    rw [pairs_plan hopening hclosing]
    exact planPair_of_end hchild
  moves := by
    intro id hchild
    have hnext : ((tree.children list).take (cursor.idx + 1)).any (tree.opensPair opening) =
        (!cursor.opens.isEmpty || tree.opensPair opening id) := by
      rw [← hopens]
      unfold Tree.child? at hchild
      rw [List.take_add_one, hchild]
      simp
    unfold Tree.closesPair
    rw [hchild, hopens, pairs_plan hopening hclosing]
    dsimp only
    unfold OpensKnown
    rcases planPair_of_child hchild with
      ⟨hgroup, hopen, hshut, hplan⟩ | ⟨hgroup, hopen, hshut, hplan⟩ |
      ⟨_, hshut, start, opens, hwaiting, hplan⟩ | ⟨hgroup, hopen, hshut, hplan⟩
    · refine ⟨_, hplan, by simp [hshut], fun _ => ⟨rfl, ?_, rfl, ?_⟩⟩
      · rw [hgroup]
        cases tree.isKind id kind with
        | true =>
            rfl
        | false =>
            rfl
      · dsimp only [Move.skip]
        rw [hnext, hopen, Bool.or_false]
    · refine ⟨_, hplan, by simp [hshut], fun _ => ⟨rfl, by simp [Move.skip, hgroup], rfl, ?_⟩⟩
      dsimp only [Move.skip]
      rw [hnext, hopen, Bool.or_true]
      rfl
    · exact ⟨_, hplan, by simp, by simp [hshut, hwaiting]⟩
    · refine ⟨_, hplan, ?_, fun _ => ⟨rfl, by simp [Move.skip, hgroup], rfl, ?_⟩⟩
      · intro hacts
        rw [Bool.and_eq_true] at hacts
        rw [hshut hacts.1] at hacts
        cases hacts.2
      · dsimp only [Move.skip]
        rw [hnext, hopen, Bool.or_false]

end Pass

namespace Survey

theorem ofPairs_faithful {kind : GroupKind} {opening closing : TokenPattern}
    (hsound : (Pass.pairs kind).Sound) (hopening : kind.opening? = some opening)
    (hclosing : kind.closing? = some closing) :
    (ofPairs kind).Faithful := by
  intro tree list limit room hwf
  have hquiet : forall visited : NodeId -> Prop,
      (Pass.pairs kind).Quiet visited tree list (tree.childCount list) {} <->
        forall idx, 0 <= idx -> tree.closesPair opening closing list idx = false ∧
          forall id, tree.child? list idx = some id ->
            (tree.isGroup id && !tree.isKind id kind) = true -> visited id :=
    fun visited => Pass.quiet_iff_of_steps (fun _ => Pass.closesPair_of_end)
      (Pass.pairs_stepsThrough hopening hclosing) visited _ {} (Nat.le_add_left _ _) rfl
  have hacts : (ofPairs kind).acts tree list = tree.closesPair opening closing list := by
    unfold ofPairs
    dsimp only
    rw [hopening, hclosing]
  have happlies : (Pass.pairs kind).applies tree list = true := by
    unfold Pass.pairs
    dsimp only
    rw [hopening, hclosing]
    rfl
  change Grouping.Idle ((Pass.pairs kind).run limit (room + 1) list) tree <-> _
  rw [Pass.idle_run_iff hsound hwf, hquiet, hacts]
  unfold Tree.sublists
  constructor
  · intro h
    refine ⟨fun idx => (h.2 happlies idx (Nat.zero_le idx)).1, ?_⟩
    intro id hmem hopens
    rcases List.mem_filter.mp hmem with ⟨hchild, hgroup⟩
    rcases List.mem_iff_getElem?.mp hchild with ⟨idx, hidx⟩
    apply (h.2 happlies idx (Nat.zero_le idx)).2 id hidx
    rw [hgroup]
    exact hopens
  · intro h
    refine ⟨fun id _ hfalse => absurd hfalse Bool.false_ne_true, ?_⟩
    intro _ idx _
    refine ⟨h.1 idx, ?_⟩
    intro id hchild hvisits
    rw [Bool.and_eq_true] at hvisits
    exact h.2 id (List.mem_filter.mpr ⟨List.mem_of_getElem? hchild, hvisits.1⟩) hvisits.2

theorem all_faithful : forall survey, survey ∈ all -> survey.Faithful := by
  intro survey hsurvey
  have hsound : survey.pass.Sound :=
    Pass.all_sound survey.pass (all_map_pass ▸ List.mem_map_of_mem hsurvey)
  unfold all at hsurvey
  simp only [List.mem_cons, List.not_mem_nil, or_false] at hsurvey
  rcases hsurvey with rfl | rfl | rfl | rfl | rfl | rfl | rfl | rfl | rfl | rfl | rfl | rfl |
    rfl | rfl | rfl | rfl | rfl | rfl | rfl | rfl | rfl | rfl
  · exact ofSeeker_faithful hsound Seeker.comments_plan rfl
  · exact ofPairs_faithful hsound rfl rfl
  · exact ofPairs_faithful hsound rfl rfl
  · exact ofSeeker_faithful hsound Seeker.functions_plan rfl
  · exact ofSeeker_faithful hsound Seeker.whereClauses_plan rfl
  · exact ofPairs_faithful hsound rfl rfl
  · exact ofRule_faithful hsound
  · exact ofRule_faithful hsound
  · exact ofSeeker_faithful hsound Seeker.identifiers_plan rfl
  · exact ofSeeker_faithful hsound Seeker.typedLiterals_plan rfl
  · exact ofRule_faithful hsound
  · exact ofSeeker_faithful hsound Seeker.orderings_plan rfl
  · exact ofRule_faithful hsound
  · exact ofRule_faithful hsound
  · exact ofSeeker_faithful hsound Seeker.aliases_plan rfl
  · exact ofRule_faithful hsound
  · exact ofRule_faithful hsound
  · exact ofSeeker_faithful hsound Seeker.trailingComments_plan rfl
  · exact ofRule_faithful hsound
  · exact ofPairs_faithful hsound rfl rfl
  · exact ofPairs_faithful hsound rfl rfl
  · exact ofPairs_faithful hsound rfl rfl

end Survey
end SqlLayout
