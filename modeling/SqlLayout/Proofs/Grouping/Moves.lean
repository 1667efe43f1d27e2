import SqlLayout.Statement
import SqlLayout.Proofs.Grouping.Seekers
import SqlLayout.Proofs.Tree.Lookup

/-!
# The moves of the passes

Whatever a pass plans at a place of a list can be done there: the span lies in
the list, only an operator or a wildcard gets another category, and the walk
comes nearer to the end of the list.
-/

namespace SqlLayout

/-- The positions that a cursor remembers lie before it, those of the opening
tokens in order. -/
structure Cursor.Ordered (cursor : Cursor) : Prop where
  prev_lt : forall prev, cursor.prev = some prev -> prev < cursor.idx
  opens_lt : (cursor.idx :: cursor.opens).Pairwise (· > ·)

theorem Cursor.ordered_at (idx : Nat) : Cursor.Ordered { idx := idx } :=
  ⟨by simp, by simp⟩

/-- What the rest of the program may rely on in a move that is planned at a
cursor of a list. -/
structure Move.Fits (tree : Tree) (list : NodeId) (cursor : Cursor) (move : Move) : Prop where
  visit_child : forall id, move.visit = some id ->
    tree.child? list cursor.idx = some id ∧ move.span = none
  retag_operator : forall id category, move.retag = some (id, category) ->
    category = .operator ∧ (tree.isCategory id .operator || tree.isCategory id .wildcard) = true ∧
      move.span ≠ none
  span_inside : forall span, move.span = some span ->
    span.start <= span.stop ∧ span.stop < tree.childCount list ∧
      (span.extend = true -> span.start < span.stop)
  ordered : move.cursor.Ordered
  inside : cursor.idx < tree.childCount list
  /-- A span shortens the list by what it puts into the group. -/
  advances : match move.span with
    | none => cursor.idx < move.cursor.idx
    | some span => cursor.idx + span.start < move.cursor.idx + span.stop

def Pass.Sound (pass : Pass) : Prop :=
  forall tree list cursor move, cursor.Ordered ->
    pass.plan tree list cursor = some move -> move.Fits tree list cursor

namespace Move

variable {tree : Tree} {list : NodeId} {cursor : Cursor}

theorem Fits.exists_token_of_retag {move : Move} (h : move.Fits tree list cursor) {id : NodeId}
    {category : Category} (hretag : move.retag = some (id, category)) :
    exists token, tree.token? id = some token := by
  rcases Bool.or_eq_true_iff.mp (h.retag_operator id category hretag).2.1 with hop | hop
  · rcases Tree.isCategory_iff.mp hop with ⟨token, htoken, _⟩
    exact ⟨token, htoken⟩
  · rcases Tree.isCategory_iff.mp hop with ⟨token, htoken, _⟩
    exact ⟨token, htoken⟩

theorem Fits.retag_ne {move : Move} (h : move.Fits tree list cursor) {id : NodeId}
    (hgroup : tree.isGroup id = true) (category : Category) :
    move.retag ≠ some (id, category) := by
  intro hretag
  rcases h.exists_token_of_retag hretag with ⟨token, htoken⟩
  rw [Tree.token?_eq_none_of_isGroup hgroup] at htoken
  cases htoken

theorem Fits.retag_eq_none {move : Move} (h : move.Fits tree list cursor)
    (hspan : move.span = none) : move.retag = none := by
  cases hretag : move.retag with
  | none =>
      rfl
  | some pair =>
      exact absurd hspan (h.retag_operator pair.1 pair.2 hretag).2.2

theorem Fits.visit_eq_none {move : Move} (h : move.Fits tree list cursor)
    (hspan : move.span ≠ none) : move.visit = none := by
  cases hvisit : move.visit with
  | none =>
      rfl
  | some id =>
      exact absurd (h.visit_child id hvisit).2 hspan

theorem fits_goto {idx : Nat} (hinside : cursor.idx < tree.childCount list)
    (hidx : cursor.idx < idx) : (Pass.goto idx).Fits tree list cursor where
  visit_child := by
    intro id hid
    cases hid
  retag_operator := by
    intro id category hid
    cases hid
  span_inside := by
    intro span hspan
    cases hspan
  ordered := Cursor.ordered_at idx
  inside := hinside
  advances := hidx

theorem fits_groupThen {span : Span} {idx : Nat} (hspan : span.start <= span.stop)
    (hstop : span.stop < tree.childCount list)
    (hextend : span.extend = true -> span.start < span.stop)
    (hinside : cursor.idx < tree.childCount list)
    (hidx : cursor.idx + span.start < idx + span.stop) :
    (Pass.groupThen span idx).Fits tree list cursor where
  visit_child := by
    intro id hid
    cases hid
  retag_operator := by
    intro id category hid
    cases hid
  span_inside := by
    intro other hother
    cases hother
    exact ⟨hspan, hstop, hextend⟩
  ordered := Cursor.ordered_at idx
  inside := hinside
  advances := hidx

theorem fits_skip {other : Cursor} (hinside : cursor.idx < tree.childCount list)
    (hidx : other.idx = cursor.idx)
    (hprev : forall prev, other.prev = some prev -> prev <= other.idx)
    (hopens : ((other.idx + 1) :: other.opens).Pairwise (· > ·)) :
    (Move.skip other).Fits tree list cursor where
  visit_child := by
    intro id hid
    cases hid
  retag_operator := by
    intro id category hid
    cases hid
  span_inside := by
    intro span hspan
    cases hspan
  ordered := ⟨fun prev h => Nat.lt_succ_of_le (hprev prev h), hopens⟩
  inside := hinside
  advances := by
    dsimp only [Move.skip]
    omega

end Move

theorem Cursor.Ordered.opens_succ {cursor : Cursor} (h : cursor.Ordered) :
    ((cursor.idx + 1) :: cursor.opens).Pairwise (· > ·) := by
  have hopens := List.pairwise_cons.mp h.opens_lt
  rw [List.pairwise_cons]
  exact ⟨fun idx hidx => Nat.lt_succ_of_lt (hopens.1 idx hidx), hopens.2⟩

theorem Cursor.Ordered.opens_push {cursor : Cursor} (h : cursor.Ordered) :
    ((cursor.idx + 1) :: cursor.idx :: cursor.opens).Pairwise (· > ·) := by
  refine List.pairwise_cons.mpr ⟨?_, h.opens_lt⟩
  intro idx hidx
  rcases List.mem_cons.mp hidx with heq | htail
  · rw [heq]
    exact Nat.lt_succ_self _
  · exact Nat.lt_succ_of_lt ((List.pairwise_cons.mp h.opens_lt).1 idx htail)

/-!
# Passes that look for a child
-/

theorem Seeker.plan_fits {seeker : Seeker} (hsound : seeker.Sound) {tree : Tree}
    {list : NodeId} {cursor : Cursor} {move : Move}
    (hplan : seeker.plan tree list cursor = some move) : move.Fits tree list cursor := by
  unfold Seeker.plan at hplan
  split at hplan
  · cases hplan
  · rename_i idx id hhit
    rcases Tree.nextBy_some hhit with ⟨hle, hchild, _, _⟩
    have hlt := Tree.child?_lt hchild
    split at hplan
    · rename_i span next hspan
      cases hplan
      rcases hsound tree list idx id span next hchild hspan with
        ⟨hstart, hstop, hextend, hadvance⟩
      exact Move.fits_groupThen hstart hstop hextend (by omega) (by omega)
    · cases hplan
      exact Move.fits_goto (by omega) (by omega)

theorem Pass.sound_of_seeker {pass : Pass} {seeker : Seeker} (hplan : pass.plan = seeker.plan)
    (hsound : seeker.Sound) : pass.Sound := by
  intro tree list cursor move _ hmove
  rw [hplan] at hmove
  exact Seeker.plan_fits hsound hmove

/-!
# Constructs around an operator
-/

namespace BinaryRule

/-- The span of a rule goes from the child before the operator to the operator
or beyond, and stays in the list. -/
def Sound (rule : BinaryRule) : Prop :=
  forall tree list prev op start stop,
    prev < op -> op < tree.childCount list ->
    rule.span tree list ⟨prev, op, (tree.next list op true).map Prod.fst⟩ = (start, stop) ->
    start = prev ∧ op <= stop ∧ stop < tree.childCount list

theorem next_getD_spec {tree : Tree} {list : NodeId} {op : Nat}
    (hop : op < tree.childCount list) :
    op <= ((tree.next list op true).map Prod.fst).getD op ∧
      ((tree.next list op true).map Prod.fst).getD op < tree.childCount list := by
  cases hnext : tree.next list op true with
  | none =>
      exact ⟨Nat.le_refl _, hop⟩
  | some hit =>
      rcases hit with ⟨next, id⟩
      rcases Tree.next_some hnext with ⟨hlt, hchild, _⟩
      exact ⟨Nat.le_of_lt hlt, Tree.child?_lt hchild⟩

theorem fromPrevToNext_sound {rule : BinaryRule} (h : rule.span = fromPrevToNext) :
    rule.Sound := by
  intro tree list prev op start stop _ hop hspan
  rw [h] at hspan
  cases hspan
  exact ⟨rfl, next_getD_spec hop⟩

theorem period_sound : period.Sound := by
  intro tree list prev op start stop _ hop hspan
  unfold period at hspan
  dsimp only at hspan
  cases hnext : tree.next list op true with
  | none =>
      rw [hnext] at hspan
      cases hspan
      exact ⟨rfl, Nat.le_refl _, hop⟩
  | some hit =>
      rcases hit with ⟨next, id⟩
      rcases Tree.next_some hnext with ⟨hlt, hchild, _⟩
      have hinside := Tree.child?_lt hchild
      rw [hnext] at hspan
      dsimp only [Option.map_some] at hspan
      rw [hchild] at hspan
      dsimp only at hspan
      cases hspan
      refine ⟨rfl, ?_⟩
      split
      · omega
      · omega

theorem subscript_sound : subscript.Sound := by
  intro tree list prev op start stop _ hop hspan
  cases hspan
  exact ⟨rfl, Nat.le_refl _, hop⟩

theorem typecast_sound : typecast.Sound := by
  intro tree list prev op start stop _ hop hspan
  unfold typecast at hspan
  dsimp only at hspan
  cases hnext : tree.next list op true with
  | none =>
      rw [hnext] at hspan
      cases hspan
      exact ⟨rfl, Nat.le_refl _, hop⟩
  | some hit =>
      rcases hit with ⟨next, id⟩
      rcases Tree.next_some hnext with ⟨hlt, hchild, _⟩
      have hinside := Tree.child?_lt hchild
      rw [hnext] at hspan
      dsimp only [Option.map_some] at hspan
      split at hspan
      · rename_i idx order horder
        rcases Tree.next_some horder with ⟨hltOrder, hchildOrder, _⟩
        have hinsideOrder := Tree.child?_lt hchildOrder
        cases hspan
        refine ⟨rfl, ?_⟩
        split
        · omega
        · omega
      · cases hspan
        exact ⟨rfl, Nat.le_of_lt hlt, hinside⟩

theorem assignment_sound : assignment.Sound := by
  intro tree list prev op start stop _ hop hspan
  have hnext := next_getD_spec hop
  unfold assignment at hspan
  dsimp only at hspan
  split at hspan
  · rename_i idx id hhit
    rcases Tree.nextBy_some hhit with ⟨hle, hchild, _, _⟩
    have hinside := Tree.child?_lt hchild
    cases hspan
    refine ⟨rfl, ?_, hinside⟩
    omega
  · cases hspan
    exact ⟨rfl, hnext⟩

theorem span?_accepts {rule : BinaryRule} {tree : Tree} {list : NodeId} {prev : Option Nat}
    {idx start stop : Nat} (h : rule.span? tree list prev idx = some (start, stop)) :
    exists before id, prev = some before ∧ tree.child? list before = some id ∧
      rule.acceptsPrev tree id = true ∧
      rule.acceptsNext tree ((tree.next list idx true).map Prod.snd) = true ∧
      rule.span tree list ⟨before, idx, (tree.next list idx true).map Prod.fst⟩ =
        (start, stop) := by
  unfold span? at h
  split at h
  · cases h
  · rename_i before
    cases hchild : tree.child? list before with
    | none =>
        rw [hchild] at h
        cases h
    | some id =>
        rw [hchild] at h
        dsimp only at h
        split at h
        · rename_i haccepts
          rcases Bool.and_eq_true_iff.mp haccepts with ⟨hprev, hnext⟩
          exact ⟨before, id, rfl, hchild, hprev, hnext, Option.some.inj h⟩
        · cases h

theorem plan_of_end {rule : BinaryRule} {tree : Tree} {list : NodeId} {cursor : Cursor}
    (h : tree.child? list cursor.idx = none) : rule.plan tree list cursor = none := by
  unfold plan
  rw [h]

/-- At a child a rule passes over a blank, groups an operator with its operands,
or goes on with the child as the last one that counts. -/
theorem plan_of_child (rule : BinaryRule) {tree : Tree} {list : NodeId} {cursor : Cursor}
    {id : NodeId} (h : tree.child? list cursor.idx = some id) :
    (tree.isWhitespace id = true ∧ rule.plan tree list cursor = some (.skip cursor)) ∨
    (tree.isWhitespace id = false ∧ rule.isOp tree id = true ∧
      exists start stop, rule.span? tree list cursor.prev cursor.idx = some (start, stop) ∧
        rule.plan tree list cursor = some
          { retag := rule.retag.map fun category => (id, category)
            span := some { kind := rule.kind, start, stop, extend := rule.extend }
            cursor := { idx := start + 1, prev := some start } }) ∨
    (tree.isWhitespace id = false ∧
      (rule.isOp tree id = true -> rule.span? tree list cursor.prev cursor.idx = none) ∧
      rule.plan tree list cursor = some (.skip { cursor with prev := some cursor.idx })) := by
  unfold plan
  rw [h]
  dsimp only
  cases tree.isWhitespace id with
  | true =>
      exact Or.inl ⟨rfl, rfl⟩
  | false =>
      right
      rw [if_neg Bool.false_ne_true]
      cases rule.isOp tree id with
      | false =>
          exact Or.inr ⟨rfl, fun h => absurd h Bool.false_ne_true, rfl⟩
      | true =>
          rw [if_pos rfl]
          rcases rule.span? tree list cursor.prev cursor.idx with _ | ⟨start, stop⟩
          · exact Or.inr ⟨rfl, fun _ => rfl, rfl⟩
          · exact Or.inl ⟨rfl, rfl, start, stop, rfl, rfl⟩

/-- A move of a rule, with the child that it is for. -/
inductive Does (rule : BinaryRule) (tree : Tree) (list : NodeId) (cursor : Cursor) (id : NodeId) :
    Move -> Prop where
  | blank : tree.isWhitespace id = true -> Does rule tree list cursor id (.skip cursor)
  | group {start stop : Nat} : tree.isWhitespace id = false -> rule.isOp tree id = true ->
      rule.span? tree list cursor.prev cursor.idx = some (start, stop) ->
      Does rule tree list cursor id
        { retag := rule.retag.map fun category => (id, category)
          span := some { kind := rule.kind, start, stop, extend := rule.extend }
          cursor := { idx := start + 1, prev := some start } }
  | past : tree.isWhitespace id = false ->
      (rule.isOp tree id = true -> rule.span? tree list cursor.prev cursor.idx = none) ->
      Does rule tree list cursor id (.skip { cursor with prev := some cursor.idx })

theorem does_of_plan {rule : BinaryRule} {tree : Tree} {list : NodeId} {cursor : Cursor}
    {move : Move} (h : rule.plan tree list cursor = some move) :
    exists id, tree.child? list cursor.idx = some id ∧ rule.Does tree list cursor id move := by
  cases hchild : tree.child? list cursor.idx with
  | none =>
      rw [plan_of_end hchild] at h
      cases h
  | some id =>
      refine ⟨id, rfl, ?_⟩
      rcases rule.plan_of_child hchild with
        ⟨hblank, hskip⟩ | ⟨hcounts, hop, start, stop, hspan, hgroup⟩ | ⟨hcounts, hnone, hpast⟩
      · cases hskip.symm.trans h
        exact Does.blank hblank
      · cases hgroup.symm.trans h
        exact Does.group hcounts hop hspan
      · cases hpast.symm.trans h
        exact Does.past hcounts hnone

theorem plan_fits {rule : BinaryRule} (hsound : rule.Sound)
    (hretag : forall category, rule.retag = some category ->
      category = .operator ∧ forall tree id, rule.isOp tree id = true ->
        (tree.isCategory id .operator || tree.isCategory id .wildcard) = true)
    {tree : Tree} {list : NodeId} {cursor : Cursor} {move : Move} (hcursor : cursor.Ordered)
    (hplan : rule.plan tree list cursor = some move) : move.Fits tree list cursor := by
  rcases does_of_plan hplan with ⟨id, hchild, hdoes⟩
  have hlt := Tree.child?_lt hchild
  cases hdoes with
  | blank _ =>
      exact Move.fits_skip hlt rfl
        (fun prev hprev => Nat.le_of_lt (hcursor.prev_lt prev hprev)) hcursor.opens_succ
  | @group start stop _ hop hspan =>
      rcases span?_accepts hspan with ⟨prev, _, hprev, _, _, _, hspan⟩
      rcases hsound tree list prev cursor.idx start stop (hcursor.prev_lt prev hprev) hlt hspan
        with ⟨hstart, hstop, hinside⟩
      have hprevLt := hcursor.prev_lt prev hprev
      constructor
      · intro other hother
        cases hother
      · intro other category hother
        rcases Option.map_eq_some_iff.mp hother with ⟨found, hfound, hpair⟩
        rw [Prod.mk.injEq] at hpair
        rcases hpair with ⟨rfl, rfl⟩
        exact ⟨(hretag found hfound).1, (hretag found hfound).2 tree id hop, by simp⟩
      · intro span hsome
        cases hsome
        dsimp only
        omega
      · refine ⟨?_, by simp⟩
        intro other hother
        cases hother
        exact Nat.lt_succ_self _
      · exact hlt
      · dsimp only
        omega
  | past _ _ =>
      refine Move.fits_skip hlt ?_ ?_ hcursor.opens_succ
      · rfl
      · intro prev hprev
        cases hprev
        exact Nat.le_refl _

end BinaryRule

theorem Pass.binary_sound {rule : BinaryRule} (hsound : rule.Sound)
    (hretag : rule.retag = none) : (Pass.binary rule).Sound := by
  intro tree list cursor move hcursor hplan
  refine BinaryRule.plan_fits hsound ?_ hcursor hplan
  intro category hcategory
  rw [hretag] at hcategory
  cases hcategory

theorem Pass.operator_sound : (Pass.binary .operator).Sound := by
  intro tree list cursor move hcursor hplan
  refine BinaryRule.plan_fits (BinaryRule.fromPrevToNext_sound rfl) ?_ hcursor hplan
  intro category hcategory
  cases hcategory
  exact ⟨rfl, fun tree id hop => hop⟩

/-!
# Matching pairs
-/

def Tree.opensPair (tree : Tree) (opening : TokenPattern) (id : NodeId) : Bool :=
  !tree.isWhitespace id && tree.hits id opening

def Tree.shutsPair (tree : Tree) (opening closing : TokenPattern) (id : NodeId) : Bool :=
  !tree.isWhitespace id && !tree.hits id opening && tree.hits id closing

namespace Pass

variable {kind : GroupKind} {opening closing : TokenPattern} {tree : Tree} {list : NodeId}
  {cursor : Cursor}

theorem planPair_of_end (h : tree.child? list cursor.idx = none) :
    planPair kind opening closing tree list cursor = none := by
  unfold planPair
  rw [h]

/-- At a child the walk looks into a group, notes an opening token, groups the
innermost open pair at a closing token, or goes on. -/
theorem planPair_of_child {id : NodeId} (h : tree.child? list cursor.idx = some id) :
    (tree.isGroup id = true ∧ tree.opensPair opening id = false ∧
      tree.shutsPair opening closing id = false ∧
      planPair kind opening closing tree list cursor =
        some { Move.skip cursor with visit := if tree.isKind id kind then none else some id }) ∨
    (tree.isGroup id = false ∧ tree.opensPair opening id = true ∧
      tree.shutsPair opening closing id = false ∧
      planPair kind opening closing tree list cursor =
        some (.skip { cursor with opens := cursor.idx :: cursor.opens })) ∨
    (tree.isGroup id = false ∧ tree.shutsPair opening closing id = true ∧
      exists start opens, cursor.opens = start :: opens ∧
        planPair kind opening closing tree list cursor = some
          { span := some { kind := kind, start := start, stop := cursor.idx },
            cursor := { idx := start + 1, opens := opens } }) ∨
    (tree.isGroup id = false ∧ tree.opensPair opening id = false ∧
      (tree.shutsPair opening closing id = true -> cursor.opens = []) ∧
      planPair kind opening closing tree list cursor = some (.skip cursor)) := by
  unfold planPair Tree.opensPair Tree.shutsPair
  rw [h]
  dsimp only
  cases hgroup : tree.isGroup id with
  | true =>
      have hblank : tree.isWhitespace id = false := Tree.tokenHas_of_isGroup hgroup _
      have hopen : tree.hits id opening = false := Tree.tokenHas_of_isGroup hgroup _
      have hclose : tree.hits id closing = false := Tree.tokenHas_of_isGroup hgroup _
      rw [hblank, hopen, hclose]
      exact Or.inl ⟨rfl, rfl, rfl, rfl⟩
  | false =>
      right
      cases tree.isWhitespace id with
      | true =>
          exact Or.inr (Or.inr ⟨rfl, rfl, by simp, rfl⟩)
      | false =>
          cases tree.hits id opening with
          | true =>
              exact Or.inl ⟨rfl, rfl, rfl, rfl⟩
          | false =>
              right
              cases tree.hits id closing with
              | false =>
                  exact Or.inr ⟨rfl, rfl, by simp, rfl⟩
              | true =>
                  cases cursor.opens with
                  | nil =>
                      exact Or.inr ⟨rfl, rfl, fun _ => rfl, rfl⟩
                  | cons start opens =>
                      exact Or.inl ⟨rfl, rfl, start, opens, rfl, rfl⟩

/-- A move of the walk for the pairs of a kind, with the child that it is for: it goes on,
looks into a group of another kind, notes an opening token, or groups the innermost pair. -/
inductive PairDoes (kind : GroupKind) (opening closing : TokenPattern) (tree : Tree)
    (cursor : Cursor) (id : NodeId) : Move -> Prop where
  | past : (tree.isGroup id = true -> tree.isKind id kind = true) ->
      tree.opensPair opening id = false ->
      (tree.shutsPair opening closing id = true -> cursor.opens = []) ->
      PairDoes kind opening closing tree cursor id (.skip cursor)
  | into : tree.isGroup id = true -> tree.isKind id kind = false ->
      PairDoes kind opening closing tree cursor id { Move.skip cursor with visit := some id }
  | opens : tree.isGroup id = false -> tree.opensPair opening id = true ->
      tree.shutsPair opening closing id = false ->
      PairDoes kind opening closing tree cursor id
        (.skip { cursor with opens := cursor.idx :: cursor.opens })
  | shuts {start : Nat} {opens : List Nat} : tree.isGroup id = false ->
      tree.shutsPair opening closing id = true -> cursor.opens = start :: opens ->
      PairDoes kind opening closing tree cursor id
        { span := some { kind := kind, start := start, stop := cursor.idx }
          cursor := { idx := start + 1, opens := opens } }

theorem pairDoes_of_planPair {move : Move}
    (h : planPair kind opening closing tree list cursor = some move) :
    exists id, tree.child? list cursor.idx = some id ∧
      PairDoes kind opening closing tree cursor id move := by
  cases hchild : tree.child? list cursor.idx with
  | none =>
      rw [planPair_of_end hchild] at h
      cases h
  | some id =>
      refine ⟨id, rfl, ?_⟩
      rcases @planPair_of_child kind opening closing _ _ _ _ hchild with
        ⟨hgroup, hopens, hshuts, hmove⟩ | ⟨hgroup, hopens, hshuts, hmove⟩ |
        ⟨hgroup, hshuts, start, opens, hwaiting, hmove⟩ | ⟨hgroup, hopens, hshuts, hmove⟩
      · cases hkind : tree.isKind id kind with
        | true =>
            rw [hmove, hkind] at h
            cases h
            exact PairDoes.past (fun _ => hkind) hopens fun h => by rw [hshuts] at h; cases h
        | false =>
            rw [hmove, hkind] at h
            cases h
            exact PairDoes.into hgroup hkind
      · cases hmove.symm.trans h
        exact PairDoes.opens hgroup hopens hshuts
      · cases hmove.symm.trans h
        exact PairDoes.shuts hgroup hshuts hwaiting
      · cases hmove.symm.trans h
        exact PairDoes.past (fun h => by rw [hgroup] at h; cases h) hopens hshuts

theorem pairDoes_of_plan {move : Move} (h : (Pass.pairs kind).plan tree list cursor = some move) :
    exists opening closing id, kind.opening? = some opening ∧ kind.closing? = some closing ∧
      tree.child? list cursor.idx = some id ∧
      PairDoes kind opening closing tree cursor id move := by
  unfold pairs at h
  dsimp only at h
  split at h
  · rename_i opening closing hopening hclosing
    rcases pairDoes_of_planPair h with ⟨id, hchild, hdoes⟩
    exact ⟨opening, closing, id, hopening, hclosing, hchild, hdoes⟩
  · cases h

end Pass

theorem Pass.pairs_sound (kind : GroupKind) : (Pass.pairs kind).Sound := by
  intro tree list cursor move hcursor hplan
  rcases pairDoes_of_plan hplan with ⟨opening, closing, id, _, _, hchild, hdoes⟩
  have hlt := Tree.child?_lt hchild
  have hskip : (Move.skip cursor).Fits tree list cursor :=
    Move.fits_skip hlt rfl (fun prev hprev => Nat.le_of_lt (hcursor.prev_lt prev hprev))
      hcursor.opens_succ
  cases hdoes with
  | past _ _ _ =>
      exact hskip
  | into _ _ =>
      refine ⟨?_, hskip.retag_operator, hskip.span_inside, hskip.ordered, hlt, hskip.advances⟩
      intro other hother
      cases hother
      exact ⟨hchild, rfl⟩
  | opens _ _ _ =>
      refine Move.fits_skip hlt ?_ ?_ hcursor.opens_push
      · rfl
      · exact fun prev hprev => Nat.le_of_lt (hcursor.prev_lt prev hprev)
  | @shuts start opens _ _ hwaiting =>
      have hordered := hcursor.opens_lt
      rw [hwaiting, List.pairwise_cons, List.pairwise_cons] at hordered
      rcases hordered with ⟨hstart, hopensLt, hopensOrdered⟩
      have hstartLt : start < cursor.idx := hstart start (by simp)
      constructor
      · intro other hother
        cases hother
      · intro other category hother
        cases hother
      · intro span hspan
        cases hspan
        exact ⟨Nat.le_of_lt hstartLt, hlt, by simp⟩
      · refine ⟨by simp, ?_⟩
        rw [List.pairwise_cons]
        exact ⟨fun idx hidx => Nat.lt_succ_of_lt (hopensLt idx hidx), hopensOrdered⟩
      · exact hlt
      · dsimp only
        omega

/-!
# All passes
-/

theorem Pass.all_sound : forall pass, pass ∈ Pass.all -> pass.Sound := by
  intro pass hpass
  unfold Pass.all at hpass
  simp only [List.mem_cons, List.not_mem_nil, or_false] at hpass
  rcases hpass with rfl | rfl | rfl | rfl | rfl | rfl | rfl | rfl | rfl | rfl | rfl | rfl | rfl |
    rfl | rfl | rfl | rfl | rfl | rfl | rfl | rfl | rfl
  · exact sound_of_seeker Seeker.comments_plan Seeker.comment_sound
  · exact pairs_sound _
  · exact pairs_sound _
  · exact sound_of_seeker Seeker.functions_plan Seeker.call_sound
  · exact sound_of_seeker Seeker.whereClauses_plan Seeker.whereWord_sound
  · exact pairs_sound _
  · exact binary_sound BinaryRule.period_sound rfl
  · exact binary_sound BinaryRule.subscript_sound rfl
  · exact sound_of_seeker Seeker.identifiers_plan Seeker.name_sound
  · exact sound_of_seeker Seeker.typedLiterals_plan Seeker.typeWord_sound
  · exact operator_sound
  · exact sound_of_seeker Seeker.orderings_plan Seeker.ordering_sound
  · exact binary_sound BinaryRule.typecast_sound rfl
  · exact binary_sound (BinaryRule.fromPrevToNext_sound rfl) rfl
  · exact sound_of_seeker Seeker.aliases_plan Seeker.aliased_sound
  · exact binary_sound BinaryRule.assignment_sound rfl
  · exact binary_sound (BinaryRule.fromPrevToNext_sound rfl) rfl
  · exact sound_of_seeker Seeker.trailingComments_plan Seeker.trailingComment_sound
  · exact binary_sound (BinaryRule.fromPrevToNext_sound rfl) rfl
  · exact pairs_sound _
  · exact pairs_sound _
  · exact pairs_sound _

end SqlLayout
