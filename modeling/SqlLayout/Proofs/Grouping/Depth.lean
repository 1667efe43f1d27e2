import SqlLayout.Proofs.Grouping.Resting

/-!
# How deep a grouped statement is

The last pass groups the blocks from BEGIN to END.  It pairs their tokens with a
stack and looks into every group that is not such a block, so that a success
bounds how many groups of other kinds lie on a path.  The blocks themselves cost
it no room, however many of them lie in each other.
-/

namespace SqlLayout

/-!
# Kinds that a pass does not make
-/

theorem Seeker.comment_ofKind : Seeker.comment.OfKind .comment := by
  intro tree list idx id span next h
  cases h
  rfl

namespace Pass

def Avoids (pass : Pass) (kind : GroupKind) : Prop :=
  forall tree list cursor move span, pass.plan tree list cursor = some move ->
    move.span = some span -> span.kind ≠ kind

theorem avoids_of_seeker {pass : Pass} {seeker : Seeker} {made kind : GroupKind}
    (hpass : pass.plan = seeker.plan) (hkind : seeker.OfKind made) (h : made ≠ kind) :
    pass.Avoids kind := by
  intro tree list cursor move span hplan hspan
  rw [hpass] at hplan
  rcases Seeker.plan_span hplan hspan with ⟨idx, id, next, _, _, hfound⟩
  rw [hkind tree list idx id span next hfound]
  exact h

theorem avoids_binary {rule : BinaryRule} {kind : GroupKind} (h : rule.kind ≠ kind) :
    (Pass.binary rule).Avoids kind := by
  intro tree list cursor move span hplan hspan
  rw [BinaryRule.plan_kind hplan hspan]
  exact h

theorem avoids_pairs {made kind : GroupKind} (h : made ≠ kind) :
    (Pass.pairs made).Avoids kind := by
  intro tree list cursor move span hplan hspan
  rcases pairDoes_of_plan hplan with ⟨_, _, id, _, _, _, hdoes⟩
  cases hdoes with
  | past _ _ _ => cases hspan
  | into _ _ => cases hspan
  | opens _ _ _ => cases hspan
  | shuts _ _ _ =>
      cases hspan
      exact h

theorem trailingComments_avoids {kind : GroupKind}
    (h : [GroupKind.parenthesis, .squareBrackets, .identifierList, .ifBlock, .forBlock,
      .beginBlock].elem kind = true) : Pass.trailingComments.Avoids kind := by
  intro tree list cursor move span hplan hspan
  rw [Seeker.trailingComments_plan] at hplan
  rcases Seeker.plan_span hplan hspan with ⟨idx, id, next, _, _, hfound⟩
  rcases Seeker.trailingComment_span hfound with ⟨prev, host, made, _, hhost, rfl, _⟩
  unfold commentHost? at hhost
  split at hhost
  · split at hhost
    · cases hhost
    · rename_i hfree
      cases hhost
      rintro rfl
      exact hfree h
  · cases hhost

def makers : List (GroupKind -> Bool) :=
  [(· == .comment), (· == .squareBrackets), (· == .parenthesis), (· == .function),
   (· == .whereClause), (· == .caseBlock), (· == .identifier), (· == .identifier),
   (· == .identifier), (· == .typedLiteral), (· == .operation), (· == .identifier),
   (· == .identifier), (· == .identifier), (· == .identifier), (· == .assignment),
   (· == .comparison),
   fun kind => !List.elem kind [.parenthesis, .squareBrackets, .identifierList, .ifBlock,
     .forBlock, .beginBlock],
   (· == .identifierList), (· == .ifBlock), (· == .forBlock), (· == .beginBlock)]

theorem makers_sound (kind : GroupKind) : List.Forall₂
    (fun (pass : Pass) (made : GroupKind -> Bool) => made kind = false -> pass.Avoids kind)
    Pass.all makers := by
  have hne : forall {made : GroupKind}, (kind == made) = false -> made ≠ kind :=
    fun h => (beq_eq_false_iff_ne.mp h).symm
  unfold Pass.all makers
  repeat' constructor
  · exact fun h => avoids_of_seeker Seeker.comments_plan Seeker.comment_ofKind (hne h)
  · exact fun h => avoids_pairs (hne h)
  · exact fun h => avoids_pairs (hne h)
  · exact fun h => avoids_of_seeker Seeker.functions_plan Seeker.call_ofKind (hne h)
  · exact fun h => avoids_of_seeker Seeker.whereClauses_plan Seeker.whereWord_ofKind (hne h)
  · exact fun h => avoids_pairs (hne h)
  · exact fun h => avoids_binary (hne h)
  · exact fun h => avoids_binary (hne h)
  · exact fun h => avoids_of_seeker Seeker.identifiers_plan Seeker.name_ofKind (hne h)
  · exact fun h => avoids_of_seeker Seeker.typedLiterals_plan Seeker.typeWord_ofKind (hne h)
  · exact fun h => avoids_binary (hne h)
  · exact fun h => avoids_of_seeker Seeker.orderings_plan Seeker.ordering_ofKind (hne h)
  · exact fun h => avoids_binary (hne h)
  · exact fun h => avoids_binary (hne h)
  · exact fun h => avoids_of_seeker Seeker.aliases_plan Seeker.aliased_ofKind (hne h)
  · exact fun h => avoids_binary (hne h)
  · exact fun h => avoids_binary (hne h)
  · exact fun h => trailingComments_avoids ((Bool.not_eq_false' _).mp h)
  · exact fun h => avoids_binary (hne h)
  · exact fun h => avoids_pairs (hne h)
  · exact fun h => avoids_pairs (hne h)
  · exact fun h => avoids_pairs (hne h)

theorem take_avoids {kind : GroupKind} {n : Nat}
    (h : ((makers.take n).any fun made => made kind) = false) :
    forall pass, pass ∈ Pass.all.take n -> pass.Avoids kind := by
  have hsound := List.forall₂_take n (makers_sound kind)
  generalize Pass.all.take n = passes at hsound ⊢
  generalize makers.take n = makers at h hsound
  intro pass hpass
  induction hsound with
  | nil =>
      cases hpass
  | @cons first made passes makers hfirst hrest ih =>
      rw [List.any_cons, Bool.or_eq_false_iff] at h
      rcases List.mem_cons.mp hpass with rfl | hlater
      · exact hfirst h.1
      · exact ih h.2 hlater

end Pass

def Tree.StepAvoiding (kind : GroupKind) (tree after : Tree) : Prop :=
  tree.GroupStep after ∧ forall id, after.isKind id kind = true -> tree.isKind id kind = true

theorem Pass.takes_stepAvoiding {pass : Pass} {kind : GroupKind} (hsound : pass.Sound)
    (havoids : pass.Avoids kind) : pass.Takes (Tree.StepAvoiding kind) := by
  intro tree list cursor move hwf hcursor hplan hspan
  rcases takes_groupStep hsound tree list cursor move hwf hcursor hplan hspan with
    ⟨after, hgroups, hstep⟩
  have hfits := hsound tree list cursor move hcursor hplan
  have htag := Move.retagged_tagged hfits
  refine ⟨after, hgroups, hstep, ?_⟩
  intro id hid
  rw [Tree.isKind, ← htag.kind?_eq]
  rcases hgroups.cases hwf hfits with
    ⟨span, front, moved, back, hsome, _, _, _,
      ⟨hwrapped, _⟩ | ⟨group, rest, _, _, _, habsorbed⟩⟩
  · by_cases hnew : id = (move.tagged tree).size
    · rw [hnew, Tree.isKind, Tree.kind?_of_content? hwrapped.content?_new] at hid
      have hkind : span.kind = kind := by
        simpa using hid
      exact absurd hkind (havoids tree list cursor move span hplan hsome)
    · rw [Tree.isKind, hwrapped.kind?_of_ne hnew] at hid
      exact hid
  · rw [Tree.isKind, (habsorbed.kind?_eq_and_token?_eq id).1] at hid
    exact hid

theorem Tree.not_isKind_of_steps {kind : GroupKind} {tree after : Tree}
    (h : Relation.ReflTransGen (Tree.StepAvoiding kind) tree after) {id : NodeId}
    (hid : tree.isKind id kind = false) : after.isKind id kind = false := by
  induction h with
  | refl =>
      exact hid
  | tail _ hlast ih =>
      apply Bool.eq_false_iff.mpr
      intro hkind
      rw [hlast.2 id hkind] at ih
      cases ih

theorem Tree.WellFormed.lacks_of_not_isKind {kind : GroupKind} {tree : Tree}
    (h : tree.WellFormed) (hnone : forall id, tree.isKind id kind = false) {id : NodeId}
    (hid : id < tree.size) : Rose.Lacks { kind := (· == kind) } (tree.rose id) := by
  induction id using h.induction_up with
  | step id ih =>
      rcases Tree.isGroup_or_token? hid with hgroup | ⟨token, htoken⟩
      · rcases Tree.isGroup_iff_kind?.mp hgroup with ⟨other, hkind⟩
        rw [h.rose_of_kind? hkind]
        apply Rose.Lacks.group
        · have hother := hnone id
          rw [Tree.isKind, hkind] at hother
          simpa using hother
        · intro child hchild
          rcases List.mem_map.mp hchild with ⟨below, hmem, rfl⟩
          exact ih below hmem (h.child_lt_size hmem)
      · rw [Tree.rose_of_token? htoken]
        exact Rose.Lacks.token rfl

/-!
# The walk of a pass that pairs tokens
-/

/-- Roses whose nesting is bounded, and roses behind them that hold no group of a
kind yet. -/
structure Rose.Paired (kind : GroupKind) (room : Nat) (left right : List Rose) : Prop where
  before : forall rose, rose ∈ left -> Rose.Nests (· == kind) room rose
  behind : forall rose, rose ∈ right -> Rose.Lacks { kind := (· == kind) } rose

namespace Rose.Paired

variable {kind : GroupKind} {room : Nat} {left right : List Rose}

theorem tail {rose : Rose} (h : Paired kind room left (rose :: right)) :
    Paired kind room left right :=
  ⟨h.before, fun other hother => h.behind other (List.mem_cons_of_mem _ hother)⟩

theorem past {rose : Rose} (h : Paired kind room left right)
    (hrose : Nests (· == kind) room rose) : Paired kind room (left ++ [rose]) right := by
  refine ⟨?_, h.behind⟩
  intro other hother
  rcases List.mem_append.mp hother with hbefore | hlast
  · exact h.before other hbefore
  · rw [List.mem_singleton.mp hlast]
    exact hrose

/-- A pair that ends in front of the place becomes one rose, the last one in
front of the place. -/
theorem regroup {span : Span} {roses : List Rose} (h : Paired kind room left right)
    (hspan : span.Regroups (left ++ right) roses) (hkind : span.kind = kind)
    (hextend : span.extend = false) (hstart : span.start <= left.length)
    (hstop : left.length = span.stop + 1) :
    exists left right, roses = left ++ right ∧ left.length = span.start + 1 ∧
      Paired kind room left right := by
  rcases hspan.cut hstart (Nat.le_of_eq hstop) with
    ⟨front, before, behind, back, group, hleft, hright, hfront, hmiddle, hroses, hcase⟩
  have hnil : behind = [] := by
    apply List.eq_nil_of_length_eq_zero
    rw [hleft, List.length_append] at hstop
    omega
  rw [hnil, List.append_nil] at hcase
  rw [hnil, List.nil_append] at hright
  have hgroup : group = .group kind before := by
    rcases hcase with ⟨hgroup, _⟩ | ⟨_, _, hyes, _⟩
    · rw [hgroup, hkind]
    · rw [hextend] at hyes
      cases hyes
  rw [hleft, hright] at h
  refine ⟨front ++ [group], back, by rw [hroses, List.append_assoc]; rfl, ?_, ?_⟩
  · rw [List.length_append, hfront]
    rfl
  · refine ⟨?_, h.behind⟩
    intro rose hrose
    rcases List.mem_append.mp hrose with hmem | hlast
    · exact h.before rose (List.mem_append_left _ hmem)
    · rw [List.mem_singleton.mp hlast, hgroup]
      apply Nests.free
      · exact beq_self_eq_true kind
      · intro child hchild
        exact h.before child (List.mem_append_right _ hchild)

end Rose.Paired

namespace Pass

open Grouping

/-- The list at a place of the walk. -/
structure PairedAt (kind : GroupKind) (room : Nat) (list : NodeId) (host : GroupKind)
    (tree : Tree) (cursor : Cursor) : Prop where
  host : tree.kind? list = some host
  roses : exists left right, (tree.children list).map tree.rose = left ++ right ∧
    left.length = cursor.idx ∧ Rose.Paired kind room left right

/-- What the pass for the pairs of a kind does at a child: it goes on, looks into a group
of another kind, notes an opening token, or groups the innermost pair. -/
inductive PairMoved (kind : GroupKind) (opening closing : TokenPattern)
    (visit : NodeId -> Grouping Unit) (list : NodeId) (tree : Tree) (cursor : Cursor)
    (id : NodeId) : Tree -> Move -> Prop where
  | past : (tree.isGroup id = true -> tree.isKind id kind = true) ->
      tree.opensPair opening id = false ->
      (tree.shutsPair opening closing id = true -> cursor.opens = []) ->
      PairMoved kind opening closing visit list tree cursor id tree (.skip cursor)
  | into {after : Tree} : tree.isGroup id = true -> tree.isKind id kind = false ->
      exec (visit id) tree = (.ok (), after) ->
      PairMoved kind opening closing visit list tree cursor id after
        { Move.skip cursor with visit := some id }
  | opens : tree.isGroup id = false -> tree.opensPair opening id = true ->
      tree.shutsPair opening closing id = false ->
      PairMoved kind opening closing visit list tree cursor id tree
        (.skip { cursor with opens := cursor.idx :: cursor.opens })
  | shuts {after : Tree} {start : Nat} {opens : List Nat} {move : Move} :
      tree.isGroup id = false -> tree.shutsPair opening closing id = true ->
      cursor.opens = start :: opens ->
      move = { span := some { kind := kind, start := start, stop := cursor.idx },
               cursor := { idx := start + 1, opens := opens } } ->
      move.Groups list tree after ->
      PairMoved kind opening closing visit list tree cursor id after move

variable {kind host : GroupKind} {opening closing : TokenPattern}
  (hopening : kind.opening? = some opening) (hclosing : kind.closing? = some closing)
  {limit room : Nat} {list : NodeId}
include hopening hclosing

theorem pairMoved_of_moved {visit : NodeId -> Grouping Unit} {tree after : Tree}
    {cursor : Cursor} {move : Move}
    (hplan : (Pass.pairs kind).plan tree list cursor = some move)
    (hmoved : Moved visit list move tree after) :
    exists id, tree.child? list cursor.idx = some id ∧
      PairMoved kind opening closing visit list tree cursor id after move := by
  rw [pairs_plan hopening hclosing] at hplan
  rcases pairDoes_of_planPair hplan with ⟨id, hchild, hdoes⟩
  refine ⟨id, hchild, ?_⟩
  cases hdoes with
  | past hkind hopens hshuts =>
      cases hmoved with
      | skip _ _ heq =>
          subst heq
          exact PairMoved.past hkind hopens hshuts
      | visit hvisited _ _ =>
          cases hvisited
      | span hspan _ =>
          cases hspan
  | into hgroup hkind =>
      cases hmoved with
      | skip hnone _ _ =>
          cases hnone
      | visit hvisited _ hexec =>
          cases hvisited
          exact PairMoved.into hgroup hkind hexec
      | span hspan _ =>
          cases hspan
  | opens hgroup hopens hshuts =>
      cases hmoved with
      | skip _ _ heq =>
          subst heq
          exact PairMoved.opens hgroup hopens hshuts
      | visit hvisited _ _ =>
          cases hvisited
      | span hspan _ =>
          cases hspan
  | shuts hgroup hshuts hwaiting =>
      cases hmoved with
      | skip _ hnone _ =>
          cases hnone
      | visit hvisited _ _ =>
          cases hvisited
      | span _ hgroups =>
          exact PairMoved.shuts hgroup hshuts hwaiting rfl hgroups

/-- Each move keeps what is known of the list, if the visits bound the nesting of
the groups that they look into. -/
theorem pairedAt_of_moved
    (hvisit : forall (tree after : Tree) id other, tree.WellFormed ->
      tree.kind? id = some other -> other ≠ kind ->
      Rose.Lacks { kind := (· == kind) } (tree.rose id) ->
      exec ((Pass.pairs kind).run limit room id) tree = (.ok (), after) ->
      tree.ChangesWithin id after ∧ Rose.Nests (· == kind) room (after.rose id))
    {tree after : Tree} {cursor : Cursor} {move : Move} (hwf : tree.WellFormed)
    (hfits : move.Fits tree list cursor) (h : PairedAt kind room list host tree cursor)
    (hplan : (Pass.pairs kind).plan tree list cursor = some move)
    (hmoved : Moved ((Pass.pairs kind).run limit room) list move tree after) :
    PairedAt kind room list host after move.cursor := by
  rcases h with ⟨hhost, left, right, hroses, hlength, hpaired⟩
  rcases pairMoved_of_moved hopening hclosing hplan hmoved with ⟨id, hchild, hdone⟩
  have hmem : id ∈ tree.children list := List.mem_of_getElem? hchild
  have hplace : tree.child? list left.length = some id := by
    rw [hlength]
    exact hchild
  rcases Tree.exists_rose_cons hroses hplace with ⟨rest, rfl⟩
  have hlacks := hpaired.behind _ List.mem_cons_self
  have hpast : forall rose, (left ++ [rose]).length = cursor.idx + 1 := by
    intro rose
    rw [List.length_append, hlength]
    rfl
  have htoken : tree.isGroup id = false -> Rose.Nests (· == kind) room (tree.rose id) := by
    intro hgroup
    rcases Tree.isGroup_or_token? (hwf.child_lt_size hmem) with hsome | ⟨token, hsome⟩
    · rw [hgroup] at hsome
      cases hsome
    · rw [Tree.rose_of_token? hsome]
      exact Rose.Nests.token
  have hother : forall other, tree.kind? id = some other -> other ≠ kind := by
    rintro other hkind rfl
    rw [hwf.rose_of_kind? hkind, Rose.lacks_group_iff] at hlacks
    simp at hlacks
  have hpassed : (tree.isGroup id = true -> tree.isKind id kind = true) ->
      forall next : Cursor, next.idx = cursor.idx + 1 ->
        PairedAt kind room list host tree next := by
    intro hgroup next hnext
    have hnone : tree.isGroup id = false := by
      apply Bool.eq_false_iff.mpr
      intro hsome
      exact hother kind (beq_iff_eq.mp (hgroup hsome)) rfl
    refine ⟨hhost, left ++ [tree.rose id], rest, ?_, ?_, hpaired.tail.past (htoken hnone)⟩
    · rw [hroses, List.append_assoc]
      rfl
    · rw [hnext]
      exact hpast _
  cases hdone with
  | past hkind _ _ =>
      exact hpassed hkind _ rfl
  | opens hgroup _ _ =>
      exact hpassed (fun hsome => absurd hsome (Bool.eq_false_iff.mp hgroup)) _ rfl
  | into hgroup _ hexec =>
      rcases Tree.isGroup_iff_kind?.mp hgroup with ⟨other, hkind⟩
      rcases hvisit tree after id other hwf hkind (hother other hkind) hlacks hexec with
        ⟨hchanges, hnests⟩
      refine ⟨?_, left ++ [after.rose id], rest, ?_, ?_, ?_⟩
      · rw [(Tree.observers_congr (hchanges.content?_upper hwf hmem)).1]
        exact hhost
      · rw [hchanges.roses_upper hwf hroses hplace, List.append_assoc]
        rfl
      · exact hpast _
      · exact hpaired.tail.past hnests
  | @shuts after start _ _ hgroup _ _ hmove hgroups =>
      rcases hgroups.regroups hwf hfits with ⟨span, hsome, hkind, hregroups⟩
      rw [hmove] at hsome
      cases hsome
      have hstart := (hfits.span_inside _ (congrArg Move.span hmove)).1
      have hlength' := hpast (tree.rose id)
      have htagged : move.tagged tree = tree := by
        rw [hmove]
        rfl
      rw [htagged, hroses, List.append_cons] at hregroups
      rcases (hpaired.tail.past (htoken hgroup)).regroup hregroups rfl rfl
        (by dsimp only at *; omega) hlength' with ⟨before, behind, hafter, hbefore, hpaired'⟩
      rw [hmove]
      exact ⟨hkind.trans hhost, before, behind, hafter, hbefore, hpaired'⟩

/-- A run with room left is a walk along the list; the groups in it are looked
into on the way. -/
theorem exec_pairs_run (tree : Tree) :
    exec ((Pass.pairs kind).run limit (room + 1) list) tree =
      exec (walk ((Pass.pairs kind).run limit room) list (Pass.pairs kind).plan
        (tree.childCount list) {}) tree := by
  have happlies : (Pass.pairs kind).applies tree list = true := by
    unfold pairs
    dsimp only
    rw [hopening, hclosing]
    rfl
  have hnone : (tree.sublists list).filter ((Pass.pairs kind).enters tree) = [] :=
    List.filter_eq_nil_iff.mpr fun _ _ => Bool.false_ne_true
  unfold run
  rw [exec_get_bind, hnone]
  change exec ((Pass.pairs kind).walkAlong limit room list) tree = _
  unfold walkAlong
  rw [exec_get_bind, if_pos happlies]

theorem childCount_le_of_pairs_end {tree : Tree} {cursor : Cursor}
    (h : (Pass.pairs kind).plan tree list cursor = none ∨ tree.childCount list <= cursor.idx) :
    tree.childCount list <= cursor.idx := by
  rcases h with hplan | hcount
  · apply List.getElem?_eq_none_iff.mp
    change tree.child? list cursor.idx = none
    cases hchild : tree.child? list cursor.idx with
    | none =>
        rfl
    | some id =>
        rw [pairs_plan hopening hclosing] at hplan
        rcases @planPair_of_child kind opening closing _ _ _ _ hchild with
          ⟨_, _, _, hmove⟩ | ⟨_, _, _, hmove⟩ | ⟨_, _, start, opens, _, hmove⟩ | ⟨_, _, _, hmove⟩
        all_goals
          rw [hmove] at hplan
          cases hplan
  · exact hcount

/-- A run that succeeds has had room for every group on a path that is not of its
kind. -/
theorem nests_of_pairs_run (hsound : (Pass.pairs kind).Sound) {tree after : Tree}
    (hwf : tree.WellFormed) (hhost : tree.kind? list = some host) (hne : host ≠ kind)
    (hlacks : Rose.Lacks { kind := (· == kind) } (tree.rose list))
    (h : exec ((Pass.pairs kind).run limit room list) tree = (.ok (), after)) :
    Rose.Nests (· == kind) room (after.rose list) := by
  have htags := tagsChildren_pairs kind
  induction room generalizing list host tree after with
  | zero =>
      cases h
  | succ room ih =>
      rw [hwf.rose_of_kind? hhost, Rose.lacks_group_iff] at hlacks
      have hafter : after.WellFormed := by
        have hwithin := run_changesWithin hsound htags limit (room + 1) list hwf
        rw [h] at hwithin
        exact hwithin.wellFormed hwf
      rw [exec_pairs_run hopening hclosing] at h
      have hchanges : forall id (tree : Tree), tree.WellFormed ->
          tree.ChangesWithin id (exec ((Pass.pairs kind).run limit room id) tree).2 :=
        fun id _ hwf => run_changesWithin hsound htags limit room id hwf
      have hvisit : forall (tree after : Tree) id other, tree.WellFormed ->
          tree.kind? id = some other -> other ≠ kind ->
          Rose.Lacks { kind := (· == kind) } (tree.rose id) ->
          exec ((Pass.pairs kind).run limit room id) tree = (.ok (), after) ->
          tree.ChangesWithin id after ∧ Rose.Nests (· == kind) room (after.rose id) := by
        intro tree after id other hwf hkind hother hlacks hexec
        refine ⟨?_, ih hwf hkind hother hlacks hexec⟩
        have hwithin := hchanges id tree hwf
        rw [hexec] at hwithin
        exact hwithin
      have hstart : PairedAt kind room list host tree {} :=
        ⟨hhost, [], _, rfl, rfl, List.forall_mem_nil _, hlacks.2⟩
      rcases walk_rule hsound htags hchanges
          (fun tree after cursor move hwf hcursor hinvariant hplan hmoved =>
            pairedAt_of_moved hopening hclosing hvisit hwf
              (hsound tree list cursor move hcursor hplan) hinvariant hplan hmoved)
          hwf (Cursor.ordered_at 0) (Nat.le_add_left _ _) hstart h with
            ⟨last, ⟨hhost', left, right, hroses, hlength, hpaired⟩, hend⟩
      have hcount := childCount_le_of_pairs_end hopening hclosing hend
      have hlengths := congrArg List.length hroses
      rw [List.length_map, List.length_append, hlength] at hlengths
      have hnil : right = [] := by
        apply List.eq_nil_of_length_eq_zero
        unfold Tree.childCount at hcount
        omega
      rw [hnil, List.append_nil] at hroses
      rw [hafter.rose_of_kind? hhost', hroses]
      exact Rose.Nests.group hpaired.before

end Pass

/-!
# The bound
-/

namespace Grouping

theorem exec_forM_append {f : Pass -> Grouping Unit} (first rest : List Pass) (tree : Tree) :
    exec ((first ++ rest).forM f) tree =
      exec (first.forM f >>= fun _ => rest.forM f) tree := by
  rw [List.forM_eq_forM, List.forM_append]

end Grouping

open Grouping

namespace Statement

theorem kind?_root_ofTokens (tokens : List Token) :
    (ofTokens tokens).tree.kind? (ofTokens tokens).root = some .statement := by
  rw [kind?_ofTokens, root_ofTokens, if_pos rfl]

theorem isKind_ofTokens (tokens : List Token) (id : NodeId) {kind : GroupKind}
    (h : kind ≠ .statement) : (ofTokens tokens).tree.isKind id kind = false := by
  unfold Tree.isKind
  rw [kind?_ofTokens]
  by_cases hroot : id = tokens.length
  · rw [if_pos hroot]
    simpa using Ne.symm h
  · rw [if_neg hroot]
    rfl

/-- Passes that are given nothing of what they need leave a flat statement as it
is. -/
theorem idle_of_lacks {limit : Nat} (hlimit : 0 < limit) {tokens : List Token}
    {pairs : List (Survey × Trigger)} (hpairs : pairs ⊆ Survey.triggers)
    (hlacks : forall pair, pair ∈ pairs -> pair.2.kind .statement = false ∧
      forall t, t ∈ tokens -> pair.2.token t = false) :
    Idle ((pairs.map fun pair => pair.1.pass).forM fun pass =>
        pass.run limit limit (ofTokens tokens).root)
      (ofTokens tokens).tree := by
  have hwf := wellFormed_ofTokens tokens
  have hsafe : forall pass, pass ∈ pairs.map (fun pair => pair.1.pass) ->
      forall tree : Tree, tree.WellFormed -> Safe Tree.GroupStep limit tree
        (exec (pass.run limit limit (ofTokens tokens).root) tree) := by
    intro pass hpass tree htree
    rcases List.mem_map.mp hpass with ⟨pair, hpair, rfl⟩
    have hmem : pair.1.pass ∈ Pass.all := List.mem_map_of_mem (f := fun pair => pair.1.pass)
      (hpairs hpair)
    exact Pass.run_steps (Pass.all_sound _ hmem) limit limit _ htree
  apply (idle_forM_iff hwf hsafe).mpr
  intro pass hpass
  rcases List.mem_map.mp hpass with ⟨pair, hpair, rfl⟩
  rcases hlacks pair hpair with ⟨hkind, htoken⟩
  apply Survey.idle_of_mem_triggers (hpairs hpair) hwf limit (isGroup_root tokens)
  · rw [rose_ofTokens]
    apply Rose.Lacks.group hkind
    intro child hchild
    rcases List.mem_map.mp hchild with ⟨token, hmem, rfl⟩
    exact Rose.Lacks.token (htoken token hmem)
  · rw [rose_ofTokens]
    apply Rose.Nests.mono _ hlimit
    apply Rose.Nests.group
    intro child hchild
    rcases List.mem_map.mp hchild with ⟨token, _, rfl⟩
    exact Rose.Nests.token

variable {tokens : List Token} {limit : Nat} {after : Statement}

theorem kind?_root_of_group (h : (ofTokens tokens).group limit = .ok after) :
    after.tree.kind? after.root = some .statement := by
  have hsteps := (groupInPlace_steps (wellFormed_ofTokens tokens) limit).steps
  rw [group_ok_iff.mp h] at hsteps
  rw [(group_ok_iff_exec.mp h).2, Tree.kind?_of_steps hsteps (root_lt_size tokens),
    kind?_root_ofTokens]

theorem exec_last_of_group (h : (ofTokens tokens).group limit = .ok after) :
    after.root = (ofTokens tokens).root ∧
      exists tree, Relation.ReflTransGen (Tree.StepAvoiding .beginBlock)
        (ofTokens tokens).tree tree ∧
        exec ((Pass.pairs .beginBlock).run limit limit after.root) tree = (.ok (), after.tree) := by
  rcases group_ok_iff_exec.mp h with ⟨hexec, hroot⟩
  change exec ((Pass.all.dropLast ++ [Pass.pairs .beginBlock]).forM fun pass =>
    pass.run limit limit (ofTokens tokens).root) (ofTokens tokens).tree = _ at hexec
  have hbefore : Safe (Tree.StepAvoiding .beginBlock) limit (ofTokens tokens).tree
      (exec (Pass.all.dropLast.forM fun pass => pass.run limit limit (ofTokens tokens).root)
        (ofTokens tokens).tree) := by
    have hkeeps : KeepsWellFormed (Tree.StepAvoiding .beginBlock) :=
      fun _ _ hwf hstep => hstep.1.wellFormed hwf
    have hmakers : ((Pass.makers.take 21).any fun made => made .beginBlock) = false := by
      decide
    have havoids : forall pass, pass ∈ Pass.all.dropLast -> pass.Avoids .beginBlock :=
      Pass.take_avoids hmakers
    apply forM_safe hkeeps _ (wellFormed_ofTokens tokens)
    intro pass hpass tree htree
    have hsound := Pass.all_sound pass (List.mem_of_mem_dropLast hpass)
    exact Pass.run_safe hsound (Pass.takes_stepAvoiding hsound (havoids pass hpass))
      hkeeps limit (ofTokens tokens).root htree
  rw [exec_forM_append, exec_bind] at hexec
  rcases hfirst : exec (Pass.all.dropLast.forM fun pass => pass.run limit limit
    (ofTokens tokens).root) (ofTokens tokens).tree with ⟨e | u, tree⟩
  · rw [hfirst] at hexec
    cases hexec
  · rw [hfirst] at hexec hbefore
    refine ⟨hroot, tree, hbefore.steps, ?_⟩
    change exec ((Pass.pairs .beginBlock).run limit limit (ofTokens tokens).root >>=
      fun _ => pure ()) tree = _ at hexec
    rw [exec_bind] at hexec
    rw [hroot]
    rcases hlast : exec ((Pass.pairs .beginBlock).run limit limit (ofTokens tokens).root) tree with
      ⟨e | u, last⟩
    · rw [hlast] at hexec
      cases hexec
    · rw [hlast] at hexec
      exact hexec

/-- A path of a grouped statement has no more groups than the limit, besides the
blocks from BEGIN to END. -/
theorem nests_of_group (h : (ofTokens tokens).group limit = .ok after) :
    after.tree.WellFormed ∧ Rose.Nests (· == .beginBlock) limit (after.tree.rose after.root) := by
  have hwf := wellFormed_ofTokens tokens
  have hsafe := groupInPlace_steps hwf limit
  rw [group_ok_iff.mp h] at hsafe
  refine ⟨Tree.groupStep_keepsWellFormed.run hwf hsafe.steps, ?_⟩
  rcases exec_last_of_group h with ⟨hroot, tree, havoiding, hexec⟩
  have hsteps : Relation.ReflTransGen Tree.GroupStep (ofTokens tokens).tree tree :=
    havoiding.lift id fun _ _ hstep => hstep.1
  have htree := Tree.groupStep_keepsWellFormed.run hwf hsteps
  have hkind : tree.kind? after.root = some .statement := by
    rw [hroot, Tree.kind?_of_steps hsteps (root_lt_size tokens), kind?_root_ofTokens]
  apply Pass.nests_of_pairs_run rfl rfl (Pass.all_sound _ (by simp [Pass.all])) htree hkind
    (by decide) _ hexec
  apply htree.lacks_of_not_isKind
  · intro id
    exact Tree.not_isKind_of_steps havoiding (isKind_ofTokens tokens id (by decide))
  · exact Tree.lt_size_of_isGroup (Tree.isGroup_iff_kind?.mpr ⟨_, hkind⟩)

end Statement
end SqlLayout
