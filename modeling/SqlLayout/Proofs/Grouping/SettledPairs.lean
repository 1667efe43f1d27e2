import SqlLayout.Proofs.Grouping.Settling

/-!
# Pairs that one run settles

The stack of a walk for pairs holds the positions of all opening tokens before the
place, so that a closing token is passed over only if no opening one stands before it.
With the rules this makes fourteen passes of which a second run changes nothing.
-/

namespace SqlLayout

open Grouping

theorem GroupKind.isSome_closing {kind : GroupKind} (h : kind.opening?.isSome = true) :
    exists opening closing, kind.opening? = some opening ∧ kind.closing? = some closing := by
  cases kind <;> first | exact ⟨_, _, rfl, rfl⟩ | cases h

theorem GroupKind.closing_category {kind : GroupKind} {opening closing : TokenPattern}
    (hopening : kind.opening? = some opening) (hclosing : kind.closing? = some closing) :
    closing.category ≠ .operator ∧ closing.category ≠ .wildcard := by
  rcases delimits_or_words hopening hclosing with hdelimits | ⟨_, hword⟩
  · exact hdelimits.category_ne.2
  · rw [hword]
    exact ⟨nofun, nofun⟩

theorem Tree.pairTests_of_isGroup {tree : Tree} {id : NodeId} (h : tree.isGroup id = true)
    (opening closing : TokenPattern) :
    tree.opensPair opening id = false ∧ tree.shutsPair opening closing id = false := by
  unfold opensPair shutsPair hits
  simp only [tokenHas_of_isGroup h, Bool.and_false, and_self]

theorem ne_of_mem_take {alpha : Type} {items : List alpha} (hnodup : items.Nodup) {idx : Nat}
    {item other : alpha} (hitem : items[idx]? = some item) (hother : other ∈ items.take idx) :
    other ≠ item := by
  rintro rfl
  rcases List.mem_iff_getElem?.mp hother with ⟨j, hj⟩
  rw [List.getElem?_take] at hj
  split at hj
  · rename_i hlt
    have hlength := (List.getElem?_eq_some_iff.mp hj).1
    exact Nat.ne_of_lt hlt ((List.getElem?_inj hlength hnodup).mp (hj.trans hitem.symm))
  · cases hj

namespace Pass

variable {kind : GroupKind} {opening closing : TokenPattern}
  (hopening : kind.opening? = some opening) (hclosing : kind.closing? = some closing)
  {limit room : Nat} {list : NodeId} {tree after : Tree} {cursor : Cursor} {move : Move}
include hopening hclosing

/-!
# The walk
-/

omit hopening hclosing in
theorem closesPair_iff {idx : Nat} :
    tree.closesPair opening closing list idx = true <->
      exists id, tree.child? list idx = some id ∧ tree.shutsPair opening closing id = true ∧
        exists start first, start < idx ∧ tree.child? list start = some first ∧
          tree.opensPair opening first = true := by
  unfold Tree.closesPair
  cases hchild : tree.child? list idx with
  | none =>
      simp
  | some id =>
      dsimp only
      rw [Bool.and_eq_true, List.any_eq_true]
      constructor
      · rintro ⟨hshuts, first, hmem, hopens⟩
        rcases List.mem_iff_getElem?.mp hmem with ⟨start, hstart⟩
        rw [List.getElem?_take] at hstart
        split at hstart
        · rename_i hlt
          exact ⟨id, rfl, hshuts, start, first, hlt, hstart, hopens⟩
        · cases hstart
      · rintro ⟨_, hsame, hshuts, start, first, hlt, hstart, hopens⟩
        cases hsame
        exact ⟨hshuts, first, Tree.mem_take_of_child? hstart hlt, hopens⟩

/-- The stack holds the opening tokens before the place, no closing one has been passed
over behind them, and the groups before the place are left as they are. -/
structure PairsSettledTo (kind : GroupKind) (opening closing : TokenPattern) (limit room : Nat)
    (list : NodeId) (tree : Tree) (cursor : Cursor) : Prop where
  waits : forall idx id, idx < cursor.idx -> tree.child? list idx = some id ->
    (tree.opensPair opening id = true <-> idx ∈ cursor.opens)
  rests : forall idx, idx < cursor.idx -> tree.closesPair opening closing list idx = false
  groups : (Survey.ofPairs kind).LeavesGroups limit room tree
    ((tree.children list).take cursor.idx)

omit hopening hclosing in
theorem PairsSettledTo.past {id : NodeId} {opens : List Nat}
    (h : PairsSettledTo kind opening closing limit room list tree cursor)
    (hcursor : cursor.Ordered) (hchild : tree.child? list cursor.idx = some id)
    (hwaits : forall idx, idx ∈ opens <->
      idx ∈ cursor.opens ∨ (idx = cursor.idx ∧ tree.opensPair opening id = true))
    (hshuts : tree.shutsPair opening closing id = true -> cursor.opens = [])
    (hgroup : tree.isGroup id = true -> (Survey.ofPairs kind).opens tree id = true ->
      Idle ((Pass.pairs kind).run limit room id) tree) :
    PairsSettledTo kind opening closing limit room list tree
      (Move.skip { cursor with opens := opens }).cursor := by
  have hbefore : cursor.idx ∉ cursor.opens := fun hmem =>
    Nat.lt_irrefl _ ((List.pairwise_cons.mp hcursor.opens_lt).1 _ hmem)
  refine ⟨?_, ?_, ?_⟩
  · intro idx other hlt hother
    dsimp only [Move.skip] at hlt ⊢
    rw [hwaits]
    rcases Nat.lt_or_eq_of_le (Nat.le_of_lt_succ hlt) with hearlier | rfl
    · rw [h.waits idx other hearlier hother]
      simp [Nat.ne_of_lt hearlier]
    · cases hchild.symm.trans hother
      simp [hbefore]
  · intro idx hlt
    rcases Nat.lt_or_eq_of_le (Nat.le_of_lt_succ hlt) with hearlier | rfl
    · exact h.rests idx hearlier
    · apply Bool.eq_false_iff.mpr
      intro hcloses
      rcases closesPair_iff.mp hcloses with ⟨_, hsame, hshut, start, first, hstart, hfirst, hopen⟩
      cases hchild.symm.trans hsame
      have hwaiting := (h.waits start first hstart hfirst).mp hopen
      rw [hshuts hshut] at hwaiting
      cases hwaiting
  · intro other hmem
    dsimp only [Move.skip] at hmem
    unfold Tree.child? at hchild
    rw [List.take_add_one, hchild, List.mem_append] at hmem
    rcases hmem with hearlier | hlast
    · exact h.groups other hearlier
    · cases List.mem_singleton.mp hlast
      exact hgroup

omit hopening hclosing in
theorem closesPair_of_alike {idx : Nat}
    (hchild : forall j, j <= idx -> after.child? list j = tree.child? list j)
    (htests : forall id, id ∈ tree.children list ->
      after.opensPair opening id = tree.opensPair opening id ∧
        after.shutsPair opening closing id = tree.shutsPair opening closing id)
    (h : after.closesPair opening closing list idx = true) :
    tree.closesPair opening closing list idx = true := by
  rcases closesPair_iff.mp h with ⟨id, hid, hshuts, start, first, hlt, hfirst, hopens⟩
  rw [hchild idx (Nat.le_refl idx)] at hid
  rw [hchild start (Nat.le_of_lt hlt)] at hfirst
  rw [(htests id (List.mem_of_getElem? hid)).2] at hshuts
  rw [(htests first (List.mem_of_getElem? hfirst)).1] at hopens
  exact closesPair_iff.mpr ⟨id, hid, hshuts, start, first, hlt, hfirst, hopens⟩

theorem survey_local_pairs : (Survey.ofPairs kind).Local := by
  intro tree after list hchildren hids idx
  have htests : forall id, id ∈ tree.children list ->
      after.opensPair opening id = tree.opensPair opening id ∧
        after.shutsPair opening closing id = tree.shutsPair opening closing id := by
    intro id hid
    have htoken := (hids id hid).2
    unfold Tree.opensPair Tree.shutsPair Tree.isWhitespace Tree.hits
    simp only [Tree.tokenHas_congr htoken, and_self]
  have hchild : forall j, after.child? list j = tree.child? list j := by
    intro j
    unfold Tree.child?
    rw [hchildren]
  unfold Survey.ofPairs
  dsimp only
  rw [hopening, hclosing]
  refine Bool.eq_iff_iff.mpr ⟨closesPair_of_alike (fun j _ => hchild j) htests,
    closesPair_of_alike (fun j _ => (hchild j).symm) fun id hid => ?_⟩
  rw [hchildren] at hid
  exact ⟨(htests id hid).1.symm, (htests id hid).2.symm⟩

theorem pairTests_kept (hkept : tree.TokensKept after) (id : NodeId) :
    after.opensPair opening id = tree.opensPair opening id ∧
      after.shutsPair opening closing id = tree.shutsPair opening closing id := by
  have hcategory := GroupKind.opening_category hopening hclosing
  have hcategory' := GroupKind.closing_category hopening hclosing
  unfold Tree.opensPair Tree.shutsPair
  rw [hkept.isWhitespace_eq, hkept.hits_eq hcategory, hkept.hits_eq hcategory']
  exact ⟨rfl, rfl⟩

theorem PairsSettledTo.into (hfaithful : (Survey.ofPairs kind).Faithful)
    (hruns : forall id (tree after : Tree), tree.WellFormed ->
      exec ((Pass.pairs kind).run limit room id) tree = (.ok (), after) ->
      Idle ((Pass.pairs kind).run limit room id) after)
    (hwf : tree.WellFormed) (hcursor : cursor.Ordered)
    (h : PairsSettledTo kind opening closing limit room list tree cursor) {id : NodeId}
    (hchild : tree.child? list cursor.idx = some id) (hgroup : tree.isGroup id = true)
    (hexec : exec ((Pass.pairs kind).run limit room id) tree = (.ok (), after)) :
    PairsSettledTo kind opening closing limit room list after (Move.skip cursor).cursor := by
  have hmem := List.mem_of_getElem? hchild
  have hchanges := changesWithin_of_run (pairs_sound kind) (tagsChildren_pairs kind) hwf hexec
  have hchildren := hchanges.children_upper hwf hmem
  have htests := pairTests_kept hopening hclosing (Tree.tokensKept_of_steps hchanges.steps)
  have hsame : forall j, after.child? list j = tree.child? list j := by
    intro j
    unfold Tree.child?
    rw [hchildren]
  have hmiddle : PairsSettledTo kind opening closing limit room list after cursor := by
    refine ⟨?_, ?_, ?_⟩
    · intro idx other hlt hother
      rw [hsame] at hother
      rw [(htests other).1]
      exact h.waits idx other hlt hother
    · intro idx hlt
      apply Bool.eq_false_iff.mpr
      intro hcloses
      exact Bool.eq_false_iff.mp (h.rests idx hlt)
        (closesPair_of_alike (fun j _ => hsame j) (fun other _ => htests other) hcloses)
    · intro other hother hgroupOther hopensOther
      rw [hchildren] at hother
      have hne := ne_of_mem_take (hwf.nodup_children list) hchild hother
      have hlist := List.mem_of_mem_take hother
      have huntouched := hchanges.untouched_sibling hwf hmem hlist hne
      rw [Tree.isGroup_congr huntouched.observers.1] at hgroupOther
      rw [Survey.opens_congr huntouched.observers.1] at hopensOther
      exact (survey_local_pairs hopening hclosing).idle_of_untouched hfaithful hwf huntouched
        (h.groups other hother hgroupOther hopensOther)
  have hafterGroup : after.isGroup id = true := Tree.isGroup_of_steps hchanges.steps hgroup
  refine hmiddle.past hcursor (hsame _ ▸ hchild) ?_ ?_ ?_
  · simp [(Tree.pairTests_of_isGroup hafterGroup opening closing).1]
  · intro hshuts
    rw [(Tree.pairTests_of_isGroup hafterGroup opening closing).2] at hshuts
    cases hshuts
  · intro _ _
    exact hruns id tree after hwf hexec

theorem PairsSettledTo.shuts (hfaithful : (Survey.ofPairs kind).Faithful) (hwf : tree.WellFormed)
    (hcursor : cursor.Ordered)
    (h : PairsSettledTo kind opening closing limit room list tree cursor)
    (hplan : (Pass.pairs kind).plan tree list cursor = some move)
    (hgroups : move.Groups list tree after) {start : Nat} {opens : List Nat}
    (hwaiting : cursor.opens = start :: opens)
    (hmove : move = { span := some { kind := kind, start := start, stop := cursor.idx },
                      cursor := { idx := start + 1, opens := opens } }) :
    PairsSettledTo kind opening closing limit room list after move.cursor := by
  have hsound := pairs_sound kind
  have hfits := hsound tree list cursor move hcursor hplan
  subst hmove
  have hordered := hcursor.opens_lt
  rw [hwaiting, List.pairwise_cons, List.pairwise_cons] at hordered
  rcases hordered with ⟨hlt, hbefore, _⟩
  have hstart : start < cursor.idx := hlt start List.mem_cons_self
  have hstep := groupStep_of_groups hsound hwf hcursor hplan hgroups
  rcases hgroups.gathers hwf hfits with ⟨span, front, moved, back, group, hg⟩
  cases hg.span_eq
  have htests := pairTests_kept hopening hclosing hstep.tokensKept
  have hgroupIs : after.isGroup group = true :=
    Tree.isGroup_iff_kind?.mpr ⟨_, hg.kind?_group⟩
  have hfront : forall j, j < start -> after.child? list j = tree.child? list j :=
    fun j hj => hg.child?_front hj
  have hplace : after.child? list start = some group := hg.child?_start
  refine ⟨?_, ?_, ?_⟩
  · intro idx other hidx hother
    rcases Nat.lt_or_eq_of_le (Nat.le_of_lt_succ hidx) with hearlier | rfl
    · rw [hfront idx hearlier] at hother
      rw [(htests other).1, h.waits idx other (Nat.lt_trans hearlier hstart) hother, hwaiting]
      simp [Nat.ne_of_lt hearlier]
    · cases hplace.symm.trans hother
      rw [(Tree.pairTests_of_isGroup hgroupIs opening closing).1]
      have hnot : idx ∉ opens := fun hmem => Nat.lt_irrefl _ (hbefore _ hmem)
      simp [hnot]
  · intro idx hidx
    apply Bool.eq_false_iff.mpr
    intro hcloses
    rcases Nat.lt_or_eq_of_le (Nat.le_of_lt_succ hidx) with hearlier | rfl
    · exact Bool.eq_false_iff.mp (h.rests idx (Nat.lt_trans hearlier hstart))
        (closesPair_of_alike (fun j hj => hfront j (Nat.lt_of_le_of_lt hj hearlier))
          (fun other _ => htests other) hcloses)
    · rcases closesPair_iff.mp hcloses with ⟨other, hother, hshuts, _⟩
      cases hplace.symm.trans hother
      rw [(Tree.pairTests_of_isGroup hgroupIs opening closing).2] at hshuts
      cases hshuts
  · refine Survey.LeavesGroups.gathers (survey_local_pairs hopening hclosing) hfaithful hwf hfits
      hstep (fun id category hsome => tagsChildren_pairs kind tree list cursor _ id category hplan
        hsome) hg rfl (List.take_subset _ _) ?_ h.groups
    intro other hother
    dsimp only at hother
    unfold Tree.child? at hplace
    rw [List.take_add_one, hplace, List.mem_append] at hother
    rcases hother with hearlier | hlast
    · right
      rw [(hg.take_front (Nat.le_refl start)).1] at hearlier
      exact (List.take_subset_take_left _ (Nat.le_of_lt hstart)) hearlier
    · exact Or.inl (List.mem_singleton.mp hlast)

theorem PairsSettledTo.moved (hfaithful : (Survey.ofPairs kind).Faithful)
    (hruns : forall id (tree after : Tree), tree.WellFormed ->
      exec ((Pass.pairs kind).run limit room id) tree = (.ok (), after) ->
      Idle ((Pass.pairs kind).run limit room id) after)
    (hwf : tree.WellFormed) (hcursor : cursor.Ordered)
    (h : PairsSettledTo kind opening closing limit room list tree cursor)
    (hplan : (Pass.pairs kind).plan tree list cursor = some move)
    (hmoved : Moved ((Pass.pairs kind).run limit room) list move tree after) :
    PairsSettledTo kind opening closing limit room list after move.cursor := by
  rcases pairMoved_of_moved hopening hclosing hplan hmoved with ⟨id, hchild, hdone⟩
  cases hdone with
  | past hkind hopen hshut =>
      refine h.past hcursor hchild (by simp [hopen]) hshut ?_
      intro hgroup hopens
      have hother : tree.isKind id kind = false := Bool.not_eq_true' _ ▸ hopens
      rw [hkind hgroup] at hother
      cases hother
  | opens hgroup hopen hshut =>
      refine h.past hcursor hchild (by simp [hopen, or_comm]) ?_ ?_
      · intro hshuts
        rw [hshut] at hshuts
        cases hshuts
      · intro hsome
        rw [hgroup] at hsome
        cases hsome
  | into hgroup _ hexec =>
      exact h.into hopening hclosing hfaithful hruns hwf hcursor hchild hgroup hexec
  | shuts _ _ hwaiting hmove hgroups =>
      exact h.shuts hopening hclosing hfaithful hwf hcursor hplan hgroups hwaiting hmove

/-- After a run every closing token is grouped that has an opening one before it, and a
run leaves the groups of the list as they are. -/
theorem pairs_settled {tree after : Tree} (hwf : tree.WellFormed)
    (h : exec ((Pass.pairs kind).run limit (room + 1) list) tree = (.ok (), after))
    (hruns : forall id (tree after : Tree), tree.WellFormed ->
      exec ((Pass.pairs kind).run limit room id) tree = (.ok (), after) ->
      Idle ((Pass.pairs kind).run limit room id) after) :
    (forall idx, after.closesPair opening closing list idx = false) ∧
      (Survey.ofPairs kind).LeavesGroups limit room after (after.children list) := by
  have hsound := pairs_sound kind
  have htags := tagsChildren_pairs kind
  have hfaithful := Survey.ofPairs_faithful hsound hopening hclosing
  rw [exec_pairs_run hopening hclosing] at h
  have hstart : PairsSettledTo kind opening closing limit room list tree {} :=
    ⟨fun _ _ hlt => absurd hlt (Nat.not_lt_zero _), fun _ hlt => absurd hlt (Nat.not_lt_zero _),
      fun _ hmem => absurd hmem (List.not_mem_nil)⟩
  rcases walk_rule hsound htags
      (fun id _ hwf => run_changesWithin hsound htags limit room id hwf)
      (fun tree after cursor move hwf hcursor hinvariant hplan hmoved =>
        hinvariant.moved hopening hclosing hfaithful hruns hwf hcursor hplan hmoved)
      hwf (Cursor.ordered_at 0) (Nat.le_add_left _ _) hstart h with ⟨last, hlast, hend⟩
  have hcount := childCount_le_of_pairs_end hopening hclosing hend
  refine ⟨?_, ?_⟩
  · intro idx
    rcases Nat.lt_or_ge idx last.idx with hlt | hge
    · exact hlast.rests idx hlt
    · exact closesPair_of_end (Nat.le_trans hcount hge)
  · have hgroups := hlast.groups
    rw [List.take_of_length_le hcount] at hgroups
    exact hgroups

theorem pairs_run_again {tree after : Tree} (hwf : tree.WellFormed)
    (h : exec ((Pass.pairs kind).run limit room list) tree = (.ok (), after)) :
    Idle ((Pass.pairs kind).run limit room list) after := by
  have hsound := pairs_sound kind
  have hfaithful := Survey.ofPairs_faithful hsound hopening hclosing
  induction room generalizing list tree after with
  | zero =>
      cases h
  | succ room ih =>
      have hafter := (changesWithin_of_run hsound (tagsChildren_pairs kind) hwf h).wellFormed hwf
      rcases pairs_settled hopening hclosing hwf h (fun id _ _ hwf hexec => ih hwf hexec) with
        ⟨hrests, hgroups⟩
      apply (hfaithful after list limit room hafter).mpr
      refine ⟨?_, ?_⟩
      · intro idx
        unfold Survey.ofPairs
        dsimp only
        rw [hopening, hclosing]
        exact hrests idx
      · intro id hid hopens
        rcases Tree.mem_sublists_iff.mp hid with ⟨hchild, hgroup⟩
        exact hgroups id hchild hgroup hopens

end Pass

/-!
# Rules and pairs
-/

def GroupKind.paired : List GroupKind :=
  [.parenthesis, .squareBrackets, .caseBlock, .beginBlock, .ifBlock, .forBlock]

/-- The passes of the rules and those for pairs. -/
def Pass.generic : List Pass :=
  BinaryRule.all.map Pass.binary ++ GroupKind.paired.map Pass.pairs

theorem BinaryRule.ofRule_mem {rule : BinaryRule} (h : rule ∈ all) :
    Survey.ofRule rule ∈ Survey.all := by
  unfold all at h
  simp only [List.mem_cons, List.not_mem_nil, or_false] at h
  unfold Survey.all
  rcases h with rfl | rfl | rfl | rfl | rfl | rfl | rfl | rfl
  all_goals
    simp only [List.mem_cons, true_or, or_true]

/-- A run of a rule or for pairs that succeeds leaves nothing to the next one, on whatever
list and with whatever room it is started. -/
theorem generic_run_again {pass : Pass} (hpass : pass ∈ Pass.generic) {limit room : Nat}
    {list : NodeId} {tree after : Tree} (hwf : tree.WellFormed) (hnull : tree.NullFree)
    (h : exec (pass.run limit room list) tree = (.ok (), after)) :
    exec (pass.run limit room list) after = (.ok (), after) := by
  unfold Pass.generic at hpass
  rcases List.mem_append.mp hpass with hrule | hpairs
  · rcases List.mem_map.mp hrule with ⟨rule, hmem, rfl⟩
    exact (BinaryRule.settles_of_mem_all rule hmem).run_again (BinaryRule.ofRule_mem hmem) hwf
      hnull h
  · rcases List.mem_map.mp hpairs with ⟨kind, hmem, rfl⟩
    have hsome : kind.opening?.isSome = true := by
      unfold GroupKind.paired at hmem
      simp only [List.mem_cons, List.not_mem_nil, or_false] at hmem
      rcases hmem with rfl | rfl | rfl | rfl | rfl | rfl
      all_goals
        rfl
    rcases GroupKind.isSome_closing hsome with ⟨opening, closing, hopening, hclosing⟩
    exact Pass.pairs_run_again hopening hclosing hwf h

/-- A product becomes an operation, its wildcard an operator, and that is all. -/
theorem generic_run_again_product :
    exists s after, s = Statement.ofTokens [⟨.integer, ['1'], some 0⟩, ⟨.wildcard, ['*'], some 1⟩,
        ⟨.integer, ['2'], some 2⟩] ∧
      exec ((Pass.binary .operator).run 1 1 s.root) s.tree = (.ok (), after) ∧ after ≠ s.tree ∧
      exec ((Pass.binary .operator).run 1 1 s.root) after = (.ok (), after) := by
  have hrun : ends (fun after => decide (after ≠ (Statement.ofTokens [⟨.integer, ['1'], some 0⟩,
      ⟨.wildcard, ['*'], some 1⟩, ⟨.integer, ['2'], some 2⟩]).tree))
      (exec ((Pass.binary .operator).run 1 1 3) (Statement.ofTokens [⟨.integer, ['1'], some 0⟩,
        ⟨.wildcard, ['*'], some 1⟩, ⟨.integer, ['2'], some 2⟩]).tree) = true := by
    decide
  rcases exists_of_ends hrun with ⟨after, hexec, hchanged⟩
  refine ⟨_, after, rfl, hexec, of_decide_eq_true hchanged, ?_⟩
  apply generic_run_again (by simp [Pass.generic, BinaryRule.all])
    (Statement.wellFormed_ofTokens _) _ hexec
  intro id token htoken hcategory
  rw [Statement.token?_ofTokens] at htoken
  have hmem := List.mem_of_getElem? htoken
  simp only [List.mem_cons, List.not_mem_nil, or_false] at hmem
  rcases hmem with rfl | rfl | rfl
  all_goals
    simp at hcategory

end SqlLayout
