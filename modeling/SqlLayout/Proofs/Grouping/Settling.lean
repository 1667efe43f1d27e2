import SqlLayout.Proofs.Grouping.Untouched

/-!
# Passes that one run settles

A rule or a pair that could be grouped is grouped by the first run, and so a second one
has nothing to do.  Before the place of a walk the pass acts nowhere: a span that is
grouped leaves what stands before it, and the neighbour that an operator before it sees
has been accepted as an operand already.
-/

namespace SqlLayout

open Grouping

/-!
# Searches in lists that look alike
-/

namespace Tree

variable {tree after : Tree} {list : NodeId} {idx : Nat} {skipBlank skipComment : Bool}

theorem firstFrom_congr {p q : NodeId -> Bool} {ids : List NodeId} {start : Nat}
    (h : forall id, id ∈ ids -> p id = q id) : firstFrom p start ids = firstFrom q start ids := by
  induction ids generalizing start with
  | nil =>
      rfl
  | cons first rest ih =>
      rw [List.forall_mem_cons] at h
      unfold firstFrom
      rw [ih h.2, h.1]

theorem lastFrom_congr {p q : NodeId -> Bool} {ids : List NodeId} {start : Nat}
    (h : forall id, id ∈ ids -> p id = q id) : lastFrom p start ids = lastFrom q start ids := by
  induction ids generalizing start with
  | nil =>
      rfl
  | cons first rest ih =>
      rw [List.forall_mem_cons] at h
      unfold lastFrom
      rw [ih h.2, h.1]

theorem prev_congr
    (hchildren : (after.children list).take idx = (tree.children list).take idx)
    (hskipped : forall id, id ∈ (tree.children list).take idx ->
      after.isSkipped id skipBlank skipComment = tree.isSkipped id skipBlank skipComment) :
    after.prev list idx skipBlank skipComment = tree.prev list idx skipBlank skipComment := by
  unfold Tree.prev
  rw [hchildren]
  exact lastFrom_congr fun id hmem => by rw [hskipped id hmem]

theorem nextBy_congr {p q : NodeId -> Bool} {start : Nat}
    (hchildren : after.children list = tree.children list)
    (h : forall id, id ∈ tree.children list -> p id = q id) :
    after.nextBy list start p = tree.nextBy list start q := by
  unfold nextBy
  rw [hchildren]
  exact firstFrom_congr fun id hmem => h id (List.mem_of_mem_drop hmem)

theorem next_congr (hchildren : after.children list = tree.children list)
    (hskipped : forall id, id ∈ tree.children list ->
      after.isSkipped id skipBlank skipComment = tree.isSkipped id skipBlank skipComment) :
    after.next list idx skipBlank skipComment = tree.next list idx skipBlank skipComment := by
  apply nextBy_congr hchildren
  intro id hmem
  dsimp only
  rw [hskipped id hmem]

theorem mem_take_of_child? {id : NodeId} {bound : Nat} (h : tree.child? list idx = some id)
    (hidx : idx < bound) : id ∈ (tree.children list).take bound := by
  apply List.mem_of_getElem? (i := idx)
  rw [List.getElem?_take_of_lt hidx]
  exact h

theorem isSkipped_congr {id : NodeId} (hkind : after.kind? id = tree.kind? id)
    (htoken : after.token? id = tree.token? id) :
    after.isSkipped id skipBlank skipComment = tree.isSkipped id skipBlank skipComment := by
  unfold isSkipped isComment isWhitespace isKind
  rw [tokenHas_congr htoken, tokenHas_congr htoken, hkind]

theorem isSkipped_of_isGroup {id : NodeId} (h : tree.isGroup id = true) :
    tree.isSkipped id true false = false := by
  unfold isSkipped isWhitespace
  rw [tokenHas_of_isGroup h]
  rfl

end Tree

namespace Move.Gathers

variable {tree after : Tree} {list : NodeId} {cursor : Cursor} {move : Move} {span : Span}
  {front moved back : List NodeId} {group : NodeId}

theorem content?_front (h : move.Gathers list tree span front moved back group after)
    (hwf : tree.WellFormed)
    (hretag : forall id category, move.retag = some (id, category) -> id ∉ front) {id : NodeId}
    (hmem : id ∈ front) : after.content? id = tree.content? id := by
  have hlist : id ∈ tree.children list := by
    rw [h.children_eq]
    simp [hmem]
  have hnodup := hwf.nodup_children list
  apply h.content?_other id
  · rintro rfl
    exact hwf.not_mem_children_self _ hlist
  · rintro rfl
    rcases h.first_of_lt_size (hwf.child_lt_size hlist) with ⟨_, rest, hmoved, _⟩
    rw [h.children_eq, hmoved] at hnodup
    grind
  · intro category hsome
    exact hretag id category hsome hmem

theorem not_mem_front (h : move.Gathers list tree span front moved back group after)
    (hwf : tree.WellFormed) {idx : Nat} {id : NodeId} (hchild : tree.child? list idx = some id)
    (hidx : span.start <= idx) : id ∉ front := by
  intro hmem
  rcases List.mem_iff_getElem?.mp hmem with ⟨other, hother⟩
  have hlt := (List.getElem?_eq_some_iff.mp hother).1
  have hsame : tree.child? list other = some id := by
    unfold Tree.child?
    rw [h.children_eq, List.append_assoc, List.getElem?_append_left hlt]
    exact hother
  have heq := (List.getElem?_inj (Tree.child?_lt hsame) (hwf.nodup_children list)).mp
    (hsame.trans hchild.symm)
  have hstart := h.start_eq
  omega

theorem take_front (h : move.Gathers list tree span front moved back group after) {idx : Nat}
    (hidx : idx <= span.start) :
    (after.children list).take idx = (tree.children list).take idx ∧
      forall id, id ∈ (tree.children list).take idx -> id ∈ front := by
  rw [← h.start_eq] at hidx
  have htake : (tree.children list).take idx = front.take idx := by
    rw [h.children_eq, List.append_assoc, List.take_append_of_le_length hidx]
  refine ⟨?_, ?_⟩
  · rw [htake, h.children_list, List.take_append_of_le_length hidx]
  · intro id hmem
    rw [htake] at hmem
    exact List.mem_of_mem_take hmem

end Move.Gathers

/-- The groups that a pass looks into and that have been left as they are stay so when
the pass groups a span. -/
theorem Survey.LeavesGroups.gathers {survey : Survey} (hlocal : survey.Local)
    (hfaithful : survey.Faithful) {limit room : Nat} {tree after : Tree} {list : NodeId}
    {cursor : Cursor} {move : Move} {span : Span} {front moved back : List NodeId}
    {group : NodeId} {ids ids' : List NodeId} (hwf : tree.WellFormed)
    (hfits : move.Fits tree list cursor) (hstep : tree.GroupStep after)
    (htags : forall id category, move.retag = some (id, category) -> id ∈ tree.children list)
    (hg : move.Gathers list tree span front moved back group after)
    (hclosed : survey.closed = some span.kind) (hids : ids ⊆ tree.children list)
    (hids' : forall id, id ∈ ids' -> id = group ∨ id ∈ ids)
    (h : survey.LeavesGroups limit room tree ids) : survey.LeavesGroups limit room after ids' := by
  intro id hmem hgroup hopens
  have hother : after.isKind id span.kind = false := by
    unfold opens at hopens
    rw [hclosed] at hopens
    exact Bool.not_eq_true' _ |>.mp hopens
  rcases hids' id hmem with rfl | hold
  · rw [Tree.isKind, hg.kind?_group, beq_self_eq_true] at hother
    cases hother
  · have hlist := hids hold
    have hsame := Tree.kind?_of_steps (Relation.ReflTransGen.single hstep)
      (hwf.child_lt_size hlist)
    rw [Tree.isGroup_congr hsame] at hgroup
    rw [opens_congr hsame] at hopens
    unfold Tree.isKind at hother
    rw [hsame] at hother
    have huntouched := hg.untouched hwf hfits hstep htags
      (Tree.above_of_parent? (hwf.parent?_of_mem hlist)) hgroup hother
    exact hlocal.idle_of_untouched hfaithful hwf huntouched (h id hold hgroup hopens)

/-!
# Rules
-/

def Tree.ReadsNode (test : Tree -> NodeId -> Bool) : Prop :=
  forall (tree after : Tree) id, after.kind? id = tree.kind? id ->
    after.token? id = tree.token? id -> test after id = test tree id

/-- No word that begins a statement reads NULL. -/
def Tree.NullFree (tree : Tree) : Prop :=
  forall id token, tree.token? id = some token -> token.category ∈ [.dml, .ddl, .cte] ->
    token.normalized ≠ Text.of "NULL"

theorem Tree.NullFree.kept {tree after : Tree} (h : tree.NullFree) (hkept : tree.TokensKept after) :
    after.NullFree := by
  intro id later hlater hcategory
  have hrel := hkept id
  rw [hlater] at hrel
  cases hbefore : tree.token? id with
  | none =>
      rw [hbefore] at hrel
      cases hrel
  | some token =>
      rw [hbefore] at hrel
      cases hrel with
      | some hkept =>
          rw [hkept.normalized_eq]
          rcases hkept.category_eq with hsame | ⟨_, hop⟩
          · rw [hsame] at hcategory
            exact h id token hbefore hcategory
          · rw [hop] at hcategory
            simp at hcategory

namespace BinaryRule

variable {rule : BinaryRule} {tree after : Tree} {list : NodeId}

theorem acts_iff {idx : Nat} :
    rule.acts tree list idx = true <->
      exists op prev left, tree.child? list idx = some op ∧ tree.isWhitespace op = false ∧
        rule.isOp tree op = true ∧ tree.prev list idx true = some (prev, left) ∧
        rule.acceptsPrev tree left = true ∧
        rule.acceptsNext tree ((tree.next list idx true).map Prod.snd) = true := by
  unfold acts span?
  cases hchild : tree.child? list idx with
  | none =>
      simp
  | some op =>
      rcases hprev : tree.prev list idx true with _ | ⟨prev, left⟩
      · simp
      · have hleft := (Tree.prev_some hprev).2.1
        simp [hleft, and_assoc]

/-- What a rule has to satisfy so that one run settles it. -/
structure Settles (rule : BinaryRule) : Prop where
  sound : rule.Sound
  isOp : Tree.ReadsNode rule.isOp
  acceptsPrev : Tree.ReadsNode rule.acceptsPrev
  acceptsNext : Tree.ReadsNode fun tree id => rule.acceptsNext tree (some id)
  acceptsNone : forall tree after, rule.acceptsNext after none = rule.acceptsNext tree none
  /-- The groups that the rule makes are no operators. -/
  isOp_group : forall tree id, tree.kind? id = some rule.kind -> rule.isOp tree id = false
  /-- What may stand before an operator may stand behind it as well. -/
  accepts_both : forall tree id, tree.NullFree -> rule.acceptsPrev tree id = true ->
    rule.acceptsNext tree (some id) = true

namespace Settles

variable (h : rule.Settles)
include h

theorem acceptsNext_congr {id? : Option NodeId}
    (hid : forall id, id? = some id ->
      after.kind? id = tree.kind? id ∧ after.token? id = tree.token? id) :
    rule.acceptsNext after id? = rule.acceptsNext tree id? := by
  cases id? with
  | none =>
      exact h.acceptsNone tree after
  | some id =>
      exact h.acceptsNext tree after id (hid id rfl).1 (hid id rfl).2

theorem acts_of_alike {idx : Nat}
    (hchildren : (after.children list).take (idx + 1) = (tree.children list).take (idx + 1))
    (hids : forall id, id ∈ (tree.children list).take (idx + 1) ->
      after.kind? id = tree.kind? id ∧ after.token? id = tree.token? id)
    (hnext : rule.acceptsNext after ((after.next list idx true).map Prod.snd) = true ->
      rule.acceptsNext tree ((tree.next list idx true).map Prod.snd) = true)
    (hacts : rule.acts after list idx = true) : rule.acts tree list idx = true := by
  rcases acts_iff.mp hacts with ⟨op, prev, left, hop, hblank, hisOp, hprev, hleft, haccepts⟩
  have hchild : forall j, j < idx + 1 -> after.child? list j = tree.child? list j := by
    intro j hj
    unfold Tree.child?
    rw [← List.getElem?_take_of_lt hj, hchildren, List.getElem?_take_of_lt hj]
  have htake : forall ids : List NodeId, (ids.take (idx + 1)).take idx = ids.take idx := by
    intro ids
    rw [List.take_take, Nat.min_eq_left (Nat.le_succ idx)]
  rw [hchild idx (Nat.lt_succ_self idx)] at hop
  have hopSame := hids op (Tree.mem_take_of_child? hop (Nat.lt_succ_self idx))
  have hprevSame : after.prev list idx true = tree.prev list idx true := by
    apply Tree.prev_congr
    · rw [← htake, hchildren, htake]
    · intro id hid
      rw [← htake] at hid
      have hsame := hids id (List.mem_of_mem_take hid)
      exact Tree.isSkipped_congr hsame.1 hsame.2
  rw [hprevSame] at hprev
  rcases Tree.prev_some hprev with ⟨hlt, hleftChild, _⟩
  have hleftSame := hids left (Tree.mem_take_of_child? hleftChild (Nat.lt_succ_of_lt hlt))
  refine acts_iff.mpr ⟨op, prev, left, hop, ?_, ?_, hprev, ?_, hnext haccepts⟩
  · rw [Tree.isWhitespace, ← Tree.tokenHas_congr hopSame.2]
    exact hblank
  · rw [← h.isOp tree after op hopSame.1 hopSame.2]
    exact hisOp
  · rw [← h.acceptsPrev tree after left hleftSame.1 hleftSame.2]
    exact hleft

theorem acts_of_same {idx : Nat} (hchildren : after.children list = tree.children list)
    (hids : forall id, id ∈ tree.children list ->
      after.kind? id = tree.kind? id ∧ after.token? id = tree.token? id)
    (hacts : rule.acts after list idx = true) : rule.acts tree list idx = true := by
  have hnextSame : after.next list idx true = tree.next list idx true :=
    Tree.next_congr hchildren fun id hid => Tree.isSkipped_congr (hids id hid).1 (hids id hid).2
  apply h.acts_of_alike (by rw [hchildren]) (fun id hid => hids id (List.mem_of_mem_take hid)) _
    hacts
  rw [hnextSame, h.acceptsNext_congr]
  · exact id
  · intro id hid
    rcases Option.map_eq_some_iff.mp hid with ⟨hit, hfound, rfl⟩
    exact hids _ (List.mem_of_getElem? (Tree.next_some hfound).2.1)

theorem survey_local : (Survey.ofRule rule).Local := by
  intro tree after list hchildren hids idx
  change rule.acts after list idx = rule.acts tree list idx
  have hback : rule.acts tree list idx = true -> rule.acts after list idx = true :=
    h.acts_of_same hchildren.symm fun id hid =>
      ⟨(hids id (hchildren ▸ hid)).1.symm, (hids id (hchildren ▸ hid)).2.symm⟩
  exact Bool.eq_iff_iff.mpr ⟨h.acts_of_same hchildren hids, hback⟩

end Settles

/-!
# The walk of a rule
-/

/-- Up to the place of the walk the rule acts nowhere. -/
structure SettledTo (rule : BinaryRule) (limit room : Nat) (list : NodeId) (tree : Tree)
    (cursor : Cursor) : Prop where
  prev_eq : cursor.prev = (tree.prev list cursor.idx true).map Prod.fst
  rests : forall idx, idx < cursor.idx -> rule.acts tree list idx = false
  groups : (Survey.ofRule rule).LeavesGroups limit room tree (tree.children list)
  nullFree : tree.NullFree

theorem SettledTo.skip {limit room : Nat} {cursor : Cursor} {move : Move}
    (h : rule.SettledTo limit room list tree cursor)
    (hplan : (Pass.binary rule).plan tree list cursor = some move) (hspan : move.span = none) :
    rule.SettledTo limit room list tree move.cursor := by
  have hsteps := rule.stepsThrough cursor h.prev_eq
  cases hchild : tree.child? list cursor.idx with
  | none =>
      rw [hsteps.ends hchild] at hplan
      cases hplan
  | some id =>
      rcases hsteps.moves id hchild with ⟨other, hother, hacting, hpassing⟩
      cases hplan.symm.trans hother
      have hrests : rule.acts tree list cursor.idx = false :=
        Bool.eq_false_iff.mpr fun hacts => hacting hacts hspan
      rcases hpassing hrests with ⟨_, _, hidx, hprev⟩
      refine ⟨hprev, ?_, h.groups, h.nullFree⟩
      rw [hidx]
      intro idx hlt
      rcases Nat.lt_or_eq_of_le (Nat.le_of_lt_succ hlt) with hbefore | rfl
      · exact h.rests idx hbefore
      · exact hrests

/-- A span leaves the rule nothing to do before it, because its first child has been
accepted as an operand. -/
theorem Settles.rests_before (h : rule.Settles) {move : Move} {span : Span}
    {front moved back : List NodeId} {group left : NodeId} (hwf : tree.WellFormed)
    (hg : move.Gathers list tree span front moved back group after)
    (hretag : forall id category, move.retag = some (id, category) -> id ∉ front)
    (hnull : tree.NullFree) (hstart : tree.child? list span.start = some left)
    (hcounts : tree.isSkipped left true false = false)
    (hleft : rule.acceptsPrev tree left = true) {idx : Nat} (hidx : idx < span.start)
    (hrests : rule.acts tree list idx = false) : rule.acts after list idx = false := by
  have hsame : forall id, id ∈ front ->
      after.kind? id = tree.kind? id ∧ after.token? id = tree.token? id := by
    intro id hmem
    have hobservers := Tree.observers_congr (hg.content?_front hwf hretag hmem)
    exact ⟨hobservers.1, hobservers.2.1⟩
  have hfront : forall j id, j < span.start -> tree.child? list j = some id ->
      after.child? list j = some id ∧
        after.kind? id = tree.kind? id ∧ after.token? id = tree.token? id := by
    intro j id hj hid
    have hmem := (hg.take_front hj).2 id (Tree.mem_take_of_child? hid (Nat.lt_succ_self j))
    exact ⟨(hg.child?_front hj).trans hid, hsame id hmem⟩
  rcases hg.take_front hidx with ⟨htake, hmem⟩
  apply Bool.eq_false_iff.mpr
  intro hacts
  apply Bool.eq_false_iff.mp hrests
  apply h.acts_of_alike htake (fun id hid => hsame id (hmem id hid)) _ hacts
  intro haccepts
  -- The next child is before the span, where nothing has changed, or at its start.
  cases hfound : tree.next list idx true with
  | none =>
      rw [Tree.next_none hfound hidx hstart] at hcounts
      cases hcounts
  | some hit =>
      rcases hit with ⟨next, id⟩
      rcases Tree.next_eq_some_iff.mp hfound with ⟨hlt, hchild, hcountsId, hbetween⟩
      rcases Nat.lt_trichotomy next span.start with hbefore | rfl | hbehind
      · have hnext : after.next list idx true = some (next, id) := by
          rcases hfront next id hbefore hchild with ⟨hchild', hkind, htoken⟩
          refine Tree.next_eq_some_iff.mpr ⟨hlt, hchild', ?_, ?_⟩
          · rw [Tree.isSkipped_congr hkind htoken]
            exact hcountsId
          · intro j other hj hjNext hother
            have hjStart := Nat.lt_trans hjNext hbefore
            rw [hg.child?_front hjStart] at hother
            rcases hfront j other hjStart hother with ⟨_, hkind', htoken'⟩
            rw [Tree.isSkipped_congr hkind' htoken']
            exact hbetween j other hj hjNext hother
        rw [hnext] at haccepts
        rcases hfront next id hbefore hchild with ⟨_, hkind, htoken⟩
        exact (h.acceptsNext tree after id hkind htoken).symm.trans haccepts
      · cases hchild.symm.trans hstart
        exact h.accepts_both tree left hnull hleft
      · rw [hbetween span.start left hidx hbehind hstart] at hcounts
        cases hcounts

theorem SettledTo.span (hrule : rule.Settles) (hmem : Survey.ofRule rule ∈ Survey.all)
    {limit room : Nat} {cursor : Cursor} {move : Move} {span : Span} (hwf : tree.WellFormed)
    (hcursor : cursor.Ordered) (h : rule.SettledTo limit room list tree cursor)
    (hplan : (Pass.binary rule).plan tree list cursor = some move) (hspan : move.span = some span)
    (hgroups : move.Groups list tree after) :
    rule.SettledTo limit room list after move.cursor := by
  have hregular := Survey.regular_ofRule hmem
  have hfits := hregular.sound tree list cursor move hcursor hplan
  rcases hgroups.gathers hwf hfits with ⟨found, front, moved, back, group, hg⟩
  cases hspan.symm.trans hg.span_eq
  have hstep := Pass.groupStep_of_groups hregular.sound hwf hcursor hplan hgroups
  rcases hfits.exists_child with ⟨op, hop⟩
  rcases rule.plan_of_child hop with
    ⟨_, hskip⟩ | ⟨_, hisOp, start, stop, hoperands, hgroup⟩ | ⟨_, _, hpast⟩
  · cases hskip.symm.trans hplan
    cases hspan
  · cases hgroup.symm.trans hplan
    cases hspan
    rcases span?_accepts hoperands with ⟨prev, left, hprev, hleft, hacceptsPrev, _, hfound⟩
    have hlt := hcursor.prev_lt prev hprev
    rcases hrule.sound tree list prev cursor.idx start stop hlt hfits.inside hfound with
      ⟨rfl, _, _⟩
    have hcounts : tree.isSkipped left true false = false := by
      have hfoundPrev := h.prev_eq
      rw [hprev] at hfoundPrev
      rcases Option.map_eq_some_iff.mp hfoundPrev.symm with ⟨⟨_, other⟩, hsome, rfl⟩
      rcases Tree.prev_some hsome with ⟨_, hother, hcounts⟩
      cases hother.symm.trans hleft
      exact hcounts
    have hretag : forall id category,
        (rule.retag.map fun category => (op, category)) = some (id, category) -> id ∉ front := by
      intro id category hsome
      rcases Option.map_eq_some_iff.mp hsome with ⟨_, _, hpair⟩
      cases hpair
      exact hg.not_mem_front hwf hop (Nat.le_of_lt hlt)
    have hgroupIs : after.isGroup group = true := Tree.isGroup_iff_kind?.mpr ⟨_, hg.kind?_group⟩
    have hstart : after.child? list start = some group := hg.child?_start
    refine ⟨?_, ?_, ?_, h.nullFree.kept hstep.tokensKept⟩
    · dsimp only
      rw [Tree.prev_succ hstart, Tree.isSkipped_of_isGroup hgroupIs]
      rfl
    · intro idx hidx
      rcases Nat.lt_or_eq_of_le (Nat.le_of_lt_succ hidx) with hbefore | rfl
      · exact hrule.rests_before hwf hg hretag h.nullFree hleft hcounts hacceptsPrev
          hbefore (h.rests idx (Nat.lt_trans hbefore hlt))
      · unfold acts
        rw [hstart]
        dsimp only
        rw [hrule.isOp_group after group hg.kind?_group, Bool.and_false, Bool.false_and]
    · refine Survey.LeavesGroups.gathers hrule.survey_local hregular.faithful hwf hfits hstep
        (fun id category hsome => hregular.tags tree list cursor _ id category hplan hsome) hg rfl
        (List.Subset.refl _) ?_ h.groups
      intro id hid
      by_cases heq : id = group
      · exact Or.inl heq
      · exact Or.inr (hg.mem_front_or_back hid heq)
  · cases hpast.symm.trans hplan
    cases hspan

/-- After a run the rule acts nowhere in the list, and a run leaves the groups in it as
they are. -/
theorem Settles.run_again (hrule : rule.Settles) (hmem : Survey.ofRule rule ∈ Survey.all)
    {limit room : Nat} (hwf : tree.WellFormed) (hnull : tree.NullFree)
    (h : exec ((Pass.binary rule).run limit room list) tree = (.ok (), after)) :
    Idle ((Pass.binary rule).run limit room list) after := by
  have hregular := Survey.regular_ofRule hmem
  induction room generalizing list tree after with
  | zero =>
      cases h
  | succ room ih =>
      rcases Pass.run_turn hregular.sound hregular.tags hregular.stays hregular.applies hwf h with
        ⟨middle, hchanges, hcontent, hwalk, hturns⟩
      have hmiddle := hchanges.wellFormed hwf
      have hchildren := (Tree.observers_congr hcontent).2.2
      have hgroups : (Survey.ofRule rule).LeavesGroups limit room middle
          (middle.children list) := by
        rw [hchildren]
        intro id hid hgroup hopens
        have hsame := Tree.kind?_of_steps hchanges.steps (hwf.child_lt_size hid)
        rw [Tree.isGroup_congr hsame] at hgroup
        rw [Survey.opens_congr hsame] at hopens
        rcases (hturns id hid).2 hgroup hopens with ⟨before, later, hbefore, hexec, hlater⟩
        have hbeforeWf := Tree.groupStep_keepsWellFormed.run hwf hbefore.steps
        have hlaterWf := (Pass.changesWithin_of_run hregular.sound hregular.tags hbeforeWf
          hexec).wellFormed hbeforeWf
        exact hrule.survey_local.idle_of_untouched hregular.faithful hlaterWf hlater
          (ih hbeforeWf (hnull.kept (Tree.tokensKept_of_steps hbefore.steps)) hexec)
      have hstart : rule.SettledTo limit room list middle {} :=
        ⟨rfl, fun _ hlt => absurd hlt (Nat.not_lt_zero _), hgroups,
          hnull.kept (Tree.tokensKept_of_steps hchanges.steps)⟩
      rcases Pass.walks_rule hregular.sound hregular.tags hregular.stays
          (fun tree cursor move _ hinvariant hplan hspan => hinvariant.skip hplan hspan)
          (fun tree after cursor move span hwf hcursor hinvariant hplan hspan hgroups =>
            hinvariant.span hrule hmem hwf hcursor hplan hspan hgroups)
          hmiddle hstart hwalk with ⟨last, hlast, hend⟩
      have hafter := (Pass.Walks.changesWithin hregular.sound
        hregular.tags hmiddle hwalk).wellFormed
        hmiddle
      have hcount : after.childCount list <= last.idx := by
        rcases hend with hplan | hcount
        · apply List.getElem?_eq_none_iff.mp
          by_contra hsome
          rcases Option.ne_none_iff_exists'.mp hsome with ⟨id, hchild⟩
          rcases (rule.stepsThrough last hlast.prev_eq).moves id hchild with ⟨move, hmove, _⟩
          cases hplan.symm.trans hmove
        · exact hcount
      apply (hregular.faithful after list limit room hafter).mpr
      refine ⟨?_, ?_⟩
      · intro idx
        rcases Nat.lt_or_ge idx last.idx with hlt | hge
        · exact hlast.rests idx hlt
        · exact acts_of_end (Nat.le_trans hcount hge)
      · intro id hid hopens
        rcases Tree.mem_sublists_iff.mp hid with ⟨hchild, hgroup⟩
        exact hlast.groups id hchild hgroup hopens

/-!
# The rules
-/

def all : List BinaryRule :=
  [period, subscript, operator, typecast, aliasWithAs, assignment, comparison, identifierList]

end BinaryRule

namespace Tree

variable {test other : Tree -> NodeId -> Bool}

theorem readsNode_tokenHas (p : Token -> Bool) : ReadsNode fun tree id => tree.tokenHas id p :=
  fun _ _ _ _ htoken => tokenHas_congr htoken p

theorem readsNode_isKindIn (kinds : List GroupKind) :
    ReadsNode fun tree id => tree.isKindIn id kinds := by
  intro tree after id hkind _
  dsimp only [isKindIn]
  rw [hkind]

theorem readsNode_isKind (kind : GroupKind) : ReadsNode fun tree id => tree.isKind id kind := by
  intro tree after id hkind _
  dsimp only [isKind]
  rw [hkind]

theorem readsNode_isCategory (category : Category) :
    ReadsNode fun tree id => tree.isCategory id category := by
  intro tree after id _ htoken
  dsimp only [isCategory, category?]
  rw [htoken]

theorem ReadsNode.or (h : ReadsNode test) (h' : ReadsNode other) :
    ReadsNode fun tree id => test tree id || other tree id := by
  intro tree after id hkind htoken
  dsimp only
  rw [h tree after id hkind htoken, h' tree after id hkind htoken]

theorem ReadsNode.and (h : ReadsNode test) (h' : ReadsNode other) :
    ReadsNode fun tree id => test tree id && other tree id := by
  intro tree after id hkind htoken
  dsimp only
  rw [h tree after id hkind htoken, h' tree after id hkind htoken]

theorem ReadsNode.not (h : ReadsNode test) : ReadsNode fun tree id => !test tree id := by
  intro tree after id hkind htoken
  dsimp only
  rw [h tree after id hkind htoken]

/-- The normalized text of a node that is no keyword may depend on what is below it, so a
test must not ask for it there. -/
theorem readsNode_word (combine : Bool -> Bool -> Bool)
    (h : forall isWord, combine false isWord = combine false false) (word : Text) :
    ReadsNode fun tree id => combine (tree.isKeyword id) (tree.normalized id == word) := by
  intro tree after id _ htoken
  dsimp only [isKeyword, normalized, tokenHas]
  rw [htoken]
  cases tree.token? id with
  | none =>
      dsimp only
      rw [h, h (tree.value id == word)]
  | some token =>
      rfl

end Tree

namespace BinaryRule

open Tree

theorem readsNode_isExpression : ReadsNode isExpression :=
  (readsNode_word (fun keyword isNull => !keyword || isNull) (fun _ => rfl) _).and
    (readsNode_isKindIn _).not

theorem readsNode_isOperatorOperand : ReadsNode isOperatorOperand :=
  ((readsNode_tokenHas _).or (readsNode_isKindIn _)).or (readsNode_tokenHas _)

theorem readsNode_isComparisonOperand : ReadsNode isComparisonOperand :=
  ((readsNode_tokenHas _).or (readsNode_isKindIn _)).or (readsNode_tokenHas _)

theorem readsNode_isListItem : ReadsNode isListItem :=
  ((readsNode_isKindIn _).or (readsNode_isCategory _)).or (readsNode_tokenHas _)

theorem isOp_group_of_token {rule : BinaryRule}
    (h : forall tree id, rule.isOp tree id = true -> exists p, tree.tokenHas id p = true)
    (tree : Tree) (id : NodeId) (hkind : tree.kind? id = some rule.kind) :
    rule.isOp tree id = false := by
  apply Bool.eq_false_iff.mpr
  intro hop
  rcases h tree id hop with ⟨p, hp⟩
  rw [tokenHas_of_isGroup (isGroup_iff_kind?.mpr ⟨_, hkind⟩)] at hp
  cases hp

/-- Rules that ask the same of both neighbours. -/
theorem settles_of_operands {rule : BinaryRule} {p : Tree -> NodeId -> Bool}
    (hspan : rule.span = fromPrevToNext) (hop : ReadsNode rule.isOp)
    (hgroup : forall tree id, tree.kind? id = some rule.kind -> rule.isOp tree id = false)
    (hprev : rule.acceptsPrev = p) (hnext : rule.acceptsNext = some? p) (hp : ReadsNode p) :
    rule.Settles where
  sound := fromPrevToNext_sound hspan
  isOp := hop
  acceptsPrev := by
    rw [hprev]
    exact hp
  acceptsNext := by
    rw [hnext]
    exact hp
  acceptsNone := by
    rw [hnext]
    exact fun _ _ => rfl
  isOp_group := hgroup
  accepts_both := by
    intro tree id _ haccepts
    rw [hprev] at haccepts
    rw [hnext]
    exact haccepts

theorem operator_settles : operator.Settles :=
  settles_of_operands rfl ((readsNode_isCategory _).or (readsNode_isCategory _))
    (fun tree id hkind => by
      have hgroup := isGroup_iff_kind?.mpr ⟨_, hkind⟩
      change (tree.isCategory id .operator || tree.isCategory id .wildcard) = false
      rw [isCategory_of_isGroup hgroup, isCategory_of_isGroup hgroup, Bool.or_false])
    rfl rfl readsNode_isOperatorOperand

theorem comparison_settles : comparison.Settles :=
  settles_of_operands rfl (readsNode_isCategory _)
    (fun _ _ hkind => isCategory_of_isGroup (isGroup_iff_kind?.mpr ⟨_, hkind⟩) _)
    rfl rfl readsNode_isComparisonOperand

theorem identifierList_settles : identifierList.Settles :=
  settles_of_operands rfl (readsNode_tokenHas _)
    (isOp_group_of_token fun _ _ hop => ⟨_, hop⟩) rfl rfl readsNode_isListItem

theorem period_settles : period.Settles where
  sound := period_sound
  isOp := readsNode_tokenHas _
  acceptsPrev := (readsNode_isKindIn _).or (readsNode_tokenHas _)
  acceptsNext := fun _ _ _ _ _ => rfl
  acceptsNone := fun _ _ => rfl
  isOp_group := isOp_group_of_token fun _ _ hop => ⟨_, hop⟩
  accepts_both := fun _ _ _ _ => rfl

theorem subscript_settles : subscript.Settles where
  sound := subscript_sound
  isOp := readsNode_isKind _
  acceptsPrev := (readsNode_isKindIn _).or (readsNode_tokenHas _)
  acceptsNext := fun _ _ _ _ _ => rfl
  acceptsNone := fun _ _ => rfl
  isOp_group := by
    intro tree id hkind
    change (tree.kind? id == some .squareBrackets) = false
    rw [hkind]
    rfl
  accepts_both := fun _ _ _ _ => rfl

theorem typecast_settles : typecast.Settles where
  sound := typecast_sound
  isOp := readsNode_tokenHas _
  acceptsPrev := readsNode_isExpression
  acceptsNext := fun _ _ _ _ _ => rfl
  acceptsNone := fun _ _ => rfl
  isOp_group := isOp_group_of_token fun _ _ hop => ⟨_, hop⟩
  accepts_both := fun _ _ _ _ => rfl

theorem assignment_settles : assignment.Settles where
  sound := assignment_sound
  isOp := readsNode_tokenHas _
  acceptsPrev := (readsNode_tokenHas _).not
  acceptsNext := (readsNode_tokenHas _).not
  acceptsNone := fun _ _ => rfl
  isOp_group := isOp_group_of_token fun _ _ hop => ⟨_, hop⟩
  accepts_both := fun _ _ _ haccepts => haccepts

theorem not_isCategory_of_isExpression {tree : Tree} {id : NodeId} (hnull : tree.NullFree)
    (h : isExpression tree id = true) {category : Category}
    (hcategory : category ∈ [.dml, .ddl, .cte]) : tree.isCategory id category = false := by
  apply Bool.eq_false_iff.mpr
  intro hsome
  rcases isCategory_iff.mp hsome with ⟨token, htoken, rfl⟩
  have hkeyword : token.isKeyword = true := by
    unfold Token.isKeyword
    simp only [List.mem_cons, List.not_mem_nil, or_false] at hcategory
    rcases hcategory with h | h | h
    all_goals
      rw [h]
      rfl
  unfold isExpression isKeyword normalized tokenHas at h
  rw [htoken] at h
  dsimp only at h
  rw [hkeyword, Bool.not_true, Bool.false_or, Bool.and_eq_true] at h
  exact hnull id token htoken hcategory (beq_iff_eq.mp h.1)

theorem aliasWithAs_settles : aliasWithAs.Settles where
  sound := fromPrevToNext_sound rfl
  isOp := readsNode_word (· && ·) (fun _ => rfl) _
  acceptsPrev := readsNode_isExpression
  acceptsNext :=
    (((readsNode_isCategory _).or (readsNode_isCategory _)).or (readsNode_isCategory _)).not
  acceptsNone := fun _ _ => rfl
  isOp_group := isOp_group_of_token fun _ _ hop => ⟨_, (Bool.and_eq_true_iff.mp hop).1⟩
  accepts_both := by
    intro tree id hnull haccepts
    change (!(tree.isCategory id .dml || tree.isCategory id .ddl || tree.isCategory id .cte)) = true
    rw [not_isCategory_of_isExpression hnull haccepts (by simp),
      not_isCategory_of_isExpression hnull haccepts (by simp),
      not_isCategory_of_isExpression hnull haccepts (by simp)]
    rfl

theorem settles_of_mem_all : forall rule, rule ∈ all -> rule.Settles := by
  unfold all
  simp only [List.forall_mem_cons, List.not_mem_nil, false_implies, implies_true, and_true]
  exact ⟨period_settles, subscript_settles, operator_settles, typecast_settles,
    aliasWithAs_settles, assignment_settles, comparison_settles, identifierList_settles⟩

end BinaryRule
end SqlLayout
