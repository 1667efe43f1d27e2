import SqlLayout.Proofs.Grouping.Comments
import SqlLayout.Proofs.Grouping.Repeat
import SqlLayout.Proofs.Grouping.Untouched

/-!
# The lists that a run comes to

A pass that does not look into the groups of its own kind comes from a list to others.
A run does to each of them what a run on that one does, and leaves it alone before and
after that.
-/

namespace SqlLayout

open Grouping

/-!
# Lists that are reached
-/

namespace Survey

variable {survey : Survey} {tree after : Tree} {list id other : NodeId}

theorem Reaches.atOrAbove (h : survey.Reaches tree list other) (hwf : tree.WellFormed) :
    tree.AtOrAbove list other := by
  induction h with
  | refl =>
      exact Or.inl rfl
  | tail _ hlast ih =>
      have hmem := (Tree.mem_sublists_iff.mp hlast.1).1
      exact ih.trans (Or.inr (Tree.above_of_parent? (hwf.parent?_of_mem hmem)))

theorem reaches_iff_of_untouched (hwf : tree.WellFormed) (h : tree.Untouched id after) :
    survey.Reaches after id other <-> survey.Reaches tree id other := by
  have hsame : forall {above below : NodeId}, tree.AtOrAbove id above ->
      (below ∈ after.sublists above ∧ survey.opens after below = true <->
        below ∈ tree.sublists above ∧ survey.opens tree below = true) := by
    intro above below habove
    have hat := h.below habove
    rw [Tree.mem_sublists_iff, Tree.mem_sublists_iff, hat.observers.2.2]
    by_cases hmem : below ∈ tree.children above
    · have hkind := (hat.observers_child hwf hmem).1
      rw [Tree.isGroup_congr hkind, opens_congr hkind]
    · simp [hmem]
  constructor
  · intro hreach
    induction hreach with
    | refl =>
        exact Relation.ReflTransGen.refl
    | tail _ hlast ih =>
        exact ih.tail ((hsame (ih.atOrAbove hwf)).mp hlast)
  · intro hreach
    induction hreach with
    | refl =>
        exact Relation.ReflTransGen.refl
    | tail hfirst hlast ih =>
        exact ih.tail ((hsame (Reaches.atOrAbove hfirst hwf)).mpr hlast)

theorem Faithful.acts_of_idle (hfaithful : survey.Faithful) (hwf : tree.WellFormed)
    {limit room : Nat} (hidle : Idle (survey.pass.run limit room list) tree)
    (hreach : survey.Reaches tree list other) (idx : Nat) :
    survey.acts tree other idx = false := by
  induction room generalizing list with
  | zero =>
      cases hidle
  | succ room ih =>
      rw [hfaithful tree list limit room hwf] at hidle
      rcases Relation.ReflTransGen.cases_head hreach with rfl | ⟨id, hid, hrest⟩
      · exact hidle.1 idx
      · exact ih (hidle.2 id hid.1 hid.2) hrest

/-!
# What a run does to the groups in a list
-/

/-- The groups that a pass makes are those that it does not look into. -/
structure Makes (survey : Survey) (kind : GroupKind) : Prop where
  regular : survey.Regular
  closed : survey.closed = some kind
  kind_eq : forall tree list cursor move span, survey.pass.plan tree list cursor = some move ->
    move.span = some span -> span.kind = kind

theorem makes_ofSeeker {pass : Pass} {kind : GroupKind} {seeker : Seeker}
    (hplan : pass.plan = seeker.plan) (hkind : seeker.OfKind kind)
    (hregular : (ofSeeker pass (some kind) seeker).Regular) :
    (ofSeeker pass (some kind) seeker).Makes kind where
  regular := hregular
  closed := rfl
  kind_eq := by
    intro tree list cursor move span hmove hspan
    change pass.plan tree list cursor = some move at hmove
    rw [hplan] at hmove
    rcases Seeker.plan_span hmove hspan with ⟨idx, id, next, _, _, hfound⟩
    exact hkind tree list idx id span next hfound

namespace Makes

variable {kind : GroupKind} (h : survey.Makes kind)
include h

theorem opens_iff : survey.opens tree id = true <-> tree.isKind id kind = false := by
  unfold opens
  rw [h.closed]
  dsimp only
  rw [Bool.not_eq_true']

theorem changesWithin_of_run {limit room : Nat} (hwf : tree.WellFormed)
    (hexec : exec (survey.pass.run limit room list) tree = (.ok (), after)) :
    tree.ChangesWithin list after :=
  Pass.changesWithin_of_run h.regular.sound h.regular.tags hwf hexec

theorem wellFormed_of_run {limit room : Nat} (hwf : tree.WellFormed)
    (hexec : exec (survey.pass.run limit room list) tree = (.ok (), after)) :
    after.WellFormed :=
  (h.changesWithin_of_run hwf hexec).wellFormed hwf

/-- A property of trees that the spans of the pass keep holds where its walk ends. -/
theorem walk_keeps (invariant : Tree -> Prop) (hwf : tree.WellFormed)
    (hwalk : survey.pass.Walks list tree after) (hstart : invariant tree)
    (hkeeps : forall (next later : Tree) (cursor : Cursor) (move : Move) (span : Span)
      (front moved back : List NodeId) (group : NodeId), next.WellFormed -> invariant next ->
      survey.pass.plan next list cursor = some move -> move.Fits next list cursor ->
      next.GroupStep later -> span.kind = kind ->
      move.Gathers list next span front moved back group later -> invariant later) :
    invariant after := by
  have hregular := h.regular
  have hspans : forall (next later : Tree) (cursor : Cursor) (move : Move) (span : Span),
      next.WellFormed -> cursor.Ordered -> invariant next ->
      survey.pass.plan next list cursor = some move -> move.span = some span ->
      move.Groups list next later -> invariant later := by
    intro next later cursor move span hnext hcursor hinvariant hplan hspan hgroups
    have hfits := hregular.sound next list cursor move hcursor hplan
    rcases hgroups.gathers hnext hfits with ⟨found, front, moved, back, group, hg⟩
    exact hkeeps next later cursor move found front moved back group hnext hinvariant hplan hfits
      (Pass.groupStep_of_groups hregular.sound hnext hcursor hplan hgroups)
      (h.kind_eq next list cursor move found hplan hg.span_eq) hg
  rcases Pass.walks_rule hregular.sound hregular.tags hregular.stays
      (fun _ _ _ _ hinvariant _ _ => hinvariant) hspans hwf hstart hwalk with ⟨_, hlast, _⟩
  exact hlast

theorem walk_untouched (hwf : tree.WellFormed) (hwalk : survey.pass.Walks list tree after)
    (habove : tree.Above list id) (hgroup : tree.isGroup id = true)
    (hkind : tree.isKind id kind = false) : tree.Untouched id after := by
  refine h.walk_keeps (tree.Untouched id) hwf hwalk (Tree.Untouched.refl tree id) ?_
  intro next later cursor move span front moved back group hnext hinvariant hplan hfits hstep
    hspan hg
  have hsame := hinvariant.observers.1
  apply hinvariant.trans hwf
  apply hg.untouched hnext hfits hstep
    (fun id category hsome => h.regular.tags next list cursor move id category hplan hsome)
    (Tree.above_of_steps hwf hinvariant.steps habove)
  · rw [Tree.isGroup_congr hsame]
    exact hgroup
  · rw [hspan, Tree.isKind, hsame]
    exact hkind

theorem mem_of_walk (hwf : tree.WellFormed) (hwalk : survey.pass.Walks list tree after)
    (hmem : id ∈ after.children list) (hkind : after.isKind id kind = false) :
    id ∈ tree.children list := by
  refine h.walk_keeps (fun next => forall id, id ∈ next.children list ->
    next.isKind id kind = false -> id ∈ tree.children list) hwf hwalk (fun _ hid _ => hid) ?_ id
    hmem hkind
  intro next later cursor move span front moved back group hnext hinvariant _ _ hstep hspan hg
    id hid hother
  have hne : id ≠ group := by
    rintro rfl
    rw [Tree.isKind, hg.kind?_group, hspan, beq_self_eq_true] at hother
    cases hother
  have hold := hg.mem_front_or_back hid hne
  apply hinvariant id hold
  rw [Tree.isKind, ← Tree.kind?_of_steps (Relation.ReflTransGen.single hstep)
    (hnext.child_lt_size hold)]
  exact hother

/-- A run on a list is a run on each group in it that is looked into, and a walk along
the list with its children as they were. -/
theorem run_turn {limit room : Nat} (hwf : tree.WellFormed)
    (hexec : exec (survey.pass.run limit (room + 1) list) tree = (.ok (), after)) :
    (exists middle, tree.ChangesWithin list middle ∧ middle.children list = tree.children list ∧
      (forall id, id ∈ tree.children list ->
        middle.kind? id = tree.kind? id ∧ middle.token? id = tree.token? id) ∧
      survey.pass.Walks list middle after) ∧
    forall id, id ∈ tree.children list -> tree.isGroup id = true -> tree.isKind id kind = false ->
      exists before later, tree.Untouched id before ∧
        exec (survey.pass.run limit room id) before = (.ok (), later) ∧
        later.Untouched id after := by
  have hregular := h.regular
  rcases Pass.run_turn hregular.sound hregular.tags hregular.stays hregular.applies hwf hexec with
    ⟨middle, hchanges, hcontent, hwalk, hturns⟩
  have hchildren := (Tree.observers_congr hcontent).2.2
  have hsame : forall id, id ∈ tree.children list -> middle.kind? id = tree.kind? id :=
    fun id hid => Tree.kind?_of_steps hchanges.steps (hwf.child_lt_size hid)
  refine ⟨⟨middle, hchanges, hchildren, ?_, hwalk⟩, ?_⟩
  · intro id hid
    refine ⟨hsame id hid, ?_⟩
    cases hgroup : tree.isGroup id with
    | false =>
        exact ((hturns id hid).1 (Or.inl hgroup)).observers.2.1
    | true =>
        rw [Tree.token?_eq_none_of_isGroup hgroup, Tree.token?_eq_none_of_isGroup]
        rw [Tree.isGroup_congr (hsame id hid)]
        exact hgroup
  · intro id hid hgroup hkind
    have henters : survey.pass.enters tree id = true :=
      (hregular.enters tree id).trans (h.opens_iff.mpr hkind)
    rcases (hturns id hid).2 hgroup henters with ⟨before, later, hbefore, hrun, hlater⟩
    have hbeforeWf := Tree.groupStep_keepsWellFormed.run hwf hbefore.steps
    have hlaterWf := h.wellFormed_of_run hbeforeWf hrun
    refine ⟨before, later, hbefore, hrun, hlater.trans hlaterWf ?_⟩
    apply h.walk_untouched (hchanges.wellFormed hwf) hwalk
    · exact Tree.above_of_parent? ((hchanges.wellFormed hwf).parent?_of_mem (hchildren ▸ hid))
    · rw [Tree.isGroup_congr (hsame id hid)]
      exact hgroup
    · rw [Tree.isKind, hsame id hid]
      exact hkind

/-!
# What a run does to the lists that are reached
-/

theorem run_at {limit room : Nat} (hwf : tree.WellFormed)
    (hexec : exec (survey.pass.run limit room list) tree = (.ok (), after))
    (hreach : survey.Reaches tree list other) :
    exists left before later, tree.Untouched other before ∧
      exec (survey.pass.run limit (left + 1) other) before = (.ok (), later) ∧
      later.Untouched other after := by
  induction room generalizing list tree after with
  | zero =>
      cases hexec
  | succ room ih =>
      rcases Relation.ReflTransGen.cases_head hreach with rfl | ⟨id, ⟨hid, hopens⟩, hrest⟩
      · exact ⟨room, tree, after, .refl tree list, hexec, .refl after list⟩
      · rcases Tree.mem_sublists_iff.mp hid with ⟨hmem, hgroup⟩
        rcases (h.run_turn hwf hexec).2 id hmem hgroup (h.opens_iff.mp hopens) with
          ⟨before, later, hbefore, hrun, hlater⟩
        have hbeforeWf := Tree.groupStep_keepsWellFormed.run hwf hbefore.steps
        have hlaterWf := h.wellFormed_of_run hbeforeWf hrun
        have hreachBefore := (reaches_iff_of_untouched hwf hbefore).mpr hrest
        rcases ih hbeforeWf hrun hreachBefore with ⟨left, first, last, hfirst, hown, hlast⟩
        have hbelow := Reaches.atOrAbove hreachBefore hbeforeWf
        have hsteps := (h.changesWithin_of_run hbeforeWf hrun).steps
        refine ⟨left, first, last, ?_, hown, ?_⟩
        · exact (hbefore.below (Reaches.atOrAbove hrest hwf)).trans hwf hfirst
        · have hlastWf : last.WellFormed := h.wellFormed_of_run
            (Tree.groupStep_keepsWellFormed.run hbeforeWf hfirst.steps) hown
          exact hlast.trans hlastWf
            (hlater.below (Tree.atOrAbove_of_steps hbeforeWf hsteps hbelow))

theorem mem_of_run {limit room : Nat} (hwf : tree.WellFormed)
    (hexec : exec (survey.pass.run limit (room + 1) list) tree = (.ok (), after))
    (hmem : id ∈ after.sublists list) (hopens : survey.opens after id = true) :
    id ∈ tree.children list ∧ tree.isGroup id = true ∧ tree.isKind id kind = false := by
  rcases Tree.mem_sublists_iff.mp hmem with ⟨hchild, hgroup⟩
  have hkind := h.opens_iff.mp hopens
  rcases (h.run_turn hwf hexec).1 with ⟨middle, hchanges, hchildren, _, hwalk⟩
  have hold := h.mem_of_walk (hchanges.wellFormed hwf) hwalk hchild hkind
  rw [hchildren] at hold
  have hsame := Tree.kind?_of_steps (h.changesWithin_of_run hwf hexec).steps
    (hwf.child_lt_size hold)
  rw [Tree.isGroup_congr hsame] at hgroup
  rw [Tree.isKind, hsame] at hkind
  exact ⟨hold, hgroup, hkind⟩

/-- After a run no list is reached that has not been reached before. -/
theorem reaches_of_run {limit room : Nat} (hwf : tree.WellFormed)
    (hexec : exec (survey.pass.run limit room list) tree = (.ok (), after))
    (hreach : survey.Reaches after list other) : survey.Reaches tree list other := by
  induction room generalizing list tree after with
  | zero =>
      cases hexec
  | succ room ih =>
      rcases Relation.ReflTransGen.cases_head hreach with rfl | ⟨id, ⟨hid, hopens⟩, hrest⟩
      · exact .refl
      · rcases h.mem_of_run hwf hexec hid hopens with ⟨hmem, hgroup, hkind⟩
        rcases (h.run_turn hwf hexec).2 id hmem hgroup hkind with
          ⟨before, later, hbefore, hrun, hlater⟩
        have hbeforeWf := Tree.groupStep_keepsWellFormed.run hwf hbefore.steps
        have hlaterWf := h.wellFormed_of_run hbeforeWf hrun
        have hold := ih hbeforeWf hrun ((reaches_iff_of_untouched hlaterWf hlater).mp hrest)
        exact .head ⟨Tree.mem_sublists_iff.mpr ⟨hmem, hgroup⟩, h.opens_iff.mpr hkind⟩
          ((reaches_iff_of_untouched hwf hbefore).mp hold)

/-- A run changes nothing after another one exactly if the pass acts in no list that is
still reached. -/
theorem idle_after_run_iff (hlocal : survey.Local) {limit room : Nat} (hwf : tree.WellFormed)
    (hexec : exec (survey.pass.run limit room list) tree = (.ok (), after)) :
    Idle (survey.pass.run limit room list) after <->
      forall other, survey.Reaches after list other ->
        forall idx, survey.acts after other idx = false := by
  refine ⟨fun hidle other hreach idx => h.regular.faithful.acts_of_idle
    (h.wellFormed_of_run hwf hexec) hidle hreach idx, ?_⟩
  induction room generalizing list tree after with
  | zero =>
      cases hexec
  | succ room ih =>
      intro hrests
      have hafter := h.wellFormed_of_run hwf hexec
      apply (h.regular.faithful after list limit room hafter).mpr
      refine ⟨hrests list .refl, ?_⟩
      intro id hid hopens
      rcases h.mem_of_run hwf hexec hid hopens with ⟨hmem, hgroup, hkind⟩
      rcases (h.run_turn hwf hexec).2 id hmem hgroup hkind with
        ⟨before, later, hbefore, hrun, hlater⟩
      have hbeforeWf := Tree.groupStep_keepsWellFormed.run hwf hbefore.steps
      have hlaterWf := h.wellFormed_of_run hbeforeWf hrun
      apply hlocal.idle_of_untouched h.regular.faithful hlaterWf hlater
      apply ih hbeforeWf hrun
      intro other hreach idx
      have hat := hlater.below (Reaches.atOrAbove hreach hlaterWf)
      rw [← hlocal later after other hat.observers.2.2 fun id hid =>
        ⟨(hat.observers_child hlaterWf hid).1, (hat.observers_child hlaterWf hid).2.1⟩]
      exact hrests other (.head ⟨hid, hopens⟩
        ((reaches_iff_of_untouched hlaterWf hlater).mpr hreach)) idx

end Makes
end Survey
end SqlLayout
