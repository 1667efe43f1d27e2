import SqlLayout.Proofs.Grouping.Depth
import SqlLayout.Proofs.Grouping.Limits

/-!
# What a pass keeps

A property of trees is kept by the runs of a pass that succeed if each of its moves
keeps it.  A move is planned in a list of a suitable kind, at a place of which
something is known: what was passed since the last child that counts, or what waits
for its partner.
-/

namespace SqlLayout

open Grouping

theorem Grouping.exec_bind_eq_ok {m next : Grouping Unit} {tree after : Tree}
    (h : exec (m >>= fun _ => next) tree = (.ok (), after)) :
    exists middle, exec m tree = (.ok (), middle) ∧ exec next middle = (.ok (), after) := by
  rw [exec_bind] at h
  rcases hm : exec m tree with ⟨e | u, middle⟩
  · rw [hm] at h
    cases h
  · rw [hm] at h
    exact ⟨middle, rfl, h⟩

namespace Pass

/-- A property of trees that every move of a pass keeps, in lists of suitable kinds and
with what is known of the place. -/
structure Keeps (pass : Pass) (holds : Tree -> Prop) (suits : GroupKind -> Prop)
    (known : Tree -> NodeId -> Cursor -> Prop) : Prop where
  enters : forall tree id kind, pass.enters tree id = true -> tree.kind? id = some kind ->
    suits kind
  start : forall tree list, known tree list {}
  skip : forall tree list cursor move, known tree list cursor ->
    pass.plan tree list cursor = some move -> move.visit = none -> move.span = none ->
    known tree list move.cursor
  visit : forall tree list cursor move id, known tree list cursor ->
    pass.plan tree list cursor = some move -> move.visit = some id ->
    (exists kind, tree.kind? id = some kind ∧ suits kind) ∧
      forall after, tree.TokensKept after -> after.children list = tree.children list ->
        known after list move.cursor
  span : forall tree after list host cursor move span, tree.WellFormed -> cursor.Ordered ->
    holds tree -> tree.kind? list = some host -> suits host -> known tree list cursor ->
    pass.plan tree list cursor = some move -> move.span = some span ->
    move.Groups list tree after -> holds after ∧ known after list move.cursor

namespace Keeps

variable {pass : Pass} {holds : Tree -> Prop} {suits : GroupKind -> Prop}
  {known : Tree -> NodeId -> Cursor -> Prop} (h : pass.Keeps holds suits known)
  (hsound : pass.Sound) (htags : pass.TagsChildren) {limit room : Nat}
include h hsound htags

theorem walk {list : NodeId} {host : GroupKind}
    (hruns : forall id kind (tree after : Tree), tree.WellFormed -> tree.kind? id = some kind ->
      suits kind -> holds tree -> exec (pass.run limit room id) tree = (.ok (), after) ->
      holds after)
    {tree after : Tree} (hwf : tree.WellFormed) (hhost : tree.kind? list = some host)
    (hsuits : suits host) (hholds : holds tree)
    (hexec : exec (walk (pass.run limit room) list pass.plan (tree.childCount list) {}) tree =
      (.ok (), after)) : holds after := by
  have hchanges : forall id (tree : Tree), tree.WellFormed ->
      tree.ChangesWithin id (exec (pass.run limit room id) tree).2 :=
    fun id _ hwf => run_changesWithin hsound htags limit room id hwf
  have hmove : forall (tree after : Tree) (cursor : Cursor) (move : Move), tree.WellFormed ->
      cursor.Ordered -> (holds tree ∧ tree.kind? list = some host ∧ known tree list cursor) ->
      pass.plan tree list cursor = some move ->
      Moved (pass.run limit room) list move tree after ->
      holds after ∧ after.kind? list = some host ∧ known after list move.cursor := by
    rintro tree after cursor move hwf hcursor ⟨hholds, hhost, hknown⟩ hplan hmoved
    have hfits := hsound tree list cursor move hcursor hplan
    cases hmoved with
    | skip hvisit hspan heq =>
        subst heq
        exact ⟨hholds, hhost, h.skip _ list cursor move hknown hplan hvisit hspan⟩
    | @visit id hvisit hmem hexec =>
        rcases h.visit tree list cursor move id hknown hplan hvisit with
          ⟨⟨kind, hkind, hsuit⟩, hnext⟩
        have hwithin := hchanges id tree hwf
        rw [hexec] at hwithin
        refine ⟨hruns id kind tree after hwf hkind hsuit hholds hexec, ?_, ?_⟩
        · rw [(Tree.observers_congr (hwithin.content?_upper hwf hmem)).1]
          exact hhost
        · exact hnext after (Tree.tokensKept_of_steps hwithin.steps)
            (hwithin.children_upper hwf hmem)
    | span hspan hgroups =>
        rcases hgroups.regroups hwf hfits with ⟨_, _, hkind, _⟩
        rcases h.span tree after list host cursor move _ hwf hcursor hholds hhost hsuits hknown
          hplan hspan hgroups with ⟨hholds', hknown'⟩
        exact ⟨hholds', hkind.trans hhost, hknown'⟩
  rcases walk_rule hsound htags hchanges hmove hwf (Cursor.ordered_at 0) (Nat.le_add_left _ _)
    ⟨hholds, hhost, h.start tree list⟩ hexec with ⟨last, ⟨hlast, _⟩, _⟩
  exact hlast

omit h in
/-- The groups that are entered, one after the other; no run changes the kind of
another one. -/
theorem forM
    (hruns : forall id kind (tree after : Tree), tree.WellFormed -> tree.kind? id = some kind ->
      suits kind -> holds tree -> exec (pass.run limit room id) tree = (.ok (), after) ->
      holds after)
    {items : List NodeId} {tree after : Tree} (hwf : tree.WellFormed)
    (hitems : forall id, id ∈ items -> exists kind, tree.kind? id = some kind ∧ suits kind)
    (hholds : holds tree) (hexec : exec (items.forM (pass.run limit room)) tree = (.ok (), after)) :
    holds after ∧ Relation.ReflTransGen Tree.GroupStep tree after := by
  induction items generalizing tree with
  | nil =>
      cases hexec
      exact ⟨hholds, Relation.ReflTransGen.refl⟩
  | cons first rest ih =>
      rw [List.forall_mem_cons] at hitems
      rcases exec_bind_eq_ok hexec with ⟨middle, hfirst, hrest⟩
      rcases hitems.1 with ⟨kind, hkind, hsuit⟩
      have hsteps := (run_changesWithin hsound htags limit room first hwf).steps
      rw [hfirst] at hsteps
      have hitems' : forall id, id ∈ rest ->
          exists kind, middle.kind? id = some kind ∧ suits kind := by
        intro id hid
        rcases hitems.2 id hid with ⟨kind, hkind, hsuit⟩
        have hlt := Tree.lt_size_of_isGroup (Tree.isGroup_iff_kind?.mpr ⟨_, hkind⟩)
        exact ⟨kind, (Tree.kind?_of_steps hsteps hlt).trans hkind, hsuit⟩
      rcases ih (Tree.groupStep_keepsWellFormed.run hwf hsteps) hitems'
        (hruns first kind tree middle hwf hkind hsuit hholds hfirst) hrest with ⟨hafter, hsteps'⟩
      exact ⟨hafter, hsteps.trans hsteps'⟩

/-- By induction on the room: the groups that are entered come first, then the walk along
the list. -/
theorem run {list : NodeId} {host : GroupKind} {tree after : Tree} (hwf : tree.WellFormed)
    (hhost : tree.kind? list = some host) (hsuits : suits host) (hholds : holds tree)
    (hexec : exec (pass.run limit room list) tree = (.ok (), after)) : holds after := by
  induction room generalizing list host tree after with
  | zero =>
      cases hexec
  | succ room ih =>
      have hruns : forall id kind (tree after : Tree), tree.WellFormed ->
          tree.kind? id = some kind -> suits kind -> holds tree ->
          exec (pass.run limit room id) tree = (.ok (), after) -> holds after :=
        fun _ _ _ _ hwf hkind hsuit hholds hexec => ih hwf hkind hsuit hholds hexec
      unfold Pass.run at hexec
      rw [exec_get_bind] at hexec
      rcases exec_bind_eq_ok hexec with ⟨middle, hentered, hwalk⟩
      have hitems : forall id, id ∈ (tree.sublists list).filter (pass.enters tree) ->
          exists kind, tree.kind? id = some kind ∧ suits kind := by
        intro id hid
        rcases List.mem_filter.mp hid with ⟨hsublist, henters⟩
        rcases Tree.isGroup_iff_kind?.mp (List.mem_filter.mp hsublist).2 with ⟨kind, hkind⟩
        exact ⟨kind, hkind, h.enters tree id kind henters hkind⟩
      rcases Keeps.forM hsound htags hruns hwf hitems hholds hentered with ⟨hmiddle, hsteps⟩
      have hlt := Tree.lt_size_of_isGroup (Tree.isGroup_iff_kind?.mpr ⟨_, hhost⟩)
      rw [exec_get_bind] at hwalk
      split at hwalk
      · exact h.walk hsound htags hruns (Tree.groupStep_keepsWellFormed.run hwf hsteps)
          ((Tree.kind?_of_steps hsteps hlt).trans hhost) hsuits hmiddle hwalk
      · cases hwalk
        exact hmiddle

end Keeps

theorem holds_of_forM {holds : Tree -> Prop} {limit : Nat} {root : NodeId} {host : GroupKind}
    {passes : List Pass}
    (h : forall pass, pass ∈ passes -> pass.Sound ∧ pass.TagsChildren ∧
      exists suits known, pass.Keeps holds suits known ∧ suits host)
    {tree after : Tree} (hwf : tree.WellFormed) (hhost : tree.kind? root = some host)
    (hholds : holds tree)
    (hexec : exec (passes.forM fun pass => pass.run limit limit root) tree = (.ok (), after)) :
    holds after := by
  induction passes generalizing tree with
  | nil =>
      cases hexec
      exact hholds
  | cons pass rest ih =>
      rw [List.forall_mem_cons] at h
      rcases h with ⟨⟨hsound, htags, suits, known, hkeeps, hsuits⟩, hlater⟩
      rcases exec_bind_eq_ok hexec with ⟨middle, hfirst, hrest⟩
      have hsteps := (run_changesWithin hsound htags limit limit root hwf).steps
      rw [hfirst] at hsteps
      have hlt := Tree.lt_size_of_isGroup (Tree.isGroup_iff_kind?.mpr ⟨_, hhost⟩)
      exact ih hlater (Tree.groupStep_keepsWellFormed.run hwf hsteps)
        ((Tree.kind?_of_steps hsteps hlt).trans hhost)
        (hkeeps.run hsound htags hwf hhost hsuits hholds hfirst) hrest

end Pass

/-- A property of flat statements that all passes keep holds of grouped statements. -/
theorem Statement.holds_of_group {holds : Tree -> Prop}
    (h : forall pass, pass ∈ Pass.all ->
      exists suits known, pass.Keeps holds suits known ∧ suits .statement)
    {tokens : List Token} {limit : Nat} {after : Statement}
    (hflat : holds (ofTokens tokens).tree) (hgroup : (ofTokens tokens).group limit = .ok after) :
    holds after.tree := by
  rcases group_ok_iff_exec.mp hgroup with ⟨hexec, _⟩
  exact Pass.holds_of_forM (fun pass hpass => ⟨Pass.all_sound pass hpass,
    Pass.all_tagsChildren pass hpass, h pass hpass⟩) (wellFormed_ofTokens tokens)
    (kind?_root_ofTokens tokens) hflat hexec

end SqlLayout
