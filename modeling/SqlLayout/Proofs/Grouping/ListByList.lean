import SqlLayout.Proofs.Grouping.Walks

/-!
# Runs followed list by list

Most passes look at no child on their way along a list: they run on the groups in
the list first, and then walk.  Such a run succeeds if the nesting leaves it room,
and what it does to a list follows from what it does to the groups in it.
-/

namespace SqlLayout

open Grouping Tree

/-!
# Walks that look into no group
-/

namespace Pass

def Stays (pass : Pass) : Prop :=
  forall tree list cursor move, pass.plan tree list cursor = some move -> move.visit = none

theorem stays_of_seeker {pass : Pass} {seeker : Seeker} (hplan : pass.plan = seeker.plan) :
    pass.Stays := by
  intro tree list cursor move hmove
  rw [hplan] at hmove
  unfold Seeker.plan at hmove
  split at hmove
  · cases hmove
  · split at hmove
    · cases hmove
      rfl
    · cases hmove
      rfl

theorem stays_binary (rule : BinaryRule) : (Pass.binary rule).Stays := by
  intro tree list cursor move hmove
  change rule.plan tree list cursor = some move at hmove
  rcases BinaryRule.does_of_plan hmove with ⟨id, _, hdoes⟩
  cases hdoes with
  | blank _ => rfl
  | group _ _ _ => rfl
  | past _ _ => rfl

def Walks (pass : Pass) (list : NodeId) (tree after : Tree) : Prop :=
  exec (walk (fun _ => pure ()) list pass.plan (tree.childCount list) {}) tree = (.ok (), after)

variable {pass : Pass} {list : NodeId} {tree after : Tree}

theorem Stays.exec_walk (hstays : pass.Stays) (visit visit' : NodeId -> Grouping Unit)
    (budget : Nat) (cursor : Cursor) (tree : Tree) :
    exec (walk visit list pass.plan budget cursor) tree =
      exec (walk visit' list pass.plan budget cursor) tree := by
  induction budget generalizing cursor tree with
  | zero =>
      rfl
  | succ budget ih =>
      unfold walk
      rw [exec_get_bind, exec_get_bind]
      cases hplan : pass.plan tree list cursor with
      | none =>
          rfl
      | some move =>
          have hsame : perform visit list move = perform visit' list move := by
            unfold perform
            rw [hstays tree list cursor move hplan]
          dsimp only
          rw [exec_bind, exec_bind, hsame]
          rcases exec (perform visit' list move) tree with ⟨e | u, next⟩
          · rfl
          · exact ih move.cursor next

theorem changesWithin_pure (id : NodeId) (tree : Tree) (_ : tree.WellFormed) :
    tree.ChangesWithin id (exec ((fun _ => pure () : NodeId -> Grouping Unit) id) tree).2 :=
  ChangesWithin.refl tree id

variable (hsound : pass.Sound) (htags : pass.TagsChildren) (hstays : pass.Stays)
include hsound htags hstays

theorem walks_rule {invariant : Tree -> Cursor -> Prop}
    (hskip : forall (tree : Tree) (cursor : Cursor) (move : Move), tree.WellFormed ->
      invariant tree cursor -> pass.plan tree list cursor = some move -> move.span = none ->
      invariant tree move.cursor)
    (hgroup : forall (tree after : Tree) (cursor : Cursor) (move : Move) (span : Span),
      tree.WellFormed -> cursor.Ordered -> invariant tree cursor ->
      pass.plan tree list cursor = some move -> move.span = some span ->
      move.Groups list tree after -> invariant after move.cursor)
    (hwf : tree.WellFormed) (hstart : invariant tree {}) (h : pass.Walks list tree after) :
    exists last, invariant after last ∧
      (pass.plan after list last = none ∨ after.childCount list <= last.idx) := by
  refine walk_rule hsound htags changesWithin_pure ?_ hwf
    (Cursor.ordered_at 0) (Nat.le_add_left _ _) hstart h
  intro tree after cursor move hwf hcursor hinvariant hplan hmoved
  cases hmoved with
  | skip _ hspan heq =>
      rw [heq]
      exact hskip tree cursor move hwf hinvariant hplan hspan
  | visit hvisited _ _ =>
      rw [hstays tree list cursor move hplan] at hvisited
      cases hvisited
  | span hspan hgroups =>
      exact hgroup tree after cursor move _ hwf hcursor hinvariant hplan hspan hgroups

omit hstays in
theorem Walks.changesWithin (hwf : tree.WellFormed) (h : pass.Walks list tree after) :
    tree.ChangesWithin list after := by
  have hchanges := walk_changesWithin hsound htags changesWithin_pure list (tree.childCount list)
    hwf (Cursor.ordered_at 0)
  rw [h] at hchanges
  exact hchanges

theorem exists_walks (list : NodeId) (hwf : tree.WellFormed) :
    exists after, pass.Walks list tree after := by
  rcases @walk_ok pass hsound list htags _ (fun _ _ => True) changesWithin_pure
      (fun _ _ _ _ _ _ _ _ _ => trivial)
      (fun tree cursor move _ _ _ hplan => hstays tree list cursor move hplan)
      _ _ _ hwf (Cursor.ordered_at 0) (Nat.le_add_left (tree.childCount list) _) trivial with
    ⟨after, _, hexec, _⟩
  exact ⟨after, hexec⟩

end Pass

/-!
# Some groups of a list
-/

/-- Doing one thing after the other to different children of a list does each of
them its own. -/
theorem Grouping.forM_turns {f : NodeId -> Grouping Unit} {fits : Rose -> Prop}
    {turns : Rose -> Rose -> Prop}
    (hf : forall (tree : Tree) id, tree.WellFormed -> tree.isGroup id = true ->
      fits (tree.rose id) -> exists after, exec (f id) tree = (.ok (), after) ∧
        tree.ChangesWithin id after ∧ turns (tree.rose id) (after.rose id))
    {items : List NodeId} (hnodup : items.Nodup) {tree : Tree} {list : NodeId}
    (hwf : tree.WellFormed)
    (hitems : forall id, id ∈ items ->
      id ∈ tree.children list ∧ tree.isGroup id = true ∧ fits (tree.rose id)) :
    exists after, exec (items.forM f) tree = (.ok (), after) ∧ tree.ChangesWithin list after ∧
      after.content? list = tree.content? list ∧
      forall id, id ∈ tree.children list ->
        (id ∈ items -> turns (tree.rose id) (after.rose id)) ∧
          (id ∉ items -> after.rose id = tree.rose id) := by
  induction items generalizing tree with
  | nil =>
      refine ⟨tree, rfl, ChangesWithin.refl tree list, rfl, ?_⟩
      intro id _
      exact ⟨fun h => absurd h List.not_mem_nil, fun _ => rfl⟩
  | cons first rest ih =>
      rcases List.nodup_cons.mp hnodup with ⟨hfresh, hrest⟩
      rcases hitems first List.mem_cons_self with ⟨hmem, hgroup, hfits⟩
      rcases hf tree first hwf hgroup hfits with ⟨middle, hexec, hchanges, hturns⟩
      have hmiddle := hchanges.wellFormed hwf
      have hcontent := hchanges.content?_upper hwf hmem
      have hchildren := hchanges.children_upper hwf hmem
      have hsame : forall id, id ∈ tree.children list -> id ≠ first ->
          middle.rose id = tree.rose id :=
        fun id hid hne => hchanges.rose_sibling hwf hmem hid hne
      have hleft : forall id, id ∈ rest ->
          id ∈ middle.children list ∧ middle.isGroup id = true ∧ fits (middle.rose id) := by
        intro id hid
        rcases hitems id (List.mem_cons_of_mem _ hid) with ⟨hmemId, hgroupId, hfitsId⟩
        have hne : id ≠ first := by
          rintro rfl
          exact hfresh hid
        rw [hsame id hmemId hne, hchildren]
        exact ⟨hmemId, isGroup_of_steps hchanges.steps hgroupId, hfitsId⟩
      rcases ih hrest hmiddle hleft with ⟨after, hexec', hchanges', hcontent', hall⟩
      have habove := above_of_parent? (hwf.parent?_of_mem hmem)
      refine ⟨after, ?_, hchanges'.trans (hchanges.of_above habove) hwf,
        hcontent'.trans hcontent, ?_⟩
      · change exec (f first >>= fun _ => rest.forM f) tree = _
        rw [exec_bind, hexec]
        exact hexec'
      · rw [hchildren] at hall
        intro id hid
        by_cases heq : id = first
        · rw [heq]
          refine ⟨fun _ => ?_, fun hnot => absurd List.mem_cons_self hnot⟩
          rw [(hall first hmem).2 hfresh]
          exact hturns
        · rw [← hsame id hid heq]
          refine ⟨fun h => (hall id hid).1 ?_, fun h => (hall id hid).2 ?_⟩
          · exact (List.mem_cons.mp h).resolve_left heq
          · exact fun hmemRest => h (List.mem_cons_of_mem _ hmemRest)

/-!
# One run
-/

/-- What becomes of a child before its list is walked: nothing, or what a run on
it does, if it is a group of a kind that is entered. -/
inductive Rose.Entered (opens : GroupKind -> Bool) (turns : Rose -> Rose -> Prop) :
    Rose -> Rose -> Prop where
  | same {rose : Rose} : Entered opens turns rose rose
  | run {kind : GroupKind} {children : List Rose} {after : Rose} : opens kind = true ->
      turns (.group kind children) after -> Entered opens turns (.group kind children) after

namespace Pass

variable {pass : Pass} (hsound : pass.Sound) (htags : pass.TagsChildren) (hstays : pass.Stays)
  {opens : GroupKind -> Bool}
  (henters : forall (tree : Tree) id kind, tree.kind? id = some kind ->
    pass.enters tree id = opens kind)
  (happlies : forall tree list, pass.applies tree list = true)
include hsound htags hstays henters happlies

/-- A run with room left does to each group that it enters what a run on that one
does, and then walks along the list. -/
theorem run_parts {turns : Rose -> Rose -> Prop} {limit room : Nat}
    (hsub : forall (tree : Tree) id, tree.WellFormed -> tree.isGroup id = true ->
      Rose.Nests (fun _ => false) room (tree.rose id) ->
      exists after, exec (pass.run limit room id) tree = (.ok (), after) ∧
        tree.ChangesWithin id after ∧ turns (tree.rose id) (after.rose id))
    {list : NodeId} {kind : GroupKind} {tree : Tree} (hwf : tree.WellFormed)
    (hkind : tree.kind? list = some kind)
    (hnests : Rose.Nests (fun _ => false) (room + 1) (tree.rose list)) :
    exists middle after, exec (pass.run limit (room + 1) list) tree = (.ok (), after) ∧
      tree.ChangesWithin list after ∧ middle.WellFormed ∧ middle.kind? list = some kind ∧
      List.Forall₂ (Rose.Entered opens turns) ((tree.children list).map tree.rose)
        ((middle.children list).map middle.rose) ∧
      pass.Walks list middle after := by
  have hchildren : forall child, child ∈ (tree.children list).map tree.rose ->
      Rose.Nests (fun _ => false) room child := by
    rw [hwf.rose_of_kind? hkind] at hnests
    cases hnests with
    | free hfree _ =>
        cases hfree
    | group hall =>
        exact hall
  have hitems : forall id, id ∈ (tree.sublists list).filter (pass.enters tree) ->
      id ∈ tree.children list ∧ tree.isGroup id = true ∧
        Rose.Nests (fun _ => false) room (tree.rose id) := by
    intro id hid
    rcases List.mem_filter.mp (List.mem_filter.mp hid).1 with ⟨hmem, hgroupId⟩
    exact ⟨hmem, hgroupId, hchildren _ (List.mem_map_of_mem hmem)⟩
  have hnodup : ((tree.sublists list).filter (pass.enters tree)).Nodup :=
    ((hwf.nodup_children list).filter _).filter _
  rcases forM_turns hsub hnodup hwf hitems with ⟨middle, hexec, hchanges, hcontent, hall⟩
  have hmiddle := hchanges.wellFormed hwf
  rcases observers_congr hcontent with ⟨hkind', _, hchildren'⟩
  rcases exists_walks hsound htags hstays list hmiddle with ⟨after, hwalk⟩
  have hwithin := Walks.changesWithin hsound htags hmiddle hwalk
  refine ⟨middle, after, ?_, hwithin.trans hchanges hwf, hmiddle, hkind'.trans hkind, ?_,
    hwalk⟩
  · unfold run
    rw [exec_get_bind, exec_bind, hexec]
    dsimp only
    rw [exec_get_bind, if_pos (happlies middle list),
      hstays.exec_walk (pass.run limit room) fun _ => pure ()]
    exact hwalk
  · rw [hchildren', List.forall₂_map_left_iff, List.forall₂_map_right_iff, List.forall₂_same]
    intro id hid
    by_cases hitem : id ∈ (tree.sublists list).filter (pass.enters tree)
    · rcases List.mem_filter.mp hitem with ⟨hsub, henter⟩
      rcases isGroup_iff_kind?.mp (List.mem_filter.mp hsub).2 with ⟨other, hother⟩
      have hturns := (hall id hid).1 hitem
      rw [henters tree id other hother] at henter
      rw [hwf.rose_of_kind? hother] at hturns ⊢
      exact Rose.Entered.run henter hturns
    · rw [(hall id hid).2 hitem]
      exact Rose.Entered.same

end Pass
end SqlLayout
