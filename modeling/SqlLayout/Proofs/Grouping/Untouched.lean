import SqlLayout.Proofs.Grouping.BracketGroups
import SqlLayout.Proofs.Grouping.Resting

/-!
# Nodes that stay untouched

Steps leave a node untouched if they change no content at or below it.  What a pass
does to one child of a list leaves the others untouched, and so does a span, but for
the list and the group that takes the span in.  A run that leaves a list as it is does
so wherever the list is untouched.
-/

namespace SqlLayout

open Grouping

namespace Tree

variable {tree middle after : Tree} {list id other : NodeId}

theorem atOrAbove_of_steps (hwf : tree.WellFormed)
    (h : Relation.ReflTransGen GroupStep tree after) (habove : tree.AtOrAbove id other) :
    after.AtOrAbove id other :=
  habove.imp_right (above_of_steps hwf h)

/-- Steps that change no content at or below a node. -/
structure Untouched (tree : Tree) (id : NodeId) (after : Tree) : Prop where
  steps : Relation.ReflTransGen GroupStep tree after
  content?_eq : forall other, tree.AtOrAbove id other ->
    after.content? other = tree.content? other

namespace Untouched

theorem refl (tree : Tree) (id : NodeId) : tree.Untouched id tree :=
  ⟨Relation.ReflTransGen.refl, fun _ _ => rfl⟩

theorem trans (hwf : tree.WellFormed) (h : tree.Untouched id middle)
    (h' : middle.Untouched id after) : tree.Untouched id after := by
  refine ⟨h.steps.trans h'.steps, ?_⟩
  intro other hbelow
  rw [h'.content?_eq other (atOrAbove_of_steps hwf h.steps hbelow), h.content?_eq other hbelow]

theorem below (h : tree.Untouched id after) (hbelow : tree.AtOrAbove id other) :
    tree.Untouched other after :=
  ⟨h.steps, fun node hnode => h.content?_eq node (hbelow.trans hnode)⟩

theorem observers (h : tree.Untouched id after) :
    after.kind? id = tree.kind? id ∧ after.token? id = tree.token? id ∧
      after.children id = tree.children id :=
  observers_congr (h.content?_eq id (Or.inl rfl))

theorem observers_child (h : tree.Untouched id after) (hwf : tree.WellFormed)
    (hmem : other ∈ tree.children id) :
    after.kind? other = tree.kind? other ∧ after.token? other = tree.token? other ∧
      after.children other = tree.children other :=
  (h.below (Or.inr (above_of_parent? (hwf.parent?_of_mem hmem)))).observers

end Untouched

theorem ChangesWithin.untouched_sibling (hwf : tree.WellFormed) (h : tree.ChangesWithin id after)
    (hmem : id ∈ tree.children list) (hother : other ∈ tree.children list) (hne : other ≠ id) :
    tree.Untouched other after := by
  refine ⟨h.steps, ?_⟩
  intro below hbelow
  apply h.content?_eq below (lt_size_of_atOrAbove (hwf.child_lt_size hother) hbelow)
  intro hid
  exact hne (hwf.eq_of_children_above hother hmem hbelow hid)

end Tree

/-!
# One span
-/

theorem Move.Groups.groupStep {tree after : Tree} {list : NodeId} {cursor : Cursor} {move : Move}
    (hwf : tree.WellFormed) (hfits : move.Fits tree list cursor)
    (h : move.Groups list tree after) : tree.GroupStep after := by
  have htag := Move.retagged_tagged hfits
  rcases h with ⟨span, group, hspan, hok⟩
  rcases hfits.span_inside span hspan with ⟨hstart, hstop, hextend⟩
  rcases Tree.groupTokens_regrouped span.kind (htag.wellFormed hwf) hstart hextend
    (by rw [htag.children_eq]; exact hstop) with ⟨group', after', hok', hgroup⟩
  cases hok.symm.trans hok'
  exact ⟨move.tagged tree, htag, hgroup⟩

theorem Pass.groupStep_of_groups {pass : Pass} (hsound : pass.Sound) {tree after : Tree}
    {list : NodeId} {cursor : Cursor} {move : Move} (hwf : tree.WellFormed)
    (hcursor : cursor.Ordered) (hplan : pass.plan tree list cursor = some move)
    (h : move.Groups list tree after) : tree.GroupStep after :=
  h.groupStep hwf (hsound tree list cursor move hcursor hplan)

theorem Pass.changesWithin_of_run {pass : Pass} (hsound : pass.Sound) (htags : pass.TagsChildren)
    {limit room : Nat} {list : NodeId} {tree after : Tree} {result : Except Error Unit}
    (hwf : tree.WellFormed) (h : exec (pass.run limit room list) tree = (result, after)) :
    tree.ChangesWithin list after := by
  have hwithin := run_changesWithin hsound htags limit room list hwf
  rw [h] at hwithin
  exact hwithin

namespace Move

variable {tree after : Tree} {list : NodeId} {cursor : Cursor} {move : Move}

/-- The children `moved` of a list are put into one group, which is a new one or the
first of them. -/
structure Gathers (move : Move) (list : NodeId) (tree : Tree) (span : Span)
    (front moved back : List NodeId) (group : NodeId) (after : Tree) : Prop where
  span_eq : move.span = some span
  children_eq : tree.children list = front ++ moved ++ back
  start_eq : front.length = span.start
  stop_eq : front.length + moved.length = span.stop + 1
  children_list : after.children list = front ++ group :: back
  kind?_list : after.kind? list = tree.kind? list
  kind?_group : after.kind? group = some span.kind
  new_or_first : (group = tree.size ∧ after.children group = moved) ∨
    (span.extend = true ∧ tree.kind? group = some span.kind ∧
      exists rest, moved = group :: rest ∧ after.children group = tree.children group ++ rest)
  joins_first : span.extend = true -> forall id rest, moved = id :: rest ->
    tree.isKind id span.kind = true -> group = id
  content?_other : forall id, id ≠ list -> id ≠ group ->
    (forall category, move.retag ≠ some (id, category)) -> after.content? id = tree.content? id

theorem content?_tagged {id : NodeId}
    (h : forall category, move.retag ≠ some (id, category)) :
    (move.tagged tree).content? id = tree.content? id := by
  unfold Move.tagged
  cases hretag : move.retag with
  | none =>
      rfl
  | some pair =>
      rcases pair with ⟨other, category⟩
      dsimp only
      rw [Tree.content?_modifyToken, if_neg]
      rintro rfl
      exact h category hretag

theorem Groups.gathers (hwf : tree.WellFormed) (hfits : move.Fits tree list cursor)
    (h : move.Groups list tree after) :
    exists span front moved back group,
      move.Gathers list tree span front moved back group after := by
  have htag := Move.retagged_tagged hfits
  rcases h.cases hwf hfits with
    ⟨span, front, moved, back, hspan, hchildren, hstart, hstop,
      ⟨hwrapped, hother⟩ | ⟨group, rest, hextend, rfl, hkind, habsorbed⟩⟩
  · refine ⟨span, front, moved, back, tree.size, hspan, hchildren, hstart, hstop, ?_, ?_, ?_,
      Or.inl ⟨rfl, ?_⟩, ?_, ?_⟩
    · rw [← htag.size_eq]
      exact hwrapped.children_after_list
    · rw [hwrapped.kind?_of_ne hwrapped.list_ne_size, htag.kind?_eq]
    · rw [← htag.size_eq]
      exact Tree.kind?_of_content? hwrapped.content?_new
    · rw [← htag.size_eq]
      exact hwrapped.children_new
    · intro hextend id rest hmoved hkind
      have hnot := hother hextend id rest hmoved
      rw [Tree.isKind, htag.kind?_eq] at hnot
      exact absurd hkind (Bool.eq_false_iff.mp hnot)
    · intro id hlist hsize hretag
      rw [← htag.size_eq] at hsize
      rw [hwrapped.content?_other id hsize hlist, content?_tagged hretag]
  · refine ⟨span, front, group :: rest, back, group, hspan, hchildren, hstart, hstop,
      habsorbed.children_after_list, ?_, ?_, Or.inr ⟨hextend, ?_, rest, rfl, ?_⟩, ?_, ?_⟩
    · rw [(habsorbed.kind?_eq_and_token?_eq list).1, htag.kind?_eq]
    · exact Tree.kind?_of_content? (habsorbed.content?_group _ hkind)
    · rw [← htag.kind?_eq]
      exact hkind
    · rw [habsorbed.children_after_group, htag.children_eq]
    · intro _ id other hmoved _
      exact (List.cons.inj hmoved).1
    · intro id hlist hgroup hretag
      rw [habsorbed.content?_other id hgroup hlist, content?_tagged hretag]

namespace Gathers

variable {span : Span} {front moved back : List NodeId} {group : NodeId}
  (h : move.Gathers list tree span front moved back group after)
include h

theorem new_of_not_extend (hextend : span.extend = false) :
    group = tree.size ∧ after.children group = moved := by
  rcases h.new_or_first with hnew | ⟨hsome, _⟩
  · exact hnew
  · rw [hextend] at hsome
    cases hsome

theorem first_of_lt_size (hlt : group < tree.size) :
    tree.kind? group = some span.kind ∧
      exists rest, moved = group :: rest ∧ after.children group = tree.children group ++ rest := by
  rcases h.new_or_first with ⟨hnew, _⟩ | ⟨_, hfirst⟩
  · exact absurd hnew (Nat.ne_of_lt hlt)
  · exact hfirst

theorem moved_eq : moved = ((tree.children list).take (span.stop + 1)).drop span.start := by
  rw [h.children_eq, ← h.stop_eq, ← h.start_eq, ← List.length_append, List.take_left,
    List.drop_left]

theorem exists_of_mem_moved {id : NodeId} (hmem : id ∈ moved) :
    exists idx, span.start <= idx ∧ idx <= span.stop ∧ tree.child? list idx = some id := by
  rw [h.moved_eq] at hmem
  exact Tree.exists_of_mem_span hmem

theorem exists_moved (hle : span.start <= span.stop) {id : NodeId}
    (hfirst : tree.child? list span.start = some id) : exists rest, moved = id :: rest := by
  rcases List.getElem?_eq_some_iff.mp hfirst with ⟨hlt, hget⟩
  rw [h.moved_eq, List.drop_take, List.drop_eq_getElem_cons hlt, hget,
    show span.stop + 1 - span.start = span.stop - span.start + 1 by omega, List.take_succ_cons]
  exact ⟨_, rfl⟩

theorem mem_moved {idx : Nat} (hstart : span.start <= idx) (hstop : idx <= span.stop) {id : NodeId}
    (hchild : tree.child? list idx = some id) : id ∈ moved := by
  rw [h.moved_eq]
  apply List.mem_of_getElem? (i := idx - span.start)
  rw [List.getElem?_drop, Nat.add_sub_cancel' hstart,
    List.getElem?_take_of_lt (Nat.lt_succ_of_le hstop)]
  exact hchild

theorem child?_start : after.child? list span.start = some group := by
  unfold Tree.child?
  rw [h.children_list, ← h.start_eq, List.getElem?_append_right (Nat.le_refl _), Nat.sub_self,
    List.getElem?_cons_zero]

theorem child?_front {idx : Nat} (hidx : idx < span.start) :
    after.child? list idx = tree.child? list idx := by
  rw [← h.start_eq] at hidx
  unfold Tree.child?
  rw [h.children_list, h.children_eq, List.append_assoc, List.getElem?_append_left hidx,
    List.getElem?_append_left hidx]

theorem drop_behind : (after.children list).drop (span.start + 1) =
    (tree.children list).drop (span.stop + 1) := by
  rw [h.children_list, h.children_eq, ← h.stop_eq, ← h.start_eq, ← List.length_append,
    List.drop_left, List.drop_append, List.drop_of_length_le (Nat.le_succ _)]
  simp

theorem mem_front_or_back {id : NodeId} (hmem : id ∈ after.children list) (hne : id ≠ group) :
    id ∈ tree.children list := by
  rw [h.children_list, List.mem_append, List.mem_cons] at hmem
  rw [h.children_eq, List.mem_append, List.mem_append]
  rcases hmem with hfront | rfl | hback
  · exact Or.inl (Or.inl hfront)
  · exact absurd rfl hne
  · exact Or.inr hback

theorem content?_child (hwf : tree.WellFormed) (hretag : move.retag = none) {id : NodeId}
    (hmem : id ∈ after.children list) (hne : id ≠ group) :
    after.content? id = tree.content? id := by
  have hold := h.mem_front_or_back hmem hne
  apply h.content?_other id _ hne
  · intro category hsome
    rw [hretag] at hsome
    cases hsome
  · rintro rfl
    exact hwf.not_mem_children_self _ hold

theorem untouched (hwf : tree.WellFormed) (hfits : move.Fits tree list cursor)
    (hstep : tree.GroupStep after)
    (htags : forall id category, move.retag = some (id, category) -> id ∈ tree.children list)
    {id : NodeId} (hbelow : tree.Above list id) (hgroup : tree.isGroup id = true)
    (hkind : tree.isKind id span.kind = false) : tree.Untouched id after := by
  refine ⟨Relation.ReflTransGen.single hstep, ?_⟩
  intro other hother
  have hlt := Tree.lt_size_of_atOrAbove (Tree.lt_size_of_isGroup hgroup) hother
  -- Below a node that is below the list there is no child of the list, but for itself.
  have hchild : other ∈ tree.children list -> other = id := by
    intro hmem
    have hparent := hwf.parent?_of_mem hmem
    rcases hother with rfl | habove
    · rfl
    · rcases Tree.above_cases hparent habove with rfl | habove'
      · exact absurd hbelow (hwf.not_above_self _)
      · exact absurd (hbelow.trans habove') (hwf.not_above_self _)
  apply h.content?_other other
  · rintro rfl
    rcases hother with rfl | habove
    · exact hwf.not_above_self _ hbelow
    · exact hwf.not_above_self _ (hbelow.trans habove)
  · rintro rfl
    rcases h.first_of_lt_size hlt with ⟨hsame, rest, hmoved, _⟩
    have hid := hchild (by rw [h.children_eq, hmoved]; simp)
    subst hid
    rw [Tree.isKind, hsame, beq_self_eq_true] at hkind
    cases hkind
  · intro category hretag
    have hid := hchild (htags other category hretag)
    subst hid
    exact hfits.retag_ne hgroup category hretag

end Gathers
end Move

/-!
# Lists that a run leaves as they are
-/

def Survey.Local (survey : Survey) : Prop :=
  forall (tree after : Tree) list, after.children list = tree.children list ->
    (forall id, id ∈ tree.children list ->
      after.kind? id = tree.kind? id ∧ after.token? id = tree.token? id) ->
    forall idx, survey.acts after list idx = survey.acts tree list idx

theorem Survey.opens_congr {survey : Survey} {tree after : Tree} {id : NodeId}
    (h : after.kind? id = tree.kind? id) : survey.opens after id = survey.opens tree id := by
  unfold opens
  cases survey.closed with
  | none =>
      rfl
  | some kind =>
      dsimp only [Tree.isKind]
      rw [h]

theorem Tree.mem_sublists_iff {tree : Tree} {list id : NodeId} :
    id ∈ tree.sublists list <-> id ∈ tree.children list ∧ tree.isGroup id = true :=
  List.mem_filter

theorem Tree.isGroup_congr {tree after : Tree} {id : NodeId}
    (h : after.kind? id = tree.kind? id) : after.isGroup id = tree.isGroup id := by
  unfold isGroup
  rw [h]

theorem Survey.Local.idle_of_untouched {survey : Survey} (hlocal : survey.Local)
    (hfaithful : survey.Faithful) {tree after : Tree} {limit room : Nat} {list : NodeId}
    (hwf : tree.WellFormed) (h : tree.Untouched list after)
    (hidle : Idle (survey.pass.run limit room list) tree) :
    Idle (survey.pass.run limit room list) after := by
  have hafter := Tree.groupStep_keepsWellFormed.run hwf h.steps
  induction room generalizing list with
  | zero =>
      cases hidle
  | succ room ih =>
      have hchildren := h.observers.2.2
      rw [hfaithful tree list limit room hwf] at hidle
      apply (hfaithful after list limit room hafter).mpr
      refine ⟨?_, ?_⟩
      · intro idx
        rw [hlocal tree after list hchildren fun id hmem =>
          ⟨(h.observers_child hwf hmem).1, (h.observers_child hwf hmem).2.1⟩]
        exact hidle.1 idx
      · intro id hmem hopens
        rw [Tree.mem_sublists_iff, hchildren] at hmem
        have hsame := (h.observers_child hwf hmem.1).1
        rw [Tree.isGroup_congr hsame] at hmem
        rw [opens_congr hsame] at hopens
        exact ih (h.below (Or.inr (Tree.above_of_parent? (hwf.parent?_of_mem hmem.1))))
          (hidle.2 id (Tree.mem_sublists_iff.mpr hmem) hopens)

def Survey.LeavesGroups (survey : Survey) (limit room : Nat) (tree : Tree) (ids : List NodeId) :
    Prop :=
  forall id, id ∈ ids -> tree.isGroup id = true -> survey.opens tree id = true ->
    Idle (survey.pass.run limit room id) tree

/-!
# Runs that end well
-/

def Grouping.ends (p : Tree -> Bool) : Except Error Unit × Tree -> Bool
  | (.ok _, after) => p after
  | (.error _, _) => false

theorem Grouping.exists_of_ends {m : Grouping Unit} {tree : Tree} {p : Tree -> Bool}
    (h : ends p (exec m tree) = true) :
    exists after, exec m tree = (.ok (), after) ∧ p after = true := by
  rcases hexec : exec m tree with ⟨e | u, after⟩
  · rw [hexec] at h
    cases h
  · rw [hexec] at h
    exact ⟨after, rfl, h⟩

/-!
# The groups before the walk
-/

/-- Runs on different groups of a list, one after the other: each of them finds its group
as it was, and the later ones leave it as the run on it did. -/
theorem Grouping.forM_turn {f : NodeId -> Grouping Unit}
    (hf : forall id (tree : Tree), tree.WellFormed -> tree.ChangesWithin id (exec (f id) tree).2)
    {items : List NodeId} (hnodup : items.Nodup) {tree after : Tree} {list : NodeId}
    (hwf : tree.WellFormed) (hitems : forall id, id ∈ items -> id ∈ tree.children list)
    (h : exec (items.forM f) tree = (.ok (), after)) :
    tree.ChangesWithin list after ∧ after.content? list = tree.content? list ∧
      forall id, id ∈ tree.children list ->
        (id ∉ items -> tree.Untouched id after) ∧
        (id ∈ items -> exists before later, tree.Untouched id before ∧
          exec (f id) before = (.ok (), later) ∧ later.Untouched id after) := by
  induction items generalizing tree with
  | nil =>
      cases h
      refine ⟨Tree.ChangesWithin.refl _ list, rfl, ?_⟩
      intro id _
      exact ⟨fun _ => Tree.Untouched.refl _ id, fun hid => absurd hid List.not_mem_nil⟩
  | cons first rest ih =>
      rcases List.nodup_cons.mp hnodup with ⟨hfresh, hrest⟩
      rw [List.forall_mem_cons] at hitems
      rcases exec_bind_eq_ok h with ⟨middle, hfirst, hlater⟩
      have hchanges := hf first tree hwf
      rw [hfirst] at hchanges
      have hmiddle := hchanges.wellFormed hwf
      have hchildren := hchanges.children_upper hwf hitems.1
      rcases ih hrest hmiddle (fun id hid => hchildren ▸ hitems.2 id hid) hlater with
        ⟨hchanges', hcontent', hall⟩
      have habove := Tree.above_of_parent? (hwf.parent?_of_mem hitems.1)
      refine ⟨hchanges'.trans (hchanges.of_above habove) hwf,
        hcontent'.trans (hchanges.content?_upper hwf hitems.1), ?_⟩
      rw [hchildren] at hall
      intro id hid
      by_cases heq : id = first
      · subst heq
        refine ⟨fun hnot => absurd List.mem_cons_self hnot, fun _ => ?_⟩
        exact ⟨tree, middle, Tree.Untouched.refl tree id, hfirst, (hall id hid).1 hfresh⟩
      · have hsame := hchanges.untouched_sibling hwf hitems.1 hid heq
        refine ⟨fun hnot => ?_, fun hmem => ?_⟩
        · exact hsame.trans hwf ((hall id hid).1 fun h => hnot (List.mem_cons_of_mem _ h))
        · rcases (hall id hid).2 ((List.mem_cons.mp hmem).resolve_left heq) with
            ⟨before, later, hbefore, hexec, hend⟩
          exact ⟨before, later, hsame.trans hwf hbefore, hexec, hend⟩

/-- A run that succeeds does to each group that it enters what a run on that one does, and
then walks along the list. -/
theorem Pass.run_turn {pass : Pass} (hsound : pass.Sound) (htags : pass.TagsChildren)
    (hstays : pass.Stays) (happlies : forall tree list, pass.applies tree list = true)
    {limit room : Nat} {list : NodeId} {tree after : Tree} (hwf : tree.WellFormed)
    (h : exec (pass.run limit (room + 1) list) tree = (.ok (), after)) :
    exists middle, tree.ChangesWithin list middle ∧ middle.content? list = tree.content? list ∧
      pass.Walks list middle after ∧
      forall id, id ∈ tree.children list ->
        (tree.isGroup id = false ∨ pass.enters tree id = false -> tree.Untouched id middle) ∧
        (tree.isGroup id = true -> pass.enters tree id = true ->
          exists before later, tree.Untouched id before ∧
            exec (pass.run limit room id) before = (.ok (), later) ∧
              later.Untouched id middle) := by
  unfold Pass.run at h
  rw [exec_get_bind] at h
  rcases exec_bind_eq_ok h with ⟨middle, hentered, hwalk⟩
  have hitems : forall id, id ∈ (tree.sublists list).filter (pass.enters tree) <->
      (id ∈ tree.children list ∧ tree.isGroup id = true) ∧ pass.enters tree id = true := by
    intro id
    rw [List.mem_filter, Tree.mem_sublists_iff]
  rcases forM_turn (fun id _ hwf => run_changesWithin hsound htags limit room id hwf)
      (((hwf.nodup_children list).filter _).filter _) hwf
      (fun id hid => ((hitems id).mp hid).1.1) hentered with ⟨hchanges, hcontent, hall⟩
  rw [exec_get_bind, if_pos (happlies middle list),
    hstays.exec_walk (pass.run limit room) fun _ => pure ()] at hwalk
  refine ⟨middle, hchanges, hcontent, hwalk, ?_⟩
  intro id hid
  refine ⟨fun hnot => (hall id hid).1 ?_, fun hgroup henters => (hall id hid).2 ?_⟩
  · intro hmem
    rcases (hitems id).mp hmem with ⟨⟨_, hgroup⟩, henters⟩
    rcases hnot with h | h
    · rw [h] at hgroup
      cases hgroup
    · rw [h] at henters
      cases henters
  · exact (hitems id).mpr ⟨⟨hid, hgroup⟩, henters⟩

end SqlLayout
