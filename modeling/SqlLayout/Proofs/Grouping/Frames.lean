import SqlLayout.Proofs.Grouping.Comments
import SqlLayout.Proofs.Tree.Rose

/-!
# What a run leaves alone

A run of a pass on a list changes what stands at and below the list, and nothing
else.  The other children of the list above stay children of it, with the same
roses, so that a run can be followed one list at a time.
-/

namespace SqlLayout
namespace Tree

variable {tree middle after : Tree} {list id : NodeId}

/-- Steps that change no content but at and below a list, and no parent but
below it. -/
structure ChangesWithin (tree : Tree) (list : NodeId) (after : Tree) : Prop where
  steps : Relation.ReflTransGen GroupStep tree after
  content?_eq : forall id, id < tree.size -> ¬ tree.AtOrAbove list id ->
    after.content? id = tree.content? id
  parent?_eq : forall id, id < tree.size -> ¬ tree.Above list id ->
    after.parent? id = tree.parent? id

theorem size_le_of_steps (h : Relation.ReflTransGen GroupStep tree after) :
    tree.size <= after.size := by
  induction h with
  | refl =>
      exact Nat.le_refl _
  | tail _ hlast ih =>
      exact Nat.le_trans ih hlast.size_le

/-!
# Nodes below the children of a list
-/

theorem lt_size_of_atOrAbove {other : NodeId}
    (hid : id < tree.size) (h : tree.AtOrAbove id other) : other < tree.size := by
  rcases h with rfl | habove
  · exact hid
  · rcases Relation.TransGen.tail'_iff.mp habove with ⟨parent, _, hparent⟩
    exact lt_size_of_parent? hparent

theorem WellFormed.not_atOrAbove_list (hwf : tree.WellFormed) (hmem : id ∈ tree.children list) :
    ¬ tree.AtOrAbove id list := by
  have hparent := above_of_parent? (hwf.parent?_of_mem hmem)
  rintro (rfl | habove)
  · exact hwf.not_mem_children_self _ hmem
  · exact hwf.not_above_self _ (hparent.trans habove)

theorem WellFormed.eq_of_children_above (hwf : tree.WellFormed) {other below : NodeId}
    (hmem : id ∈ tree.children list) (hother : other ∈ tree.children list)
    (habove : tree.AtOrAbove id below) (habove' : tree.AtOrAbove other below) : id = other := by
  apply hwf.eq_of_depth_eq habove habove'
  rw [hwf.depth_of_mem hmem, hwf.depth_of_mem hother]

namespace ChangesWithin

theorem refl (tree : Tree) (list : NodeId) : tree.ChangesWithin list tree :=
  ⟨Relation.ReflTransGen.refl, fun _ _ _ => rfl, fun _ _ _ => rfl⟩

section

variable (hwf : tree.WellFormed) (h : tree.ChangesWithin list after)
include hwf h

theorem wellFormed : after.WellFormed :=
  groupStep_keepsWellFormed.run hwf h.steps

theorem above_iff (hid : id < tree.size) : after.Above list id <-> tree.Above list id := by
  constructor
  · intro habove
    induction habove with
    | @single id hparent =>
        by_contra hbelow
        rw [h.parent?_eq id hid hbelow] at hparent
        exact hbelow (above_of_parent? hparent)
    | @tail parent id _ hparent ih =>
        by_contra hbelow
        rw [h.parent?_eq id hid hbelow] at hparent
        have hlt : parent < tree.size := lt_size_of_mem_children (hwf.mem_of_parent? hparent)
        exact hbelow ((ih hlt).trans (above_of_parent? hparent))
  · exact above_of_steps hwf h.steps

theorem atOrAbove_iff (hid : id < tree.size) :
    after.AtOrAbove list id <-> tree.AtOrAbove list id :=
  or_congr Iff.rfl (h.above_iff hwf hid)

omit hwf in
theorem trans (h' : middle.ChangesWithin list tree) (hmiddle : middle.WellFormed) :
    middle.ChangesWithin list after := by
  have hle := size_le_of_steps h'.steps
  refine ⟨h'.steps.trans h.steps, ?_, ?_⟩
  · intro id hid hbelow
    have hstill : ¬ tree.AtOrAbove list id := fun habove =>
      hbelow ((h'.atOrAbove_iff hmiddle hid).mp habove)
    rw [h.content?_eq id (Nat.lt_of_lt_of_le hid hle) hstill, h'.content?_eq id hid hbelow]
  · intro id hid hbelow
    have hstill : ¬ tree.Above list id := fun habove =>
      hbelow ((h'.above_iff hmiddle hid).mp habove)
    rw [h.parent?_eq id (Nat.lt_of_lt_of_le hid hle) hstill, h'.parent?_eq id hid hbelow]

omit hwf in
theorem of_above {upper : NodeId} (habove : tree.Above upper list) :
    tree.ChangesWithin upper after := by
  refine ⟨h.steps, ?_, ?_⟩
  · intro id hid hbelow
    apply h.content?_eq id hid
    rintro (rfl | hlist)
    · exact hbelow (Or.inr habove)
    · exact hbelow (Or.inr (habove.trans hlist))
  · intro id hid hbelow
    exact h.parent?_eq id hid fun hlist => hbelow (habove.trans hlist)

/-!
# The list above
-/

variable {upper : NodeId} (hmem : list ∈ tree.children upper)
include hmem

theorem content?_upper : after.content? upper = tree.content? upper := by
  exact h.content?_eq upper (lt_size_of_mem_children hmem) (hwf.not_atOrAbove_list hmem)

theorem children_upper : after.children upper = tree.children upper :=
  (observers_congr (h.content?_upper hwf hmem)).2.2

theorem rose_sibling (hother : id ∈ tree.children upper) (hne : id ≠ list) :
    after.rose id = tree.rose id := by
  apply hwf.rose_eq_of_unchanged (h.wellFormed hwf) (hwf.child_lt_size hother)
  intro below hbelow
  apply h.content?_eq below (lt_size_of_atOrAbove (hwf.child_lt_size hother) hbelow)
  intro hlist
  exact hne (hwf.eq_of_children_above hother hmem hbelow hlist)

end
end ChangesWithin

end Tree

/-!
# One span
-/

/-- What grouping a span does to the roses of a list: a span that may extend a
group of its kind at its start does so. -/
inductive Span.Regroups (span : Span) : List Rose -> List Rose -> Prop where
  | wraps {front moved back : List Rose} :
      front.length = span.start -> front.length + moved.length = span.stop + 1 ->
      (span.extend = true -> forall inner rest, moved ≠ .group span.kind inner :: rest) ->
      Regroups span (front ++ moved ++ back) (front ++ .group span.kind moved :: back)
  | absorbs {front inner moved back : List Rose} :
      span.extend = true -> front.length = span.start ->
      front.length + moved.length = span.stop ->
      Regroups span (front ++ .group span.kind inner :: (moved ++ back))
        (front ++ .group span.kind (inner ++ moved) :: back)

namespace Tree

variable {tree after : Tree} {list group id : NodeId} {kind : GroupKind}
  {front moved back : List NodeId}

theorem Wrapped.rose_of_mem (hwf : tree.WellFormed)
    (h : Wrapped tree list kind front moved back after) (hmem : id ∈ tree.children list) :
    after.rose id = tree.rose id := by
  apply hwf.rose_eq_of_unchanged (h.wellFormed hwf) (hwf.child_lt_size hmem)
  intro other hbelow
  have hother := lt_size_of_atOrAbove (hwf.child_lt_size hmem) hbelow
  apply h.content?_other other (Nat.ne_of_lt hother)
  rintro rfl
  exact hwf.not_atOrAbove_list hmem hbelow

theorem Wrapped.roses (hwf : tree.WellFormed)
    (h : Wrapped tree list kind front moved back after) :
    (after.children list).map after.rose =
      front.map tree.rose ++ .group kind (moved.map tree.rose) :: back.map tree.rose := by
  have hsame : forall ids : List NodeId, (forall id, id ∈ ids -> id ∈ tree.children list) ->
      ids.map after.rose = ids.map tree.rose := fun ids hids =>
    List.map_congr_left fun id hmem => h.rose_of_mem hwf (hids id hmem)
  have hnew : after.rose tree.size = .group kind (moved.map tree.rose) := by
    rw [(h.wellFormed hwf).rose_of_kind? (kind?_of_content? h.content?_new), h.children_new,
      hsame moved fun id hmem => h.mem_list_of_mem_moved hmem]
  rw [h.children_after_list, List.map_append, List.map_cons, hnew, hsame front, hsame back]
  · intro id hmem
    rw [h.children_list]
    simp [hmem]
  · intro id hmem
    rw [h.children_list]
    simp [hmem]

section

variable (hwf : tree.WellFormed) (h : Absorbed tree list group front moved back after)
include hwf h

theorem Absorbed.rose_of_mem (hmem : id ∈ tree.children list) (hne : id ≠ group) :
    after.rose id = tree.rose id := by
  apply hwf.rose_eq_of_unchanged (h.wellFormed hwf) (hwf.child_lt_size hmem)
  intro other hbelow
  apply h.content?_other other
  · rintro rfl
    exact hne (hwf.eq_of_children_above hmem (h.mem_list (Or.inr (Or.inl rfl))) hbelow (Or.inl rfl))
  · rintro rfl
    exact hwf.not_atOrAbove_list hmem hbelow

theorem Absorbed.rose_of_mem_group (hmem : id ∈ tree.children group) :
    after.rose id = tree.rose id := by
  have hlist := above_of_parent? (hwf.parent?_of_mem (h.mem_list (Or.inr (Or.inl rfl))))
  apply hwf.rose_eq_of_unchanged (h.wellFormed hwf) (hwf.child_lt_size hmem)
  intro other hbelow
  apply h.content?_other other
  · rintro rfl
    exact hwf.not_atOrAbove_list hmem hbelow
  · rintro rfl
    apply hwf.not_atOrAbove_list hmem
    rcases hbelow with rfl | habove
    · exact Or.inr hlist
    · exact Or.inr (habove.trans hlist)

theorem Absorbed.roses (hkind : tree.kind? group = some kind) :
    (after.children list).map after.rose =
      front.map tree.rose ++
        .group kind ((tree.children group).map tree.rose ++ moved.map tree.rose) ::
          back.map tree.rose := by
  have hsame : forall ids : List NodeId,
      (forall id, id ∈ ids -> id ∈ tree.children list ∧ id ≠ group) ->
      ids.map after.rose = ids.map tree.rose := fun ids hids =>
    List.map_congr_left fun id hmem => h.rose_of_mem hwf (hids id hmem).1 (hids id hmem).2
  have hnodup := hwf.nodup_children list
  rw [h.children_list] at hnodup
  have hinner : (tree.children group).map after.rose = (tree.children group).map tree.rose :=
    List.map_congr_left fun id hmem => h.rose_of_mem_group hwf hmem
  have hmoved : moved.map after.rose = moved.map tree.rose := by
    apply hsame
    intro id hmem
    refine ⟨h.mem_list (Or.inr (Or.inr (Or.inl hmem))), ?_⟩
    rintro rfl
    grind
  have hgroup : after.rose group =
      .group kind ((tree.children group).map tree.rose ++ moved.map tree.rose) := by
    rw [(h.wellFormed hwf).rose_of_kind? (kind?_of_content? (h.content?_group kind hkind)),
      h.children_after_group, List.map_append, hinner, hmoved]
  rw [h.children_after_list, List.map_append, List.map_cons, hgroup, hsame front, hsame back]
  · intro id hmem
    refine ⟨h.mem_list (Or.inr (Or.inr (Or.inr hmem))), ?_⟩
    rintro rfl
    grind
  · intro id hmem
    refine ⟨h.mem_list (Or.inl hmem), ?_⟩
    rintro rfl
    grind

end
end Tree

/-!
# One move
-/

theorem Tree.group_of_groupTokens {tree after : Tree} {list group first : NodeId}
    {kind : GroupKind} {start stop : Nat} (hchild : tree.child? list start = some first)
    (hkind : tree.isKind first kind = true)
    (h : tree.groupTokens list kind start stop true = .ok (group, after)) : group = first := by
  unfold Tree.groupTokens at h
  rw [hchild] at h
  dsimp only at h
  rw [hkind, Bool.true_and, if_pos rfl] at h
  unfold Tree.absorb at h
  dsimp only at h
  split at h
  · cases h
    rfl
  · cases h

namespace Move

variable {tree after : Tree} {list : NodeId} {cursor : Cursor} {move : Move}

/-- A move puts its span into a group, which is a new one or the one at its
start. -/
theorem Groups.cases (hwf : tree.WellFormed) (hfits : move.Fits tree list cursor)
    (h : move.Groups list tree after) :
    exists span front moved back, move.span = some span ∧
      tree.children list = front ++ moved ++ back ∧ front.length = span.start ∧
      front.length + moved.length = span.stop + 1 ∧
      ((Tree.Wrapped (move.tagged tree) list span.kind front moved back after ∧
          (span.extend = true -> forall id rest, moved = id :: rest ->
            (move.tagged tree).isKind id span.kind = false)) ∨
        exists group rest, span.extend = true ∧ moved = group :: rest ∧
          (move.tagged tree).kind? group = some span.kind ∧
          Tree.Absorbed (move.tagged tree) list group front rest back after) := by
  have htag := Move.retagged_tagged hfits
  rcases h with ⟨span, group, hspan, hok⟩
  rcases hfits.span_inside span hspan with ⟨hstart, hstop, _⟩
  have hinside : span.stop < ((move.tagged tree).children list).length := by
    rw [htag.children_eq]
    exact hstop
  have hle : span.start <= span.stop + 1 := Nat.le_succ_of_le hstart
  have hsplit := Tree.take_drop_split (tree.children list) hle
  have hfront : ((tree.children list).take span.start).length = span.start :=
    List.length_take_of_le (Nat.le_of_lt (Nat.lt_of_le_of_lt hstart hstop))
  have hmoved : (((tree.children list).take (span.stop + 1)).drop span.start).length =
      span.stop + 1 - span.start := by
    rw [List.length_drop, List.length_take_of_le hstop]
  rcases Tree.groupTokens_ok span.kind span.extend (htag.wellFormed hwf) hstart hinside with
    ⟨other, result, hresult, hcases⟩
  have hfirst : forall id rest, ((tree.children list).take (span.stop + 1)).drop span.start =
      id :: rest -> (move.tagged tree).child? list span.start = some id := by
    intro id rest hsome
    have hget : (((tree.children list).take (span.stop + 1)).drop span.start)[0]? = some id := by
      rw [hsome]
      rfl
    have hlt : span.start + 0 < span.stop + 1 := Nat.lt_succ_of_le hstart
    rw [List.getElem?_drop, List.getElem?_take_of_lt hlt] at hget
    unfold Tree.child?
    rw [htag.children_eq]
    exact hget
  have hdone := hok
  rw [hresult] at hdone
  cases hdone
  rw [htag.children_eq] at hcases
  refine ⟨span, _, _, _, hspan, hsplit, hfront, by omega, ?_⟩
  rcases hcases with ⟨hextend, hkind, habsorbed⟩ | ⟨hnew, hwrapped⟩
  · refine Or.inr ⟨group, _, hextend, ?_, hkind, habsorbed⟩
    have hlist := habsorbed.children_list
    rw [htag.children_eq] at hlist
    have hsame := hsplit.symm.trans hlist
    rw [List.append_assoc] at hsame
    have htail := List.append_cancel_left hsame
    rw [← List.cons_append] at htail
    exact List.append_cancel_right htail
  · refine Or.inl ⟨hwrapped, ?_⟩
    intro hextend id rest hsome
    apply Bool.eq_false_iff.mpr
    intro hkind
    rw [hextend] at hok
    have hsame := Tree.group_of_groupTokens (hfirst id rest hsome) hkind hok
    have hlt := (htag.wellFormed hwf).child_lt_size (List.mem_of_getElem? (hfirst id rest hsome))
    rw [← hsame, hnew] at hlt
    exact Nat.lt_irrefl _ hlt

theorem Groups.regroups (hwf : tree.WellFormed) (hfits : move.Fits tree list cursor)
    (h : move.Groups list tree after) :
    exists span, move.span = some span ∧ after.kind? list = tree.kind? list ∧
      span.Regroups ((tree.children list).map (move.tagged tree).rose)
        ((after.children list).map after.rose) := by
  have htag := Move.retagged_tagged hfits
  have hwf' := htag.wellFormed hwf
  rcases h.cases hwf hfits with
    ⟨span, front, moved, back, hspan, hchildren, hstart, hstop,
      ⟨hwrapped, hother⟩ | ⟨group, rest, hextend, rfl, hkind, habsorbed⟩⟩
  · refine ⟨span, hspan, ?_, ?_⟩
    · rw [hwrapped.kind?_of_ne hwrapped.list_ne_size, htag.kind?_eq]
    · rw [hwrapped.roses hwf', hchildren, List.map_append, List.map_append]
      refine Span.Regroups.wraps (by rw [List.length_map, hstart])
        (by rw [List.length_map, List.length_map, hstop]) ?_
      intro hextend inner rest hsome
      rcases List.map_eq_cons_iff.mp hsome with ⟨id, tail, hmoved, hrose, _⟩
      have hmem : id ∈ (move.tagged tree).children list := by
        rw [htag.children_eq, hchildren, hmoved]
        simp
      have hkind := (hwf'.kind?_of_rose (hwf'.child_lt_size hmem) hrose).1
      have hnot := hother hextend id tail hmoved
      rw [Tree.isKind, hkind, beq_self_eq_true] at hnot
      cases hnot
  · refine ⟨span, hspan, ?_, ?_⟩
    · rw [(habsorbed.kind?_eq_and_token?_eq list).1, htag.kind?_eq]
    · rw [habsorbed.roses hwf' hkind, hchildren, List.append_assoc, List.cons_append,
        List.map_append, List.map_cons, hwf'.rose_of_kind? hkind, List.map_append]
      rw [List.length_cons] at hstop
      exact Span.Regroups.absorbs hextend (by rw [List.length_map, hstart])
        (by rw [List.length_map, List.length_map]; omega)

end Move

def Pass.TagsChildren (pass : Pass) : Prop :=
  forall tree list cursor move id category, pass.plan tree list cursor = some move ->
    move.retag = some (id, category) -> id ∈ tree.children list

theorem Move.Groups.changesWithin {tree after : Tree} {list : NodeId} {cursor : Cursor}
    {move : Move} (hwf : tree.WellFormed) (hfits : move.Fits tree list cursor)
    (htags : forall id category, move.retag = some (id, category) -> id ∈ tree.children list)
    (hstep : tree.GroupStep after) (h : move.Groups list tree after) :
    tree.ChangesWithin list after := by
  have htag := Move.retagged_tagged hfits
  have hbelow : forall {id}, id ∈ tree.children list -> tree.Above list id := fun hmem =>
    Tree.above_of_parent? (hwf.parent?_of_mem hmem)
  have hsame : forall id, ¬ tree.AtOrAbove list id ->
      (move.tagged tree).content? id = tree.content? id := by
    intro id hid
    unfold Move.tagged
    cases hretag : move.retag with
    | none =>
        rfl
    | some pair =>
        rcases pair with ⟨other, category⟩
        dsimp only
        rw [Tree.content?_modifyToken, if_neg]
        rintro rfl
        exact hid (Or.inr (hbelow (htags _ _ hretag)))
  rcases h.cases hwf hfits with
    ⟨span, front, moved, back, _, hchildren, _, _,
      ⟨hwrapped, _⟩ | ⟨group, rest, _, rfl, _, habsorbed⟩⟩
  · refine ⟨Relation.ReflTransGen.single hstep, ?_, ?_⟩
    · intro id hlt hid
      rw [hwrapped.content?_other id, hsame id hid]
      · rw [htag.size_eq]
        exact Nat.ne_of_lt hlt
      · exact fun heq => hid (Or.inl heq.symm)
    · intro id hlt hid
      rw [hwrapped.parent?_other, htag.parent?_eq]
      · intro hmoved
        apply hid (hbelow _)
        rw [hchildren]
        simp [hmoved]
      · rw [htag.size_eq]
        exact Nat.ne_of_lt hlt
  · refine ⟨Relation.ReflTransGen.single hstep, ?_, ?_⟩
    · intro id hlt hid
      rw [habsorbed.content?_other id, hsame id hid]
      · rintro rfl
        apply hid (Or.inr (hbelow _))
        rw [hchildren]
        simp
      · exact fun heq => hid (Or.inl heq.symm)
    · intro id hlt hid
      rw [habsorbed.parent?_other, htag.parent?_eq]
      intro hmoved
      apply hid (hbelow _)
      rw [hchildren]
      simp [hmoved]

/-!
# Passes that tag children
-/

namespace Pass

theorem tagsChildren_of_seeker {pass : Pass} {seeker : Seeker} (hplan : pass.plan = seeker.plan) :
    pass.TagsChildren := by
  intro tree list cursor move id category hmove hretag
  rw [hplan] at hmove
  unfold Seeker.plan at hmove
  split at hmove
  · cases hmove
  · split at hmove
    · cases hmove
      cases hretag
    · cases hmove
      cases hretag

theorem tagsChildren_binary (rule : BinaryRule) : (Pass.binary rule).TagsChildren := by
  intro tree list cursor move id category hmove hretag
  change rule.plan tree list cursor = some move at hmove
  rcases BinaryRule.does_of_plan hmove with ⟨other, hchild, hdoes⟩
  cases hdoes with
  | blank _ =>
      cases hretag
  | group _ _ _ =>
      rcases Option.map_eq_some_iff.mp hretag with ⟨found, _, hpair⟩
      cases hpair
      exact List.mem_of_getElem? hchild
  | past _ _ =>
      cases hretag

theorem tagsChildren_pairs (kind : GroupKind) : (Pass.pairs kind).TagsChildren := by
  intro tree list cursor move id category hmove hretag
  rcases pairDoes_of_plan hmove with ⟨_, _, other, _, _, _, hdoes⟩
  cases hdoes with
  | past _ _ _ => cases hretag
  | into _ _ => cases hretag
  | opens _ _ _ => cases hretag
  | shuts _ _ _ => cases hretag

end Pass

/-!
# Whole runs
-/

namespace Grouping

open Tree

variable {list : NodeId}

theorem changesWithin_bind {m next : Grouping Unit} {tree : Tree} (hwf : tree.WellFormed)
    (hm : tree.ChangesWithin list (exec m tree).2)
    (hnext : forall after : Tree, tree.ChangesWithin list after ->
      after.ChangesWithin list (exec next after).2) :
    tree.ChangesWithin list (exec (m >>= fun _ => next) tree).2 := by
  rw [exec_bind]
  rcases hexec : exec m tree with ⟨e | u, after⟩
  · rw [hexec] at hm
    exact hm
  · rw [hexec] at hm
    exact (hnext after hm).trans hm hwf

theorem forM_changesWithin {f : NodeId -> Grouping Unit} {items : List NodeId}
    (hf : forall id (tree : Tree), tree.WellFormed -> tree.ChangesWithin id (exec (f id) tree).2)
    {tree : Tree} (hwf : tree.WellFormed)
    (hitems : forall id, id ∈ items -> id ∈ tree.children list) :
    tree.ChangesWithin list (exec (items.forM f) tree).2 := by
  induction items generalizing tree with
  | nil =>
      exact ChangesWithin.refl tree list
  | cons first rest ih =>
      rw [List.forall_mem_cons] at hitems
      have hfirst := hf first tree hwf
      change tree.ChangesWithin list (exec (f first >>= fun _ => rest.forM f) tree).2
      rw [exec_bind]
      have hbelow := above_of_parent? (hwf.parent?_of_mem hitems.1)
      rcases hexec : exec (f first) tree with ⟨e | u, after⟩
      · rw [hexec] at hfirst
        exact hfirst.of_above hbelow
      · rw [hexec] at hfirst
        have hafter := hfirst.wellFormed hwf
        have hchildren := hfirst.children_upper hwf hitems.1
        refine (ih hafter ?_).trans (hfirst.of_above hbelow) hwf
        intro id hmem
        rw [hchildren]
        exact hitems.2 id hmem

end Grouping

namespace Pass

open Grouping Tree

variable {pass : Pass} (hsound : pass.Sound) (htags : pass.TagsChildren)
include hsound htags

theorem perform_changesWithin {visit : NodeId -> Grouping Unit}
    (hvisit : forall id (tree : Tree), tree.WellFormed ->
      tree.ChangesWithin id (exec (visit id) tree).2)
    {list : NodeId} {tree : Tree} {cursor : Cursor} {move : Move} (hwf : tree.WellFormed)
    (hcursor : cursor.Ordered) (hplan : pass.plan tree list cursor = some move) :
    tree.ChangesWithin list (exec (perform visit list move) tree).2 := by
  have hfits := hsound tree list cursor move hcursor hplan
  by_cases hspan : move.span = none
  · have hretag := hfits.retag_eq_none hspan
    cases hsome : move.visit with
    | none =>
        rw [exec_perform_skip hsome hretag hspan]
        exact ChangesWithin.refl tree list
    | some id =>
        rw [exec_perform_visit hsome hretag hspan]
        have hmem : id ∈ tree.children list :=
          List.mem_of_getElem? (hfits.visit_child id hsome).1
        exact (hvisit id tree hwf).of_above (above_of_parent? (hwf.parent?_of_mem hmem))
  · rcases takes_groupStep hsound tree list cursor move hwf hcursor hplan hspan with
      ⟨after, hgroups, hstep⟩
    rw [exec_perform_span (hfits.visit_eq_none hspan) hgroups]
    exact hgroups.changesWithin hwf hfits
      (fun id category hretag => htags tree list cursor move id category hplan hretag) hstep

theorem walk_changesWithin {visit : NodeId -> Grouping Unit}
    (hvisit : forall id (tree : Tree), tree.WellFormed ->
      tree.ChangesWithin id (exec (visit id) tree).2)
    (list : NodeId) (budget : Nat) {tree : Tree} {cursor : Cursor} (hwf : tree.WellFormed)
    (hcursor : cursor.Ordered) :
    tree.ChangesWithin list (exec (walk visit list pass.plan budget cursor) tree).2 := by
  induction budget generalizing tree cursor with
  | zero =>
      exact ChangesWithin.refl tree list
  | succ budget ih =>
      unfold walk
      rw [exec_get_bind]
      cases hplan : pass.plan tree list cursor with
      | none =>
          exact ChangesWithin.refl tree list
      | some move =>
          have hordered := (hsound tree list cursor move hcursor hplan).ordered
          apply changesWithin_bind hwf (perform_changesWithin hsound htags hvisit hwf hcursor hplan)
          intro after hchanges
          exact ih (hchanges.wellFormed hwf) hordered

theorem run_changesWithin (limit room : Nat) (list : NodeId) {tree : Tree}
    (hwf : tree.WellFormed) :
    tree.ChangesWithin list (exec (pass.run limit room list) tree).2 := by
  induction room generalizing list tree with
  | zero =>
      exact ChangesWithin.refl tree list
  | succ room ih =>
      unfold run
      rw [exec_get_bind]
      apply changesWithin_bind hwf
      · apply forM_changesWithin (fun id _ h => ih id h) hwf
        intro id hmem
        exact (List.mem_filter.mp (List.mem_filter.mp hmem).1).1
      · intro after hchanges
        rw [exec_get_bind]
        split
        · exact walk_changesWithin hsound htags (fun id _ h => ih id h) list _
            (hchanges.wellFormed hwf) (Cursor.ordered_at 0)
        · exact ChangesWithin.refl after list

end Pass
end SqlLayout
