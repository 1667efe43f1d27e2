import SqlLayout.Proofs.Grouping.Frames
import SqlLayout.Proofs.Layout.Handlers
import SqlLayout.Proofs.Tree.Traversals

/-!
# Lists that are laid out

To lay out a list is to put blanks among its children and to take blanks out.  All
other children stay where they are, in their order, and so do the lists below them.
What is done to one list can therefore be followed without a look at the others.
-/

namespace SqlLayout
namespace Tree

variable {tree middle after : Tree} {list id other : NodeId} {touched : NodeId -> Prop}

def solidChildren (tree : Tree) (list : NodeId) : List NodeId :=
  (tree.children list).filter fun child => !tree.isWhitespace child

theorem sublists_eq_filter (tree : Tree) (list : NodeId) :
    tree.sublists list = (tree.solidChildren list).filter tree.isGroup := by
  rw [sublists, solidChildren, List.filter_filter]
  apply List.filter_congr
  intro child _
  cases hgroup : tree.isGroup child with
  | true =>
      rw [isWhitespace, tokenHas_of_isGroup hgroup]
      rfl
  | false =>
      rfl

theorem identifiers_eq_filter (tree : Tree) (list : NodeId) :
    tree.identifiers list =
      (tree.solidChildren list).filter fun child => !tree.isPunctuationIn child [[',']] := by
  rw [identifiers, solidChildren, List.filter_filter]
  apply List.filter_congr
  intro child _
  rw [Bool.not_or, Bool.and_comm]

theorem WellFormed.not_atOrAbove_of_split (hwf : tree.WellFormed) {front back : List NodeId}
    {sublist : NodeId} (hsplit : tree.sublists list = front ++ sublist :: back)
    (hother : other ∈ front ++ back) (hid : tree.AtOrAbove sublist id) :
    ¬ tree.AtOrAbove other id := by
  intro habove
  have hnodup : (front ++ sublist :: back).Nodup :=
    hsplit ▸ (hwf.nodup_children list).filter _
  have hmem : forall child, child ∈ front ++ sublist :: back -> child ∈ tree.children list :=
    fun child hchild => List.mem_of_mem_filter (hsplit ▸ hchild)
  have hother' : other ∈ front ++ sublist :: back := by
    grind
  have heq : sublist = other :=
    hwf.eq_of_children_above (hmem _ List.mem_append_cons_self) (hmem _ hother') hid habove
  rw [heq] at hnodup
  grind

/-- Edits of blanks that touch certain nodes: the other nodes keep their content, and
what is not blank stays in its list. -/
structure RelaidAt (tree : Tree) (touched : NodeId -> Prop) (after : Tree) : Prop where
  reblanked : tree.Reblanked after
  content?_eq : forall id, id < tree.size -> ¬ touched id ->
    after.content? id = tree.content? id
  parent?_solid : forall id, id < tree.size -> tree.isWhitespace id = false ->
    after.parent? id = tree.parent? id
  parent?_old : forall id parent, id < tree.size -> after.parent? id = some parent ->
    tree.parent? id = some parent
  solidChildren_eq : forall id, id < tree.size ->
    after.solidChildren id = tree.solidChildren id

namespace RelaidAt

theorem refl (hwf : tree.WellFormed) (touched : NodeId -> Prop) : tree.RelaidAt touched tree :=
  ⟨Reblanked.refl hwf, fun _ _ _ => rfl, fun _ _ _ => rfl, fun _ _ _ h => h, fun _ _ => rfl⟩

theorem wellFormed (h : tree.RelaidAt touched after) : after.WellFormed :=
  h.reblanked.wellFormed

theorem size_le (h : tree.RelaidAt touched after) : tree.size <= after.size :=
  h.reblanked.size_le

theorem isWhitespace_eq (h : tree.RelaidAt touched after) (hid : id < tree.size) :
    after.isWhitespace id = tree.isWhitespace id :=
  isWhitespace_eq_of_rel (h.reblanked.token?_rel id hid)

theorem trans {later : NodeId -> Prop} (h : tree.RelaidAt touched middle)
    (h' : middle.RelaidAt later after)
    (hlater : forall id, id < tree.size -> later id -> touched id) :
    tree.RelaidAt touched after := by
  have hlt : forall id, id < tree.size -> id < middle.size :=
    fun id hid => Nat.lt_of_lt_of_le hid h.size_le
  refine ⟨h.reblanked.trans h'.reblanked, ?_, ?_, ?_, ?_⟩
  · intro id hid hfree
    rw [h'.content?_eq id (hlt id hid) fun htouched => hfree (hlater id hid htouched),
      h.content?_eq id hid hfree]
  · intro id hid hsolid
    rw [h'.parent?_solid id (hlt id hid) ((h.isWhitespace_eq hid).trans hsolid),
      h.parent?_solid id hid hsolid]
  · exact fun id parent hid hparent =>
      h.parent?_old id parent hid (h'.parent?_old id parent (hlt id hid) hparent)
  · intro id hid
    rw [h'.solidChildren_eq id (hlt id hid), h.solidChildren_eq id hid]

theorem lt_size_of_isGroup (h : tree.RelaidAt touched after) (hid : after.isGroup id = true) :
    id < tree.size := by
  by_contra hnew
  rcases h.reblanked.token?_new id (Nat.le_of_not_lt hnew) (Tree.lt_size_of_isGroup hid) with
    ⟨value, htoken⟩
  rw [token?_eq_none_of_isGroup hid] at htoken
  cases htoken

theorem mono {more : NodeId -> Prop} (h : tree.RelaidAt touched after)
    (hmore : forall id, id < tree.size -> touched id -> more id) : tree.RelaidAt more after :=
  ⟨h.reblanked, fun id hid hfree => h.content?_eq id hid fun htouched =>
    hfree (hmore id hid htouched), h.parent?_solid, h.parent?_old, h.solidChildren_eq⟩

/-!
## Nodes above and below
-/

section

variable (hwf : tree.WellFormed) (h : tree.RelaidAt touched after)
include hwf h

theorem atOrAbove_old (hid : id < tree.size) (habove : after.AtOrAbove other id) :
    tree.AtOrAbove other id :=
  habove.imp_right (Above.of_old hwf h.parent?_old hid)

theorem atOrAbove_of_solid (hsolid : tree.isWhitespace id = false)
    (habove : tree.AtOrAbove other id) : after.AtOrAbove other id :=
  habove.of_solid hwf (fun id hid => h.parent?_solid id hid) hsolid

theorem atOrAbove_of_free (hfree : forall below, tree.AtOrAbove other below -> ¬ touched below)
    (habove : tree.AtOrAbove other id) : after.AtOrAbove other id := by
  have hstep : forall {child parent}, tree.parent? child = some parent -> ¬ touched parent ->
      after.parent? child = some parent := by
    intro child parent hparent htouched
    have hmem := hwf.mem_of_parent? hparent
    apply h.wellFormed.parent?_of_mem
    rw [(observers_congr
      (h.content?_eq parent (lt_size_of_mem_children hmem) htouched)).2.2]
    exact hmem
  rcases habove with rfl | habove
  · exact Or.inl rfl
  · right
    induction habove with
    | single hparent =>
        exact above_of_parent? (hstep hparent (hfree _ (Or.inl rfl)))
    | tail habove hparent ih =>
        exact ih.tail (hstep hparent (hfree _ (Or.inr habove)))

theorem value_eq (hid : id < tree.size)
    (hfree : forall below, tree.AtOrAbove id below -> ¬ touched below) :
    after.value id = tree.value id := by
  have hleaves : after.leaves id = tree.leaves id := by
    apply leaves_eq_of_unchanged touched hwf h.wellFormed h.content?_eq hid
    exact fun below hbelow habove => hfree below habove hbelow
  have htokens : after.tokens id = tree.tokens id := by
    rw [tokens, tokens, hleaves]
    apply List.filterMap_congr
    intro leaf hleaf
    have hlt := hwf.leaf_lt_size hid hleaf
    have hbelow := hwf.atOrAbove_of_mem_leaves hid hleaf
    exact (observers_congr (h.content?_eq leaf hlt (hfree leaf hbelow.1))).2.1
  rw [value, value, htokens]

end

theorem value_of_child (hwf : tree.WellFormed) (h : tree.RelaidAt (fun id => id = list) after)
    (hid : id ∈ tree.children list) : after.value id = tree.value id := by
  apply h.value_eq hwf (hwf.child_lt_size hid)
  rintro below hbelow rfl
  exact hwf.not_atOrAbove_list hid hbelow

/-!
## Parts of a list
-/

section

variable (hwf : tree.WellFormed) (h : tree.RelaidAt touched after)
include hwf h

theorem sublists_eq (hlist : list < tree.size) :
    after.sublists list = tree.sublists list := by
  rw [sublists_eq_filter, sublists_eq_filter, h.solidChildren_eq list hlist]
  apply List.filter_congr
  intro child hchild
  exact h.reblanked.isGroup_eq (hwf.child_lt_size (List.mem_of_mem_filter hchild))

theorem identifiers_eq (hlist : list < tree.size) :
    after.identifiers list = tree.identifiers list := by
  rw [identifiers_eq_filter, identifiers_eq_filter, h.solidChildren_eq list hlist]
  apply List.filter_congr
  intro child hchild
  rcases List.mem_filter.mp hchild with ⟨hmem, hsolid⟩
  have htoken := h.reblanked.token?_eq (hwf.child_lt_size hmem) (by simpa using hsolid)
  rw [isPunctuationIn, isPunctuationIn, hits, hits, tokenHas_congr htoken]

theorem nestsWithin_eq {room : Nat} (hlist : list < tree.size) :
    after.nestsWithin room list = tree.nestsWithin room list := by
  induction room generalizing list with
  | zero =>
      rfl
  | succ room ih =>
      rw [nestsWithin, nestsWithin, h.sublists_eq hwf hlist]
      apply Bool.eq_iff_iff.mpr
      rw [List.all_eq_true, List.all_eq_true]
      refine forall_congr' fun child => forall_congr' fun hchild => ?_
      rw [ih (hwf.child_lt_size (List.mem_of_mem_filter hchild))]

theorem isWithin_eq (hid : id < tree.size) (hsolid : tree.isWhitespace id = false)
    (kind : GroupKind) : after.isWithin id kind = tree.isWithin id kind := by
  have hwithin : forall room id, id < tree.size -> tree.isWhitespace id = false ->
      (after.ancestorsWithin room id).any (fun node => after.isKind node kind) =
        (tree.ancestorsWithin room id).any fun node => tree.isKind node kind := by
    intro room
    induction room with
    | zero =>
        intro id _ _
        rfl
    | succ room ih =>
        intro id hid hsolid
        rw [ancestorsWithin, ancestorsWithin, h.parent?_solid id hid hsolid]
        cases hparent : tree.parent? id with
        | none =>
            rfl
        | some parent =>
            have hmem := hwf.mem_of_parent? hparent
            have hlt := lt_size_of_mem_children hmem
            have hkind : after.isKind parent kind = tree.isKind parent kind := by
              rw [isKind, isKind, h.reblanked.kind?_eq parent hlt]
            rw [List.any_cons, List.any_cons, hkind,
              ih parent hlt (tokenHas_of_isGroup (isGroup_of_mem_children hmem) _)]
  have hdepth := hwf.depth_lt_size hid
  rw [isWithin, isWithin, ancestors, ancestors, hwithin after.size id hid hsolid,
    hwf.ancestorsWithin_congr (Nat.le_trans (Nat.le_of_lt hdepth) h.size_le)
      (Nat.le_of_lt hdepth)]

end
end RelaidAt

/-- A list has the same children as before, and the same tokens among them. -/
structure SameList (tree : Tree) (list : NodeId) (after : Tree) : Prop where
  content?_eq : after.content? list = tree.content? list
  token?_eq : forall id, id ∈ tree.children list -> after.token? id = tree.token? id

theorem SameList.children_eq (h : tree.SameList list after) :
    after.children list = tree.children list :=
  (observers_congr h.content?_eq).2.2

theorem SameList.trans (h : tree.SameList list middle) (h' : middle.SameList list after) :
    tree.SameList list after := by
  refine ⟨h'.content?_eq.trans h.content?_eq, ?_⟩
  intro id hid
  rw [h'.token?_eq id (by rw [h.children_eq]; exact hid), h.token?_eq id hid]

theorem RelaidAt.sameList (hwf : tree.WellFormed) (h : tree.RelaidAt touched after)
    (hlist : list < tree.size) (hfree : ¬ touched list)
    (hchild : forall id, id ∈ tree.children list -> touched id -> tree.isGroup id = true) :
    tree.SameList list after := by
  refine ⟨h.content?_eq list hlist hfree, ?_⟩
  intro id hid
  by_cases hgroup : tree.isGroup id = true
  · rw [token?_eq_none_of_isGroup hgroup,
      token?_eq_none_of_isGroup (h.reblanked.isGroup_of_isGroup hgroup)]
  · exact (observers_congr (h.content?_eq id (hwf.child_lt_size hid) fun htouched =>
      hgroup (hchild id hid htouched))).2.1

/-!
# One list
-/

section

variable (hwf : tree.WellFormed)
include hwf

theorem solidChildren_relisted (hreblanked : tree.Reblanked after)
    (h : Relisted tree list after)
    (hown : (after.children list).filter (fun child => !after.isWhitespace child) =
      tree.solidChildren list) (hid : id < tree.size) :
    after.solidChildren id = tree.solidChildren id := by
  by_cases hlist : id = list
  · rw [hlist]
    exact hown
  · rw [solidChildren, solidChildren, (observers_congr (h.content?_other id hid hlist)).2.2]
    apply List.filter_congr
    intro child hchild
    rw [isWhitespace_eq_of_rel (hreblanked.token?_rel child (hwf.child_lt_size hchild))]

theorem relaidAt_insertBlank (hlist : tree.isGroup list = true) (idx : Nat) (value : Text) :
    tree.RelaidAt (fun id => id = list) (tree.insertBlank list idx value) := by
  have h := inserted_insertAt hlist idx ⟨.whitespace, value, none⟩
  have hreblanked := reblanked_insertBlank hwf hlist idx value
  rw [insertBlank] at hreblanked ⊢
  generalize (tree.insertAt list idx ⟨.whitespace, value, none⟩).2 = after at h hreblanked ⊢
  have hparent : forall id, id < tree.size -> after.parent? id = tree.parent? id := by
    intro id hid
    rw [h.parent?_eq, if_neg (Nat.ne_of_lt hid)]
  refine ⟨hreblanked, fun id hid hne => h.content?_other id (Nat.ne_of_lt hid) hne,
    fun id hid _ => hparent id hid, ?_, ?_⟩
  · intro id parent hid hafter
    rw [← hparent id hid, hafter]
  · intro id hid
    apply solidChildren_relisted hwf hreblanked h.relisted ?_ hid
    have hnew : after.isWhitespace tree.size = true :=
      tokenHas_iff.mpr ⟨_, h.token?_new, rfl⟩
    rw [h.children_after_list, List.filter_append, List.filter_cons_of_neg (by simp [hnew]),
      ← List.filter_append, ← h.children_list]
    apply List.filter_congr
    intro child hchild
    rw [isWhitespace_eq_of_rel (hreblanked.token?_rel child (hwf.child_lt_size hchild))]

theorem relaidAt_removeAt {idx : Nat} {child : NodeId}
    (hchild : tree.child? list idx = some child) (hblank : tree.isWhitespace child = true) :
    tree.RelaidAt (fun id => id = list) (tree.removeAt list idx) := by
  have h := removed_removeAt hwf hchild
  have hreblanked := reblanked_removeAt hwf hchild hblank
  generalize tree.removeAt list idx = after, (tree.children list).take idx = front,
    (tree.children list).drop (idx + 1) = back at h hreblanked ⊢
  refine ⟨hreblanked, fun id _ hne => h.content?_other id hne, ?_, ?_, ?_⟩
  · intro id _ hsolid
    rw [h.parent?_eq, if_neg]
    rintro rfl
    rw [hsolid] at hblank
    cases hblank
  · intro id parent _ hafter
    rw [h.parent?_eq] at hafter
    split at hafter
    · cases hafter
    · exact hafter
  · intro id hid
    apply solidChildren_relisted hwf hreblanked h.relisted ?_ hid
    rw [h.children_after_list, solidChildren, h.children_list, List.filter_append,
      List.filter_append, List.filter_cons_of_neg (by simp [hblank]), ← List.filter_append,
      ← List.filter_append]
    apply List.filter_congr
    intro other hother
    have hmem : other ∈ tree.children list := by
      rw [h.children_list]
      grind
    rw [isWhitespace_eq_of_rel (hreblanked.token?_rel other (hwf.child_lt_size hmem))]

theorem Relines.relaidAt (hlist : tree.isGroup list = true) (h : Relines list tree after) :
    tree.RelaidAt (fun id => id = list) after := by
  induction h with
  | refl =>
      exact RelaidAt.refl hwf _
  | insert _ idx value ih =>
      have hlast := relaidAt_insertBlank ih.wellFormed (ih.reblanked.isGroup_of_isGroup hlist)
        idx value
      exact ih.trans hlast fun _ _ hid => hid
  | remove _ hchild hblank ih =>
      exact ih.trans (relaidAt_removeAt ih.wellFormed hchild hblank) fun _ _ hid => hid

end

/-!
# Lists one after the other
-/

/-- Visits to groups one after the other, each of which touches what is at and below its
group. -/
theorem relaidAt_foldl {State : Type} (view : State -> Tree) (visit : State -> NodeId -> State)
    (hvisit : forall state id, (view state).WellFormed -> (view state).isGroup id = true ->
      (view state).RelaidAt ((view state).AtOrAbove id) (view (visit state id)))
    (ids : List NodeId) {state : State} (hwf : (view state).WellFormed)
    (hids : forall id, id ∈ ids -> (view state).isGroup id = true) :
    (view state).RelaidAt (fun other => exists id, id ∈ ids ∧ (view state).AtOrAbove id other)
      (view (ids.foldl visit state)) := by
  induction ids generalizing state with
  | nil =>
      exact RelaidAt.refl hwf _
  | cons id rest ih =>
      have hfirst := hvisit state id hwf (hids id List.mem_cons_self)
      have hrest := ih hfirst.wellFormed fun other hother =>
        hfirst.reblanked.isGroup_of_isGroup (hids other (List.mem_cons_of_mem _ hother))
      rw [List.foldl_cons]
      refine (hfirst.mono fun other _ hbelow => ⟨id, List.mem_cons_self, hbelow⟩).trans hrest ?_
      rintro other hother ⟨sibling, hmem, hbelow⟩
      exact ⟨sibling, List.mem_cons_of_mem _ hmem, hfirst.atOrAbove_old hwf hother hbelow⟩

end Tree
end SqlLayout
