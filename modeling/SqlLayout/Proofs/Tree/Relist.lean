import SqlLayout.Proofs.Tree.RegroupLeaves

/-!
# Changing the children of one list

A token comes into a list, or a child is taken out of it.  All that changes is
said here once.  The tree stays well-formed, and the leaves change only in the
list and in the nodes above it, where the rest of the leaves stays around those
of the list.
-/

namespace SqlLayout
namespace Tree

variable {tree after : Tree} {list : NodeId}

/-!
# Nodes on one path
-/

/-- A node is another one or lies above it. -/
def AtOrAbove (tree : Tree) (id other : NodeId) : Prop :=
  id = other ∨ tree.Above id other

theorem AtOrAbove.above_of_parent? {id parent other : NodeId}
    (hparent : tree.parent? id = some parent) (h : tree.AtOrAbove id other) :
    tree.Above parent other := by
  rcases h with rfl | habove
  · exact Tree.above_of_parent? hparent
  · exact (Tree.above_of_parent? hparent).trans habove

section

-- What is kept of a node goes over to its parent, and keeps the parent of the node.
variable {keeps : NodeId -> Prop}
  (hkeeps : forall child parent, keeps child -> tree.parent? child = some parent ->
    after.parent? child = some parent ∧ keeps parent)
include hkeeps

theorem Above.transfer {other id : NodeId} (hid : keeps id) (h : tree.Above other id) :
    after.Above other id := by
  induction h with
  | single hparent =>
      exact above_of_parent? (hkeeps _ _ hid hparent).1
  | tail _ hparent ih =>
      rcases hkeeps _ _ hid hparent with ⟨hafter, hkept⟩
      exact (ih hkept).tail hafter

theorem AtOrAbove.transfer {other id : NodeId} (hid : keeps id) (h : tree.AtOrAbove other id) :
    after.AtOrAbove other id :=
  h.imp_right (Above.transfer hkeeps hid)

end

theorem Above.of_old (hwf : tree.WellFormed)
    (hparent : forall id parent, id < tree.size -> after.parent? id = some parent ->
      tree.parent? id = some parent)
    {other id : NodeId} (hid : id < tree.size) (h : after.Above other id) :
    tree.Above other id := by
  have hkeeps : forall child parent, child < tree.size -> after.parent? child = some parent ->
      tree.parent? child = some parent ∧ parent < tree.size := by
    intro child parent hchild hlater
    have hold := hparent child parent hchild hlater
    exact ⟨hold, lt_size_of_mem_children (hwf.mem_of_parent? hold)⟩
  exact h.transfer hkeeps hid

theorem sublists_subset_of_old (hwf : tree.WellFormed) (hafter : after.WellFormed)
    (hgroup : forall id, after.isGroup id = true -> tree.isGroup id = true)
    (hparent : forall id parent, id < tree.size -> after.parent? id = some parent ->
      tree.parent? id = some parent) (id : NodeId) : after.sublists id ⊆ tree.sublists id := by
  intro child hchild
  rcases List.mem_filter.mp hchild with ⟨hmem, hlater⟩
  have hold := hgroup child hlater
  have habove := hparent child id (lt_size_of_isGroup hold) (hafter.parent?_of_mem hmem)
  exact List.mem_filter.mpr ⟨hwf.mem_of_parent? habove, hold⟩

theorem AtOrAbove.trans {id other below : NodeId} (h : tree.AtOrAbove id other)
    (h' : tree.AtOrAbove other below) : tree.AtOrAbove id below := by
  rcases h with rfl | habove
  · exact h'
  · rcases h' with rfl | habove'
    · exact Or.inr habove
    · exact Or.inr (habove.trans habove')

theorem lt_size_of_above {id other : NodeId} (hwf : tree.WellFormed) (h : tree.Above id other) :
    id < tree.size := by
  induction h with
  | single hparent =>
      exact lt_size_of_mem_children (hwf.mem_of_parent? hparent)
  | tail _ _ ih =>
      exact ih

theorem WellFormed.depth_lt_of_above (hwf : tree.WellFormed) {id other : NodeId}
    (h : tree.Above id other) : hwf.depth id < hwf.depth other := by
  induction h with
  | single hparent =>
      rw [hwf.depth_of_parent? hparent]
      exact Nat.lt_succ_self _
  | tail _ hparent ih =>
      rw [hwf.depth_of_parent? hparent]
      exact Nat.lt_succ_of_lt ih

theorem WellFormed.eq_of_depth_eq (hwf : tree.WellFormed) {a b below : NodeId}
    (ha : tree.AtOrAbove a below) (hb : tree.AtOrAbove b below)
    (hdepth : hwf.depth a = hwf.depth b) : a = b := by
  induction below using hwf.acyclic.induction with
  | h below ih =>
      rcases ha with rfl | ha
      · rcases hb with rfl | hb
        · rfl
        · exact absurd hdepth (Nat.ne_of_gt (hwf.depth_lt_of_above hb))
      · rcases hb with rfl | hb
        · exact absurd hdepth (Nat.ne_of_lt (hwf.depth_lt_of_above ha))
        · rcases Relation.TransGen.tail'_iff.mp ha with ⟨parent, _, hparent⟩
          exact ih parent hparent (above_cases hparent ha) (above_cases hparent hb)

/-!
# Leaves that stay
-/

theorem leaves_eq_of_unchanged (changed : NodeId -> Prop) (hwf : tree.WellFormed)
    (hafter : after.WellFormed)
    (hcontent : forall id, id < tree.size -> ¬ changed id ->
      after.content? id = tree.content? id)
    {id : NodeId} (hid : id < tree.size)
    (hbelow : forall other, changed other -> ¬ tree.AtOrAbove id other) :
    after.leaves id = tree.leaves id := by
  induction id using hwf.induction_up with
  | step id ih =>
      have hself : ¬ changed id := fun hchanged => hbelow id hchanged (Or.inl rfl)
      rcases observers_congr (hcontent id hid hself) with ⟨hkind, htoken, hchildren⟩
      rcases isGroup_or_token? hid with hgroup | ⟨token, hsome⟩
      · have hgroup' : after.isGroup id = true := by
          unfold isGroup
          rw [hkind]
          exact hgroup
        rw [hafter.leaves_group hgroup', hwf.leaves_group hgroup, hchildren]
        apply List.flatMap_congr
        intro child hmem
        refine ih child hmem (hwf.child_lt_size hmem) ?_
        intro other hchanged habove
        exact hbelow other hchanged
          (Or.inr (habove.above_of_parent? (hwf.parent?_of_mem hmem)))
      · rw [WellFormed.leaves_token hsome]
        apply WellFormed.leaves_token
        rw [htoken, hsome]

/-- Apart from the children of one list the old nodes are as before. -/
structure Relisted (tree : Tree) (list : NodeId) (after : Tree) : Prop where
  size_le : tree.size <= after.size
  isGroup_list : tree.isGroup list = true
  kind?_list : after.kind? list = tree.kind? list
  content?_other : forall id, id < tree.size -> id ≠ list ->
    after.content? id = tree.content? id

/-- The leaves of a list with those around it, before and after a change of the
list. -/
def LeavesAround (tree : Tree) (list : NodeId) (after : Tree) (id : NodeId) : Prop :=
  exists front back,
    tree.leaves id = front ++ tree.leaves list ++ back ∧
      after.leaves id = front ++ after.leaves list ++ back

namespace Relisted

theorem kind?_eq (h : Relisted tree list after) {id : NodeId} (hid : id < tree.size) :
    after.kind? id = tree.kind? id := by
  by_cases hlist : id = list
  · rw [hlist, h.kind?_list]
  · exact (observers_congr (h.content?_other id hid hlist)).1

theorem isGroup_eq (h : Relisted tree list after) {id : NodeId} (hid : id < tree.size) :
    after.isGroup id = tree.isGroup id := by
  unfold isGroup
  rw [h.kind?_eq hid]

theorem token?_eq (h : Relisted tree list after) {id : NodeId} (hid : id < tree.size) :
    after.token? id = tree.token? id := by
  by_cases hlist : id = list
  · have hgroup : after.isGroup list = true := by
      rw [← hlist, h.isGroup_eq hid, hlist]
      exact h.isGroup_list
    rw [hlist, token?_eq_none_of_isGroup hgroup, token?_eq_none_of_isGroup h.isGroup_list]
  · exact (observers_congr (h.content?_other id hid hlist)).2.1

theorem trans {middle : Tree} (h : Relisted tree list middle) (h' : Relisted middle list after) :
    Relisted tree list after := by
  refine ⟨Nat.le_trans h.size_le h'.size_le, h.isGroup_list, h'.kind?_list.trans h.kind?_list, ?_⟩
  intro id hid hne
  rw [h'.content?_other id (Nat.lt_of_lt_of_le hid h.size_le) hne, h.content?_other id hid hne]

section

variable (hwf : tree.WellFormed) (hafter : after.WellFormed) (h : Relisted tree list after)
include hwf hafter h

theorem leaves_outside {id : NodeId} (hid : id < tree.size) (hbelow : ¬ tree.AtOrAbove id list) :
    after.leaves id = tree.leaves id := by
  apply leaves_eq_of_unchanged (fun other => other = list) hwf hafter h.content?_other hid
  intro other hother
  rw [hother]
  exact hbelow

theorem leavesAround_parent {id child : NodeId} (hparent : tree.parent? child = some id)
    (hbelow : tree.AtOrAbove child list) (haround : LeavesAround tree list after child) :
    LeavesAround tree list after id := by
  have hmem := hwf.mem_of_parent? hparent
  have hid : id < tree.size := lt_size_of_mem_children hmem
  have hne : id ≠ list := by
    rintro rfl
    exact hwf.not_above_self id (hbelow.above_of_parent? hparent)
  have hgroup := isGroup_of_mem_children hmem
  have hgroup' : after.isGroup id = true := by
    rw [h.isGroup_eq hid, hgroup]
  have hchildren : after.children id = tree.children id :=
    (observers_congr (h.content?_other id hid hne)).2.2
  have hnodup := hwf.nodup_children id
  rcases List.append_of_mem hmem with ⟨before, behind, hsplit⟩
  rw [hsplit] at hnodup
  -- Two children are equally deep, so only one of them can be above the list.
  have hsame : forall ids : List NodeId,
      (forall other, other ∈ ids -> other ∈ tree.children id ∧ other ≠ child) ->
      ids.flatMap after.leaves = ids.flatMap tree.leaves := by
    intro ids hids
    apply List.flatMap_congr
    intro other hother
    rcases hids other hother with ⟨hsibling, hneq⟩
    apply leaves_outside hwf hafter h (hwf.child_lt_size hsibling)
    intro habove
    apply hneq
    apply hwf.eq_of_depth_eq habove hbelow
    rw [hwf.depth_of_mem hsibling, hwf.depth_of_mem hmem]
  have hbefore := hsame before (by grind)
  have hbehind := hsame behind (by grind)
  rcases haround with ⟨front, back, hold, hnew⟩
  refine ⟨before.flatMap tree.leaves ++ front, back ++ behind.flatMap tree.leaves, ?_, ?_⟩
  · rw [hwf.leaves_group hgroup, hsplit, List.flatMap_append, List.flatMap_cons, hold]
    simp only [List.append_assoc]
  · rw [hafter.leaves_group hgroup', hchildren, hsplit, List.flatMap_append, List.flatMap_cons,
      hnew, hbefore, hbehind]
    simp only [List.append_assoc]

theorem leavesAround {id : NodeId} (hbelow : tree.AtOrAbove id list) :
    LeavesAround tree list after id := by
  have hself : LeavesAround tree list after list := ⟨[], [], by simp, by simp⟩
  rcases hbelow with rfl | habove
  · exact hself
  · induction habove using Relation.TransGen.head_induction_on with
    | single hparent =>
        exact leavesAround_parent hwf hafter h hparent (Or.inl rfl) hself
    | head hparent habove ih =>
        exact leavesAround_parent hwf hafter h hparent (Or.inr habove) ih

/-!
## Children that give way to other nodes
-/

section

variable {front gone back place : List NodeId}
  (hchildren : tree.children list = front ++ gone ++ back)
  (hplaced : after.children list = front ++ place ++ back)
include hchildren hplaced

theorem leaves_list :
    tree.leaves list = front.flatMap tree.leaves ++ gone.flatMap tree.leaves ++
        back.flatMap tree.leaves ∧
      after.leaves list = front.flatMap tree.leaves ++ place.flatMap after.leaves ++
        back.flatMap tree.leaves := by
  have hgroup : after.isGroup list = true := by
    rw [h.isGroup_eq (lt_size_of_isGroup h.isGroup_list)]
    exact h.isGroup_list
  have hsame : forall ids : List NodeId, ids ⊆ tree.children list ->
      ids.flatMap after.leaves = ids.flatMap tree.leaves := by
    intro ids hids
    apply List.flatMap_congr
    intro id hid
    have hmem := hids hid
    apply leaves_outside hwf hafter h (hwf.child_lt_size hmem)
    intro habove
    exact hwf.not_above_self list (habove.above_of_parent? (hwf.parent?_of_mem hmem))
  have hfront : front ⊆ tree.children list := by
    rw [hchildren, List.append_assoc]
    exact List.subset_append_left _ _
  have hback : back ⊆ tree.children list := by
    rw [hchildren]
    exact List.subset_append_right _ _
  constructor
  · rw [hwf.leaves_group h.isGroup_list, hchildren, List.flatMap_append, List.flatMap_append]
  · rw [hafter.leaves_group hgroup, hplaced, List.flatMap_append, List.flatMap_append,
      hsame front hfront, hsame back hback]

theorem leaves_replaced {id : NodeId} (hbelow : tree.AtOrAbove id list) :
    exists before behind, tree.leaves id = before ++ gone.flatMap tree.leaves ++ behind ∧
      after.leaves id = before ++ place.flatMap after.leaves ++ behind := by
  rcases leavesAround hwf hafter h hbelow with ⟨before, behind, hbefore, hlater⟩
  rcases leaves_list hwf hafter h hchildren hplaced with ⟨hlist, hlist'⟩
  refine ⟨before ++ front.flatMap tree.leaves, back.flatMap tree.leaves ++ behind, ?_, ?_⟩
  · rw [hbefore, hlist]
    simp only [List.append_assoc]
  · rw [hlater, hlist']
    simp only [List.append_assoc]

theorem filterMap_leaves {beta : Type} {read read' : NodeId -> Option beta}
    (hread : forall leaf, leaf < tree.size -> read' leaf = read leaf) {id : NodeId}
    (hid : id < tree.size) :
    (after.leaves id).filterMap read' = (tree.leaves id).filterMap read ∨
      exists before behind,
        (tree.leaves id).filterMap read =
          before ++ (gone.flatMap tree.leaves).filterMap read ++ behind ∧
        (after.leaves id).filterMap read' =
          before ++ (place.flatMap after.leaves).filterMap read' ++ behind := by
  have hkept : forall leaves : List NodeId, leaves ⊆ tree.leaves id ->
      leaves.filterMap read' = leaves.filterMap read :=
    fun leaves hleaves => List.filterMap_congr fun leaf hleaf =>
      hread leaf (hwf.leaf_lt_size hid (hleaves hleaf))
  by_cases hbelow : tree.AtOrAbove id list
  · right
    rcases leaves_replaced hwf hafter h hchildren hplaced hbelow with
      ⟨before, behind, hbefore, hlater⟩
    have hfront : before ⊆ tree.leaves id := by
      rw [hbefore, List.append_assoc]
      exact List.subset_append_left _ _
    have hback : behind ⊆ tree.leaves id := by
      rw [hbefore]
      exact List.subset_append_right _ _
    refine ⟨before.filterMap read, behind.filterMap read, ?_, ?_⟩
    · rw [hbefore, List.filterMap_append, List.filterMap_append]
    · rw [hlater, List.filterMap_append, List.filterMap_append, hkept before hfront,
        hkept behind hback]
  · left
    rw [leaves_outside hwf hafter h hid hbelow]
    exact hkept _ (List.Subset.refl _)

theorem filter_leaves {keep keep' : NodeId -> Bool}
    (hkeep : forall leaf, leaf < tree.size -> keep' leaf = keep leaf) {id : NodeId}
    (hid : id < tree.size) :
    (after.leaves id).filter keep' = (tree.leaves id).filter keep ∨
      exists before behind,
        (tree.leaves id).filter keep =
          before ++ (gone.flatMap tree.leaves).filter keep ++ behind ∧
        (after.leaves id).filter keep' =
          before ++ (place.flatMap after.leaves).filter keep' ++ behind := by
  simp only [← List.filterMap_eq_filter]
  apply filterMap_leaves hwf hafter h hchildren hplaced _ hid
  intro leaf hleaf
  simp only [Option.guard, hkeep leaf hleaf]

end

end

end Relisted

/-!
# A token comes in
-/

/-- A new token stands between `front` and `back` in a list. -/
structure Inserted (tree : Tree) (list : NodeId) (token : Token) (front back : List NodeId)
    (after : Tree) : Prop where
  children_list : tree.children list = front ++ back
  isGroup_list : tree.isGroup list = true
  size_eq : after.size = tree.size + 1
  content?_new : after.content? tree.size = some (.token token)
  content?_list : forall kind, tree.kind? list = some kind ->
    after.content? list = some (.group kind (front ++ tree.size :: back))
  content?_other : forall id, id ≠ tree.size -> id ≠ list ->
    after.content? id = tree.content? id
  parent?_eq : forall id, after.parent? id =
    if id = tree.size then some list else tree.parent? id

theorem insertAt_fst (tree : Tree) (list : NodeId) (idx : Nat) (token : Token) :
    (tree.insertAt list idx token).1 = tree.size := rfl

theorem inserted_insertAt (hlist : tree.isGroup list = true) (idx : Nat) (token : Token) :
    Inserted tree list token ((tree.children list).take idx) ((tree.children list).drop idx)
      (tree.insertAt list idx token).2 := by
  have hne : list ≠ tree.size := Nat.ne_of_lt (lt_size_of_isGroup hlist)
  have htree : (tree.insertAt list idx token).2 =
      ((tree.push (.token token)).2.setParent (some list) tree.size).setChildren list
        ((tree.children list).take idx ++ tree.size :: (tree.children list).drop idx) := rfl
  rw [htree]
  refine ⟨(List.take_append_drop _ _).symm, hlist, ?_, ?_, ?_, ?_, ?_⟩
  · rw [size_setChildren, size_setParent, size_push]
  · rw [content?_setChildren_of_ne (Ne.symm hne), content?_setParent, content?_push, if_pos rfl]
  · intro kind hkind
    have hpushed :
        ((tree.push (.token token)).2.setParent (some list) tree.size).content? list =
          some (.group kind (tree.children list)) := by
      rw [content?_setParent, content?_push, if_neg hne, content?_of_kind? hkind]
    exact content?_setChildren_self hpushed _
  · intro id hsize hid
    rw [content?_setChildren_of_ne hid, content?_setParent, content?_push, if_neg hsize]
  · intro id
    rw [parent?_setChildren, parent?_setParent, parent?_push, size_push]
    by_cases hid : id = tree.size
    · rw [if_pos ⟨hid, Nat.lt_succ_self _⟩, if_pos hid]
    · rw [if_neg (fun h => hid h.left), if_neg hid]

namespace Inserted

variable {token : Token} {front back : List NodeId}

theorem children_after_list (h : Inserted tree list token front back after) :
    after.children list = front ++ tree.size :: back := by
  rcases isGroup_iff_kind?.mp h.isGroup_list with ⟨kind, hkind⟩
  exact children_of_content? (h.content?_list kind hkind)

theorem token?_new (h : Inserted tree list token front back after) :
    after.token? tree.size = some token := by
  simp [token?, h.content?_new]

theorem relisted (h : Inserted tree list token front back after) : Relisted tree list after := by
  refine ⟨?_, h.isGroup_list, ?_, ?_⟩
  · rw [h.size_eq]
    exact Nat.le_succ _
  · rcases isGroup_iff_kind?.mp h.isGroup_list with ⟨kind, hkind⟩
    rw [kind?_of_content? (h.content?_list kind hkind), hkind]
  · intro id hid hne
    exact h.content?_other id (Nat.ne_of_lt hid) hne

section

variable (hwf : tree.WellFormed) (h : Inserted tree list token front back after)
include hwf h

theorem mem_children_iff (child parent : NodeId) :
    child ∈ after.children parent <-> after.parent? child = some parent := by
  have hnone : forall id, tree.size ∉ tree.children id := fun id hmem =>
    Nat.lt_irrefl _ (hwf.child_lt_size hmem)
  have hempty : after.children tree.size = [] ∧ tree.children tree.size = [] := by
    constructor
    · simp [children, h.content?_new]
    · simp [children, content?_eq_none_iff.mpr (Nat.le_refl tree.size)]
  have hold : child ≠ tree.size ->
      (child ∈ after.children parent <-> child ∈ tree.children parent) := by
    intro hne
    by_cases hlist : parent = list
    · rw [hlist, h.children_after_list, h.children_list]
      simp [hne]
    · by_cases hsize : parent = tree.size
      · rw [hsize, hempty.1, hempty.2]
      · rw [(observers_congr (h.content?_other parent hsize hlist)).2.2]
  rw [h.parent?_eq]
  by_cases hchild : child = tree.size
  · rw [if_pos hchild, hchild, Option.some.injEq]
    constructor
    · intro hmem
      by_cases hlist : parent = list
      · exact hlist.symm
      · by_cases hsize : parent = tree.size
        · rw [hsize, hempty.1] at hmem
          cases hmem
        · rw [(observers_congr (h.content?_other parent hsize hlist)).2.2] at hmem
          exact absurd hmem (hnone parent)
    · rintro rfl
      rw [h.children_after_list]
      simp
  · rw [if_neg hchild, hold hchild]
    exact hwf.mem_children_iff child parent

theorem nodup_children (parent : NodeId) : (after.children parent).Nodup := by
  by_cases hlist : parent = list
  · have hnodup := hwf.nodup_children list
    have hfresh : tree.size ∉ tree.children list := fun hmem =>
      Nat.lt_irrefl _ (hwf.child_lt_size hmem)
    rw [h.children_list] at hnodup hfresh
    rw [hlist, h.children_after_list]
    grind
  · by_cases hsize : parent = tree.size
    · simp [hsize, children, h.content?_new]
    · rw [(observers_congr (h.content?_other parent hsize hlist)).2.2]
      exact hwf.nodup_children parent

theorem wellFormed : after.WellFormed := by
  refine ⟨mem_children_iff hwf h, nodup_children hwf h, ?_⟩
  have hlist : list ≠ tree.size := Nat.ne_of_lt (lt_size_of_isGroup h.isGroup_list)
  apply acyclic_of_rank fun id =>
    if id = tree.size then hwf.depth list + 1 else hwf.depth id
  intro parent child hparent
  rw [h.parent?_eq] at hparent
  by_cases hchild : child = tree.size
  · rw [if_pos hchild] at hparent
    cases hparent
    rw [if_neg hlist, if_pos hchild]
    exact Nat.lt_succ_self _
  · rw [if_neg hchild] at hparent
    have hne : parent ≠ tree.size :=
      Nat.ne_of_lt (lt_size_of_mem_children (hwf.mem_of_parent? hparent))
    rw [if_neg hchild, if_neg hne, hwf.depth_of_parent? hparent]
    exact Nat.lt_succ_self _

theorem leaves_list :
    tree.leaves list = front.flatMap tree.leaves ++ back.flatMap tree.leaves ∧
      after.leaves list = front.flatMap tree.leaves ++ tree.size :: back.flatMap tree.leaves := by
  have hchildren : tree.children list = front ++ [] ++ back := by
    rw [h.children_list, List.append_nil]
  have hplaced : after.children list = front ++ [tree.size] ++ back := by
    rw [h.children_after_list, List.append_assoc, List.singleton_append]
  have hleaves := h.relisted.leaves_list hwf (wellFormed hwf h) hchildren hplaced
  rw [List.flatMap_singleton, WellFormed.leaves_token h.token?_new, List.append_assoc,
    List.append_assoc] at hleaves
  exact hleaves

end

end Inserted

/-!
# A child is taken out
-/

/-- A child between `front` and `back` is taken out of a list. -/
structure Removed (tree : Tree) (list child : NodeId) (front back : List NodeId)
    (after : Tree) : Prop where
  children_list : tree.children list = front ++ child :: back
  size_eq : after.size = tree.size
  content?_list : forall kind, tree.kind? list = some kind ->
    after.content? list = some (.group kind (front ++ back))
  content?_other : forall id, id ≠ list -> after.content? id = tree.content? id
  parent?_eq : forall id, after.parent? id = if id = child then none else tree.parent? id

theorem removed_removeAt (hwf : tree.WellFormed) {idx : Nat} {child : NodeId}
    (hchild : tree.child? list idx = some child) :
    Removed tree list child ((tree.children list).take idx) ((tree.children list).drop (idx + 1))
      (tree.removeAt list idx) := by
  have hget := List.getElem?_eq_some_iff.mp hchild
  have hmem : child ∈ tree.children list := List.mem_of_getElem? hchild
  have htree : tree.removeAt list idx =
      (tree.setChildren list
        ((tree.children list).take idx ++ (tree.children list).drop (idx + 1))).setParent
          none child := by
    unfold removeAt
    rw [hchild]
  rw [htree]
  refine ⟨?_, ?_, ?_, ?_, ?_⟩
  · have hdrop := List.drop_eq_getElem_cons hget.1
    rw [hget.2] at hdrop
    rw [← hdrop, List.take_append_drop]
  · rw [size_setParent, size_setChildren]
  · intro kind hkind
    rw [content?_setParent]
    exact content?_setChildren_self (content?_of_kind? hkind) _
  · intro id hid
    rw [content?_setParent, content?_setChildren_of_ne hid]
  · intro id
    rw [parent?_setParent, parent?_setChildren, size_setChildren]
    by_cases hid : id = child
    · rw [if_pos ⟨hid, hwf.child_lt_size hmem⟩, if_pos hid]
    · rw [if_neg (fun h => hid h.left), if_neg hid]

namespace Removed

variable {child : NodeId} {front back : List NodeId}

theorem mem_list (h : Removed tree list child front back after) : child ∈ tree.children list := by
  rw [h.children_list]
  simp

theorem isGroup_list (h : Removed tree list child front back after) :
    tree.isGroup list = true :=
  isGroup_of_mem_children h.mem_list

theorem children_after_list (h : Removed tree list child front back after) :
    after.children list = front ++ back := by
  rcases isGroup_iff_kind?.mp h.isGroup_list with ⟨kind, hkind⟩
  exact children_of_content? (h.content?_list kind hkind)

theorem relisted (h : Removed tree list child front back after) : Relisted tree list after := by
  refine ⟨Nat.le_of_eq h.size_eq.symm, h.isGroup_list, ?_, ?_⟩
  · rcases isGroup_iff_kind?.mp h.isGroup_list with ⟨kind, hkind⟩
    rw [kind?_of_content? (h.content?_list kind hkind), hkind]
  · intro id _ hne
    exact h.content?_other id hne

section

variable (hwf : tree.WellFormed) (h : Removed tree list child front back after)
include hwf h

theorem mem_children_iff (other parent : NodeId) :
    other ∈ after.children parent <-> after.parent? other = some parent := by
  have hnodup := hwf.nodup_children list
  rw [h.children_list] at hnodup
  have hparent := hwf.parent?_of_mem h.mem_list
  rw [h.parent?_eq]
  by_cases hchild : other = child
  · rw [if_pos hchild, hchild]
    constructor
    · intro hmem
      by_cases hlist : parent = list
      · rw [hlist, h.children_after_list] at hmem
        grind
      · rw [(observers_congr (h.content?_other parent hlist)).2.2] at hmem
        have hother := hwf.parent?_of_mem hmem
        rw [hparent] at hother
        cases hother
        exact absurd rfl hlist
    · intro hnone
      cases hnone
  · rw [if_neg hchild, ← hwf.mem_children_iff]
    by_cases hlist : parent = list
    · rw [hlist, h.children_after_list, h.children_list]
      simp [hchild]
    · rw [(observers_congr (h.content?_other parent hlist)).2.2]

theorem wellFormed : after.WellFormed := by
  refine ⟨mem_children_iff hwf h, ?_, ?_⟩
  · intro parent
    by_cases hlist : parent = list
    · have hnodup := hwf.nodup_children list
      rw [h.children_list] at hnodup
      rw [hlist, h.children_after_list]
      grind
    · rw [(observers_congr (h.content?_other parent hlist)).2.2]
      exact hwf.nodup_children parent
  · apply acyclic_of_rank hwf.depth
    intro parent other hparent
    rw [h.parent?_eq] at hparent
    split at hparent
    · cases hparent
    · rw [hwf.depth_of_parent? hparent]
      exact Nat.lt_succ_self _

theorem leaves_list :
    tree.leaves list =
        front.flatMap tree.leaves ++ tree.leaves child ++ back.flatMap tree.leaves ∧
      after.leaves list = front.flatMap tree.leaves ++ back.flatMap tree.leaves ∧
      after.leaves child = tree.leaves child := by
  have hafter := wellFormed hwf h
  have hchildren : tree.children list = front ++ [child] ++ back := by
    rw [h.children_list, List.append_assoc, List.singleton_append]
  have hplaced : after.children list = front ++ [] ++ back := by
    rw [h.children_after_list, List.append_nil]
  rcases h.relisted.leaves_list hwf hafter hchildren hplaced with ⟨hbefore, hlater⟩
  rw [List.flatMap_singleton] at hbefore
  rw [List.flatMap_nil, List.append_nil] at hlater
  refine ⟨hbefore, hlater, ?_⟩
  apply h.relisted.leaves_outside hwf hafter (hwf.child_lt_size h.mem_list)
  intro habove
  exact hwf.not_above_self list (habove.above_of_parent? (hwf.parent?_of_mem h.mem_list))

end

end Removed

end Tree
end SqlLayout
