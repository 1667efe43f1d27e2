import Mathlib.Logic.Relation
import SqlLayout.Proofs.Tree.Regroup

/-!
# What grouping a span keeps

Grouping a span keeps a tree well-formed, and it keeps the leaves of every node
that was there before, the group that grows apart.  The nodes above a node stay
above it, and there is always a node with a new one above it, so that grouping
never comes back to an earlier tree.
-/

namespace SqlLayout
namespace Tree

variable {tree after : Tree} {list group : NodeId} {kind : GroupKind}
  {front moved back : List NodeId}

/-- A node lies strictly above another one. -/
def Above (tree : Tree) : NodeId -> NodeId -> Prop :=
  Relation.TransGen fun parent child => tree.parent? child = some parent

theorem WellFormed.not_above_self (h : tree.WellFormed) (id : NodeId) : ¬ tree.Above id id :=
  h.acyclic.transGen.irrefl.irrefl id

theorem above_of_parent? {id parent : NodeId} (h : tree.parent? id = some parent) :
    tree.Above parent id :=
  Relation.TransGen.single h

theorem above_cases {id parent other : NodeId} (hparent : tree.parent? id = some parent)
    (h : tree.Above other id) : other = parent ∨ tree.Above other parent := by
  rcases Relation.TransGen.tail'_iff.mp h with ⟨last, hlast, hlastParent⟩
  rw [hparent] at hlastParent
  cases hlastParent
  rcases Relation.reflTransGen_iff_eq_or_transGen.mp hlast with heq | habove
  · exact Or.inl heq.symm
  · exact Or.inr habove

/-- What is above a node stays above it if every parent stays above its
children. -/
theorem above_of_edges
    (hedge : forall parent child,
      tree.parent? child = some parent -> after.Above parent child)
    {other id : NodeId} (h : tree.Above other id) : after.Above other id := by
  induction h with
  | single hparent =>
      exact hedge _ _ hparent
  | tail _ hparent ih =>
      exact ih.trans (hedge _ _ hparent)

theorem isGroup_or_token? {id : NodeId} (h : id < tree.size) :
    tree.isGroup id = true ∨ exists token, tree.token? id = some token := by
  cases hcontent : tree.content? id with
  | none =>
      exact absurd (content?_eq_none_iff.mp hcontent) (Nat.not_le_of_lt h)
  | some content =>
      cases content with
      | token token =>
          exact Or.inr ⟨token, by simp [token?, hcontent]⟩
      | group kind children =>
          exact Or.inl (isGroup_iff_kind?.mpr ⟨kind, kind?_of_content? hcontent⟩)

theorem WellFormed.leaf_lt_size (hwf : tree.WellFormed) {id leaf : NodeId}
    (hid : id < tree.size) (hleaf : leaf ∈ tree.leaves id) : leaf < tree.size := by
  induction id using hwf.induction_up with
  | step id ih =>
      rcases isGroup_or_token? hid with hgroup | ⟨token, htoken⟩
      · rw [hwf.leaves_group hgroup, List.mem_flatMap] at hleaf
        rcases hleaf with ⟨child, hchild, hmem⟩
        exact ih child hchild (hwf.child_lt_size hchild) hmem
      · rw [leaves_token htoken, List.mem_singleton] at hleaf
        rw [hleaf]
        exact hid

/-!
# Wrapping
-/

namespace Wrapped

theorem list_ne_size (h : Wrapped tree list kind front moved back after) :
    list ≠ tree.size :=
  Nat.ne_of_lt (lt_size_of_isGroup h.isGroup_list)

theorem mem_list_of_mem_moved (h : Wrapped tree list kind front moved back after)
    {id : NodeId} (hid : id ∈ moved) : id ∈ tree.children list := by
  rw [h.children_list]
  simp [hid]

theorem children_new (h : Wrapped tree list kind front moved back after) :
    after.children tree.size = moved :=
  children_of_content? h.content?_new

theorem content?_after_list (h : Wrapped tree list kind front moved back after) :
    exists listKind, tree.kind? list = some listKind ∧
      after.content? list = some (.group listKind (front ++ tree.size :: back)) := by
  rcases isGroup_iff_kind?.mp h.isGroup_list with ⟨listKind, hkind⟩
  exact ⟨listKind, hkind, h.content?_list listKind hkind⟩

theorem children_after_list (h : Wrapped tree list kind front moved back after) :
    after.children list = front ++ tree.size :: back := by
  rcases h.content?_after_list with ⟨listKind, _, hcontent⟩
  exact children_of_content? hcontent

theorem children_other (h : Wrapped tree list kind front moved back after) {id : NodeId}
    (hsize : id ≠ tree.size) (hlist : id ≠ list) : after.children id = tree.children id :=
  (observers_congr (h.content?_other id hsize hlist)).2.2

theorem token?_eq (h : Wrapped tree list kind front moved back after) (id : NodeId) :
    after.token? id = tree.token? id := by
  by_cases hlist : id = list
  · rcases h.content?_after_list with ⟨listKind, hkind, hcontent⟩
    rw [hlist, token?_of_group hcontent, token?_of_group (content?_of_kind? hkind)]
  · by_cases hsize : id = tree.size
    · have hnone : tree.token? tree.size = none := by
        simp [token?, content?_eq_none_iff.mpr (Nat.le_refl tree.size)]
      rw [hsize, token?_of_group h.content?_new, hnone]
    · exact (observers_congr (h.content?_other id hsize hlist)).2.1

theorem kind?_of_ne (h : Wrapped tree list kind front moved back after) {id : NodeId}
    (hsize : id ≠ tree.size) : after.kind? id = tree.kind? id := by
  by_cases hlist : id = list
  · rcases h.content?_after_list with ⟨listKind, hkind, hcontent⟩
    rw [hlist, kind?_of_content? hcontent, hkind]
  · exact (observers_congr (h.content?_other id hsize hlist)).1

theorem isGroup_of_ne (h : Wrapped tree list kind front moved back after) {id : NodeId}
    (hsize : id ≠ tree.size) : after.isGroup id = tree.isGroup id := by
  unfold isGroup
  rw [h.kind?_of_ne hsize]

theorem parent?_moved (h : Wrapped tree list kind front moved back after) {id : NodeId}
    (hid : id ∈ moved) : after.parent? id = some tree.size := by
  rw [h.parent?_eq, if_pos hid]

theorem parent?_other (h : Wrapped tree list kind front moved back after) {id : NodeId}
    (hmoved : id ∉ moved) (hsize : id ≠ tree.size) : after.parent? id = tree.parent? id := by
  rw [h.parent?_eq, if_neg hmoved, if_neg hsize]

section

variable (hwf : tree.WellFormed) (h : Wrapped tree list kind front moved back after)
include hwf h

theorem size_not_mem_moved : tree.size ∉ moved := by
  intro hmem
  exact Nat.lt_irrefl _ (hwf.child_lt_size (h.mem_list_of_mem_moved hmem))

theorem parent?_new : after.parent? tree.size = some list := by
  rw [h.parent?_eq, if_neg (size_not_mem_moved hwf h), if_pos rfl]

theorem not_mem_moved {id : NodeId} (hid : id ∈ front ∨ id ∈ back) : id ∉ moved := by
  have hnodup := hwf.nodup_children list
  rw [h.children_list, List.nodup_append, List.nodup_append] at hnodup
  rcases hnodup with ⟨⟨_, _, hfront⟩, _, hback⟩
  intro hmoved
  rcases hid with hid | hid
  · exact hfront id hid id hmoved rfl
  · exact hback id (List.mem_append.mpr (Or.inr hmoved)) id hid rfl

theorem mem_children_iff (child parent : NodeId) :
    child ∈ after.children parent <-> after.parent? child = some parent := by
  constructor
  · intro hmem
    by_cases hsize : parent = tree.size
    · rw [hsize, h.children_new] at hmem
      rw [hsize, h.parent?_moved hmem]
    · by_cases hlist : parent = list
      · rw [hlist, h.children_after_list, List.mem_append, List.mem_cons] at hmem
        rw [hlist]
        by_cases hnew : child = tree.size
        · rw [hnew, parent?_new hwf h]
        · have hside : child ∈ front ∨ child ∈ back := by
            rcases hmem with hfront | heq | hback
            · exact Or.inl hfront
            · exact absurd heq hnew
            · exact Or.inr hback
          rw [h.parent?_other (not_mem_moved hwf h hside) hnew]
          apply hwf.parent?_of_mem
          rw [h.children_list]
          rcases hside with hside | hside <;> simp [hside]
      · rw [h.children_other hsize hlist] at hmem
        have hparent := hwf.parent?_of_mem hmem
        have hmoved : child ∉ moved := by
          intro hmoved
          have hother := hwf.parent?_of_mem (h.mem_list_of_mem_moved hmoved)
          rw [hparent] at hother
          cases hother
          exact hlist rfl
        have hnew : child ≠ tree.size := Nat.ne_of_lt (hwf.child_lt_size hmem)
        rw [h.parent?_other hmoved hnew, hparent]
  · intro hparent
    by_cases hmoved : child ∈ moved
    · rw [h.parent?_moved hmoved] at hparent
      cases hparent
      rw [h.children_new]
      exact hmoved
    · by_cases hnew : child = tree.size
      · rw [hnew, parent?_new hwf h] at hparent
        cases hparent
        rw [h.children_after_list, hnew]
        simp
      · rw [h.parent?_other hmoved hnew] at hparent
        have hmem := hwf.mem_of_parent? hparent
        have hsize : parent ≠ tree.size := Nat.ne_of_lt (lt_size_of_mem_children hmem)
        by_cases hlist : parent = list
        · rw [hlist, h.children_list, List.mem_append, List.mem_append] at hmem
          rw [hlist, h.children_after_list, List.mem_append, List.mem_cons]
          rcases hmem with (hfront | hmem) | hback
          · exact Or.inl hfront
          · exact absurd hmem hmoved
          · exact Or.inr (Or.inr hback)
        · rw [h.children_other hsize hlist]
          exact hmem

theorem nodup_children (parent : NodeId) : (after.children parent).Nodup := by
  have hnodup := hwf.nodup_children list
  have hfresh : tree.size ∉ tree.children list := fun hmem =>
    Nat.lt_irrefl _ (hwf.child_lt_size hmem)
  rw [h.children_list] at hnodup hfresh
  by_cases hsize : parent = tree.size
  · rw [hsize, h.children_new]
    exact hnodup.of_append_left.of_append_right
  · by_cases hlist : parent = list
    · rw [hlist, h.children_after_list]
      grind
    · rw [h.children_other hsize hlist]
      exact hwf.nodup_children parent

theorem acyclic : WellFounded fun parent child => after.parent? child = some parent := by
  have hold : forall id, id ≠ tree.size ->
      Acc (fun parent child => after.parent? child = some parent) id := by
    intro id
    induction id using hwf.acyclic.induction with
    | h id ih =>
        intro hid
        constructor
        intro parent hparent
        by_cases hmoved : id ∈ moved
        · rw [h.parent?_moved hmoved] at hparent
          cases hparent
          constructor
          intro above habove
          rw [parent?_new hwf h] at habove
          cases habove
          have hlist := hwf.parent?_of_mem (h.mem_list_of_mem_moved hmoved)
          exact ih list hlist h.list_ne_size
        · rw [h.parent?_other hmoved hid] at hparent
          have hlt := lt_size_of_mem_children (hwf.mem_of_parent? hparent)
          exact ih parent hparent (Nat.ne_of_lt hlt)
  constructor
  intro id
  by_cases hid : id = tree.size
  · rw [hid]
    constructor
    intro parent hparent
    rw [parent?_new hwf h] at hparent
    cases hparent
    exact hold list h.list_ne_size
  · exact hold id hid

theorem wellFormed : after.WellFormed :=
  ⟨mem_children_iff hwf h, nodup_children hwf h, acyclic hwf h⟩

theorem above_mono {other id : NodeId} (habove : tree.Above other id) :
    after.Above other id := by
  refine above_of_edges ?_ habove
  intro parent child hparent
  by_cases hmoved : child ∈ moved
  · have hlist := hwf.parent?_of_mem (h.mem_list_of_mem_moved hmoved)
    rw [hparent] at hlist
    cases hlist
    exact (above_of_parent? (parent?_new hwf h)).tail (h.parent?_moved hmoved)
  · have hnew : child ≠ tree.size := Nat.ne_of_lt (lt_size_of_parent? hparent)
    apply above_of_parent?
    rw [h.parent?_other hmoved hnew, hparent]

theorem above_new : after.Above list tree.size ∧ ¬ tree.Above list tree.size := by
  refine ⟨above_of_parent? (parent?_new hwf h), ?_⟩
  intro habove
  rcases Relation.TransGen.tail'_iff.mp habove with ⟨_, _, hparent⟩
  exact Nat.lt_irrefl _ (lt_size_of_parent? hparent)

theorem leaves_eq {id : NodeId} (hid : id < tree.size) : after.leaves id = tree.leaves id := by
  have hafter := wellFormed hwf h
  induction id using hwf.induction_up with
  | step id ih =>
      have hsize : id ≠ tree.size := Nat.ne_of_lt hid
      rcases isGroup_or_token? hid with hgroup | ⟨token, htoken⟩
      · have hchildren : forall ids : List NodeId, (forall x, x ∈ ids -> x ∈ tree.children id) ->
            ids.flatMap after.leaves = ids.flatMap tree.leaves := by
          intro ids hids
          apply List.flatMap_congr
          intro x hx
          exact ih x (hids x hx) (hwf.child_lt_size (hids x hx))
        have hgroup' : after.isGroup id = true := by
          rw [h.isGroup_of_ne hsize, hgroup]
        rw [hafter.leaves_group hgroup', hwf.leaves_group hgroup]
        by_cases hlist : id = list
        · subst hlist
          have hnewGroup : after.isGroup tree.size = true :=
            isGroup_iff_kind?.mpr ⟨kind, kind?_of_content? h.content?_new⟩
          have hnew : after.leaves tree.size = moved.flatMap tree.leaves := by
            rw [hafter.leaves_group hnewGroup, h.children_new]
            exact hchildren moved fun x hx => h.mem_list_of_mem_moved hx
          have hmem := h.children_list
          rw [h.children_after_list, h.children_list]
          simp only [List.flatMap_append, List.flatMap_cons, hnew]
          have hfront : forall x, x ∈ front -> x ∈ tree.children id := by
            intro x hx
            simp [hmem, hx]
          have hback : forall x, x ∈ back -> x ∈ tree.children id := by
            intro x hx
            simp [hmem, hx]
          rw [hchildren front hfront, hchildren back hback, List.append_assoc]
        · rw [h.children_other hsize hlist]
          exact hchildren _ fun x hx => hx
      · rw [WellFormed.leaves_token htoken]
        apply WellFormed.leaves_token
        rw [h.token?_eq, htoken]

theorem leaves_new : after.leaves tree.size = moved.flatMap tree.leaves := by
  have hgroup : after.isGroup tree.size = true :=
    isGroup_iff_kind?.mpr ⟨kind, kind?_of_content? h.content?_new⟩
  rw [(h.wellFormed hwf).leaves_group hgroup, h.children_new]
  apply List.flatMap_congr
  intro id hid
  exact h.leaves_eq hwf (hwf.child_lt_size (h.mem_list_of_mem_moved hid))

end

end Wrapped

/-!
# Absorbing
-/

namespace Absorbed

theorem mem_list (h : Absorbed tree list group front moved back after) {id : NodeId}
    (hid : id ∈ front ∨ id = group ∨ id ∈ moved ∨ id ∈ back) : id ∈ tree.children list := by
  rw [h.children_list, List.mem_append, List.mem_cons, List.mem_append]
  exact hid

theorem content?_after_group (h : Absorbed tree list group front moved back after) :
    exists kind, tree.kind? group = some kind ∧
      after.content? group = some (.group kind (tree.children group ++ moved)) := by
  rcases isGroup_iff_kind?.mp h.isGroup_group with ⟨kind, hkind⟩
  exact ⟨kind, hkind, h.content?_group kind hkind⟩

theorem content?_after_list (h : Absorbed tree list group front moved back after) :
    exists listKind, tree.kind? list = some listKind ∧
      after.content? list = some (.group listKind (front ++ group :: back)) := by
  have hlist := isGroup_of_mem_children (h.mem_list (Or.inr (Or.inl rfl)))
  rcases isGroup_iff_kind?.mp hlist with ⟨listKind, hkind⟩
  exact ⟨listKind, hkind, h.content?_list listKind hkind⟩

theorem children_after_group (h : Absorbed tree list group front moved back after) :
    after.children group = tree.children group ++ moved := by
  rcases h.content?_after_group with ⟨kind, _, hcontent⟩
  exact children_of_content? hcontent

theorem children_after_list (h : Absorbed tree list group front moved back after) :
    after.children list = front ++ group :: back := by
  rcases h.content?_after_list with ⟨listKind, _, hcontent⟩
  exact children_of_content? hcontent

theorem children_other (h : Absorbed tree list group front moved back after) {id : NodeId}
    (hgroup : id ≠ group) (hlist : id ≠ list) : after.children id = tree.children id :=
  (observers_congr (h.content?_other id hgroup hlist)).2.2

theorem kind?_eq_and_token?_eq (h : Absorbed tree list group front moved back after)
    (id : NodeId) : after.kind? id = tree.kind? id ∧ after.token? id = tree.token? id := by
  by_cases hgroup : id = group
  · rcases h.content?_after_group with ⟨kind, hkind, hcontent⟩
    rw [hgroup, kind?_of_content? hcontent, token?_of_group hcontent, hkind,
      token?_of_group (content?_of_kind? hkind)]
    exact ⟨rfl, rfl⟩
  · by_cases hlist : id = list
    · rcases h.content?_after_list with ⟨listKind, hkind, hcontent⟩
      rw [hlist, kind?_of_content? hcontent, token?_of_group hcontent, hkind,
        token?_of_group (content?_of_kind? hkind)]
      exact ⟨rfl, rfl⟩
    · have hsame := observers_congr (h.content?_other id hgroup hlist)
      exact ⟨hsame.1, hsame.2.1⟩

theorem token?_eq (h : Absorbed tree list group front moved back after) (id : NodeId) :
    after.token? id = tree.token? id :=
  (h.kind?_eq_and_token?_eq id).2

theorem isGroup_eq (h : Absorbed tree list group front moved back after) (id : NodeId) :
    after.isGroup id = tree.isGroup id := by
  unfold isGroup
  rw [(h.kind?_eq_and_token?_eq id).1]

theorem parent?_moved (h : Absorbed tree list group front moved back after) {id : NodeId}
    (hid : id ∈ moved) : after.parent? id = some group := by
  rw [h.parent?_eq, if_pos hid]

theorem parent?_other (h : Absorbed tree list group front moved back after) {id : NodeId}
    (hid : id ∉ moved) : after.parent? id = tree.parent? id := by
  rw [h.parent?_eq, if_neg hid]

section

variable (hwf : tree.WellFormed) (h : Absorbed tree list group front moved back after)
include hwf h

theorem parent?_list {id : NodeId}
    (hid : id ∈ front ∨ id = group ∨ id ∈ moved ∨ id ∈ back) :
    tree.parent? id = some list :=
  hwf.parent?_of_mem (h.mem_list hid)

theorem group_ne_list : group ≠ list := by
  intro heq
  have hmem := h.mem_list (Or.inr (Or.inl rfl))
  rw [heq] at hmem
  exact hwf.not_mem_children_self list hmem

theorem not_mem_moved {id : NodeId} (hid : id ∈ front ∨ id = group ∨ id ∈ back) :
    id ∉ moved := by
  have hnodup := hwf.nodup_children list
  rw [h.children_list] at hnodup
  grind

theorem not_mem_moved_of_parent? {id parent : NodeId} (hparent : tree.parent? id = some parent)
    (hne : parent ≠ list) : id ∉ moved := by
  intro hmoved
  have hlist := parent?_list hwf h (Or.inr (Or.inr (Or.inl hmoved)))
  rw [hparent] at hlist
  cases hlist
  exact hne rfl

theorem mem_children_iff (child parent : NodeId) :
    child ∈ after.children parent <-> after.parent? child = some parent := by
  have hne := group_ne_list hwf h
  by_cases hmoved : child ∈ moved
  · rw [h.parent?_moved hmoved]
    have hlist := parent?_list hwf h (Or.inr (Or.inr (Or.inl hmoved)))
    constructor
    · intro hmem
      by_cases hgroup : parent = group
      · rw [hgroup]
      · by_cases hparent : parent = list
        · rw [hparent, h.children_after_list, List.mem_append, List.mem_cons] at hmem
          exact absurd hmoved (not_mem_moved hwf h hmem)
        · rw [h.children_other hgroup hparent] at hmem
          have hother := hwf.parent?_of_mem hmem
          exact absurd hmoved (not_mem_moved_of_parent? hwf h hother hparent)
    · intro heq
      cases heq
      rw [h.children_after_group]
      exact List.mem_append.mpr (Or.inr hmoved)
  · rw [h.parent?_other hmoved, ← hwf.mem_children_iff]
    by_cases hgroup : parent = group
    · rw [hgroup, h.children_after_group]
      simp [hmoved]
    · by_cases hparent : parent = list
      · rw [hparent, h.children_after_list, h.children_list]
        simp [hmoved]
      · rw [h.children_other hgroup hparent]

theorem nodup_children (parent : NodeId) : (after.children parent).Nodup := by
  have hnodup := hwf.nodup_children list
  rw [h.children_list] at hnodup
  by_cases hgroup : parent = group
  · rw [hgroup, h.children_after_group, List.nodup_append]
    refine ⟨hwf.nodup_children group, by grind, ?_⟩
    intro a ha b hb heq
    subst heq
    have hother := hwf.parent?_of_mem ha
    exact not_mem_moved_of_parent? hwf h hother (group_ne_list hwf h) hb
  · by_cases hparent : parent = list
    · rw [hparent, h.children_after_list]
      grind
    · rw [h.children_other hgroup hparent]
      exact hwf.nodup_children parent

theorem acyclic : WellFounded fun parent child => after.parent? child = some parent := by
  constructor
  intro id
  induction id using hwf.acyclic.induction with
  | h id ih =>
      constructor
      intro parent hparent
      by_cases hmoved : id ∈ moved
      · have hlist := parent?_list hwf h (Or.inr (Or.inr (Or.inl hmoved)))
        rw [h.parent?_moved hmoved] at hparent
        cases hparent
        constructor
        intro above habove
        rw [h.parent?_other (not_mem_moved hwf h (Or.inr (Or.inl rfl))),
          parent?_list hwf h (Or.inr (Or.inl rfl))] at habove
        cases habove
        exact ih list hlist
      · rw [h.parent?_other hmoved] at hparent
        exact ih parent hparent

theorem wellFormed : after.WellFormed :=
  ⟨mem_children_iff hwf h, nodup_children hwf h, acyclic hwf h⟩

theorem above_mono {other id : NodeId} (habove : tree.Above other id) :
    after.Above other id := by
  refine above_of_edges ?_ habove
  intro parent child hparent
  by_cases hmoved : child ∈ moved
  · have hlist := parent?_list hwf h (Or.inr (Or.inr (Or.inl hmoved)))
    rw [hparent] at hlist
    cases hlist
    have hgroup : after.parent? group = some list := by
      rw [h.parent?_other (not_mem_moved hwf h (Or.inr (Or.inl rfl))),
        parent?_list hwf h (Or.inr (Or.inl rfl))]
    exact (above_of_parent? hgroup).tail (h.parent?_moved hmoved)
  · apply above_of_parent?
    rw [h.parent?_other hmoved, hparent]

theorem above_new {id : NodeId} (hid : id ∈ moved) :
    after.Above group id ∧ ¬ tree.Above group id := by
  refine ⟨above_of_parent? (h.parent?_moved hid), ?_⟩
  intro habove
  have hlist := parent?_list hwf h (Or.inr (Or.inr (Or.inl hid)))
  have hgroup := above_of_parent? (parent?_list hwf h (Or.inr (Or.inl rfl)))
  rcases above_cases hlist habove with heq | hcycle
  · exact group_ne_list hwf h heq
  · exact hwf.not_above_self list (hgroup.trans hcycle)

theorem leaves_list
    (hgroup : (tree.children group).flatMap after.leaves =
      (tree.children group).flatMap tree.leaves)
    (hother : forall id, id ∈ tree.children list -> id ≠ group ->
      after.leaves id = tree.leaves id) :
    after.leaves list = tree.leaves list := by
  have hafter := wellFormed hwf h
  have hsame : forall ids : List NodeId,
      (forall id, id ∈ ids -> id ∈ tree.children list ∧ id ≠ group) ->
      ids.flatMap after.leaves = ids.flatMap tree.leaves := by
    intro ids hids
    apply List.flatMap_congr
    intro id hid
    exact hother id (hids id hid).1 (hids id hid).2
  have hnodup := hwf.nodup_children list
  have hmem := h.children_list
  rw [hmem] at hnodup
  have hfront := hsame front (by grind)
  have hmoved := hsame moved (by grind)
  have hback := hsame back (by grind)
  have hgroup' : after.isGroup group = true := by
    rw [h.isGroup_eq, h.isGroup_group]
  have hlist : tree.isGroup list = true :=
    isGroup_of_mem_children (h.mem_list (Or.inr (Or.inl rfl)))
  have hlist' : after.isGroup list = true := by
    rw [h.isGroup_eq, hlist]
  rw [hafter.leaves_group hlist', hwf.leaves_group hlist, h.children_after_list,
    h.children_list]
  simp only [List.flatMap_append, List.flatMap_cons]
  rw [hafter.leaves_group hgroup', h.children_after_group, List.flatMap_append, hgroup, hfront,
    hmoved, hback, ← hwf.leaves_group h.isGroup_group, List.append_assoc]

theorem leaves_eq {id : NodeId} (hid : id < tree.size) (hne : id ≠ group) :
    after.leaves id = tree.leaves id := by
  have hafter := wellFormed hwf h
  -- The group itself gains leaves, so of the group only the old children are
  -- followed; the list needs both facts.
  have hboth : id < tree.size ->
      (id ≠ group -> after.leaves id = tree.leaves id) ∧
        (id ≠ list ->
          (tree.children id).flatMap after.leaves = (tree.children id).flatMap tree.leaves) := by
    clear hid hne
    induction id using hwf.induction_up with
    | step id ih =>
        intro hid
        have hbelow : id ≠ list ->
            (tree.children id).flatMap after.leaves = (tree.children id).flatMap tree.leaves := by
          intro hlist
          apply List.flatMap_congr
          intro child hchild
          refine (ih child hchild (hwf.child_lt_size hchild)).1 ?_
          intro heq
          have hparent := hwf.parent?_of_mem hchild
          rw [heq, parent?_list hwf h (Or.inr (Or.inl rfl))] at hparent
          cases hparent
          exact hlist rfl
        refine ⟨?_, hbelow⟩
        intro hgroup
        by_cases hlist : id = list
        · subst hlist
          have hmem := h.mem_list (Or.inr (Or.inl rfl))
          apply leaves_list hwf h
          · exact (ih group hmem (hwf.child_lt_size hmem)).2 (group_ne_list hwf h)
          · intro child hchild hneq
            exact (ih child hchild (hwf.child_lt_size hchild)).1 hneq
        · rcases isGroup_or_token? hid with hkind | ⟨token, htoken⟩
          · have hkind' : after.isGroup id = true := by
              rw [h.isGroup_eq, hkind]
            rw [hafter.leaves_group hkind', hwf.leaves_group hkind,
              h.children_other hgroup hlist]
            exact hbelow hlist
          · rw [WellFormed.leaves_token htoken]
            apply WellFormed.leaves_token
            rw [h.token?_eq, htoken]
  exact (hboth hid).1 hne

theorem leaves_group : after.leaves group = (group :: moved).flatMap tree.leaves := by
  have hgroup : after.isGroup group = true := by
    rw [h.isGroup_eq, h.isGroup_group]
  have hsame : forall ids : List NodeId,
      (forall id, id ∈ ids -> id < tree.size ∧ id ≠ group) ->
      ids.flatMap after.leaves = ids.flatMap tree.leaves := by
    intro ids hids
    apply List.flatMap_congr
    intro id hid
    exact h.leaves_eq hwf (hids id hid).1 (hids id hid).2
  have hinside := hsame (tree.children group) (by
    intro id hid
    refine ⟨hwf.child_lt_size hid, ?_⟩
    rintro rfl
    exact hwf.not_mem_children_self id hid)
  have hmoved := hsame moved (by
    intro id hid
    refine ⟨hwf.child_lt_size (h.mem_list (Or.inr (Or.inr (Or.inl hid)))), ?_⟩
    rintro rfl
    exact h.not_mem_moved hwf (Or.inr (Or.inl rfl)) hid)
  rw [(h.wellFormed hwf).leaves_group hgroup, h.children_after_group, List.flatMap_append,
    List.flatMap_cons, hwf.leaves_group h.isGroup_group, hinside, hmoved]

end

end Absorbed

/-!
# Grouping
-/

namespace Regrouped

variable (hwf : tree.WellFormed) (h : Regrouped tree after)
include hwf h

theorem wellFormed : after.WellFormed := by
  cases h with
  | wrapped _ h =>
      exact h.wellFormed hwf
  | absorbed _ h =>
      exact h.wellFormed hwf

theorem above_mono {other id : NodeId} (habove : tree.Above other id) :
    after.Above other id := by
  cases h with
  | wrapped _ h =>
      exact h.above_mono hwf habove
  | absorbed _ h =>
      exact h.above_mono hwf habove

theorem exists_above_new :
    exists other id, after.Above other id ∧ ¬ tree.Above other id := by
  cases h with
  | wrapped _ h =>
      exact ⟨_, _, h.above_new hwf⟩
  | absorbed hmoved h =>
      rcases List.exists_mem_of_ne_nil _ hmoved with ⟨id, hid⟩
      exact ⟨_, id, h.above_new hwf hid⟩

omit hwf in
theorem token?_eq (id : NodeId) : after.token? id = tree.token? id := by
  cases h with
  | wrapped _ h =>
      exact h.token?_eq id
  | absorbed _ h =>
      exact h.token?_eq id

omit hwf in
theorem isGroup_eq {id : NodeId} (hid : id < tree.size) :
    after.isGroup id = tree.isGroup id := by
  cases h with
  | wrapped _ h =>
      exact h.isGroup_of_ne (Nat.ne_of_lt hid)
  | absorbed _ h =>
      exact h.isGroup_eq id

omit hwf in
theorem size_le : tree.size <= after.size := by
  cases h with
  | wrapped _ h =>
      rw [h.size_eq]
      exact Nat.le_succ _
  | absorbed _ h =>
      rw [h.size_eq]

theorem parent?_root {root : NodeId} (hid : root < tree.size)
    (hroot : tree.parent? root = none) : after.parent? root = none := by
  have hmoved : forall {list : NodeId}, root ∉ tree.children list := by
    intro list hmem
    rw [hwf.parent?_of_mem hmem] at hroot
    cases hroot
  cases h with
  | wrapped _ h =>
      rw [h.parent?_other (fun hmem => hmoved (h.mem_list_of_mem_moved hmem))
        (Nat.ne_of_lt hid), hroot]
  | absorbed _ h =>
      rw [h.parent?_other (fun hmem => hmoved (h.mem_list (Or.inr (Or.inr (Or.inl hmem))))),
        hroot]

theorem leaves_root {root : NodeId} (hid : root < tree.size) (hroot : tree.parent? root = none) :
    after.leaves root = tree.leaves root := by
  cases h with
  | wrapped _ h =>
      exact h.leaves_eq hwf hid
  | absorbed _ h =>
      apply h.leaves_eq hwf hid
      intro heq
      rw [heq, h.parent?_list hwf (Or.inr (Or.inl rfl))] at hroot
      cases hroot

end Regrouped

end Tree
end SqlLayout
