import SqlLayout.Proofs.Tree.WellFormed

/-!
# Putting children into a group

A span of children goes into a new group in its place, or to the end of the
group in front of it.  In a well-formed tree a span inside a list can always be
grouped, and all that changes is said here once: the contents of the list and of
the group, and the parents of the nodes that move.
-/

namespace SqlLayout
namespace Tree

variable {tree after : Tree} {list group : NodeId} {kind : GroupKind}
  {front moved back : List NodeId}

/-- The children `moved` of a list are put into a new group. -/
structure Wrapped (tree : Tree) (list : NodeId) (kind : GroupKind)
    (front moved back : List NodeId) (after : Tree) : Prop where
  children_list : tree.children list = front ++ moved ++ back
  isGroup_list : tree.isGroup list = true
  size_eq : after.size = tree.size + 1
  content?_new : after.content? tree.size = some (.group kind moved)
  content?_list : forall listKind, tree.kind? list = some listKind ->
    after.content? list = some (.group listKind (front ++ tree.size :: back))
  content?_other : forall id, id ≠ tree.size -> id ≠ list ->
    after.content? id = tree.content? id
  parent?_eq : forall id, after.parent? id =
    if id ∈ moved then some tree.size
    else if id = tree.size then some list
    else tree.parent? id

/-- The children `moved` of a list go to the end of the group in front of
them. -/
structure Absorbed (tree : Tree) (list group : NodeId)
    (front moved back : List NodeId) (after : Tree) : Prop where
  children_list : tree.children list = front ++ group :: (moved ++ back)
  isGroup_group : tree.isGroup group = true
  size_eq : after.size = tree.size
  content?_group : forall kind, tree.kind? group = some kind ->
    after.content? group = some (.group kind (tree.children group ++ moved))
  content?_list : forall listKind, tree.kind? list = some listKind ->
    after.content? list = some (.group listKind (front ++ group :: back))
  content?_other : forall id, id ≠ group -> id ≠ list ->
    after.content? id = tree.content? id
  parent?_eq : forall id, after.parent? id =
    if id ∈ moved then some group else tree.parent? id

/-!
# Contents and what is read from them
-/

theorem kind?_of_content? {id : NodeId} {children : List NodeId}
    (h : tree.content? id = some (.group kind children)) : tree.kind? id = some kind := by
  unfold kind?
  rw [h]

theorem token?_of_group {id : NodeId} {children : List NodeId}
    (h : tree.content? id = some (.group kind children)) : tree.token? id = none := by
  unfold token?
  rw [h]

theorem children_of_content? {id : NodeId} {children : List NodeId}
    (h : tree.content? id = some (.group kind children)) : tree.children id = children := by
  unfold Tree.children
  rw [h]

theorem observers_congr {other : Tree} {id : NodeId}
    (h : tree.content? id = other.content? id) :
    tree.kind? id = other.kind? id ∧ tree.token? id = other.token? id ∧
      tree.children id = other.children id := by
  unfold kind? token? Tree.children
  rw [h]
  exact ⟨rfl, rfl, rfl⟩

/-!
# Wrapping
-/

theorem take_drop_split {alpha : Type} (l : List alpha) {start stop : Nat}
    (h : start <= stop) :
    l = l.take start ++ (l.take stop).drop start ++ l.drop stop := by
  have hfront : l.take start = (l.take stop).take start := by
    rw [List.take_take, Nat.min_eq_left h]
  rw [hfront, List.take_append_drop, List.take_append_drop]

def wrapAs (tree : Tree) (list : NodeId) (kind : GroupKind) (front moved back : List NodeId) :
    Tree :=
  (((tree.push (.group kind moved)).2.setParent (some list) tree.size).setChildren list
    (front ++ tree.size :: back)).adopt tree.size moved

theorem content?_wrapAs_list {old : List NodeId} {listKind : GroupKind}
    (h : tree.content? list = some (.group listKind old)) :
    (tree.wrapAs list kind front moved back).content? list =
      some (.group listKind (front ++ tree.size :: back)) := by
  have hne : list ≠ tree.size := Nat.ne_of_lt (lt_size_of_content? h)
  have hpushed :
      ((tree.push (.group kind moved)).2.setParent (some list) tree.size).content? list =
        some (.group listKind old) := by
    rw [content?_setParent, content?_push, if_neg hne, h]
  rw [wrapAs, content?_adopt]
  exact content?_setChildren_self hpushed _

theorem content?_wrapAs_of_ne {id : NodeId} (h : id ≠ list) :
    (tree.wrapAs list kind front moved back).content? id =
      if id = tree.size then some (.group kind moved) else tree.content? id := by
  rw [wrapAs, content?_adopt, content?_setChildren_of_ne h, content?_setParent, content?_push]

theorem parent?_wrapAs (hmoved : forall id, id ∈ moved -> id < tree.size) (id : NodeId) :
    (tree.wrapAs list kind front moved back).parent? id =
      if id ∈ moved then some tree.size
      else if id = tree.size then some list
      else tree.parent? id := by
  rw [wrapAs, parent?_adopt, parent?_setChildren, parent?_setParent, parent?_push,
    size_setChildren, size_setParent, size_push]
  by_cases hid : id ∈ moved
  · rw [if_pos ⟨hid, Nat.lt_succ_of_lt (hmoved id hid)⟩, if_pos hid]
  · rw [if_neg (fun h => hid h.left), if_neg hid]
    by_cases hsize : id = tree.size
    · rw [if_pos ⟨hsize, Nat.lt_succ_self _⟩, if_pos hsize]
    · rw [if_neg (fun h => hsize h.left), if_neg hsize]

theorem wrapped_wrapAs (h : tree.WellFormed)
    (hchildren : tree.children list = front ++ moved ++ back)
    (hlist : tree.isGroup list = true) :
    Wrapped tree list kind front moved back (tree.wrapAs list kind front moved back) := by
  have hne : tree.size ≠ list := Ne.symm (Nat.ne_of_lt (lt_size_of_isGroup hlist))
  have hmoved : forall id, id ∈ moved -> id < tree.size := by
    intro id hid
    have hmem : id ∈ tree.children list := by
      rw [hchildren]
      simp [hid]
    exact h.child_lt_size hmem
  refine ⟨hchildren, hlist, ?_, ?_, ?_, ?_, parent?_wrapAs hmoved⟩
  · simp [wrapAs]
  · rw [content?_wrapAs_of_ne hne, if_pos rfl]
  · intro listKind hkind
    exact content?_wrapAs_list (content?_of_kind? hkind)
  · intro id hsize hid
    rw [content?_wrapAs_of_ne hid, if_neg hsize]

theorem wrap_ok {start stop : Nat} (hstart : start <= stop)
    (hstop : stop < (tree.children list).length) :
    tree.wrap list kind start stop =
      .ok (tree.size,
        tree.wrapAs list kind ((tree.children list).take start)
          (((tree.children list).take (stop + 1)).drop start)
          ((tree.children list).drop (stop + 1))) := by
  unfold wrap
  rw [if_pos]
  · rfl
  · simp [hstop]
    omega

/-!
# Absorbing
-/

def absorbAs (tree : Tree) (list group : NodeId) (front moved back : List NodeId) : Tree :=
  ((tree.setChildren list (front ++ group :: back)).setChildren group
    (tree.children group ++ moved)).adopt group moved

theorem absorbed_absorbAs (h : tree.WellFormed)
    (hchildren : tree.children list = front ++ group :: (moved ++ back))
    (hgroup : tree.isGroup group = true) :
    Absorbed tree list group front moved back (tree.absorbAs list group front moved back) := by
  have hmem : forall id, id = group ∨ id ∈ moved -> id ∈ tree.children list := by
    intro id hid
    rw [hchildren]
    rcases hid with rfl | hid
    · simp
    · simp [hid]
  have hne : group ≠ list := by
    intro heq
    apply h.not_mem_children_self list
    rw [← heq] at hmem ⊢
    exact hmem group (Or.inl rfl)
  refine ⟨hchildren, hgroup, ?_, ?_, ?_, ?_, ?_⟩
  · simp [absorbAs]
  · intro kind hkind
    have hlisted :
        (tree.setChildren list (front ++ group :: back)).content? group =
          some (.group kind (tree.children group)) := by
      rw [content?_setChildren_of_ne hne, content?_of_kind? hkind]
    rw [absorbAs, content?_adopt]
    exact content?_setChildren_self hlisted _
  · intro listKind hkind
    rw [absorbAs, content?_adopt, content?_setChildren_of_ne (Ne.symm hne)]
    exact content?_setChildren_self (content?_of_kind? hkind) _
  · intro id hid hlist
    rw [absorbAs, content?_adopt, content?_setChildren_of_ne hid,
      content?_setChildren_of_ne hlist]
  · intro id
    rw [absorbAs, parent?_adopt, parent?_setChildren, parent?_setChildren, size_setChildren,
      size_setChildren]
    by_cases hid : id ∈ moved
    · rw [if_pos ⟨hid, h.child_lt_size (hmem id (Or.inr hid))⟩, if_pos hid]
    · rw [if_neg (fun h => hid h.left), if_neg hid]

theorem absorb_ok {start stop : Nat} (h : tree.WellFormed)
    (hgroup : tree.child? list start = some group) (hstart : start <= stop)
    (hstop : stop < (tree.children list).length) :
    tree.absorb list group start stop =
      .ok (group,
        tree.absorbAs list group ((tree.children list).take start)
          (((tree.children list).take (stop + 1)).drop (start + 1))
          ((tree.children list).drop (stop + 1))) := by
  have htake :
      (tree.children list).take (start + 1) = (tree.children list).take start ++ [group] := by
    rw [List.take_add_one]
    unfold child? at hgroup
    rw [hgroup]
    rfl
  have hne : group ≠ list := by
    intro heq
    apply h.not_mem_children_self list
    rw [← heq] at hgroup ⊢
    exact List.mem_of_getElem? hgroup
  have hcontent :
      (tree.setChildren list
          ((tree.children list).take start ++
            group :: (tree.children list).drop (stop + 1))).content? group =
        tree.content? group :=
    content?_setChildren_of_ne hne _
  unfold absorb
  rw [if_pos]
  · dsimp only
    rw [htake, List.append_assoc, List.singleton_append, (observers_congr hcontent).2.2]
    rfl
  · simp [hstop, hstart]

/-!
# Grouping a span
-/

/-- A span of children becomes a group in one of two ways. -/
inductive Regrouped (tree after : Tree) : Prop where
  | wrapped {list : NodeId} {kind : GroupKind} {front moved back : List NodeId} :
      moved ≠ [] ->
      Wrapped tree list kind front moved back after ->
      Regrouped tree after
  | absorbed {list group : NodeId} {front moved back : List NodeId} :
      moved ≠ [] ->
      Absorbed tree list group front moved back after ->
      Regrouped tree after

theorem span_ne_nil {alpha : Type} {l : List alpha} {start stop : Nat}
    (hstart : start <= stop) (hstop : stop < l.length) : (l.take (stop + 1)).drop start ≠ [] := by
  intro hnil
  have hlength := congrArg List.length hnil
  rw [List.length_drop, List.length_take, List.length_nil] at hlength
  omega

/-- A span inside a list is always grouped: by the group at its start, if that
may grow and is of the kind, and by a new group otherwise. -/
theorem groupTokens_ok (kind : GroupKind) {start stop : Nat} (extend : Bool)
    (h : tree.WellFormed) (hstart : start <= stop)
    (hstop : stop < (tree.children list).length) :
    exists group after, tree.groupTokens list kind start stop extend = .ok (group, after) ∧
      ((extend = true ∧ tree.kind? group = some kind ∧
          Absorbed tree list group ((tree.children list).take start)
            (((tree.children list).take (stop + 1)).drop (start + 1))
            ((tree.children list).drop (stop + 1)) after) ∨
        (group = tree.size ∧
          Wrapped tree list kind ((tree.children list).take start)
            (((tree.children list).take (stop + 1)).drop start)
            ((tree.children list).drop (stop + 1)) after)) := by
  have hchild : tree.child? list start = some (tree.children list)[start] :=
    List.getElem?_eq_getElem (by omega)
  have hmem : (tree.children list)[start] ∈ tree.children list := List.getElem_mem (by omega)
  unfold groupTokens
  rw [hchild]
  dsimp only
  split
  · rename_i hcond
    rw [Bool.and_eq_true, isKind, beq_iff_eq] at hcond
    rcases hcond with ⟨hext, hkind⟩
    refine ⟨_, _, absorb_ok h hchild hstart hstop, Or.inl ⟨hext, hkind, ?_⟩⟩
    apply absorbed_absorbAs h
    · have hdrop :
          (tree.children list).drop start =
            (tree.children list)[start] :: (tree.children list).drop (start + 1) :=
        List.drop_eq_getElem_cons (by omega)
      have hrest :
          (tree.children list).drop (start + 1) =
            ((tree.children list).take (stop + 1)).drop (start + 1) ++
              (tree.children list).drop (stop + 1) := by
        have hsplit := take_drop_split (tree.children list) (Nat.succ_le_succ hstart)
        rw [List.append_assoc] at hsplit
        have hwhole := List.take_append_drop (start + 1) (tree.children list)
        exact List.append_cancel_left (hwhole.trans hsplit)
      rw [← hrest, ← hdrop, List.take_append_drop]
    · exact isGroup_iff_kind?.mpr ⟨kind, hkind⟩
  · have hgroup := isGroup_of_mem_children hmem
    have hsplit := take_drop_split (tree.children list) (Nat.le_succ_of_le hstart)
    exact ⟨_, _, wrap_ok hstart hstop, Or.inr ⟨rfl, wrapped_wrapAs h hsplit hgroup⟩⟩

theorem groupTokens_regrouped (kind : GroupKind) {start stop : Nat} {extend : Bool}
    (h : tree.WellFormed) (hstart : start <= stop) (hextend : extend = true -> start < stop)
    (hstop : stop < (tree.children list).length) :
    exists group after, tree.groupTokens list kind start stop extend = .ok (group, after) ∧
      Regrouped tree after := by
  rcases groupTokens_ok kind extend h hstart hstop with
    ⟨group, after, hok, habsorbed | hwrapped⟩
  · rcases habsorbed with ⟨hext, _, habsorbed⟩
    exact ⟨group, after, hok, .absorbed (span_ne_nil (hextend hext) hstop) habsorbed⟩
  · exact ⟨group, after, hok, .wrapped (span_ne_nil hstart hstop) hwrapped.2⟩

end Tree
end SqlLayout
