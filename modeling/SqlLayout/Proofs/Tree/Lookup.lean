import SqlLayout.Tree.Edit

/-!
# Looking at an edited tree

What each edit changes in the contents and the parents of the nodes.  Kinds,
tokens and children are read from the contents, so that nothing else has to be
said about an edit.
-/

namespace SqlLayout

def Content.mapToken (f : Token -> Token) : Content -> Content
  | .token t => .token (f t)
  | .group kind ids => .group kind ids

namespace Tree

variable {tree : Tree}

/-!
# Nodes that a tree has
-/

theorem content?_eq_none_iff {id : NodeId} : tree.content? id = none <-> tree.size <= id := by
  simp [content?, size]

theorem lt_size_of_content? {id : NodeId} {content : Content}
    (h : tree.content? id = some content) : id < tree.size := by
  apply Nat.lt_of_not_le
  intro hle
  rw [content?_eq_none_iff.mpr hle] at h
  cases h

theorem lt_size_of_parent? {id parent : NodeId} (h : tree.parent? id = some parent) :
    id < tree.size := by
  unfold parent? at h
  rcases Option.bind_eq_some_iff.mp h with ⟨node, hnode, _⟩
  exact (Array.getElem?_eq_some_iff.mp hnode).1

theorem lt_size_of_token? {id : NodeId} {token : Token} (h : tree.token? id = some token) :
    id < tree.size := by
  unfold token? at h
  split at h
  · rename_i hcontent
    exact lt_size_of_content? hcontent
  · cases h

theorem content?_of_mem_children {id child : NodeId} (h : child ∈ tree.children id) :
    exists kind, tree.content? id = some (.group kind (tree.children id)) := by
  unfold children at h ⊢
  split at h
  · rename_i kind children hcontent
    exact ⟨kind, hcontent⟩
  · cases h

theorem lt_size_of_mem_children {id child : NodeId} (h : child ∈ tree.children id) :
    id < tree.size := by
  rcases content?_of_mem_children h with ⟨kind, hcontent⟩
  exact lt_size_of_content? hcontent

theorem isGroup_of_mem_children {id child : NodeId} (h : child ∈ tree.children id) :
    tree.isGroup id = true := by
  rcases content?_of_mem_children h with ⟨kind, hcontent⟩
  simp [isGroup, kind?, hcontent]

theorem isGroup_iff_kind? {id : NodeId} :
    tree.isGroup id = true <-> exists kind, tree.kind? id = some kind := by
  unfold isGroup
  exact Option.isSome_iff_exists

theorem lt_size_of_isGroup {id : NodeId} (h : tree.isGroup id = true) : id < tree.size := by
  rcases isGroup_iff_kind?.mp h with ⟨kind, hkind⟩
  unfold kind? at hkind
  split at hkind
  · rename_i hcontent
    exact lt_size_of_content? hcontent
  · cases hkind

theorem content?_of_kind? {id : NodeId} {kind : GroupKind} (h : tree.kind? id = some kind) :
    tree.content? id = some (.group kind (tree.children id)) := by
  unfold kind? at h
  unfold children
  split at h
  · rename_i hcontent
    cases h
    exact hcontent
  · cases h

theorem token?_eq_none_of_isGroup {id : NodeId} (h : tree.isGroup id = true) :
    tree.token? id = none := by
  unfold isGroup kind? at h
  unfold token?
  split at h
  · rename_i hcontent
    rw [hcontent]
  · cases h

theorem isGroup_of_token? {id : NodeId} {token : Token} (h : tree.token? id = some token) :
    tree.isGroup id = false := by
  cases hgroup : tree.isGroup id with
  | false =>
      rfl
  | true =>
      rw [token?_eq_none_of_isGroup hgroup] at h
      cases h

theorem tokenHas_of_isGroup {id : NodeId} (h : tree.isGroup id = true) (p : Token -> Bool) :
    tree.tokenHas id p = false := by
  unfold tokenHas
  rw [token?_eq_none_of_isGroup h]

/-!
# New nodes
-/

@[simp] theorem push_fst (content : Content) : (tree.push content).1 = tree.size := rfl

@[simp] theorem size_push (content : Content) :
    (tree.push content).2.size = tree.size + 1 := by
  simp [push, size]

theorem content?_push (content : Content) (id : NodeId) :
    (tree.push content).2.content? id =
      if id = tree.size then some content else tree.content? id := by
  by_cases hid : id = tree.size
  · rw [if_pos hid, hid]
    simp [push, content?, size]
  · have hne : id ≠ tree.nodes.size := hid
    rw [if_neg hid]
    simp [push, content?, Array.getElem?_push, hne]

@[simp] theorem parent?_push (content : Content) (id : NodeId) :
    (tree.push content).2.parent? id = tree.parent? id := by
  simp only [push, parent?, Array.getElem?_push]
  split
  · rename_i hid
    rw [hid, Array.getElem?_eq_none (Nat.le_refl _)]
    rfl
  · rfl

/-!
# Parents
-/

@[simp] theorem size_setParent (parent : Option NodeId) (id : NodeId) :
    (tree.setParent parent id).size = tree.size := by
  simp [setParent, modify, size]

@[simp] theorem content?_setParent (parent : Option NodeId) (id other : NodeId) :
    (tree.setParent parent id).content? other = tree.content? other := by
  simp only [setParent, modify, content?, Array.getElem?_modify]
  split
  · rw [Option.map_map]
    rfl
  · rfl

theorem parent?_setParent (parent : Option NodeId) (id other : NodeId) :
    (tree.setParent parent id).parent? other =
      if other = id ∧ id < tree.size then parent else tree.parent? other := by
  by_cases h : other = id ∧ id < tree.size
  · rcases h with ⟨rfl, hlt⟩
    have hnode : tree.nodes[other]? = some tree.nodes[other] := Array.getElem?_eq_getElem hlt
    rw [if_pos ⟨rfl, hlt⟩]
    simp only [setParent, modify, parent?, Array.getElem?_modify, if_true, hnode]
    rfl
  · rw [if_neg h]
    by_cases hid : id = other
    · have hle : tree.nodes.size <= other := by
        apply Nat.le_of_not_lt
        intro hlt
        exact h ⟨hid.symm, hid ▸ hlt⟩
      simp [setParent, modify, parent?, hle]
    · simp [setParent, modify, parent?, Array.getElem?_modify, hid]

@[simp] theorem size_adopt (parent : NodeId) (ids : List NodeId) :
    (tree.adopt parent ids).size = tree.size := by
  induction ids generalizing tree with
  | nil =>
      rfl
  | cons id rest ih =>
      change ((tree.setParent (some parent) id).adopt parent rest).size = tree.size
      rw [ih, size_setParent]

@[simp] theorem content?_adopt (parent : NodeId) (ids : List NodeId) (other : NodeId) :
    (tree.adopt parent ids).content? other = tree.content? other := by
  induction ids generalizing tree with
  | nil =>
      rfl
  | cons id rest ih =>
      change ((tree.setParent (some parent) id).adopt parent rest).content? other = _
      rw [ih, content?_setParent]

theorem parent?_adopt (parent : NodeId) (ids : List NodeId) (other : NodeId) :
    (tree.adopt parent ids).parent? other =
      if other ∈ ids ∧ other < tree.size then some parent else tree.parent? other := by
  induction ids generalizing tree with
  | nil =>
      simp [adopt]
  | cons id rest ih =>
      change ((tree.setParent (some parent) id).adopt parent rest).parent? other = _
      rw [ih, size_setParent, parent?_setParent]
      by_cases hid : other = id
      · subst hid
        by_cases hlt : other < tree.size
        · simp [hlt]
        · simp [hlt]
      · simp [hid]

/-!
# Children
-/

@[simp] theorem size_setChildren (id : NodeId) (children : List NodeId) :
    (tree.setChildren id children).size = tree.size := by
  simp [setChildren, modify, size]

@[simp] theorem parent?_setChildren (id : NodeId) (children : List NodeId) (other : NodeId) :
    (tree.setChildren id children).parent? other = tree.parent? other := by
  simp only [setChildren, modify, parent?, Array.getElem?_modify]
  split
  · rcases tree.nodes[other]? with _ | ⟨parent, token | ⟨kind, children⟩⟩ <;> rfl
  · rfl

theorem content?_setChildren_self {id : NodeId} {kind : GroupKind} {old : List NodeId}
    (h : tree.content? id = some (.group kind old)) (children : List NodeId) :
    (tree.setChildren id children).content? id = some (.group kind children) := by
  unfold content? at h
  rcases Option.map_eq_some_iff.mp h with ⟨node, hnode, hcontent⟩
  simp only [setChildren, modify, content?, Array.getElem?_modify, if_true, hnode]
  simp [hcontent]

theorem content?_setChildren_of_ne {id other : NodeId} (h : other ≠ id)
    (children : List NodeId) :
    (tree.setChildren id children).content? other = tree.content? other := by
  simp [setChildren, modify, content?, Array.getElem?_modify, Ne.symm h]

/-!
# Tokens
-/

@[simp] theorem size_modifyToken (id : NodeId) (f : Token -> Token) :
    (tree.modifyToken id f).size = tree.size := by
  simp [modifyToken, modify, size]

@[simp] theorem parent?_modifyToken (id : NodeId) (f : Token -> Token) (other : NodeId) :
    (tree.modifyToken id f).parent? other = tree.parent? other := by
  simp only [modifyToken, modify, parent?, Array.getElem?_modify]
  split
  · rcases tree.nodes[other]? with _ | ⟨parent, token | ⟨kind, children⟩⟩ <;> rfl
  · rfl

theorem content?_modifyToken (id : NodeId) (f : Token -> Token) (other : NodeId) :
    (tree.modifyToken id f).content? other =
      if other = id then (tree.content? other).map (Content.mapToken f)
      else tree.content? other := by
  by_cases hid : other = id
  · subst hid
    simp only [modifyToken, modify, content?, Array.getElem?_modify, if_true]
    rcases tree.nodes[other]? with _ | ⟨parent, token | ⟨kind, children⟩⟩ <;> rfl
  · simp [modifyToken, modify, content?, Array.getElem?_modify, hid, Ne.symm hid]

@[simp] theorem kind?_modifyToken (id : NodeId) (f : Token -> Token) (other : NodeId) :
    (tree.modifyToken id f).kind? other = tree.kind? other := by
  unfold kind?
  rw [content?_modifyToken]
  by_cases hid : other = id
  · rw [if_pos hid]
    rcases tree.content? other with _ | token | ⟨kind, children⟩ <;> rfl
  · rw [if_neg hid]

@[simp] theorem children_modifyToken (id : NodeId) (f : Token -> Token) (other : NodeId) :
    (tree.modifyToken id f).children other = tree.children other := by
  unfold children
  rw [content?_modifyToken]
  by_cases hid : other = id
  · rw [if_pos hid]
    rcases tree.content? other with _ | token | ⟨kind, children⟩ <;> rfl
  · rw [if_neg hid]

theorem token?_modifyToken (id : NodeId) (f : Token -> Token) (other : NodeId) :
    (tree.modifyToken id f).token? other =
      if other = id then (tree.token? other).map f else tree.token? other := by
  unfold token?
  rw [content?_modifyToken]
  by_cases hid : other = id
  · rw [if_pos hid, if_pos hid]
    rcases tree.content? other with _ | token | ⟨kind, children⟩ <;> rfl
  · rw [if_neg hid, if_neg hid]

/-!
# Tests of tokens
-/

theorem tokenHas_iff {id : NodeId} {p : Token -> Bool} :
    tree.tokenHas id p = true <-> exists token, tree.token? id = some token ∧ p token = true := by
  unfold tokenHas
  cases tree.token? id with
  | none =>
      simp
  | some token =>
      simp

theorem isCategory_eq_tokenHas (tree : Tree) (id : NodeId) (category : Category) :
    tree.isCategory id category = tree.tokenHas id fun token => token.category == category := by
  unfold isCategory category? tokenHas
  cases tree.token? id with
  | none =>
      rfl
  | some token =>
      rfl

theorem isCategory_iff {id : NodeId} {category : Category} :
    tree.isCategory id category = true <->
      exists token, tree.token? id = some token ∧ token.category = category := by
  rw [isCategory_eq_tokenHas, tokenHas_iff]
  simp only [beq_iff_eq]

theorem isCategory_of_isGroup {id : NodeId} (h : tree.isGroup id = true)
    (category : Category) : tree.isCategory id category = false := by
  unfold isCategory category?
  rw [token?_eq_none_of_isGroup h]
  rfl

theorem tokenHas_congr {after : Tree} {id : NodeId} (h : after.token? id = tree.token? id)
    (p : Token -> Bool) : after.tokenHas id p = tree.tokenHas id p := by
  unfold tokenHas
  rw [h]

end Tree
end SqlLayout
