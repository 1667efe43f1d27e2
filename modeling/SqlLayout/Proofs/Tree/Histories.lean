import SqlLayout.Proofs.Statement
import SqlLayout.Proofs.Tree.Relist
import SqlLayout.Proofs.Tree.Search

/-!
# Histories of edits

A tree starts empty or as a flat statement and is then edited in any order: nodes
are made, spans are grouped, tokens are inserted, children are removed, values
are rewritten.  Whatever the history, an edit that names places the tree has
succeeds, the tree stays well-formed, and the leaves change as the edit says.
-/

namespace SqlLayout

/-- An edit with what the caller hands over. -/
inductive TreeEdit where
  | addToken (token : Token)
  | addGroup (kind : GroupKind) (children : List NodeId)
  | groupTokens (list : NodeId) (kind : GroupKind) (start stop : Nat) (extend : Bool)
  | insertBefore (list : NodeId) (idx : Nat) (token : Token)
  | insertAfter (list : NodeId) (idx : Nat) (token : Token) (skipBlank : Bool)
  | remove (list : NodeId) (idx : Nat)
  | setValue (id : NodeId) (value : Text)

namespace TreeEdit

/-- The node that the edit is about, and the tree after it. -/
def apply (tree : Tree) : TreeEdit -> Except Fault (NodeId × Tree)
  | addToken token => .ok (tree.addToken token)
  | addGroup kind children => .ok (tree.addGroup kind children)
  | groupTokens list kind start stop extend => tree.groupTokens list kind start stop extend
  | insertBefore list idx token => tree.insertBefore list idx token
  | insertAfter list idx token skipBlank => tree.insertAfter list idx token skipBlank
  | remove list idx => tree.remove list idx
  | setValue id value => .ok (id, tree.setValue id value)

/-- What the caller of an edit has to see to. -/
def Fits (tree : Tree) : TreeEdit -> Prop
  | addToken _ => True
  | addGroup _ children =>
      children.Nodup ∧ forall id, id ∈ children -> id < tree.size ∧ tree.parent? id = none
  | groupTokens list _ start stop _ => start <= stop ∧ stop < tree.childCount list
  | insertBefore list _ _ => tree.isGroup list = true
  | insertAfter list _ _ _ => tree.isGroup list = true
  | remove list idx => idx < tree.childCount list
  | setValue id _ => id < tree.size

instance (tree : Tree) : (edit : TreeEdit) -> Decidable (edit.Fits tree)
  | addToken _ => inferInstanceAs (Decidable True)
  | addGroup _ children =>
      inferInstanceAs (Decidable (children.Nodup ∧
        forall id, id ∈ children -> id < tree.size ∧ tree.parent? id = none))
  | groupTokens list _ start stop _ =>
      inferInstanceAs (Decidable (start <= stop ∧ stop < tree.childCount list))
  | insertBefore list _ _ => inferInstanceAs (Decidable (tree.isGroup list = true))
  | insertAfter list _ _ _ => inferInstanceAs (Decidable (tree.isGroup list = true))
  | remove list idx => inferInstanceAs (Decidable (idx < tree.childCount list))
  | setValue id _ => inferInstanceAs (Decidable (id < tree.size))

end TreeEdit

namespace Tree

/-!
# What edits do to leaves
-/

/-- The leaves change in a list and above it, where those around the list stay,
and nowhere else. -/
def LeavesChangeAt (tree : Tree) (list : NodeId) (after : Tree) : Prop :=
  forall id, id < tree.size ->
    (tree.AtOrAbove id list -> LeavesAround tree list after id) ∧
      (¬ tree.AtOrAbove id list -> after.leaves id = tree.leaves id)

/-- A new leaf with a token stands at a place of a list, and that is all. -/
structure InsertsLeaf (tree : Tree) (list : NodeId) (place : Nat) (token : Token) (id : NodeId)
    (after : Tree) : Prop where
  id_eq : id = tree.size
  token?_eq : after.token? id = some token
  children_eq : after.children list =
    (tree.children list).take place ++ id :: (tree.children list).drop place
  leaves_before : tree.leaves list =
    ((tree.children list).take place).flatMap tree.leaves ++
      ((tree.children list).drop place).flatMap tree.leaves
  leaves_after : after.leaves list =
    ((tree.children list).take place).flatMap tree.leaves ++
      id :: ((tree.children list).drop place).flatMap tree.leaves
  elsewhere : tree.LeavesChangeAt list after

/-- The child at a position is taken out of a list with its leaves, and that is
all. -/
structure RemovesLeaves (tree : Tree) (list : NodeId) (idx : Nat) (id : NodeId)
    (after : Tree) : Prop where
  child?_eq : tree.child? list idx = some id
  parent?_eq : after.parent? id = none
  children_eq : after.children list =
    (tree.children list).take idx ++ (tree.children list).drop (idx + 1)
  leaves_before : tree.leaves list =
    ((tree.children list).take idx).flatMap tree.leaves ++ tree.leaves id ++
      ((tree.children list).drop (idx + 1)).flatMap tree.leaves
  leaves_after : after.leaves list =
    ((tree.children list).take idx).flatMap tree.leaves ++
      ((tree.children list).drop (idx + 1)).flatMap tree.leaves
  leaves_removed : after.leaves id = tree.leaves id
  elsewhere : tree.LeavesChangeAt list after

/-- The place in front of the first child after a position that is not passed
over, or the end of the list. -/
structure PlaceAfter (tree : Tree) (list : NodeId) (idx : Nat) (skipBlank : Bool)
    (place : Nat) : Prop where
  le_count : place <= tree.childCount list
  passed : forall j id, idx < j -> j < place -> tree.child? list j = some id ->
    tree.isSkipped id skipBlank false = true
  stops : forall id, tree.child? list place = some id ->
    idx < place ∧ tree.isSkipped id skipBlank false = false

end Tree

/-- What an edit does to the leaves of the nodes that were there before it. -/
def TreeEdit.Effect (tree : Tree) (id : NodeId) (after : Tree) : TreeEdit -> Prop
  | addToken token =>
      after.token? id = some token ∧
        forall old, old < tree.size -> after.leaves old = tree.leaves old
  | addGroup kind children =>
      after.content? id = some (.group kind children) ∧
        forall old, old < tree.size -> after.leaves old = tree.leaves old
  | groupTokens list kind start stop _ =>
      after.kind? id = some kind ∧
        after.leaves id =
          (((tree.children list).take (stop + 1)).drop start).flatMap tree.leaves ∧
        forall old, old < tree.size -> old ≠ id -> after.leaves old = tree.leaves old
  | insertBefore list idx token =>
      tree.InsertsLeaf list (min idx (tree.childCount list)) token id after
  | insertAfter list idx token skipBlank =>
      exists place, tree.PlaceAfter list idx skipBlank place ∧
        tree.InsertsLeaf list place token id after
  | remove list idx => tree.RemovesLeaves list idx id after
  | setValue _ value =>
      (forall old, after.leaves old = tree.leaves old) ∧
        forall old, after.token? old =
          if old = id then (tree.token? old).map fun token => { token with value := value }
          else tree.token? old

namespace Tree

variable {tree after : Tree} {list : NodeId}

/-!
# New nodes
-/

/-- A new node over nodes without parents. -/
structure Gathered (tree : Tree) (content : Content) (children : List NodeId)
    (after : Tree) : Prop where
  size_eq : after.size = tree.size + 1
  content?_eq : forall id, after.content? id =
    if id = tree.size then some content else tree.content? id
  children_eq : after.children tree.size = children
  parent?_eq : forall id, after.parent? id =
    if id ∈ children then some tree.size else tree.parent? id

theorem gathered_addToken (tree : Tree) (token : Token) :
    Gathered tree (.token token) [] (tree.addToken token).2 := by
  refine ⟨size_push _, content?_push _, ?_, ?_⟩
  · simp [addToken, children, content?_push]
  · intro id
    simp [addToken]

theorem gathered_addGroup (kind : GroupKind) {children : List NodeId}
    (hchildren : forall id, id ∈ children -> id < tree.size) :
    Gathered tree (.group kind children) children (tree.addGroup kind children).2 := by
  have htree : (tree.addGroup kind children).2 =
      (tree.push (.group kind children)).2.adopt tree.size children := rfl
  rw [htree]
  refine ⟨?_, ?_, ?_, ?_⟩
  · rw [size_adopt, size_push]
  · intro id
    rw [content?_adopt, content?_push]
  · have hcontent : ((tree.push (.group kind children)).2.adopt tree.size children).content?
        tree.size = some (.group kind children) := by
      rw [content?_adopt, content?_push, if_pos rfl]
    exact children_of_content? hcontent
  · intro id
    rw [parent?_adopt, parent?_push, size_push]
    by_cases hid : id ∈ children
    · rw [if_pos ⟨hid, Nat.lt_succ_of_lt (hchildren id hid)⟩, if_pos hid]
    · rw [if_neg (fun h => hid h.left), if_neg hid]

namespace Gathered

variable {content : Content} {children : List NodeId}

theorem children_of_ne (h : Gathered tree content children after) {id : NodeId}
    (hid : id ≠ tree.size) : after.children id = tree.children id := by
  apply (observers_congr _).2.2
  rw [h.content?_eq, if_neg hid]

section

variable (hwf : tree.WellFormed) (hnodup : children.Nodup)
  (hfree : forall id, id ∈ children -> id < tree.size ∧ tree.parent? id = none)
  (h : Gathered tree content children after)
include hwf hnodup hfree h

theorem wellFormed : after.WellFormed := by
  refine ⟨?_, ?_, ?_⟩
  · intro child parent
    rw [h.parent?_eq]
    by_cases hsize : parent = tree.size
    · rw [hsize, h.children_eq]
      by_cases hchild : child ∈ children
      · simp [hchild]
      · rw [if_neg hchild]
        constructor
        · intro hmem
          exact absurd hmem hchild
        · intro hparent
          have hlt := lt_size_of_mem_children (hwf.mem_of_parent? hparent)
          exact absurd hlt (Nat.lt_irrefl _)
    · rw [h.children_of_ne hsize, hwf.mem_children_iff]
      by_cases hchild : child ∈ children
      · rw [if_pos hchild, (hfree child hchild).2]
        simp [Ne.symm hsize]
      · rw [if_neg hchild]
  · intro parent
    by_cases hsize : parent = tree.size
    · rw [hsize, h.children_eq]
      exact hnodup
    · rw [h.children_of_ne hsize]
      exact hwf.nodup_children parent
  · apply acyclic_of_rank fun id => if id = tree.size then 0 else hwf.depth id + 1
    intro parent child hparent
    rw [h.parent?_eq] at hparent
    by_cases hchild : child ∈ children
    · rw [if_pos hchild] at hparent
      cases hparent
      rw [if_pos rfl, if_neg (Nat.ne_of_lt (hfree child hchild).1)]
      exact Nat.succ_pos _
    · rw [if_neg hchild] at hparent
      have hparentLt := lt_size_of_mem_children (hwf.mem_of_parent? hparent)
      rw [if_neg (Nat.ne_of_lt hparentLt), if_neg (Nat.ne_of_lt (lt_size_of_parent? hparent)),
        hwf.depth_of_parent? hparent]
      exact Nat.lt_succ_self _

theorem leaves_eq {id : NodeId} (hid : id < tree.size) : after.leaves id = tree.leaves id := by
  apply leaves_eq_of_unchanged (fun _ => False) hwf (wellFormed hwf hnodup hfree h)
  · intro other hother _
    rw [h.content?_eq, if_neg (Nat.ne_of_lt hother)]
  · exact hid
  · intro other hfalse
    exact hfalse.elim

end

end Gathered

/-!
# Grouping
-/

theorem groupTokens_effect (hwf : tree.WellFormed) (kind : GroupKind) {start stop : Nat}
    (extend : Bool) (hstart : start <= stop) (hstop : stop < tree.childCount list) :
    exists id after, tree.groupTokens list kind start stop extend = .ok (id, after) ∧
      after.WellFormed ∧
      (TreeEdit.groupTokens list kind start stop extend).Effect tree id after := by
  rcases groupTokens_ok kind extend hwf hstart hstop with
    ⟨group, after, hok, ⟨_, hkind, habsorbed⟩ | ⟨hgroup, hwrapped⟩⟩
  · refine ⟨group, after, hok, habsorbed.wellFormed hwf, ?_, ?_, ?_⟩
    · rw [(habsorbed.kind?_eq_and_token?_eq group).1, hkind]
    · have hspan : ((tree.children list).take (stop + 1)).drop start =
          group :: ((tree.children list).take (stop + 1)).drop (start + 1) := by
        have hsplit := habsorbed.children_list
        have hlength : ((tree.children list).take start).length = start := by
          rw [List.length_take]
          exact Nat.min_eq_left (Nat.le_of_lt (Nat.lt_of_le_of_lt hstart hstop))
        have hget : ((tree.children list).take (stop + 1))[start]? = some group := by
          rw [List.getElem?_take_of_lt (Nat.lt_succ_of_le hstart), hsplit,
            List.getElem?_append_right (Nat.le_of_eq hlength), hlength, Nat.sub_self]
          rfl
        rcases List.getElem?_eq_some_iff.mp hget with ⟨hlt, heq⟩
        rw [List.drop_eq_getElem_cons hlt, heq]
      rw [hspan]
      exact habsorbed.leaves_group hwf
    · intro old hold hne
      exact habsorbed.leaves_eq hwf hold hne
  · refine ⟨group, after, hok, hwrapped.wellFormed hwf, ?_, ?_, ?_⟩
    · rw [hgroup]
      exact kind?_of_content? hwrapped.content?_new
    · rw [hgroup]
      exact hwrapped.leaves_new hwf
    · intro old hold _
      exact hwrapped.leaves_eq hwf hold

/-!
# Insertions and removals
-/

theorem Relisted.leavesChangeAt (hwf : tree.WellFormed) (hafter : after.WellFormed)
    (h : Relisted tree list after) : tree.LeavesChangeAt list after := by
  intro id hid
  exact ⟨h.leavesAround hwf hafter, h.leaves_outside hwf hafter hid⟩

theorem insertAt_effect (hwf : tree.WellFormed) (hlist : tree.isGroup list = true) (idx : Nat)
    (token : Token) :
    (tree.insertAt list idx token).2.WellFormed ∧
      tree.InsertsLeaf list idx token (tree.insertAt list idx token).1
        (tree.insertAt list idx token).2 := by
  have hinserted := inserted_insertAt hlist idx token
  have hafter := hinserted.wellFormed hwf
  rcases hinserted.leaves_list hwf with ⟨hbefore, hlater⟩
  rw [insertAt_fst]
  exact ⟨hafter, rfl, hinserted.token?_new, hinserted.children_after_list, hbefore, hlater,
    hinserted.relisted.leavesChangeAt hwf hafter⟩

theorem insertAt_min (list : NodeId) (idx : Nat) (token : Token) :
    tree.insertAt list (min idx (tree.childCount list)) token = tree.insertAt list idx token := by
  unfold insertAt childCount
  dsimp only
  rcases Nat.le_total idx (tree.children list).length with hle | hle
  · rw [Nat.min_eq_left hle]
  · rw [Nat.min_eq_right hle, List.take_length, List.drop_length, List.take_of_length_le hle,
      List.drop_of_length_le hle]

theorem placeAfter_next (tree : Tree) (list : NodeId) (idx : Nat) (skipBlank : Bool) :
    tree.PlaceAfter list idx skipBlank
      (match tree.next list idx skipBlank with
        | some (next, _) => next
        | none => tree.childCount list) := by
  cases hnext : tree.next list idx skipBlank with
  | none =>
      refine ⟨Nat.le_refl _, ?_, ?_⟩
      · intro j id hj _ hchild
        simpa using nextBy_none hnext hj hchild
      · intro id hchild
        exact absurd (child?_lt hchild) (Nat.lt_irrefl _)
  | some hit =>
      rcases hit with ⟨next, found⟩
      rcases nextBy_some hnext with ⟨hle, hchild, hfound, hbefore⟩
      refine ⟨Nat.le_of_lt (child?_lt hchild), ?_, ?_⟩
      · intro j id hj hlt hother
        simpa using hbefore j id hj hlt hother
      · intro id hother
        rw [hchild] at hother
        cases hother
        exact ⟨hle, by simpa using hfound⟩

theorem remove_effect (hwf : tree.WellFormed) {idx : Nat} (hidx : idx < tree.childCount list) :
    exists id after, tree.remove list idx = .ok (id, after) ∧ after.WellFormed ∧
      tree.RemovesLeaves list idx id after := by
  have hchild : tree.child? list idx = some (tree.children list)[idx] :=
    List.getElem?_eq_getElem hidx
  have hremoved := removed_removeAt hwf hchild
  have hafter := hremoved.wellFormed hwf
  rcases hremoved.leaves_list hwf with ⟨hbefore, hlater, hkept⟩
  refine ⟨(tree.children list)[idx], tree.removeAt list idx, ?_, hafter, hchild, ?_,
    hremoved.children_after_list, hbefore, hlater, hkept,
    hremoved.relisted.leavesChangeAt hwf hafter⟩
  · unfold remove
    rw [hchild]
  · rw [hremoved.parent?_eq, if_pos rfl]

end Tree

/-!
# Any edit, any history
-/

namespace TreeEdit

variable {tree : Tree}

/-- An edit that fits a well-formed tree succeeds and keeps it well-formed. -/
theorem apply_ok (hwf : tree.WellFormed) {edit : TreeEdit} (hfits : edit.Fits tree) :
    exists id after, edit.apply tree = .ok (id, after) ∧ after.WellFormed ∧
      edit.Effect tree id after := by
  cases edit with
  | addToken token =>
      have hgathered := Tree.gathered_addToken tree token
      have hfree : forall id, id ∈ ([] : List NodeId) ->
          id < tree.size ∧ tree.parent? id = none := by
        intro id hid
        cases hid
      refine ⟨tree.size, (tree.addToken token).2, rfl,
        hgathered.wellFormed hwf List.nodup_nil hfree, ?_, ?_⟩
      · have hcontent := hgathered.content?_eq tree.size
        rw [if_pos rfl] at hcontent
        unfold Tree.token?
        rw [hcontent]
      · intro old hold
        exact hgathered.leaves_eq hwf List.nodup_nil hfree hold
  | addGroup kind children =>
      rcases hfits with ⟨hnodup, hfree⟩
      have hgathered := Tree.gathered_addGroup kind fun id hid => (hfree id hid).1
      refine ⟨tree.size, (tree.addGroup kind children).2, rfl,
        hgathered.wellFormed hwf hnodup hfree, ?_, ?_⟩
      · have hcontent := hgathered.content?_eq tree.size
        rw [if_pos rfl] at hcontent
        exact hcontent
      · intro old hold
        exact hgathered.leaves_eq hwf hnodup hfree hold
  | groupTokens list kind start stop extend =>
      exact Tree.groupTokens_effect hwf kind extend hfits.1 hfits.2
  | insertBefore list idx token =>
      rcases Tree.insertAt_effect hwf hfits (min idx (tree.childCount list)) token with
        ⟨hafter, hleaf⟩
      refine ⟨_, _, ?_, hafter, hleaf⟩
      rw [Tree.insertAt_min]
      exact if_pos hfits
  | insertAfter list idx token skipBlank =>
      rcases Tree.insertAt_effect hwf hfits _ token with ⟨hafter, hleaf⟩
      exact ⟨_, _, if_pos hfits, hafter, _, Tree.placeAfter_next tree list idx skipBlank, hleaf⟩
  | remove list idx =>
      exact Tree.remove_effect hwf hfits
  | setValue id value =>
      exact ⟨_, _, rfl, Tree.wellFormed_modifyToken id _ hwf, Tree.leaves_modifyToken id _,
        Tree.token?_modifyToken id _⟩

/-- The trees that come of an empty tree or of a flat statement by edits that fit
in their turn. -/
inductive Reaches : Tree -> Prop where
  | empty : Reaches {}
  | flat (tokens : List Token) : Reaches (Statement.ofTokens tokens).tree
  | step {tree after : Tree} {edit : TreeEdit} {id : NodeId} :
      Reaches tree -> edit.Fits tree -> edit.apply tree = .ok (id, after) -> Reaches after

theorem wellFormed_empty : ({} : Tree).WellFormed := by
  have hparent : forall id, ({} : Tree).parent? id = none := by
    intro id
    simp [Tree.parent?]
  have hchildren : forall id, ({} : Tree).children id = [] := by
    intro id
    simp [Tree.children, Tree.content?]
  refine ⟨?_, ?_, ?_⟩
  · intro child group
    simp [hparent, hchildren]
  · intro group
    rw [hchildren]
    exact List.nodup_nil
  · apply Tree.acyclic_of_rank id
    intro parent child h
    rw [hparent] at h
    cases h

theorem Reaches.wellFormed (h : Reaches tree) : tree.WellFormed := by
  induction h with
  | empty =>
      exact wellFormed_empty
  | flat tokens =>
      exact Statement.wellFormed_ofTokens tokens
  | step _ hfits happly ih =>
      rcases apply_ok ih hfits with ⟨id, after, hok, hafter, _⟩
      rw [happly] at hok
      cases hok
      exact hafter

end TreeEdit

/-- After any history of edits a node is in the list of children of exactly its
parent, and there once; no node is above itself, and a traversal ends within as
many levels as there are nodes.  Each further edit that fits succeeds and changes
the leaves as it says. -/
theorem edits_keep_tree {tree : Tree} (h : TreeEdit.Reaches tree) :
    (forall child group, child ∈ tree.children group <-> tree.parent? child = some group) ∧
      (forall child group, child ∈ tree.children group ->
        (tree.children group).count child = 1 ∧
          forall other, child ∈ tree.children other -> other = group) ∧
      (forall id, ¬ tree.Above id id) ∧
      (forall id bound, id < tree.size -> tree.size <= bound ->
        tree.ancestorsWithin bound id = tree.ancestors id ∧
          tree.leavesWithin bound id = tree.leaves id ∧
          tree.descendantsWithin bound id = tree.descendants id) ∧
      forall edit : TreeEdit, edit.Fits tree ->
        exists id after, edit.apply tree = .ok (id, after) ∧ TreeEdit.Reaches after ∧
          edit.Effect tree id after := by
  have hwf := h.wellFormed
  refine ⟨hwf.mem_children_iff, ?_, hwf.not_above_self, ?_, ?_⟩
  · intro child group hmem
    refine ⟨List.count_eq_one_of_mem (hwf.nodup_children group) hmem, ?_⟩
    intro other hother
    have hparent := hwf.parent?_of_mem hother
    rw [hwf.parent?_of_mem hmem] at hparent
    cases hparent
    rfl
  · intro id bound hid hbound
    have hdepth := Nat.le_of_lt (hwf.depth_lt_size hid)
    have hreach : forall n, tree.size <= n -> tree.size <= hwf.depth id + n :=
      fun n hn => Nat.le_trans hn (Nat.le_add_left _ _)
    exact ⟨hwf.ancestorsWithin_congr (Nat.le_trans hdepth hbound) hdepth,
      hwf.leavesWithin_congr hid (hreach bound hbound) (hreach _ (Nat.le_refl _)),
      hwf.descendantsWithin_congr hid (hreach bound hbound) (hreach _ (Nat.le_refl _))⟩
  · intro edit hfits
    rcases TreeEdit.apply_ok hwf hfits with ⟨id, after, hok, _, heffect⟩
    exact ⟨id, after, hok, h.step hfits hok, heffect⟩

/-- Two tokens are put into a group, and the first is taken out of it. -/
theorem edits_keep_tree_pair :
    exists tree, TreeEdit.Reaches tree ∧ tree.leaves 2 = [0, 1] ∧ (forall id, ¬ tree.Above id id) ∧
      exists id after, (TreeEdit.remove 3 0).apply tree = .ok (id, after) ∧
        TreeEdit.Reaches after ∧ (TreeEdit.remove 3 0).Effect tree id after := by
  have hgroup : (TreeEdit.groupTokens 2 .identifier 0 1 false).apply
      (Statement.ofTokens [⟨.name, ['a'], some 0⟩, ⟨.name, ['b'], some 1⟩]).tree =
        .ok (3, { nodes := #[⟨some 3, .token ⟨.name, ['a'], some 0⟩⟩,
          ⟨some 3, .token ⟨.name, ['b'], some 1⟩⟩, ⟨none, .group .statement [3]⟩,
          ⟨some 2, .group .identifier [0, 1]⟩] }) := by
    decide
  have hreaches := (TreeEdit.Reaches.flat _).step (by decide) hgroup
  have hkept := edits_keep_tree hreaches
  exact ⟨_, hreaches, by decide, hkept.2.2.1, hkept.2.2.2.2 (.remove 3 0) (by decide)⟩

end SqlLayout
