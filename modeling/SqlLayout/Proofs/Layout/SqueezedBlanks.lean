import SqlLayout.Proofs.Layout.Spaces

/-!
# What stripping leaves of blanks

Stripping writes nothing into a blank but a space or nothing, and it comes to all
blanks.  So each blank that is left is empty or one space.
-/

namespace SqlLayout
namespace Tree

variable {tree after : Tree} {list id : NodeId}

def IsSqueezed (tree : Tree) (id : NodeId) : Prop :=
  forall token, tree.token? id = some token -> token.isWhitespace = true ->
    token.value = [] ∨ token.value = [' ']

theorem IsSqueezed.congr (h : tree.IsSqueezed id) (htoken : after.token? id = tree.token? id) :
    after.IsSqueezed id := by
  intro token hsome
  exact h token (htoken.symm.trans hsome)

theorem isSqueezed_of_solid (h : tree.isWhitespace id = false) : tree.IsSqueezed id := by
  intro token htoken hblank
  rw [isWhitespace, tokenHas, htoken] at h
  exact absurd (h.symm.trans hblank) Bool.false_ne_true

/-!
# Edits of one list
-/

theorem token?_setChildren (id : NodeId) (children : List NodeId) (other : NodeId) :
    (tree.setChildren id children).token? other = tree.token? other := by
  by_cases hid : other = id
  · subst hid
    simp only [token?, content?, setChildren, modify, Array.getElem?_modify, if_true]
    rcases tree.nodes[other]? with _ | ⟨parent, token | ⟨kind, children⟩⟩ <;> rfl
  · unfold token?
    rw [content?_setChildren_of_ne hid]

theorem token?_removeAt (list : NodeId) (idx : Nat) (id : NodeId) :
    (tree.removeAt list idx).token? id = tree.token? id := by
  unfold removeAt
  split
  · rfl
  · unfold token?
    rw [content?_setParent]
    exact token?_setChildren list _ id

theorem token?_removeBlank (list : NodeId) (idx : Nat) (id : NodeId) :
    (tree.removeBlank list idx).token? id = tree.token? id := by
  unfold removeBlank
  split
  · exact token?_removeAt list idx id
  · rfl

theorem token?_removeAll (list : NodeId) (positions : List Nat) (id : NodeId) :
    (positions.foldl (fun (tree : Tree) idx => tree.removeAt list idx) tree).token? id =
      tree.token? id := by
  induction positions generalizing tree with
  | nil =>
      rfl
  | cons position rest ih =>
      exact ih.trans (token?_removeAt list position id)

theorem token?_stripOfKind (list id : NodeId) :
    (tree.stripOfKind list).token? id = tree.token? id := by
  unfold stripOfKind
  split
  · exact token?_removeAll list _ id
  · unfold stripInside
    dsimp only
    split
    · rw [token?_removeBlank, token?_removeBlank]
    · exact token?_removeBlank list 1 id
  · rfl

theorem IsSqueezed.setValue (h : tree.IsSqueezed id) (other : NodeId) (afterBlank : Bool) :
    (tree.setValue other (if afterBlank then [] else [' '])).IsSqueezed id := by
  intro token htoken hblank
  rw [Tree.setValue, token?_modifyToken] at htoken
  split at htoken
  · rcases Option.map_eq_some_iff.mp htoken with ⟨old, _, rfl⟩
    cases afterBlank with
    | true =>
        exact Or.inl rfl
    | false =>
        exact Or.inr rfl
  · exact h token htoken hblank

theorem isSqueezed_setValue (tree : Tree) (id : NodeId) (afterBlank : Bool) :
    (tree.setValue id (if afterBlank then [] else [' '])).IsSqueezed id := by
  intro token htoken _
  rw [Tree.setValue, token?_modifyToken, if_pos rfl] at htoken
  rcases Option.map_eq_some_iff.mp htoken with ⟨old, _, rfl⟩
  cases afterBlank with
  | true =>
      exact Or.inl rfl
  | false =>
      exact Or.inr rfl

theorem IsSqueezed.collapseBlanks (h : tree.IsSqueezed id) (afterBlank : Bool)
    (ids : List NodeId) : (tree.collapseBlanks afterBlank ids).IsSqueezed id := by
  induction ids generalizing tree afterBlank with
  | nil =>
      exact h
  | cons first rest ih =>
      unfold Tree.collapseBlanks
      split
      · exact ih (h.setValue first afterBlank) true
      · exact ih h false

theorem isSqueezed_collapseBlanks (afterBlank : Bool) {ids : List NodeId} (hid : id ∈ ids) :
    (tree.collapseBlanks afterBlank ids).IsSqueezed id := by
  induction ids generalizing tree afterBlank with
  | nil =>
      cases hid
  | cons first rest ih =>
      unfold Tree.collapseBlanks
      rcases List.mem_cons.mp hid with rfl | hrest
      · split
        · exact (isSqueezed_setValue tree id afterBlank).collapseBlanks true rest
        · rename_i hsolid
          exact (isSqueezed_of_solid (Bool.eq_false_iff.mpr hsolid)).collapseBlanks false rest
      · split
        · exact ih true hrest
        · exact ih false hrest

theorem IsSqueezed.stripChildren (h : tree.IsSqueezed id) (list : NodeId) :
    (stripChildren list tree).IsSqueezed id :=
  (h.congr (token?_stripOfKind list id)).collapseBlanks true _

/-!
# All lists
-/

theorem IsSqueezed.foldl {visit : Tree -> NodeId -> Tree}
    (hvisit : forall tree list, tree.IsSqueezed id -> (visit tree list).IsSqueezed id)
    (h : tree.IsSqueezed id) (lists : List NodeId) :
    (lists.foldl visit tree).IsSqueezed id := by
  induction lists generalizing tree with
  | nil =>
      exact h
  | cons first rest ih =>
      exact ih (hvisit tree first h)

theorem IsSqueezed.stripBlanksWithin (h : tree.IsSqueezed id) (depth : Nat) (list : NodeId) :
    (stripBlanksWithin depth false list tree).IsSqueezed id := by
  induction depth generalizing tree list with
  | zero =>
      exact h
  | succ depth ih =>
      rw [stripBlanksWithin_succ]
      exact (h.foldl (fun _ list h => ih h list) _).stripChildren list

theorem isSqueezed_foldl {depth : Nat}
    (hvisit : forall (tree : Tree) (list : NodeId), tree.WellFormed -> tree.isGroup list = true ->
      tree.nestsWithin depth list = true ->
      (stripBlanksWithin depth false list tree).AtOrAbove list id ->
      (stripBlanksWithin depth false list tree).IsSqueezed id)
    {lists : List NodeId} (hwf : tree.WellFormed)
    (hlists : forall list, list ∈ lists ->
      tree.isGroup list = true ∧ tree.nestsWithin depth list = true)
    (hlist : list ∈ lists)
    (hbelow : (lists.foldl (fun tree list => stripBlanksWithin depth false list tree)
      tree).AtOrAbove list id) :
    (lists.foldl (fun tree list => stripBlanksWithin depth false list tree)
      tree).IsSqueezed id := by
  have hstrips := fun list => strips_stripBlanksWithin depth false list
  induction lists generalizing tree with
  | nil =>
      cases hlist
  | cons first rest ih =>
      rw [List.foldl_cons] at hbelow ⊢
      rcases hlists first List.mem_cons_self with ⟨hgroup, hnests⟩
      have hfirst := hstrips first tree hwf hgroup
      have hrest : forall list, list ∈ rest ->
          (stripBlanksWithin depth false first tree).isGroup list = true ∧
            (stripBlanksWithin depth false first tree).nestsWithin depth list = true := by
        intro list hmem
        rcases hlists list (List.mem_cons_of_mem _ hmem) with ⟨hgroup', hnests'⟩
        exact ⟨hfirst.reblanked.isGroup_of_isGroup hgroup', hfirst.nestsWithin hwf hnests'⟩
      rcases List.mem_cons.mp hlist with rfl | hmem
      · have hlater := strippedAt_foldl hstrips hfirst.wellFormed fun list hmem =>
          (hrest list hmem).1
        exact (hvisit tree list hwf hgroup hnests (hlater.atOrAbove_of_atOrAbove hbelow)).foldl
          (fun _ list h => h.stripBlanksWithin depth list) rest
      · exact ih hfirst.wellFormed hrest hmem hbelow

theorem isSqueezed_stripBlanksWithin (depth : Nat) (tree : Tree) (list : NodeId)
    (hwf : tree.WellFormed) (hlist : tree.isGroup list = true)
    (hnests : tree.nestsWithin depth list = true)
    (hbelow : (stripBlanksWithin depth false list tree).AtOrAbove list id) :
    (stripBlanksWithin depth false list tree).IsSqueezed id := by
  induction depth generalizing tree list with
  | zero =>
      cases hnests
  | succ depth ih =>
      have hstrips := fun list => strips_stripBlanksWithin depth false list
      have hvisited := strips_sublists hstrips list tree hwf hlist
      have hsublists : forall sublist, sublist ∈ tree.sublists list ->
          tree.isGroup sublist = true ∧ tree.nestsWithin depth sublist = true :=
        fun sublist hmem =>
          ⟨isGroup_of_mem_sublists hmem, List.all_eq_true.mp hnests sublist hmem⟩
      have hfold := fun (sublist : NodeId) (hmem : sublist ∈ tree.sublists list) =>
        isSqueezed_foldl ih hwf hsublists hmem
      rw [stripBlanksWithin_succ] at hbelow ⊢
      dsimp only at hvisited
      generalize (tree.sublists list).foldl
        (fun tree sublist => stripBlanksWithin depth false sublist tree) tree = visited
        at hvisited hfold hbelow ⊢
      have hlist' := hvisited.reblanked.isGroup_of_isGroup hlist
      have hstripped := strips_stripChildren list visited hvisited.wellFormed hlist'
      rcases hbelow with rfl | habove
      · exact isSqueezed_of_solid
          (tokenHas_of_isGroup (hstripped.reblanked.isGroup_of_isGroup hlist') _)
      rcases Relation.TransGen.tail'_iff.mp habove with ⟨parent, hreach, hparent⟩
      have hold := hstripped.parent?_old _ _ hparent
      rcases Relation.reflTransGen_iff_eq_or_transGen.mp hreach with heq | hinner
      · -- The children of the list itself are what is collapsed.
        rw [heq] at hparent
        apply isSqueezed_collapseBlanks
        rw [← children_collapseBlanks true ((stripOfKind list visited).children list)]
        exact hstripped.wellFormed.mem_of_parent? hparent
      · have hinner' : visited.Above list parent := by
          rcases hstripped.atOrAbove_of_atOrAbove (Or.inr hinner) with rfl | habove'
          · exact absurd hinner (hstripped.wellFormed.not_above_self _)
          · exact habove'
        have hgroup := isGroup_of_mem_children (hvisited.wellFormed.mem_of_parent? hold)
        rcases hvisited.wellFormed.exists_sublist_above hinner' hgroup with
          ⟨sublist, hsublist, hbelow⟩
        apply IsSqueezed.stripChildren
        exact hfold sublist (hvisited.sublists_subset hwf list hsublist)
          (hbelow.trans (Or.inr (above_of_parent? hold)))

end Tree

theorem Statement.isSqueezed_stripBlanks {s : Statement} (hwf : s.tree.WellFormed)
    (hroot : s.tree.isGroup s.root = true) {id : NodeId}
    (hbelow : s.stripBlanks.tree.AtOrAbove s.root id) : s.stripBlanks.tree.IsSqueezed id := by
  have hid := Tree.lt_size_of_isGroup hroot
  rcases Nat.exists_eq_add_one_of_ne_zero (Nat.ne_of_gt (Nat.zero_lt_of_lt hid)) with
    ⟨depth, hdepth⟩
  have hnests : s.tree.nestsWithin (depth + 1) s.root = true :=
    hwf.nestsWithin_of_depth hid (by omega)
  have hinner := Tree.strips_stripBlanksWithin (depth + 1) false s.root s.tree hwf hroot
  have hlast := Tree.strips_removeBlank s.root
    ((Tree.stripBlanksWithin (depth + 1) false s.root s.tree).childCount s.root - 1) _
    hinner.wellFormed (hinner.reblanked.isGroup_of_isGroup hroot)
  unfold stripBlanks at hbelow ⊢
  dsimp only at hbelow ⊢
  rw [hdepth, Tree.stripBlanksWithin_root] at hbelow ⊢
  have hbelow' := hlast.atOrAbove_of_atOrAbove hbelow
  exact (Tree.isSqueezed_stripBlanksWithin (depth + 1) s.tree s.root hwf hroot hnests
    hbelow').congr (Tree.token?_removeBlank s.root _ id)

end SqlLayout
