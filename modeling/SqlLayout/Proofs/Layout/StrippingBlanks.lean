import SqlLayout.Layout.Cleanup
import SqlLayout.Proofs.Layout.Blanks

/-!
# Stripping blanks

Stripping edits blanks only: other nodes keep their content and their parents, blanks
leave their lists, and nothing comes in.  What is done to the children of one list
touches the list and its blanks, and all of it stays at and below the list.
-/

namespace SqlLayout
namespace Tree

variable {tree middle after : Tree} {list child : NodeId} {touched : NodeId -> Prop}

/-- One tree comes of another by stripping blanks, which touches certain nodes. -/
structure StrippedAt (tree : Tree) (touched : NodeId -> Prop) (after : Tree) : Prop where
  reblanked : tree.Reblanked after
  size_eq : after.size = tree.size
  content?_eq : forall id, ¬ touched id -> after.content? id = tree.content? id
  parent?_solid : forall id, tree.isWhitespace id = false -> after.parent? id = tree.parent? id
  parent?_old : forall id parent, after.parent? id = some parent -> tree.parent? id = some parent

namespace StrippedAt

theorem refl (hwf : tree.WellFormed) (touched : NodeId -> Prop) : tree.StrippedAt touched tree :=
  ⟨Reblanked.refl hwf, rfl, fun _ _ => rfl, fun _ _ => rfl, fun _ _ h => h⟩

theorem wellFormed (h : tree.StrippedAt touched after) : after.WellFormed :=
  h.reblanked.wellFormed

theorem isWhitespace_eq (h : tree.StrippedAt touched after) (id : NodeId) :
    after.isWhitespace id = tree.isWhitespace id := by
  by_cases hid : id < tree.size
  · exact isWhitespace_eq_of_rel (h.reblanked.token?_rel id hid)
  · have hnone : tree.content? id = none := content?_eq_none_iff.mpr (Nat.le_of_not_lt hid)
    have hnone' : after.content? id = none := by
      rw [content?_eq_none_iff, h.size_eq]
      exact Nat.le_of_not_lt hid
    unfold isWhitespace tokenHas token?
    rw [hnone, hnone']

theorem atOrAbove_of_atOrAbove (h : tree.StrippedAt touched after) {other id : NodeId}
    (habove : after.AtOrAbove other id) : tree.AtOrAbove other id := by
  have hkeeps : forall child parent, True -> after.parent? child = some parent ->
      tree.parent? child = some parent ∧ True :=
    fun child parent _ hparent => ⟨h.parent?_old child parent hparent, trivial⟩
  exact habove.transfer hkeeps trivial

theorem atOrAbove_of_solid (hwf : tree.WellFormed) (h : tree.StrippedAt touched after)
    {other id : NodeId} (hsolid : tree.isWhitespace id = false)
    (habove : tree.AtOrAbove other id) : after.AtOrAbove other id :=
  habove.of_solid hwf (fun id _ => h.parent?_solid id) hsolid

theorem trans (h : tree.StrippedAt touched middle) (h' : middle.StrippedAt touched after) :
    tree.StrippedAt touched after := by
  refine ⟨h.reblanked.trans h'.reblanked, h'.size_eq.trans h.size_eq, ?_, ?_, ?_⟩
  · intro id hid
    rw [h'.content?_eq id hid, h.content?_eq id hid]
  · intro id hsolid
    rw [h'.parent?_solid id ((h.isWhitespace_eq id).trans hsolid), h.parent?_solid id hsolid]
  · exact fun id parent hparent => h.parent?_old id parent (h'.parent?_old id parent hparent)

theorem mono {more : NodeId -> Prop} (h : tree.StrippedAt touched after)
    (hmore : forall id, touched id -> more id) : tree.StrippedAt more after :=
  ⟨h.reblanked, h.size_eq, fun id hid => h.content?_eq id fun htouched => hid (hmore id htouched),
    h.parent?_solid, h.parent?_old⟩

theorem sublists_subset (h : tree.StrippedAt touched after) (hwf : tree.WellFormed)
    (id : NodeId) : after.sublists id ⊆ tree.sublists id := by
  refine sublists_subset_of_old hwf h.wellFormed (fun child hchild => ?_)
    (fun id parent _ => h.parent?_old id parent) id
  have hlt : child < tree.size := by
    rw [← h.size_eq]
    exact lt_size_of_isGroup hchild
  rw [← h.reblanked.isGroup_eq hlt]
  exact hchild

theorem nestsWithin (h : tree.StrippedAt touched after) (hwf : tree.WellFormed) {room : Nat}
    {id : NodeId} (hnests : tree.nestsWithin room id = true) :
    after.nestsWithin room id = true :=
  nestsWithin_of_subset (h.sublists_subset hwf) hnests

end StrippedAt

/-!
# The blanks of one list
-/

def OwnBlanks (tree : Tree) (list id : NodeId) : Prop :=
  id = list ∨ tree.parent? id = some list ∧ tree.isWhitespace id = true

theorem OwnBlanks.atOrAbove {id : NodeId} (h : tree.OwnBlanks list id) :
    tree.AtOrAbove list id := by
  rcases h with rfl | ⟨hparent, _⟩
  · exact Or.inl rfl
  · exact Or.inr (above_of_parent? hparent)

def Strips (list : NodeId) (f : Tree -> Tree) : Prop :=
  forall tree : Tree, tree.WellFormed -> tree.isGroup list = true ->
    tree.StrippedAt (tree.OwnBlanks list) (f tree)

theorem StrippedAt.ownBlanks_of_ownBlanks (h : tree.StrippedAt touched middle) {id : NodeId}
    (hid : middle.OwnBlanks list id) : tree.OwnBlanks list id := by
  rcases hid with rfl | ⟨hparent, hblank⟩
  · exact Or.inl rfl
  · exact Or.inr ⟨h.parent?_old _ _ hparent, (h.isWhitespace_eq id).symm.trans hblank⟩

theorem StrippedAt.ownTrans (h : tree.StrippedAt (tree.OwnBlanks list) middle)
    (h' : middle.StrippedAt (middle.OwnBlanks list) after) :
    tree.StrippedAt (tree.OwnBlanks list) after :=
  h.trans (h'.mono fun _ hid => h.ownBlanks_of_ownBlanks hid)

theorem Strips.next {f : Tree -> Tree} (hf : Strips list f)
    (h : tree.StrippedAt (tree.OwnBlanks list) middle) (hlist : tree.isGroup list = true) :
    tree.StrippedAt (tree.OwnBlanks list) (f middle) :=
  h.ownTrans (hf middle h.wellFormed (h.reblanked.isGroup_of_isGroup hlist))

section

variable (hwf : tree.WellFormed)
include hwf

theorem strippedAt_setValue (hchild : child ∈ tree.children list)
    (hblank : tree.isWhitespace child = true) (value : Text) :
    tree.StrippedAt (tree.OwnBlanks list) (tree.setValue child value) := by
  refine ⟨reblanked_setValue hwf hblank value, size_modifyToken child _, ?_, ?_, ?_⟩
  · intro id hid
    unfold setValue
    rw [content?_modifyToken, if_neg]
    rintro rfl
    exact hid (Or.inr ⟨hwf.parent?_of_mem hchild, hblank⟩)
  · exact fun id _ => parent?_modifyToken child _ id
  · intro id parent hparent
    rw [← hparent]
    exact (parent?_modifyToken child _ id).symm

theorem strippedAt_removeAt {idx : Nat} (hchild : tree.child? list idx = some child)
    (hblank : tree.isWhitespace child = true) :
    tree.StrippedAt (tree.OwnBlanks list) (tree.removeAt list idx) := by
  have h := removed_removeAt hwf hchild
  refine ⟨reblanked_removeAt hwf hchild hblank, h.size_eq, ?_, ?_, ?_⟩
  · intro id hid
    apply h.content?_other
    rintro rfl
    exact hid (Or.inl rfl)
  · intro id hsolid
    rw [h.parent?_eq, if_neg]
    rintro rfl
    rw [hsolid] at hblank
    cases hblank
  · intro id parent hafter
    rw [h.parent?_eq] at hafter
    split at hafter
    · cases hafter
    · exact hafter

end

theorem children_removeAt (hwf : tree.WellFormed) {idx : Nat}
    (hchild : tree.child? list idx = some child) :
    (tree.removeAt list idx).children list = (tree.children list).eraseIdx idx := by
  rw [(removed_removeAt hwf hchild).children_after_list, List.eraseIdx_eq_take_drop_succ]

theorem strips_removeBlank (list : NodeId) (idx : Nat) :
    Strips list fun tree => tree.removeBlank list idx := by
  intro tree hwf _
  change tree.StrippedAt (tree.OwnBlanks list) (tree.removeBlank list idx)
  unfold removeBlank
  split
  · rename_i hblank
    rcases childHas_iff.mp hblank with ⟨child, hchild, hwhite⟩
    exact strippedAt_removeAt hwf hchild hwhite
  · exact StrippedAt.refl hwf _

theorem strips_stripInside (list : NodeId) : Strips list fun tree => tree.stripInside list := by
  intro tree hwf hlist
  have hfirst : tree.StrippedAt (tree.OwnBlanks list) (tree.removeBlank list 1) :=
    strips_removeBlank list 1 tree hwf hlist
  change tree.StrippedAt (tree.OwnBlanks list) (tree.stripInside list)
  unfold stripInside
  dsimp only
  split
  · exact (strips_removeBlank list _).next hfirst hlist
  · exact hfirst

theorem strippedAt_collapseBlanks (hwf : tree.WellFormed) (afterBlank : Bool)
    {ids : List NodeId} (hids : ids ⊆ tree.children list) :
    tree.StrippedAt (tree.OwnBlanks list) (tree.collapseBlanks afterBlank ids) := by
  induction ids generalizing tree afterBlank with
  | nil =>
      exact StrippedAt.refl hwf _
  | cons id rest ih =>
      rcases List.cons_subset.mp hids with ⟨hid, hrest⟩
      unfold collapseBlanks
      split
      · rename_i hblank
        have hfirst := strippedAt_setValue hwf hid hblank (if afterBlank then [] else [' '])
        refine hfirst.ownTrans (ih hfirst.wellFormed true ?_)
        intro other hother
        unfold setValue
        rw [children_modifyToken]
        exact hrest hother
      · exact ih hwf false hrest

theorem child?_removeAt_left (hwf : tree.WellFormed) {idx place : Nat}
    (hchild : tree.child? list idx = some child) (hlt : place < idx) :
    (tree.removeAt list idx).child? list place = tree.child? list place := by
  unfold child?
  rw [children_removeAt hwf hchild, List.getElem?_eraseIdx_of_lt hlt]

theorem strippedAt_removeBlanks {positions : List Nat} (hwf : tree.WellFormed)
    (hsorted : positions.Pairwise fun right left => left < right)
    (hblank : forall idx, idx ∈ positions -> tree.childHas list idx tree.isWhitespace = true) :
    tree.StrippedAt (tree.OwnBlanks list)
      (positions.foldl (fun (tree : Tree) idx => tree.removeAt list idx) tree) := by
  induction positions generalizing tree with
  | nil =>
      exact StrippedAt.refl hwf _
  | cons position rest ih =>
      rcases childHas_iff.mp (hblank position List.mem_cons_self) with ⟨child, hchild, hwhite⟩
      have hfirst := strippedAt_removeAt hwf hchild hwhite
      rw [List.pairwise_cons] at hsorted
      refine hfirst.ownTrans (ih hfirst.wellFormed hsorted.2 ?_)
      intro idx hidx
      rcases childHas_iff.mp (hblank idx (List.mem_cons_of_mem _ hidx)) with
        ⟨other, hother, hotherWhite⟩
      refine childHas_iff.mpr ⟨other, ?_, (hfirst.isWhitespace_eq other).trans hotherWhite⟩
      rw [child?_removeAt_left hwf hchild (hsorted.1 idx hidx)]
      exact hother

theorem mem_blanksBeforeCommas {idx : Nat} (h : idx ∈ tree.blanksBeforeCommas list) :
    exists blank comma, tree.child? list idx = some blank ∧
      tree.child? list (idx + 1) = some comma ∧ tree.isWhitespace blank = true ∧
      tree.isPunctuationIn comma [[',']] = true := by
  unfold blanksBeforeCommas at h
  rw [List.mem_map] at h
  rcases h with ⟨⟨⟨blank, comma⟩, place⟩, hmem, hplace⟩
  rw [List.mem_filter, Bool.and_eq_true] at hmem
  have hget := List.mem_zipIdx_iff_getElem?.mp hmem.1
  rw [List.getElem?_zip_eq_some, List.getElem?_drop, Nat.add_comm] at hget
  cases hplace
  exact ⟨blank, comma, hget.1, hget.2, hmem.2.1, hmem.2.2⟩

theorem blank_of_mem_blanksBeforeCommas {idx : Nat} (h : idx ∈ tree.blanksBeforeCommas list) :
    tree.childHas list idx tree.isWhitespace = true := by
  rcases mem_blanksBeforeCommas h with ⟨blank, _, hchild, _, hblank, _⟩
  exact childHas_iff.mpr ⟨blank, hchild, hblank⟩

theorem pairwise_blanksBeforeCommas (tree : Tree) (list : NodeId) :
    (tree.blanksBeforeCommas list).Pairwise (· < ·) := by
  unfold blanksBeforeCommas
  rw [List.pairwise_map]
  apply List.Pairwise.filter
  apply List.pairwise_map.mp
  rw [List.zipIdx_map_snd]
  exact List.pairwise_lt_range'

def stripOfKind (list : NodeId) (tree : Tree) : Tree :=
  match tree.kind? list with
  | some .identifierList =>
      (tree.blanksBeforeCommas list).reverse.foldl
        (fun (tree : Tree) idx => tree.removeAt list idx) tree
  | some .parenthesis => tree.stripInside list
  | _ => tree

def stripChildren (list : NodeId) (tree : Tree) : Tree :=
  let tree := tree.stripOfKind list
  tree.collapseBlanks true (tree.children list)

theorem strips_stripOfKind (list : NodeId) : Strips list (stripOfKind list) := by
  intro tree hwf hlist
  unfold stripOfKind
  split
  · apply strippedAt_removeBlanks hwf
    · exact List.pairwise_reverse.mpr (pairwise_blanksBeforeCommas tree list)
    · intro idx hidx
      exact blank_of_mem_blanksBeforeCommas (List.mem_reverse.mp hidx)
  · exact strips_stripInside list tree hwf hlist
  · exact StrippedAt.refl hwf _

theorem strips_stripChildren (list : NodeId) : Strips list (stripChildren list) := by
  intro tree hwf hlist
  have hkind := strips_stripOfKind list tree hwf hlist
  exact hkind.ownTrans (strippedAt_collapseBlanks hkind.wellFormed true (List.Subset.refl _))

/-!
# All lists
-/

def StripsBelow (list : NodeId) (f : Tree -> Tree) : Prop :=
  forall tree : Tree, tree.WellFormed -> tree.isGroup list = true ->
    tree.StrippedAt (tree.AtOrAbove list) (f tree)

theorem Strips.below {f : Tree -> Tree} (hf : Strips list f) : StripsBelow list f :=
  fun tree hwf hlist => (hf tree hwf hlist).mono fun _ hid => hid.atOrAbove

theorem StripsBelow.next {f : Tree -> Tree} (hf : StripsBelow list f)
    (h : tree.StrippedAt (tree.AtOrAbove list) middle) (hlist : tree.isGroup list = true) :
    tree.StrippedAt (tree.AtOrAbove list) (f middle) :=
  h.trans ((hf middle h.wellFormed (h.reblanked.isGroup_of_isGroup hlist)).mono fun _ hid =>
    h.atOrAbove_of_atOrAbove hid)

theorem strippedAt_foldl {visit : NodeId -> Tree -> Tree}
    (hvisit : forall id, StripsBelow id (visit id)) {ids : List NodeId} (hwf : tree.WellFormed)
    (hids : forall id, id ∈ ids -> tree.isGroup id = true) :
    tree.StrippedAt (fun other => exists id, id ∈ ids ∧ tree.AtOrAbove id other)
      (ids.foldl (fun tree id => visit id tree) tree) := by
  induction ids generalizing tree with
  | nil =>
      exact StrippedAt.refl hwf _
  | cons id rest ih =>
      have hfirst := hvisit id tree hwf (hids id List.mem_cons_self)
      have hrest := ih hfirst.wellFormed fun other hother =>
        hfirst.reblanked.isGroup_of_isGroup (hids other (List.mem_cons_of_mem _ hother))
      refine (hfirst.mono fun other hbelow => ?_).trans (hrest.mono fun other hbelow => ?_)
      · exact ⟨id, List.mem_cons_self, hbelow⟩
      · rcases hbelow with ⟨sibling, hmem, hbelow⟩
        exact ⟨sibling, List.mem_cons_of_mem _ hmem, hfirst.atOrAbove_of_atOrAbove hbelow⟩

theorem stripBlanksWithin_succ (depth : Nat) (list : NodeId) (tree : Tree) :
    stripBlanksWithin (depth + 1) false list tree =
      stripChildren list ((tree.sublists list).foldl
        (fun tree sublist => stripBlanksWithin depth false sublist tree) tree) := by
  unfold stripChildren stripOfKind
  conv_lhs => unfold stripBlanksWithin
  generalize (tree.sublists list).foldl
    (fun tree sublist => stripBlanksWithin depth false sublist tree) tree = visited
  rfl

theorem stripBlanksWithin_root (depth : Nat) (list : NodeId) (tree : Tree) :
    stripBlanksWithin (depth + 1) true list tree =
      (stripBlanksWithin (depth + 1) false list tree).removeBlank list
        ((stripBlanksWithin (depth + 1) false list tree).childCount list - 1) := by
  rw [stripBlanksWithin_succ]
  unfold stripChildren stripOfKind
  conv_lhs => unfold stripBlanksWithin
  generalize (tree.sublists list).foldl
    (fun tree sublist => stripBlanksWithin depth false sublist tree) tree = visited
  rfl

theorem strips_sublists {depth : Nat}
    (hvisit : forall id, StripsBelow id (stripBlanksWithin depth false id)) (list : NodeId) :
    StripsBelow list fun tree => (tree.sublists list).foldl
      (fun tree sublist => stripBlanksWithin depth false sublist tree) tree := by
  intro tree hwf _
  refine (strippedAt_foldl hvisit hwf fun _ hid => isGroup_of_mem_sublists hid).mono ?_
  rintro other ⟨id, hid, hbelow⟩
  have hparent := hwf.parent?_of_mem (List.mem_filter.mp hid).1
  exact AtOrAbove.trans (Or.inr (above_of_parent? hparent)) hbelow

theorem strips_stripBlanksWithin (depth : Nat) (isRoot : Bool) (list : NodeId) :
    StripsBelow list (stripBlanksWithin depth isRoot list) := by
  induction depth generalizing isRoot list with
  | zero =>
      exact fun _ hwf _ => StrippedAt.refl hwf _
  | succ depth ih =>
      intro tree hwf hlist
      have hbelow := strips_sublists (ih false) list tree hwf hlist
      have hinner := (strips_stripChildren list).below.next hbelow hlist
      rw [← stripBlanksWithin_succ] at hinner
      cases isRoot with
      | false =>
          exact hinner
      | true =>
          rw [stripBlanksWithin_root]
          exact (strips_removeBlank list _).below.next hinner hlist

theorem reblanks_removeBlank (idx : Nat) :
    Reblanks id list fun tree => tree.removeBlank list idx :=
  fun tree hwf hlist => (strips_removeBlank list idx tree hwf hlist).reblanked

theorem reblanks_stripBlanksWithin (depth : Nat) (isRoot : Bool) (list : NodeId) :
    Reblanks id list (stripBlanksWithin depth isRoot list) :=
  fun tree hwf hlist => (strips_stripBlanksWithin depth isRoot list tree hwf hlist).reblanked

end Tree
end SqlLayout
