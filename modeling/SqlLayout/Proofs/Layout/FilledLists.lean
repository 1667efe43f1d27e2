import SqlLayout.Proofs.Grouping.Frames
import SqlLayout.Proofs.Layout.Blanks

/-!
# Lists that are filled with blanks

A walk that puts blanks into a list and the lists below it, or rewrites blanks there,
changes nothing else, and no node gets another parent.  So the other children of the
list above stay, with the same roses, and the walk can be followed on roses alone.
-/

namespace SqlLayout

/-- A blank that stands nowhere in the source. -/
def Token.blank (value : Text) : Token := ⟨.whitespace, value, none⟩

theorem append_eq_append_cons {alpha : Type} {left right before behind : List alpha} {a : alpha}
    (h : left ++ right = before ++ a :: behind) :
    (exists more, before = left ++ more ∧ right = more ++ a :: behind) ∨
      exists more, left = before ++ a :: more ∧ behind = more ++ right := by
  rcases List.append_eq_append_iff.mp h with ⟨more, hbefore, hright⟩ | ⟨shared, hleft, hbehind⟩
  · exact Or.inl ⟨more, hbefore, hright⟩
  · cases shared with
    | nil =>
        refine Or.inl ⟨[], ?_, hbehind.symm⟩
        rw [hleft, List.append_nil, List.append_nil]
    | cons first more =>
        rw [List.cons_append, List.cons.injEq] at hbehind
        rw [← hbehind.1] at hleft
        exact Or.inr ⟨more, hleft, hbehind.2⟩

namespace Tree

variable {tree middle after : Tree} {list upper id : NodeId}

def childRoses (tree : Tree) (list : NodeId) : List Rose := (tree.children list).map tree.rose

theorem getElem?_childRoses (tree : Tree) (list : NodeId) (idx : Nat) :
    (tree.childRoses list)[idx]? = (tree.child? list idx).map tree.rose := by
  rw [childRoses, List.getElem?_map]
  rfl

theorem exists_child_of_childRoses {front back : List Rose} {rose : Rose}
    (h : tree.childRoses list = front ++ rose :: back) :
    exists before id behind, tree.children list = before ++ id :: behind ∧
      before.map tree.rose = front ∧ tree.rose id = rose ∧ behind.map tree.rose = back ∧
      tree.child? list front.length = some id := by
  rcases List.map_eq_append_iff.mp h with ⟨before, rest, hsplit, hbefore, hrest⟩
  rcases List.map_eq_cons_iff.mp hrest with ⟨id, behind, rfl, hid, hbehind⟩
  refine ⟨before, id, behind, hsplit, hbefore, hid, hbehind, ?_⟩
  rw [child?, hsplit, ← hbefore, List.length_map, List.getElem?_append_right (Nat.le_refl _),
    Nat.sub_self, List.getElem?_cons_zero]

/-- Blanks come in or change at and below a list, and that is all. -/
structure FilledWithin (tree : Tree) (list : NodeId) (after : Tree) : Prop where
  reblanked : tree.Reblanked after
  content?_eq : forall id, id < tree.size -> ¬ tree.AtOrAbove list id ->
    after.content? id = tree.content? id
  parent?_eq : forall id, id < tree.size -> after.parent? id = tree.parent? id

namespace FilledWithin

theorem wellFormed (h : tree.FilledWithin list after) : after.WellFormed :=
  h.reblanked.wellFormed

theorem size_le (h : tree.FilledWithin list after) : tree.size <= after.size :=
  h.reblanked.size_le

theorem refl (hwf : tree.WellFormed) (list : NodeId) : tree.FilledWithin list tree :=
  ⟨Reblanked.refl hwf, fun _ _ _ => rfl, fun _ _ => rfl⟩

section

variable (hwf : tree.WellFormed) (h : tree.FilledWithin list after)
include hwf h

theorem above_iff (hid : id < tree.size) (other : NodeId) :
    after.Above other id <-> tree.Above other id := by
  have hparent := h.parent?_eq
  constructor
  · intro habove
    induction habove with
    | @single id hstep =>
        rw [hparent id hid] at hstep
        exact above_of_parent? hstep
    | @tail parent id _ hstep ih =>
        rw [hparent id hid] at hstep
        have hlt : parent < tree.size := lt_size_of_mem_children (hwf.mem_of_parent? hstep)
        exact (ih hlt).trans (above_of_parent? hstep)
  · intro habove
    induction habove with
    | @single id hstep =>
        rw [← hparent id hid] at hstep
        exact above_of_parent? hstep
    | @tail parent id _ hstep ih =>
        have hlt : parent < tree.size := lt_size_of_mem_children (hwf.mem_of_parent? hstep)
        rw [← hparent id hid] at hstep
        exact (ih hlt).trans (above_of_parent? hstep)

theorem atOrAbove_iff (hid : id < tree.size) (other : NodeId) :
    after.AtOrAbove other id <-> tree.AtOrAbove other id :=
  or_congr Iff.rfl (h.above_iff hwf hid other)

theorem trans (h' : after.FilledWithin list middle) : tree.FilledWithin list middle := by
  refine ⟨h.reblanked.trans h'.reblanked, ?_, ?_⟩
  · intro id hid hbelow
    have hstill : ¬ after.AtOrAbove list id := fun habove =>
      hbelow ((h.atOrAbove_iff hwf hid list).mp habove)
    rw [h'.content?_eq id (Nat.lt_of_lt_of_le hid h.size_le) hstill, h.content?_eq id hid hbelow]
  · intro id hid
    rw [h'.parent?_eq id (Nat.lt_of_lt_of_le hid h.size_le), h.parent?_eq id hid]

/-!
## The list above
-/

variable (hmem : list ∈ tree.children upper)
include hmem

theorem of_child : tree.FilledWithin upper after := by
  refine ⟨h.reblanked, ?_, h.parent?_eq⟩
  intro id hid hbelow
  apply h.content?_eq id hid
  intro hlist
  exact hbelow (Or.inr (hlist.above_of_parent? (hwf.parent?_of_mem hmem)))

theorem content?_upper : after.content? upper = tree.content? upper :=
  h.content?_eq upper (lt_size_of_mem_children hmem) (hwf.not_atOrAbove_list hmem)

theorem children_upper : after.children upper = tree.children upper :=
  (observers_congr (h.content?_upper hwf hmem)).2.2

theorem rose_sibling (hother : id ∈ tree.children upper) (hne : id ≠ list) :
    after.rose id = tree.rose id := by
  apply hwf.rose_eq_of_unchanged h.wellFormed (hwf.child_lt_size hother)
  intro below hbelow
  apply h.content?_eq below (lt_size_of_atOrAbove (hwf.child_lt_size hother) hbelow)
  intro hlist
  exact hne (hwf.eq_of_children_above hother hmem hbelow hlist)

omit hmem in
theorem childRoses_upper {front back : List NodeId}
    (hsplit : tree.children upper = front ++ list :: back) :
    after.childRoses upper = front.map tree.rose ++ after.rose list :: back.map tree.rose := by
  have hmem : list ∈ tree.children upper := by
    rw [hsplit]
    simp
  have hnodup := hwf.nodup_children upper
  rw [hsplit] at hnodup
  have hsame : forall ids : List NodeId,
      (forall id, id ∈ ids -> id ∈ tree.children upper ∧ id ≠ list) ->
      ids.map after.rose = ids.map tree.rose := fun ids hids =>
    List.map_congr_left fun id hid => h.rose_sibling hwf hmem (hids id hid).1 (hids id hid).2
  rw [childRoses, h.children_upper hwf hmem, hsplit, List.map_append, List.map_cons,
    hsame front (by grind), hsame back (by grind)]

end
end FilledWithin

/-!
# A blank comes in
-/

section

variable (hwf : tree.WellFormed)
include hwf

theorem filledWithin_insertBlank (hlist : tree.isGroup list = true) (idx : Nat) (value : Text) :
    tree.FilledWithin list (tree.insertBlank list idx value) := by
  have h := inserted_insertAt hlist idx ⟨.whitespace, value, none⟩
  refine ⟨reblanked_insertBlank hwf hlist idx value, ?_, ?_⟩
  · intro id hid hbelow
    apply h.content?_other id (Nat.ne_of_lt hid)
    rintro rfl
    exact hbelow (Or.inl rfl)
  · intro id hid
    rw [insertBlank, h.parent?_eq, if_neg (Nat.ne_of_lt hid)]

theorem childRoses_insertBlank (hlist : tree.isGroup list = true) {front back : List Rose}
    (hroses : tree.childRoses list = front ++ back) (value : Text) :
    (tree.insertBlank list front.length value).childRoses list =
      front ++ .token (.blank value) :: back := by
  generalize hidx : front.length = idx
  have h := inserted_insertAt hlist idx ⟨.whitespace, value, none⟩
  have hsame : forall ids : List NodeId, (forall id, id ∈ ids -> id ∈ tree.children list) ->
      ids.map (tree.insertBlank list idx value).rose = ids.map tree.rose := by
    intro ids hids
    apply List.map_congr_left
    intro id hid
    have hlt := hwf.child_lt_size (hids id hid)
    apply hwf.rose_eq_of_unchanged (h.wellFormed hwf) hlt
    intro other hother
    apply h.content?_other other (Nat.ne_of_lt (lt_size_of_atOrAbove hlt hother))
    rintro rfl
    exact hwf.not_atOrAbove_list (hids id hid) hother
  have hnew : (tree.insertBlank list idx value).rose tree.size = .token (.blank value) :=
    rose_of_token? h.token?_new
  have hchildren : (tree.insertBlank list idx value).children list =
      (tree.children list).take idx ++ tree.size :: (tree.children list).drop idx :=
    h.children_after_list
  rw [childRoses] at hroses
  rw [childRoses, hchildren, List.map_append, List.map_cons, hnew,
    hsame _ fun id hid => List.mem_of_mem_take hid,
    hsame _ fun id hid => List.mem_of_mem_drop hid, List.map_take, List.map_drop, hroses, ← hidx,
    List.take_left, List.drop_left]

/-!
# A blank changes
-/

theorem filledWithin_setValue (hblank : tree.isWhitespace id = true) (value : Text) :
    tree.FilledWithin id (tree.setValue id value) := by
  refine ⟨reblanked_setValue hwf hblank value, ?_, ?_⟩
  · intro other _ hbelow
    rw [setValue, content?_modifyToken, if_neg]
    rintro rfl
    exact hbelow (Or.inl rfl)
  · intro other _
    exact parent?_modifyToken id _ other

theorem childRoses_setValue {front back : List NodeId} {token : Token}
    (hsplit : tree.children list = front ++ id :: back) (htoken : tree.token? id = some token)
    (hblank : token.isWhitespace = true) (value : Text) :
    (tree.setValue id value).childRoses list =
      front.map tree.rose ++ .token { token with value := value } :: back.map tree.rose := by
  have hfill := filledWithin_setValue hwf (tokenHas_iff.mpr ⟨token, htoken, hblank⟩) value
  have hnew : (tree.setValue id value).token? id = some { token with value := value } := by
    rw [setValue, token?_modifyToken, if_pos rfl, htoken]
    rfl
  rw [hfill.childRoses_upper hwf hsplit, rose_of_token? hnew]

/-!
# The lists below a list
-/

theorem WellFormed.nests_rose {room : Nat} (hid : id < tree.size)
    (hroom : tree.size <= hwf.depth id + room) :
    Rose.Nests (fun _ => false) room (tree.rose id) := by
  induction id using hwf.induction_up generalizing room with
  | step id ih =>
      rcases isGroup_or_token? hid with hgroup | ⟨token, htoken⟩
      · rcases isGroup_iff_kind?.mp hgroup with ⟨kind, hkind⟩
        have hdepth := hwf.depth_lt_size hid
        rcases Nat.exists_eq_add_one_of_ne_zero (show room ≠ 0 by omega) with ⟨room, rfl⟩
        rw [hwf.rose_of_kind? hkind]
        refine Rose.Nests.group fun child hchild => ?_
        rcases List.mem_map.mp hchild with ⟨below, hmem, rfl⟩
        have hnext := hwf.depth_of_mem hmem
        exact ih below hmem (hwf.child_lt_size hmem) (by omega)
      · rw [rose_of_token? htoken]
        exact Rose.Nests.token

end

section

variable {visit : Tree -> NodeId -> Tree} {fits : Rose -> Prop} {turn : Rose -> Rose}
  (hvisit : forall (tree : Tree) (id : NodeId), tree.WellFormed -> tree.isGroup id = true ->
    fits (tree.rose id) ->
    tree.FilledWithin id (visit tree id) ∧ (visit tree id).rose id = turn (tree.rose id))
include hvisit

theorem filledWithin_foldl (hwf : tree.WellFormed) {ids : List NodeId} (hnodup : ids.Nodup)
    (hids : forall id, id ∈ ids -> id ∈ tree.children list ∧ tree.isGroup id = true)
    (hfits : forall id, id ∈ ids -> fits (tree.rose id)) :
    tree.FilledWithin list (ids.foldl visit tree) ∧
      (ids.foldl visit tree).children list = tree.children list ∧
      forall id, id ∈ tree.children list ->
        (ids.foldl visit tree).rose id =
          if id ∈ ids then turn (tree.rose id) else tree.rose id := by
  induction ids generalizing tree with
  | nil =>
      exact ⟨FilledWithin.refl hwf list, rfl, fun id _ => (if_neg List.not_mem_nil).symm⟩
  | cons first rest ih =>
      rcases hids first List.mem_cons_self with ⟨hmem, hgroup⟩
      rcases hvisit tree first hwf hgroup (hfits first List.mem_cons_self) with ⟨hfill, hturn⟩
      rw [List.nodup_cons] at hnodup
      have hchildren := hfill.children_upper hwf hmem
      have hsame : forall id, id ∈ tree.children list -> id ≠ first ->
          (visit tree first).rose id = tree.rose id :=
        fun id hid hne => hfill.rose_sibling hwf hmem hid hne
      have hother : forall id, id ∈ rest -> id ∈ tree.children list ∧ id ≠ first := by
        intro id hid
        refine ⟨(hids id (List.mem_cons_of_mem _ hid)).1, ?_⟩
        rintro rfl
        exact hnodup.1 hid
      rcases ih hfill.wellFormed hnodup.2
        (fun id hid => ⟨by rw [hchildren]; exact (hother id hid).1,
          hfill.reblanked.isGroup_of_isGroup (hids id (List.mem_cons_of_mem _ hid)).2⟩)
        (fun id hid => by
          rw [hsame id (hother id hid).1 (hother id hid).2]
          exact hfits id (List.mem_cons_of_mem _ hid)) with ⟨hlater, hlist, hroses⟩
      refine ⟨(hfill.of_child hwf hmem).trans hwf hlater, hlist.trans hchildren, ?_⟩
      intro id hid
      rw [List.foldl_cons, hroses id (by rw [hchildren]; exact hid)]
      by_cases hfirst : id = first
      · rw [hfirst, if_neg hnodup.1, if_pos List.mem_cons_self, hturn]
      · rw [hsame id hid hfirst]
        simp [hfirst]

theorem childRoses_foldl_sublists (hwf : tree.WellFormed)
    (hfits : forall id, id ∈ tree.children list -> fits (tree.rose id))
    (hleaf : forall token, turn (.token token) = .token token) :
    tree.FilledWithin list ((tree.sublists list).foldl visit tree) ∧
      ((tree.sublists list).foldl visit tree).childRoses list =
        (tree.childRoses list).map turn := by
  have hsublists : forall id, id ∈ tree.sublists list ->
      id ∈ tree.children list ∧ tree.isGroup id = true := fun id hid => List.mem_filter.mp hid
  have hnodup : (tree.sublists list).Nodup := (hwf.nodup_children list).filter _
  rcases filledWithin_foldl hvisit hwf hnodup hsublists
    (fun id hid => hfits id (hsublists id hid).1) with ⟨hfill, hchildren, hroses⟩
  refine ⟨hfill, ?_⟩
  rw [childRoses, hchildren, childRoses, List.map_map]
  apply List.map_congr_left
  intro id hid
  rw [hroses id hid, Function.comp_apply]
  rcases isGroup_or_token? (hwf.child_lt_size hid) with hgroup | ⟨token, htoken⟩
  · have hlist : id ∈ tree.sublists list := List.mem_filter.mpr ⟨hid, hgroup⟩
    rw [if_pos hlist]
  · rw [rose_of_token? htoken, hleaf, ite_self]

end
end Tree
end SqlLayout
