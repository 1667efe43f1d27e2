import SqlLayout.Tree.Edit
import SqlLayout.Proofs.Tree.Relist
import SqlLayout.Proofs.Tree.Search

/-!
# Edits of blanks

The filters of the layout put blanks into lists, take blanks out and rewrite
blanks.  What such edits leave alone is said once, for any number of them: the
leaves that are not blank, the kinds of all nodes, and the order of the leaves.
-/

namespace SqlLayout

/-- A blank may get another value; any other token stays as it is. -/
structure Token.BlankKept (token after : Token) : Prop where
  category_eq : after.category = token.category
  position_eq : after.position = token.position
  eq_of_solid : token.isWhitespace = false -> after = token

namespace Token.BlankKept

theorem refl (token : Token) : token.BlankKept token :=
  ⟨rfl, rfl, fun _ => rfl⟩

theorem isWhitespace_eq {token after : Token} (h : token.BlankKept after) :
    after.isWhitespace = token.isWhitespace := by
  unfold isWhitespace
  rw [h.category_eq]

theorem trans {token middle after : Token} (h : token.BlankKept middle)
    (h' : middle.BlankKept after) : token.BlankKept after := by
  refine ⟨h'.category_eq.trans h.category_eq, h'.position_eq.trans h.position_eq, ?_⟩
  intro hsolid
  rw [h'.eq_of_solid (h.isWhitespace_eq.trans hsolid), h.eq_of_solid hsolid]

theorem of_value {token : Token} (h : token.isWhitespace = true) (value : Text) :
    token.BlankKept { token with value := value } := by
  refine ⟨rfl, rfl, ?_⟩
  intro hsolid
  rw [h] at hsolid
  cases hsolid

theorem rel_refl (token? : Option Token) : Option.Rel BlankKept token? token? := by
  cases token? with
  | none =>
      exact Option.Rel.none
  | some token =>
      exact Option.Rel.some (refl token)

theorem rel_trans {first second third : Option Token} (h : Option.Rel BlankKept first second)
    (h' : Option.Rel BlankKept second third) : Option.Rel BlankKept first third := by
  cases h with
  | none =>
      exact h'
  | some hkept =>
      cases h' with
      | some hkept' =>
          exact Option.Rel.some (hkept.trans hkept')

end Token.BlankKept

namespace Tree

variable {tree middle after : Tree} {list : NodeId}

def solidLeaves (tree : Tree) (id : NodeId) : List NodeId :=
  (tree.leaves id).filter fun leaf => !tree.isWhitespace leaf

/-- One tree comes of another by edits of blanks. -/
structure Reblanked (tree after : Tree) : Prop where
  wellFormed : after.WellFormed
  size_le : tree.size <= after.size
  kind?_eq : forall id, id < tree.size -> after.kind? id = tree.kind? id
  token?_rel : forall id, id < tree.size ->
    Option.Rel Token.BlankKept (tree.token? id) (after.token? id)
  token?_new : forall id, tree.size <= id -> id < after.size ->
    exists value, after.token? id = some ⟨.whitespace, value, none⟩
  solidLeaves_eq : forall id, id < tree.size -> after.solidLeaves id = tree.solidLeaves id
  leaves_sublist : forall id, id < tree.size ->
    ((after.leaves id).filter fun leaf => leaf < tree.size).Sublist (tree.leaves id)

namespace Reblanked

theorem isGroup_eq (h : tree.Reblanked after) {id : NodeId} (hid : id < tree.size) :
    after.isGroup id = tree.isGroup id := by
  unfold isGroup
  rw [h.kind?_eq id hid]

theorem isGroup_of_isGroup (h : tree.Reblanked after) {id : NodeId}
    (hid : tree.isGroup id = true) : after.isGroup id = true := by
  rw [h.isGroup_eq (lt_size_of_isGroup hid)]
  exact hid

theorem token?_eq (h : tree.Reblanked after) {id : NodeId} (hid : id < tree.size)
    (hsolid : tree.isWhitespace id = false) : after.token? id = tree.token? id := by
  have hrel := h.token?_rel id hid
  unfold isWhitespace tokenHas at hsolid
  generalize tree.token? id = before, after.token? id = later at hrel hsolid ⊢
  cases hrel with
  | none =>
      rfl
  | some hkept =>
      rw [hkept.eq_of_solid hsolid]

theorem refl (hwf : tree.WellFormed) : tree.Reblanked tree := by
  refine ⟨hwf, Nat.le_refl _, fun _ _ => rfl, fun id _ => Token.BlankKept.rel_refl _, ?_,
    fun _ _ => rfl, fun _ _ => List.filter_sublist⟩
  intro id hle hlt
  exact absurd hlt (Nat.not_lt_of_le hle)

theorem trans (h : tree.Reblanked middle) (h' : middle.Reblanked after) :
    tree.Reblanked after := by
  have hlt : forall id, id < tree.size -> id < middle.size :=
    fun id hid => Nat.lt_of_lt_of_le hid h.size_le
  refine ⟨h'.wellFormed, Nat.le_trans h.size_le h'.size_le, ?_, ?_, ?_, ?_, ?_⟩
  · intro id hid
    rw [h'.kind?_eq id (hlt id hid), h.kind?_eq id hid]
  · intro id hid
    exact Token.BlankKept.rel_trans (h.token?_rel id hid) (h'.token?_rel id (hlt id hid))
  · intro id hle hid
    by_cases hmiddle : id < middle.size
    · rcases h.token?_new id hle hmiddle with ⟨value, hvalue⟩
      have hrel := h'.token?_rel id hmiddle
      rw [hvalue] at hrel
      generalize after.token? id = later at hrel ⊢
      cases hrel with
      | @some _ token hkept =>
          rcases token with ⟨category, newValue, position⟩
          have hcategory : category = .whitespace := hkept.category_eq
          have hposition : position = none := hkept.position_eq
          exact ⟨newValue, by rw [hcategory, hposition]⟩
    · exact h'.token?_new id (Nat.le_of_not_lt hmiddle) hid
  · intro id hid
    rw [h'.solidLeaves_eq id (hlt id hid), h.solidLeaves_eq id hid]
  · intro id hid
    have hsublist := (h'.leaves_sublist id (hlt id hid)).filter fun leaf => leaf < tree.size
    rw [List.filter_filter] at hsublist
    have hsame : (fun leaf => decide (leaf < tree.size) && decide (leaf < middle.size)) =
        fun leaf => decide (leaf < tree.size) := by
      funext leaf
      by_cases hleaf : leaf < tree.size
      · simp [hleaf, hlt leaf hleaf]
      · simp [hleaf]
    rw [hsame] at hsublist
    exact hsublist.trans (h.leaves_sublist id hid)

end Reblanked

/-!
# One edit
-/

theorem isWhitespace_eq_of_rel {id : NodeId}
    (h : Option.Rel Token.BlankKept (tree.token? id) (after.token? id)) :
    after.isWhitespace id = tree.isWhitespace id := by
  unfold isWhitespace tokenHas
  generalize tree.token? id = before, after.token? id = later at h ⊢
  cases h with
  | none =>
      rfl
  | some hkept =>
      exact hkept.isWhitespace_eq

theorem AtOrAbove.of_solid (hwf : tree.WellFormed)
    (hparent : forall id, id < tree.size -> tree.isWhitespace id = false ->
      after.parent? id = tree.parent? id)
    {other id : NodeId} (hsolid : tree.isWhitespace id = false)
    (habove : tree.AtOrAbove other id) : after.AtOrAbove other id := by
  have hkeeps : forall child parent, tree.isWhitespace child = false ->
      tree.parent? child = some parent ->
      after.parent? child = some parent ∧ tree.isWhitespace parent = false := by
    intro child parent hchild hold
    refine ⟨(hparent child (lt_size_of_parent? hold) hchild).trans hold, ?_⟩
    exact tokenHas_of_isGroup (isGroup_of_mem_children (hwf.mem_of_parent? hold)) _
  exact habove.transfer hkeeps hsolid

section

variable (hwf : tree.WellFormed)
include hwf

theorem reblanked_of_relisted (hafter : after.WellFormed) (h : Relisted tree list after)
    {front gone back place : List NodeId}
    (hchildren : tree.children list = front ++ gone ++ back)
    (hplaced : after.children list = front ++ place ++ back)
    (hgone : forall id, id ∈ gone -> tree.isWhitespace id = true)
    (hplace : forall id, id ∈ place -> tree.size <= id ∧ after.isWhitespace id = true)
    (hnew : forall id, tree.size <= id -> id < after.size ->
      exists value, after.token? id = some ⟨.whitespace, value, none⟩) :
    tree.Reblanked after := by
  have hgoneLeaves := flatMap_leaves_blanks hgone
  have hplaceLeaves := flatMap_leaves_blanks fun id hid => (hplace id hid).2
  refine ⟨hafter, h.size_le, fun id hid => h.kind?_eq hid, ?_, hnew, ?_, ?_⟩
  · intro id hid
    rw [h.token?_eq hid]
    exact Token.BlankKept.rel_refl _
  · intro id hid
    have hkeep : forall leaf, leaf < tree.size ->
        (!after.isWhitespace leaf) = !tree.isWhitespace leaf := by
      intro leaf hleaf
      unfold isWhitespace
      rw [tokenHas_congr (h.token?_eq hleaf)]
    rcases h.filter_leaves hwf hafter hchildren hplaced hkeep hid with
      hsame | ⟨before, behind, hbefore, hlater⟩
    · exact hsame
    · have hnone : gone.filter (fun leaf => !tree.isWhitespace leaf) = [] := by
        rw [List.filter_eq_nil_iff]
        intro leaf hleaf
        simp [hgone leaf hleaf]
      have hnone' : place.filter (fun leaf => !after.isWhitespace leaf) = [] := by
        rw [List.filter_eq_nil_iff]
        intro leaf hleaf
        simp [(hplace leaf hleaf).2]
      rw [hgoneLeaves, hnone] at hbefore
      rw [hplaceLeaves, hnone'] at hlater
      unfold solidLeaves
      rw [hbefore, hlater]
  · intro id hid
    have hold : (tree.leaves id).filter (fun leaf => leaf < tree.size) = tree.leaves id :=
      List.filter_eq_self.mpr fun leaf hleaf => decide_eq_true (hwf.leaf_lt_size hid hleaf)
    rcases h.filter_leaves hwf hafter hchildren hplaced (fun leaf _ => rfl) hid with
      hsame | ⟨before, behind, hbefore, hlater⟩
    · rw [hsame]
      exact List.filter_sublist
    · have hnone : place.filter (fun leaf => decide (leaf < tree.size)) = [] := by
        rw [List.filter_eq_nil_iff]
        intro leaf hleaf
        simp [(hplace leaf hleaf).1]
      rw [hplaceLeaves, hnone, List.append_nil] at hlater
      rw [hlater, ← hold, hbefore]
      exact (List.sublist_append_left before _).append_right behind

theorem reblanked_insertBlank (hlist : tree.isGroup list = true) (idx : Nat) (value : Text) :
    tree.Reblanked (tree.insertBlank list idx value) := by
  have h := inserted_insertAt hlist idx ⟨.whitespace, value, none⟩
  change tree.Reblanked (tree.insertAt list idx ⟨.whitespace, value, none⟩).2
  generalize (tree.insertAt list idx ⟨.whitespace, value, none⟩).2 = after at h
  refine @reblanked_of_relisted tree after list hwf (h.wellFormed hwf) h.relisted
    ((tree.children list).take idx) [] ((tree.children list).drop idx) [tree.size] ?_ ?_
    (List.forall_mem_nil _) ?_ ?_
  · rw [List.append_nil]
    exact h.children_list
  · rw [h.children_after_list, List.append_assoc, List.singleton_append]
  · rw [List.forall_mem_singleton]
    exact ⟨Nat.le_refl _, tokenHas_iff.mpr ⟨_, h.token?_new, rfl⟩⟩
  · intro id hle hlt
    rw [h.size_eq] at hlt
    rw [Nat.le_antisymm (Nat.le_of_lt_succ hlt) hle]
    exact ⟨value, h.token?_new⟩

theorem reblanked_removeAt {idx : Nat} {child : NodeId}
    (hchild : tree.child? list idx = some child) (hblank : tree.isWhitespace child = true) :
    tree.Reblanked (tree.removeAt list idx) := by
  have h := removed_removeAt hwf hchild
  refine @reblanked_of_relisted tree _ list hwf (h.wellFormed hwf) h.relisted
    ((tree.children list).take idx) [child] ((tree.children list).drop (idx + 1)) [] ?_ ?_ ?_
    (List.forall_mem_nil _) ?_
  · rw [List.append_assoc, List.singleton_append]
    exact h.children_list
  · rw [List.append_nil]
    exact h.children_after_list
  · rw [List.forall_mem_singleton]
    exact hblank
  · intro id hle hlt
    rw [h.size_eq] at hlt
    exact absurd hlt (Nat.not_lt_of_le hle)

theorem reblanked_setValue {id : NodeId} (hblank : tree.isWhitespace id = true) (value : Text) :
    tree.Reblanked (tree.setValue id value) := by
  have hrel : forall other,
      Option.Rel Token.BlankKept (tree.token? other) ((tree.setValue id value).token? other) := by
    intro other
    unfold setValue
    rw [token?_modifyToken]
    by_cases hother : other = id
    · rcases tokenHas_iff.mp hblank with ⟨token, htoken, hwhite⟩
      rw [if_pos hother, hother, htoken]
      exact Option.Rel.some (Token.BlankKept.of_value hwhite value)
    · rw [if_neg hother]
      exact Token.BlankKept.rel_refl _
  have hleaves : forall other, (tree.setValue id value).leaves other = tree.leaves other :=
    leaves_modifyToken id _
  refine ⟨wellFormed_modifyToken id _ hwf, Nat.le_of_eq (size_modifyToken id _).symm,
    fun other _ => kind?_modifyToken id _ other, fun other _ => hrel other, ?_, ?_, ?_⟩
  · intro other hle hlt
    rw [setValue, size_modifyToken] at hlt
    exact absurd hlt (Nat.not_lt_of_le hle)
  · intro other _
    unfold solidLeaves
    rw [hleaves]
    apply List.filter_congr
    intro leaf _
    rw [isWhitespace_eq_of_rel (hrel leaf)]
  · intro other _
    rw [hleaves]
    exact List.filter_sublist

end

/-!
# Many edits
-/

/-- A computation that is given a group edits blanks only.  What it works on may
be more than a tree. -/
def Reblanks {State : Type} (view : State -> Tree) (list : NodeId) (f : State -> State) : Prop :=
  forall state, (view state).WellFormed -> (view state).isGroup list = true ->
    (view state).Reblanked (view (f state))

section

variable {State : Type} {view : State -> Tree}

theorem reblanks_id : Reblanks view list fun state => state :=
  fun _ hwf _ => Reblanked.refl hwf

theorem reblanked_foldl {visit : State -> NodeId -> State}
    (hvisit : forall id, Reblanks view id fun state => visit state id) {ids : List NodeId}
    {state : State} (hwf : (view state).WellFormed)
    (hids : forall id, id ∈ ids -> (view state).isGroup id = true) :
    (view state).Reblanked (view (ids.foldl visit state)) := by
  induction ids generalizing state with
  | nil =>
      exact Reblanked.refl hwf
  | cons id rest ih =>
      have hfirst := hvisit id state hwf (hids id List.mem_cons_self)
      refine hfirst.trans (ih hfirst.wellFormed ?_)
      intro other hother
      exact hfirst.isGroup_of_isGroup (hids other (List.mem_cons_of_mem _ hother))

theorem isGroup_of_mem_sublists {id : NodeId} (h : id ∈ tree.sublists list) :
    tree.isGroup id = true :=
  (List.mem_filter.mp h).2

theorem reblanks_foldl_sublists {visit : State -> NodeId -> State}
    (hvisit : forall id, Reblanks view id fun state => visit state id) :
    Reblanks view list fun state => ((view state).sublists list).foldl visit state :=
  fun _ hwf _ => reblanked_foldl hvisit hwf fun _ hid => isGroup_of_mem_sublists hid

end

theorem childHas_iff {idx : Nat} {p : NodeId -> Bool} :
    tree.childHas list idx p = true <->
      exists id, tree.child? list idx = some id ∧ p id = true := by
  unfold childHas
  cases tree.child? list idx with
  | none =>
      simp
  | some id =>
      simp

/-!
# Many edits of one list
-/

/-- Blanks come into a list and go out of it, one after the other. -/
inductive Relines (list : NodeId) (tree : Tree) : Tree -> Prop where
  | refl : Relines list tree tree
  | insert {middle : Tree} (h : Relines list tree middle) (idx : Nat) (value : Text) :
      Relines list tree (middle.insertBlank list idx value)
  | remove {middle : Tree} (h : Relines list tree middle) {idx : Nat} {child : NodeId}
      (hchild : middle.child? list idx = some child)
      (hblank : middle.isWhitespace child = true) :
      Relines list tree (middle.removeAt list idx)

namespace Relines

variable {middle : Tree}

theorem trans (h : Relines list tree middle) (h' : Relines list middle after) :
    Relines list tree after := by
  induction h' with
  | refl =>
      exact h
  | insert _ idx value ih =>
      exact ih.insert idx value
  | remove _ hchild hblank ih =>
      exact ih.remove hchild hblank

theorem removeBefore (h : Relines list tree middle) {place : Nat}
    (hblank : middle.blankBefore list place = true) :
    Relines list tree (middle.removeAt list (place - 1)) := by
  unfold blankBefore at hblank
  rw [Bool.and_eq_true] at hblank
  rcases childHas_iff.mp hblank.2 with ⟨child, hchild, hwhite⟩
  exact h.remove hchild hwhite

theorem dropBefore (tree : Tree) (list : NodeId) (place : Nat) :
    Relines list tree
      (if tree.blankBefore list place then (tree.removeAt list (place - 1), place - 1)
        else (tree, place)).1 := by
  split
  · rename_i hblank
    exact Relines.refl.removeBefore hblank
  · exact Relines.refl

theorem sweep {step : Tree -> Nat -> Option (Tree × Nat)}
    (hstep : forall {tree after : Tree} {idx next : Nat}, step tree idx = some (after, next) ->
      Relines list tree after) (budget idx : Nat) (tree : Tree) :
    Relines list tree (Tree.sweep step budget idx tree) := by
  induction budget generalizing tree idx with
  | zero =>
      exact Relines.refl
  | succ budget ih =>
      unfold Tree.sweep
      cases hnext : step tree idx with
      | none =>
          exact Relines.refl
      | some result =>
          exact (hstep hnext).trans (ih result.2 result.1)

theorem reblanked (hwf : tree.WellFormed) (hlist : tree.isGroup list = true)
    (h : Relines list tree after) : tree.Reblanked after := by
  induction h with
  | refl =>
      exact Reblanked.refl hwf
  | insert _ idx value ih =>
      exact ih.trans (reblanked_insertBlank ih.wellFormed (ih.isGroup_of_isGroup hlist) idx value)
  | remove _ hchild hblank ih =>
      exact ih.trans (reblanked_removeAt ih.wellFormed hchild hblank)

end Relines

end Tree
end SqlLayout
