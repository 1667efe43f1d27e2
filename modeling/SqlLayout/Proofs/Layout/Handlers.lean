import SqlLayout.Layout.Margin
import SqlLayout.Layout.River
import SqlLayout.Proofs.Layout.StrippingBlanks

/-!
# The handlers edit blanks only

Spacing, aligning and breaking at the margin: each handler takes a child out of a list
only if the child is blank.  Indenting has a module of its own.
-/

namespace SqlLayout
namespace Tree

variable {tree : Tree} {list : NodeId}

/-!
# Going on after edits
-/

theorem Reblanks.after {State : Type} {view : State -> Tree} {g : State -> State}
    (hg : Reblanks view list g) {start : Tree} {state : State}
    (h : start.Reblanked (view state)) (hlist : start.isGroup list = true) :
    start.Reblanked (view (g state)) :=
  h.trans (hg state h.wellFormed (h.isGroup_of_isGroup hlist))

/-!
# Spacing
-/

theorem relines_spaceNextOperator {after : Tree} {idx next : Nat}
    (h : spaceNextOperator list tree idx = some (after, next)) : Relines list tree after := by
  unfold spaceNextOperator at h
  split at h
  · cases h
  · rename_i place _ _
    have hright : Relines list tree
        (if tree.childHas list (place + 1) (fun id => !tree.isWhitespace id) then
          tree.insertBlank list (place + 1) [' '] else tree) := by
      split
      · exact Relines.refl.insert _ _
      · exact Relines.refl
    dsimp only at h
    generalize (if tree.childHas list (place + 1) (fun id => !tree.isWhitespace id) then
      tree.insertBlank list (place + 1) [' '] else tree) = spaced at h hright
    split at h
    · cases h
      exact hright.insert _ _
    · cases h
      exact hright

theorem reblanks_spaceOperatorsWithin (depth : Nat) (list : NodeId) :
    Reblanks id list (spaceOperatorsWithin depth list) := by
  induction depth generalizing list with
  | zero =>
      exact reblanks_id
  | succ depth ih =>
      intro tree hwf hlist
      have hbelow := reblanks_foldl_sublists ih tree hwf hlist
      exact hbelow.trans ((Relines.sweep relines_spaceNextOperator _ 0 _).reblanked
        hbelow.wellFormed (hbelow.isGroup_of_isGroup hlist))

end Tree

/-!
# Aligning
-/

namespace River

open Tree

variable {tree after : Tree} {list : NodeId} {r : River} {visit : NodeId -> Nat -> Tree -> Tree}

theorem relines_splitNextKeyword {base idx next : Nat}
    (h : r.splitNextKeyword list base tree idx = some (after, next)) :
    Relines list tree after := by
  unfold splitNextKeyword at h
  split at h
  · cases h
  · rename_i place _
    split at h
    · cases h
    · have hdrop := Relines.dropBefore tree list place
      dsimp only at h
      generalize (if tree.blankBefore list place then (tree.removeAt list (place - 1), place - 1)
        else (tree, place)) = dropped at h hdrop
      cases h
      exact hdrop.insert _ _

theorem relines_breakNextComma {newline : Text} {idx next : Nat}
    (h : breakNextComma newline list tree idx = some (after, next)) :
    Relines list tree after := by
  unfold breakNextComma at h
  split at h
  · cases h
  · split at h
    · cases h
    · rename_i comma _ _ _ next hnext
      cases h
      refine Relines.insert ?_ _ _
      split
      · rename_i hblank
        exact Relines.refl.remove hnext hblank
      · exact Relines.refl

theorem relines_padConditions (list : NodeId) (width : Nat) (conditions : List (List NodeId))
    (tree : Tree) : Relines list tree (r.padConditions list width conditions tree) := by
  induction conditions generalizing tree with
  | nil =>
      exact Relines.refl
  | cons condition rest ih =>
      unfold padConditions
      refine Relines.trans ?_ (ih _)
      split
      · split
        · exact Relines.refl.insert _ _
        · exact Relines.refl
      · exact Relines.refl

theorem relines_breakLeaders (list : NodeId) (column : Nat) (leaders : List NodeId)
    (tree : Tree) : Relines list tree (r.breakLeaders list column leaders tree) := by
  induction leaders generalizing tree with
  | nil =>
      exact Relines.refl
  | cons leader rest ih =>
      unfold breakLeaders
      refine Relines.trans ?_ (ih _)
      split
      · exact Relines.refl
      · dsimp only
        split
        · rename_i hblank
          exact (Relines.refl.removeBefore hblank).insert _ _
        · exact Relines.refl.insert _ _

theorem relines_processCase (list : NodeId) (base : Nat) (tree : Tree) :
    Relines list tree (r.processCase list base tree) := by
  unfold processCase
  extract_lets column arms closing conditions width padded
  exact (relines_padConditions list width conditions tree).trans
    (relines_breakLeaders list column _ padded)

section

variable (hvisit : forall list base, Reblanks id list (visit list base))
include hvisit

theorem reblanks_processDefault (list : NodeId) (base : Nat) :
    Reblanks id list (r.processDefault visit list base) := by
  intro tree hwf hlist
  have hsplit : Relines list tree (tree.sweepList list (r.splitNextKeyword list base)) :=
    Relines.sweep relines_splitNextKeyword _ 0 tree
  exact (reblanks_foldl_sublists fun sublist tree => hvisit sublist _ tree).after
    (hsplit.reblanked hwf hlist) hlist

theorem reblanks_processParenthesis (list : NodeId) (base : Nat) :
    Reblanks id list (r.processParenthesis visit list base) := by
  intro tree hwf hlist
  change tree.Reblanked (r.processParenthesis visit list base tree)
  unfold processParenthesis
  extract_lets isSubquery isClosed inner opened closed
  split
  · have hclosed : tree.Reblanked closed :=
      Relines.reblanked hwf hlist ((Relines.refl.insert _ _).insert _ _)
    have hinside := (reblanks_processDefault (r := r) hvisit list inner).after hclosed hlist
    simp only [id_eq] at hinside
    exact hinside
  · exact Reblanked.refl hwf

theorem reblanks_processIdentifierList (list : NodeId) (base : Nat) :
    Reblanks id list (r.processIdentifierList visit list base) := by
  intro tree hwf hlist
  have hbroken : Relines list tree
      (tree.sweepList list (breakNextComma (r.newline (keywordWidth + base + 1)) list)) :=
    Relines.sweep relines_breakNextComma _ 0 tree
  exact (reblanks_foldl_sublists fun sublist => hvisit sublist base).after
    (hbroken.reblanked hwf hlist) hlist

end

theorem reblanks_processList (depth : Nat) (list : NodeId) (base : Nat) :
    Reblanks id list (r.processList depth list base) := by
  induction depth generalizing list base with
  | zero =>
      exact reblanks_id
  | succ depth ih =>
      intro tree hwf hlist
      change tree.Reblanked (r.processList (depth + 1) list base tree)
      unfold processList
      split
      · exact reblanks_processParenthesis ih list base tree hwf hlist
      · exact reblanks_processIdentifierList ih list base tree hwf hlist
      · exact (relines_processCase list base tree).reblanked hwf hlist
      · exact reblanks_processDefault ih list base tree hwf hlist

end River

/-!
# The margin
-/

namespace Margin

open Tree

variable {list : NodeId} {visit : NodeId -> Margin × Tree -> Margin × Tree}

theorem reblanked_breakBefore {tree : Tree} (hwf : tree.WellFormed)
    (hlist : tree.isGroup list = true) (idx : Nat) (newline : Text) :
    tree.Reblanked (breakBefore list idx newline tree).1 := by
  unfold breakBefore
  split
  · split
    · rename_i hblank
      exact reblanked_setValue hwf hblank newline
    · exact reblanked_insertBlank hwf hlist _ _
  · exact reblanked_insertBlank hwf hlist _ _

theorem reblanks_writeChildren (hvisit : forall id, Reblanks Prod.snd id (visit id))
    (list : NodeId) (budget idx : Nat) :
    Reblanks Prod.snd list (writeChildren visit list budget idx) := by
  induction budget generalizing idx with
  | zero =>
      exact reblanks_id
  | succ budget ih =>
      rintro ⟨m, tree⟩ hwf hlist
      unfold writeChildren
      dsimp only
      split
      · exact Reblanked.refl hwf
      · rename_i id hchild
        split
        · exact ih _ (_, tree) hwf hlist
        · split
          · rename_i hgroup
            rw [Bool.and_eq_true] at hgroup
            exact (ih _).after (hvisit id (m, tree) hwf hgroup.1) hlist
          · split
            · exact (ih _).after (reblanked_breakBefore hwf hlist idx _) hlist
            · exact ih _ (_, tree) hwf hlist

theorem reblanks_writeList (depth : Nat) (list : NodeId) :
    Reblanks Prod.snd list (writeList depth list) := by
  induction depth generalizing list with
  | zero =>
      exact reblanks_id
  | succ depth ih =>
      intro state
      exact reblanks_writeChildren ih list _ 0 state

end Margin
end SqlLayout
