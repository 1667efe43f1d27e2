import SqlLayout.Proofs.Tree.RegroupLeaves
import SqlLayout.Statement

/-!
# Flat statements

The flat statement over some tokens is well-formed.  Its leaves are the tokens
in order, and it holds nothing else besides the root.
-/

namespace SqlLayout
namespace Statement

variable (tokens : List Token)

theorem root_ofTokens : (ofTokens tokens).root = tokens.length := by
  simp [ofTokens, Tree.addGroup, Tree.size]

theorem size_ofTokens : (ofTokens tokens).tree.size = tokens.length + 1 := by
  unfold ofTokens Tree.addGroup
  dsimp only
  rw [Tree.size_adopt, Tree.size_push]
  simp [Tree.size]

theorem content?_ofTokens (id : NodeId) :
    (ofTokens tokens).tree.content? id =
      if id = tokens.length then some (.group .statement (List.range tokens.length))
      else tokens[id]?.map Content.token := by
  unfold ofTokens Tree.addGroup
  dsimp only
  rw [Tree.content?_adopt, Tree.content?_push]
  simp [Tree.size, Tree.content?, Function.comp_def]

theorem parent?_ofTokens (id : NodeId) :
    (ofTokens tokens).tree.parent? id =
      if id < tokens.length then some tokens.length else none := by
  unfold ofTokens Tree.addGroup
  dsimp only
  rw [Tree.parent?_adopt, Tree.parent?_push, Tree.size_push]
  by_cases hid : id < tokens.length
  · have hlt : id < tokens.length + 1 := Nat.lt_succ_of_lt hid
    simp [Tree.size, hid, hlt]
  · simp [Tree.size, Tree.parent?, hid]

theorem children_ofTokens (id : NodeId) :
    (ofTokens tokens).tree.children id =
      if id = tokens.length then List.range tokens.length else [] := by
  unfold Tree.children
  rw [content?_ofTokens]
  by_cases hid : id = tokens.length
  · rw [if_pos hid, if_pos hid]
  · rw [if_neg hid, if_neg hid]
    cases tokens[id]? with
    | none =>
        rfl
    | some token =>
        rfl

theorem kind?_ofTokens (id : NodeId) :
    (ofTokens tokens).tree.kind? id = if id = tokens.length then some .statement else none := by
  unfold Tree.kind?
  rw [content?_ofTokens]
  by_cases hid : id = tokens.length
  · rw [if_pos hid, if_pos hid]
  · rw [if_neg hid, if_neg hid]
    cases tokens[id]? with
    | none =>
        rfl
    | some token =>
        rfl

theorem token?_ofTokens (id : NodeId) : (ofTokens tokens).tree.token? id = tokens[id]? := by
  unfold Tree.token?
  rw [content?_ofTokens]
  by_cases hid : id = tokens.length
  · rw [if_pos hid, hid, List.getElem?_eq_none (Nat.le_refl _)]
  · rw [if_neg hid]
    cases tokens[id]? with
    | none =>
        rfl
    | some token =>
        rfl

theorem wellFormed_ofTokens : (ofTokens tokens).tree.WellFormed := by
  constructor
  · intro child group
    rw [children_ofTokens, parent?_ofTokens]
    by_cases hgroup : group = tokens.length
    · simp [hgroup]
    · simp [hgroup, Ne.symm hgroup]
  · intro group
    rw [children_ofTokens]
    split
    · exact List.nodup_range
    · exact List.nodup_nil
  · have hroot : Acc (fun parent child => (ofTokens tokens).tree.parent? child = some parent)
        tokens.length := by
      constructor
      intro parent hparent
      rw [parent?_ofTokens, if_neg (Nat.lt_irrefl _)] at hparent
      cases hparent
    constructor
    intro id
    constructor
    intro parent hparent
    rw [parent?_ofTokens] at hparent
    split at hparent
    · cases hparent
      exact hroot
    · cases hparent

theorem isGroup_root : (ofTokens tokens).tree.isGroup (ofTokens tokens).root = true := by
  apply Tree.isGroup_iff_kind?.mpr
  have hcontent := content?_ofTokens tokens tokens.length
  rw [if_pos rfl, ← root_ofTokens] at hcontent
  exact ⟨.statement, Tree.kind?_of_content? hcontent⟩

theorem root_lt_size : (ofTokens tokens).root < (ofTokens tokens).tree.size := by
  rw [root_ofTokens, size_ofTokens]
  exact Nat.lt_succ_self _

theorem parent?_root : (ofTokens tokens).tree.parent? (ofTokens tokens).root = none := by
  rw [root_ofTokens, parent?_ofTokens, if_neg (Nat.lt_irrefl _)]

theorem leaves_ofTokens :
    (ofTokens tokens).tree.leaves (ofTokens tokens).root = List.range tokens.length := by
  rw [(wellFormed_ofTokens tokens).leaves_group (isGroup_root tokens), root_ofTokens,
    children_ofTokens, if_pos rfl]
  have hleaf : forall id, id ∈ List.range tokens.length ->
      (ofTokens tokens).tree.leaves id = [id] := by
    intro id hid
    have hlt := List.mem_range.mp hid
    apply Tree.WellFormed.leaves_token
    rw [token?_ofTokens, List.getElem?_eq_getElem hlt]
  rw [List.flatMap_congr hleaf, List.flatMap_singleton']

theorem filterMap_range_getElem? {alpha : Type} (l : List alpha) :
    (List.range l.length).filterMap (fun i => l[i]?) = l := by
  induction l with
  | nil =>
      rfl
  | cons a rest ih =>
      rw [List.length_cons, List.range_succ_eq_map, List.filterMap_cons, List.filterMap_map]
      simp only [List.getElem?_cons_zero, Function.comp_def, List.getElem?_cons_succ, ih]

theorem tokens_ofTokens : (ofTokens tokens).tokens = tokens := by
  unfold Statement.tokens Tree.tokens
  rw [leaves_ofTokens, funext (token?_ofTokens tokens), filterMap_range_getElem?]

end Statement
end SqlLayout
