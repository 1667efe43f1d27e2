import SqlLayout.Tree.Traverse
import SqlLayout.Proofs.Grouping.Frames
import SqlLayout.Proofs.Tree.Histories

/-!
# Traversals

The leaves of a node are the tokens at and below it, each once.  Those of a group stand
together in the leaves of every node above it.

An iterator that stands before a node gives what the recursion gives for the node, and then
goes on with the rest of its stack.  So in a well-formed tree every iterator comes to its end,
and has followed the recursion.
-/

namespace SqlLayout

/-!
# Runs of an iterator
-/

/-- With turns enough a run has a result, and always the same. -/
def EndsWith {Result : Type} (run : Nat -> Option Result) (result : Result) : Prop :=
  exists bound, forall turns, bound <= turns -> run turns = some result

section

variable {State : Type} {turn : State -> Turn State} {state later : State} {ids : List NodeId}

theorem endsWith_of_done (h : turn state = .done) : EndsWith (collect turn · state) [] := by
  refine ⟨1, fun turns hturns => ?_⟩
  rcases Nat.exists_eq_add_of_le' hturns with ⟨rest, rfl⟩
  dsimp only
  rw [collect, h]

theorem endsWith_of_goOn (h : turn state = .goOn later)
    (hends : EndsWith (collect turn · later) ids) : EndsWith (collect turn · state) ids := by
  rcases hends with ⟨bound, hbound⟩
  refine ⟨bound + 1, fun turns hturns => ?_⟩
  rcases Nat.exists_eq_add_of_le' hturns with ⟨rest, rfl⟩
  dsimp only
  rw [← Nat.add_assoc, collect, h]
  exact hbound _ (Nat.le_add_left _ _)

theorem endsWith_of_give {id : NodeId} (h : turn state = .give id later)
    (hends : EndsWith (collect turn · later) ids) :
    EndsWith (collect turn · state) (id :: ids) := by
  rcases hends with ⟨bound, hbound⟩
  refine ⟨bound + 1, fun turns hturns => ?_⟩
  rcases Nat.exists_eq_add_of_le' hturns with ⟨rest, rfl⟩
  have hlater : collect turn (rest + bound) later = some ids := hbound _ (Nat.le_add_left _ _)
  dsimp only
  rw [← Nat.add_assoc, collect, h]
  dsimp only
  rw [hlater]
  rfl

end

namespace Tree

variable {tree : Tree} {list id leaf other : NodeId} {ids : List NodeId}
  {stack : List (List NodeId)} {more : List NodeId}

/-!
# Where leaves come from
-/

theorem WellFormed.leaves_between (hwf : tree.WellFormed) (hlist : tree.isGroup list = true)
    (hbelow : tree.AtOrAbove id list) :
    exists before behind, tree.leaves id = before ++ tree.leaves list ++ behind := by
  have hsame : Relisted tree list tree := ⟨Nat.le_refl _, hlist, rfl, fun _ _ _ => rfl⟩
  rcases hsame.leavesAround hwf hwf hbelow with ⟨before, behind, hleaves, _⟩
  exact ⟨before, behind, hleaves⟩

theorem WellFormed.atOrAbove_of_mem_leaves (hwf : tree.WellFormed) (hid : id < tree.size)
    (hleaf : leaf ∈ tree.leaves id) : tree.AtOrAbove id leaf ∧ tree.isGroup leaf = false := by
  induction id using hwf.induction_up with
  | step id ih =>
      rcases isGroup_or_token? hid with hgroup | ⟨token, htoken⟩
      · rw [hwf.leaves_group hgroup, List.mem_flatMap] at hleaf
        rcases hleaf with ⟨child, hmem, hleaf⟩
        rcases ih child hmem (hwf.child_lt_size hmem) hleaf with ⟨hbelow, htoken⟩
        exact ⟨Or.inr (hbelow.above_of_parent? (hwf.parent?_of_mem hmem)), htoken⟩
      · rw [leaves_token htoken, List.mem_singleton] at hleaf
        subst hleaf
        exact ⟨Or.inl rfl, isGroup_of_token? htoken⟩

theorem WellFormed.mem_leaves_of_atOrAbove (hwf : tree.WellFormed) (hleaf : leaf < tree.size)
    (htoken : tree.isGroup leaf = false) (hbelow : tree.AtOrAbove id leaf) :
    leaf ∈ tree.leaves id := by
  have hself : leaf ∈ tree.leaves leaf := by
    rcases isGroup_or_token? hleaf with hgroup | ⟨token, hsome⟩
    · rw [htoken] at hgroup
      cases hgroup
    · rw [leaves_token hsome]
      exact List.mem_singleton_self leaf
  rcases hbelow with rfl | habove
  · exact hself
  · induction habove using Relation.TransGen.head_induction_on with
    | single hparent =>
        have hmem := hwf.mem_of_parent? hparent
        rw [hwf.leaves_group (isGroup_of_mem_children hmem)]
        exact List.mem_flatMap.mpr ⟨leaf, hmem, hself⟩
    | head hparent _ ih =>
        have hmem := hwf.mem_of_parent? hparent
        rw [hwf.leaves_group (isGroup_of_mem_children hmem)]
        exact List.mem_flatMap.mpr ⟨_, hmem, ih⟩

theorem value_of_token? {token : Token} (h : tree.token? id = some token) :
    tree.value id = token.value := by
  rw [value, tokens, WellFormed.leaves_token h, List.filterMap_cons_some h, List.filterMap_nil,
    List.flatMap_singleton]

theorem WellFormed.nodup_leaves (hwf : tree.WellFormed) (hid : id < tree.size) :
    (tree.leaves id).Nodup := by
  induction id using hwf.induction_up with
  | step id ih =>
      rcases isGroup_or_token? hid with hgroup | ⟨token, htoken⟩
      · rw [hwf.leaves_group hgroup, List.nodup_flatMap]
        refine ⟨fun child hmem => ih child hmem (hwf.child_lt_size hmem), ?_⟩
        refine (hwf.nodup_children id).imp_of_mem ?_
        intro first second hfirst hsecond hne leaf hleaf hleaf'
        -- A leaf below two children would have two nodes of one depth above it.
        apply hne
        have hbelow := (hwf.atOrAbove_of_mem_leaves (hwf.child_lt_size hfirst) hleaf).1
        have hbelow' := (hwf.atOrAbove_of_mem_leaves (hwf.child_lt_size hsecond) hleaf').1
        apply hwf.eq_of_depth_eq hbelow hbelow'
        rw [hwf.depth_of_mem hfirst, hwf.depth_of_mem hsecond]
      · rw [leaves_token htoken]
        exact List.nodup_singleton id

/-!
# What is below a node
-/

theorem WellFormed.mem_descendants_iff (hwf : tree.WellFormed) (hid : id < tree.size) :
    other ∈ tree.descendants id <-> tree.Above id other := by
  constructor
  · intro hmem
    induction id using hwf.induction_up with
    | step id ih =>
        rw [hwf.descendants_eq hid, List.mem_flatMap] at hmem
        rcases hmem with ⟨child, hchild, hmem⟩
        have hstep := above_of_parent? (hwf.parent?_of_mem hchild)
        rcases List.mem_cons.mp hmem with rfl | hbelow
        · exact hstep
        · exact hstep.trans (ih child hchild (hwf.child_lt_size hchild) hbelow)
  · intro habove
    induction habove using Relation.TransGen.head_induction_on with
    | single hparent =>
        rw [hwf.descendants_eq hid, List.mem_flatMap]
        exact ⟨other, hwf.mem_of_parent? hparent, List.mem_cons_self⟩
    | head hparent _ ih =>
        rw [hwf.descendants_eq hid, List.mem_flatMap]
        have hchild := hwf.mem_of_parent? hparent
        exact ⟨_, hchild, List.mem_cons_of_mem _ (ih (hwf.child_lt_size hchild))⟩

theorem WellFormed.nodup_descendants (hwf : tree.WellFormed) (hid : id < tree.size) :
    (tree.descendants id).Nodup := by
  induction id using hwf.induction_up with
  | step id ih =>
      have hatOrAbove : forall child, child ∈ tree.children id -> forall low,
          low ∈ child :: tree.descendants child -> tree.AtOrAbove child low := by
        intro child hmem low hlow
        rcases List.mem_cons.mp hlow with rfl | hbelow
        · exact Or.inl rfl
        · exact Or.inr ((hwf.mem_descendants_iff (hwf.child_lt_size hmem)).mp hbelow)
      rw [hwf.descendants_eq hid, List.nodup_flatMap]
      constructor
      · intro child hmem
        have hchild := hwf.child_lt_size hmem
        refine List.nodup_cons.mpr ⟨fun hself => ?_, ih child hmem hchild⟩
        exact hwf.not_above_self child ((hwf.mem_descendants_iff hchild).mp hself)
      · refine (hwf.nodup_children id).imp_of_mem ?_
        intro first second hfirst hsecond hne low hlow hlow'
        exact hne (hwf.eq_of_children_above hfirst hsecond (hatOrAbove first hfirst low hlow)
          (hatOrAbove second hsecond low hlow'))

theorem WellFormed.value_group (hwf : tree.WellFormed) (hgroup : tree.isGroup id = true) :
    tree.value id = (tree.children id).flatMap tree.value := by
  unfold value
  rw [hwf.tokens_group hgroup, List.flatMap_assoc]

theorem WellFormed.value_eq_leaves (hwf : tree.WellFormed) (hid : id < tree.size) :
    tree.value id = (tree.leaves id).flatMap tree.value := by
  induction id using hwf.induction_up with
  | step id ih =>
      rcases isGroup_or_token? hid with hgroup | ⟨token, htoken⟩
      · rw [hwf.value_group hgroup, hwf.leaves_group hgroup, List.flatMap_assoc]
        exact List.flatMap_congr fun child hmem => ih child hmem (hwf.child_lt_size hmem)
      · rw [leaves_token htoken, List.flatMap_singleton]

/-!
# The iterator over leaves
-/

theorem turnLeaves_start (tree : Tree) (id : NodeId) (stack : List (List NodeId)) :
    tree.turnLeaves { start := some id, stack := stack } =
      if tree.isGroup id then .goOn { stack := tree.children id :: stack }
      else .give id { stack := stack } := rfl

theorem turnLeaves_next (tree : Tree) (id : NodeId) (ids : List NodeId)
    (stack : List (List NodeId)) :
    tree.turnLeaves { stack := (id :: ids) :: stack } =
      if tree.isGroup id then .goOn { stack := tree.children id :: ids :: stack }
      else .give id { stack := ids :: stack } := rfl

def LeavesFrom (tree : Tree) (stack : List (List NodeId)) (leaves : List NodeId) : Prop :=
  EndsWith (collect tree.turnLeaves · { stack := stack }) leaves

theorem leavesFrom_nil : tree.LeavesFrom [] [] := endsWith_of_done rfl

theorem leavesFrom_done (h : tree.LeavesFrom stack more) : tree.LeavesFrom ([] :: stack) more :=
  endsWith_of_goOn rfl h

theorem leavesFrom_group (hgroup : tree.isGroup id = true)
    (h : tree.LeavesFrom (tree.children id :: ids :: stack) more) :
    tree.LeavesFrom ((id :: ids) :: stack) more := by
  refine endsWith_of_goOn ?_ h
  rw [turnLeaves_next, if_pos hgroup]

theorem leavesFrom_leaf (hleaf : tree.isGroup id = false)
    (h : tree.LeavesFrom (ids :: stack) more) :
    tree.LeavesFrom ((id :: ids) :: stack) (id :: more) := by
  refine endsWith_of_give ?_ h
  rw [turnLeaves_next, if_neg (Bool.eq_false_iff.mp hleaf)]

/-- If before each of some nodes the iterator gives the leaves of the node, it does so for all
of them. -/
theorem leavesFrom_row
    (hrow : forall id, id ∈ ids -> forall rest more, tree.LeavesFrom (rest :: stack) more ->
      tree.LeavesFrom ((id :: rest) :: stack) (tree.leaves id ++ more))
    (h : tree.LeavesFrom stack more) :
    tree.LeavesFrom (ids :: stack) (ids.flatMap tree.leaves ++ more) := by
  induction ids with
  | nil =>
      exact leavesFrom_done h
  | cons id rest ih =>
      rw [List.flatMap_cons, List.append_assoc]
      apply hrow id List.mem_cons_self
      exact ih fun other hother => hrow other (List.mem_cons_of_mem _ hother)

theorem WellFormed.leavesFrom_node (hwf : tree.WellFormed) (hid : id < tree.size)
    (h : tree.LeavesFrom (ids :: stack) more) :
    tree.LeavesFrom ((id :: ids) :: stack) (tree.leaves id ++ more) := by
  induction id using hwf.induction_up generalizing ids stack more with
  | step id ih =>
      rcases isGroup_or_token? hid with hgroup | ⟨token, htoken⟩
      · rw [hwf.leaves_group hgroup]
        apply leavesFrom_group hgroup
        exact leavesFrom_row (fun child hmem rest more => ih child hmem (hwf.child_lt_size hmem)) h
      · rw [leaves_token htoken]
        exact leavesFrom_leaf (isGroup_of_token? htoken) h

theorem WellFormed.leavesOnStack_endsWith (hwf : tree.WellFormed) (hid : id < tree.size) :
    EndsWith (tree.leavesOnStack · id) (tree.leaves id) := by
  rcases isGroup_or_token? hid with hgroup | ⟨token, htoken⟩
  · have hall : tree.LeavesFrom [tree.children id]
        ((tree.children id).flatMap tree.leaves ++ []) :=
      leavesFrom_row (fun child hmem rest more => hwf.leavesFrom_node (hwf.child_lt_size hmem))
        leavesFrom_nil
    rw [List.append_nil, ← hwf.leaves_group hgroup] at hall
    refine endsWith_of_goOn ?_ hall
    rw [turnLeaves_start, if_pos hgroup]
  · rw [leaves_token htoken]
    refine endsWith_of_give ?_ leavesFrom_nil
    rw [turnLeaves_start, if_neg (Bool.eq_false_iff.mp (isGroup_of_token? htoken))]

/-!
# The iterator over descendants
-/

def NodesFrom (tree : Tree) (ids nodes : List NodeId) : Prop :=
  EndsWith (collect tree.turnDescendants · ids) nodes

theorem nodesFrom_nil : tree.NodesFrom [] [] := endsWith_of_done rfl

theorem nodesFrom_cons (h : tree.NodesFrom (tree.children id ++ ids) more) :
    tree.NodesFrom (id :: ids) (id :: more) :=
  endsWith_of_give rfl h

/-- If before the children of each of some nodes the iterator gives what is below the node, then
before these nodes it gives each of them, followed by what is below it. -/
theorem nodesFrom_row {front : List NodeId}
    (hrow : forall child, child ∈ front -> forall rest more, tree.NodesFrom rest more ->
      tree.NodesFrom (tree.children child ++ rest) (tree.descendants child ++ more))
    (h : tree.NodesFrom ids more) :
    tree.NodesFrom (front ++ ids)
      ((front.flatMap fun child => child :: tree.descendants child) ++ more) := by
  induction front with
  | nil =>
      exact h
  | cons child rest ih =>
      rw [List.flatMap_cons, List.append_assoc]
      apply nodesFrom_cons
      apply hrow child List.mem_cons_self
      exact ih fun other hother => hrow other (List.mem_cons_of_mem _ hother)

theorem WellFormed.nodesFrom_children (hwf : tree.WellFormed) (hid : id < tree.size)
    (h : tree.NodesFrom ids more) :
    tree.NodesFrom (tree.children id ++ ids) (tree.descendants id ++ more) := by
  induction id using hwf.induction_up generalizing ids more with
  | step id ih =>
      rw [hwf.descendants_eq hid]
      exact nodesFrom_row (fun child hmem rest more => ih child hmem (hwf.child_lt_size hmem)) h

theorem WellFormed.descendantsOnStack_endsWith (hwf : tree.WellFormed) (hid : id < tree.size) :
    EndsWith (tree.descendantsOnStack · id) (tree.descendants id) := by
  have hall := hwf.nodesFrom_children hid nodesFrom_nil
  rw [List.append_nil, List.append_nil] at hall
  exact hall

theorem WellFormed.valueOnStack_endsWith (hwf : tree.WellFormed) (hid : id < tree.size) :
    EndsWith (tree.valueOnStack · id) (tree.value id) := by
  rcases hwf.leavesOnStack_endsWith hid with ⟨bound, hbound⟩
  refine ⟨bound, fun turns hturns => ?_⟩
  have hleaves : tree.leavesOnStack turns id = some (tree.leaves id) := hbound turns hturns
  unfold valueOnStack
  cases htoken : tree.token? id with
  | some token =>
      dsimp only
      rw [value_of_token? htoken]
  | none =>
      dsimp only
      rw [tokensOnStack, hleaves]
      rfl

/-!
# All traversals
-/

/-- In a well-formed tree the iterators come to their end at every node.  The one over leaves
gives the tokens at and below the node from left to right: the node itself if it is a token,
else those of its children one after the other.  The other one gives each node strictly below
it once, every child before what is below that child.  The text is put together from the texts
of the leaves, or from those of the children. -/
theorem iterators_follow_recursion (hwf : tree.WellFormed) (hid : id < tree.size) :
    (EndsWith (tree.leavesOnStack · id) (tree.leaves id) ∧
      tree.leaves id =
        (if tree.isGroup id then (tree.children id).flatMap tree.leaves else [id]) ∧
      (tree.leaves id).Nodup ∧
      forall leaf, leaf ∈ tree.leaves id <->
        (exists token, tree.token? leaf = some token) ∧ tree.AtOrAbove id leaf) ∧
    (EndsWith (tree.descendantsOnStack · id) (tree.descendants id) ∧
      tree.descendants id =
        ((tree.children id).flatMap fun child => child :: tree.descendants child) ∧
      (tree.descendants id).Nodup ∧
      forall other, other ∈ tree.descendants id <-> tree.Above id other) ∧
    (EndsWith (tree.valueOnStack · id) (tree.value id) ∧
      tree.value id = (tree.leaves id).flatMap tree.value ∧
      (tree.isGroup id = true -> tree.value id = (tree.children id).flatMap tree.value) ∧
      forall token, tree.token? id = some token -> tree.value id = token.value) := by
  refine ⟨⟨hwf.leavesOnStack_endsWith hid, ?_, hwf.nodup_leaves hid, ?_⟩,
    ⟨hwf.descendantsOnStack_endsWith hid, hwf.descendants_eq hid, hwf.nodup_descendants hid,
      fun other => hwf.mem_descendants_iff hid⟩,
    ⟨hwf.valueOnStack_endsWith hid, hwf.value_eq_leaves hid, hwf.value_group,
      fun token => value_of_token?⟩⟩
  · rcases isGroup_or_token? hid with hgroup | ⟨token, htoken⟩
    · rw [if_pos hgroup, hwf.leaves_group hgroup]
    · rw [if_neg (Bool.eq_false_iff.mp (isGroup_of_token? htoken)),
        WellFormed.leaves_token htoken]
  · intro leaf
    constructor
    · intro hmem
      rcases hwf.atOrAbove_of_mem_leaves hid hmem with ⟨hbelow, hleaf⟩
      rcases isGroup_or_token? (lt_size_of_atOrAbove hid hbelow) with hgroup | htoken
      · rw [hgroup] at hleaf
        cases hleaf
      · exact ⟨htoken, hbelow⟩
    · rintro ⟨⟨token, htoken⟩, hbelow⟩
      exact hwf.mem_leaves_of_atOrAbove (lt_size_of_token? htoken) (isGroup_of_token? htoken)
        hbelow

/-- An empty group stands before a token: it is among the nodes, gives no leaf and adds nothing
to the text. -/
theorem iterators_follow_recursion_empty_group :
    exists tree, TreeEdit.Reaches tree ∧ tree.WellFormed ∧ 2 < tree.size ∧
      tree.children 2 = [3, 1] ∧ tree.isGroup 3 = true ∧ tree.children 3 = [] ∧
      EndsWith (tree.leavesOnStack · 2) [1] ∧ EndsWith (tree.descendantsOnStack · 2) [3, 1] ∧
      EndsWith (tree.valueOnStack · 2) ['b'] := by
  have hgroup : (TreeEdit.groupTokens 2 .identifier 0 0 false).apply
      (Statement.ofTokens [⟨.name, ['a'], some 0⟩, ⟨.name, ['b'], some 1⟩]).tree =
        .ok (3, { nodes := #[⟨some 3, .token ⟨.name, ['a'], some 0⟩⟩,
          ⟨some 2, .token ⟨.name, ['b'], some 1⟩⟩, ⟨none, .group .statement [3, 1]⟩,
          ⟨some 2, .group .identifier [0]⟩] }) := by
    decide
  have hremove : (TreeEdit.remove 3 0).apply
      { nodes := #[⟨some 3, .token ⟨.name, ['a'], some 0⟩⟩,
          ⟨some 2, .token ⟨.name, ['b'], some 1⟩⟩, ⟨none, .group .statement [3, 1]⟩,
          ⟨some 2, .group .identifier [0]⟩] } =
        .ok (0, { nodes := #[⟨none, .token ⟨.name, ['a'], some 0⟩⟩,
          ⟨some 2, .token ⟨.name, ['b'], some 1⟩⟩, ⟨none, .group .statement [3, 1]⟩,
          ⟨some 2, .group .identifier []⟩] }) := by
    decide
  have hreaches := ((TreeEdit.Reaches.flat _).step (by decide) hgroup).step (by decide) hremove
  have hwf := hreaches.wellFormed
  rcases iterators_follow_recursion hwf (by decide : 2 < _) with
    ⟨⟨hleaves, _⟩, ⟨hnodes, _⟩, hvalue, _⟩
  exact ⟨_, hreaches, hwf, by decide, by decide, by decide, by decide, hleaves, hnodes, hvalue⟩

end Tree
end SqlLayout
