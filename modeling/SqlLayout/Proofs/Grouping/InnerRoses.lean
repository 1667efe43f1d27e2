import SqlLayout.Proofs.Grouping.FlatStatements

/-!
# What is below a rose

The groups below a node can be told from the rose that stands there.  What a rose lacks
no rose below it has, and the tokens of a rose below it are some of its own, side by
side.
-/

namespace SqlLayout

open Tree

namespace Rose

mutual

/-- The roses strictly below a rose in pre-order. -/
def inner : Rose -> List Rose
  | .token _ => []
  | .group _ children => innerOf children

def innerOf : List Rose -> List Rose
  | [] => []
  | rose :: rest => rose :: (rose.inner ++ innerOf rest)

end

theorem innerOf_eq_flatMap (roses : List Rose) :
    innerOf roses = roses.flatMap fun rose => rose :: rose.inner := by
  induction roses with
  | nil =>
      rfl
  | cons rose rest ih =>
      rw [innerOf, List.flatMap_cons, ih, List.cons_append]

theorem mem_inner_iff {kind : GroupKind} {children : List Rose} {rose : Rose} :
    rose ∈ (group kind children).inner <->
      exists child, child ∈ children ∧ (rose = child ∨ rose ∈ child.inner) := by
  rw [inner, innerOf_eq_flatMap, List.mem_flatMap]
  simp only [List.mem_cons]

theorem lacks_of_mem_inner {trigger : Trigger} {low : Rose} :
    forall rose : Rose, rose.Lacks trigger -> low ∈ rose.inner -> low.Lacks trigger
  | .token _, _, hlow => absurd hlow List.not_mem_nil
  | .group _ children, h, hlow => by
      rcases mem_inner_iff.mp hlow with ⟨child, hchild, rfl | hmem⟩
      · exact (lacks_group_iff.mp h).2 _ hchild
      · exact lacks_of_mem_inner child ((lacks_group_iff.mp h).2 child hchild) hmem

theorem filter_innerOf_of_lacks {trigger : Trigger} {roses : List Rose}
    (h : forall rose, rose ∈ roses -> rose.Lacks trigger) :
    (innerOf roses).filter (sets trigger) = [] := by
  rw [innerOf_eq_flatMap]
  apply List.filter_eq_nil_iff.mpr
  intro low hlow
  rcases List.mem_flatMap.mp hlow with ⟨rose, hrose, hmem⟩
  have hlacks : low.Lacks trigger := by
    rcases List.mem_cons.mp hmem with rfl | hinner
    · exact h _ hrose
    · exact lacks_of_mem_inner rose (h rose hrose) hinner
  rw [hlacks.sets_eq_false]
  exact Bool.false_ne_true

theorem infix_of_mem_inner {low : Rose} :
    forall rose : Rose, low ∈ rose.inner -> low.tokens <:+: rose.tokens
  | .token _, hlow => absurd hlow List.not_mem_nil
  | .group _ children, hlow => by
      rcases mem_inner_iff.mp hlow with ⟨child, hchild, rfl | hmem⟩
      · exact infix_tokensOf hchild
      · exact (infix_of_mem_inner child hmem).trans (infix_tokensOf hchild)

end Rose

namespace Tree

variable {tree : Tree} {id : NodeId}

theorem WellFormed.descendant_lt_size (h : tree.WellFormed) (hid : id < tree.size) {low : NodeId}
    (hlow : low ∈ tree.descendants id) : low < tree.size := by
  induction id using h.induction_up with
  | step id ih =>
      rw [h.descendants_eq hid, List.mem_flatMap] at hlow
      rcases hlow with ⟨child, hmem, hlow⟩
      have hchild := h.child_lt_size hmem
      rcases List.mem_cons.mp hlow with rfl | hbelow
      · exact hchild
      · exact ih child hmem hchild hbelow

theorem WellFormed.roses_descendants (h : tree.WellFormed) (hid : id < tree.size) :
    (tree.descendants id).map tree.rose = (tree.rose id).inner := by
  induction id using h.induction_up with
  | step id ih =>
      rw [h.descendants_eq hid]
      rcases isGroup_or_token? hid with hgroup | ⟨token, htoken⟩
      · rcases isGroup_iff_kind?.mp hgroup with ⟨kind, hkind⟩
        rw [h.rose_of_kind? hkind, Rose.inner, Rose.innerOf_eq_flatMap, List.map_flatMap,
          List.flatMap_map]
        apply List.flatMap_congr
        intro child hmem
        rw [List.map_cons, ih child hmem (h.child_lt_size hmem)]
      · have hempty : tree.children id = [] := by
          unfold token? at htoken
          unfold children
          split at htoken
          · rename_i hcontent
            rw [hcontent]
          · cases htoken
        rw [rose_of_token? htoken, hempty]
        rfl

theorem WellFormed.groups_descendants (h : tree.WellFormed) (hid : id < tree.size)
    (kind : GroupKind) :
    ((tree.descendants id).filter (tree.isKind · kind)).map tree.rose =
      (tree.rose id).inner.filter (Rose.sets { kind := (· == kind) }) := by
  rw [← h.roses_descendants hid, List.filter_map]
  congr 1
  apply List.filter_congr
  intro low hlow
  rw [Function.comp_apply, h.sets_rose (h.descendant_lt_size hid hlow)]
  unfold Trigger.fires tokenHas isKind
  cases tree.kind? low <;> cases tree.token? low <;> rfl

end Tree
end SqlLayout
