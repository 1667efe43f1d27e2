import Mathlib.Data.List.Induction
import SqlLayout.Tree.Basic

/-!
# What searches find

A hit of a search is a child of the list at its position; the children that the
search passed over were refused.
-/

namespace SqlLayout

theorem exists_items_between {alpha : Type} {items : List alpha} {i j : Nat} {left right : alpha}
    (hleft : items[i]? = some left) (hright : items[j]? = some right) (hlt : i < j) :
    exists middle, items = items.take i ++ left :: (middle ++ right :: items.drop (j + 1)) ∧
      forall item, item ∈ middle -> exists k, i < k ∧ k < j ∧ items[k]? = some item := by
  rcases List.getElem?_eq_some_iff.mp hleft with ⟨hi, hgetLeft⟩
  rcases List.getElem?_eq_some_iff.mp hright with ⟨hj, hgetRight⟩
  refine ⟨(items.drop (i + 1)).take (j - (i + 1)), ?_, ?_⟩
  · have hbehind : (items.drop (i + 1)).drop (j - (i + 1)) = right :: items.drop (j + 1) := by
      rw [List.drop_drop, show i + 1 + (j - (i + 1)) = j by omega, ← hgetRight,
        List.getElem_cons_drop]
    rw [← hbehind, List.take_append_drop, ← hgetLeft, List.getElem_cons_drop,
      List.take_append_drop]
  · intro item hitem
    rcases List.mem_iff_getElem?.mp hitem with ⟨k, hk⟩
    rw [List.getElem?_take] at hk
    split at hk
    · rename_i hbound
      rw [List.getElem?_drop] at hk
      exact ⟨i + 1 + k, by omega, by omega, hk⟩
    · cases hk

namespace Tree

variable {tree : Tree} {list : NodeId} {p : NodeId -> Bool}

/-!
# Searching forwards
-/

theorem firstFrom_some {ids : List NodeId} {start idx : Nat} {id : NodeId}
    (h : firstFrom p start ids = some (idx, id)) :
    start <= idx ∧ ids[idx - start]? = some id ∧ p id = true ∧
      forall j other, j < idx - start -> ids[j]? = some other -> p other = false := by
  induction ids generalizing start with
  | nil =>
      cases h
  | cons head rest ih =>
      unfold firstFrom at h
      split at h
      · rename_i hhead
        cases h
        refine ⟨Nat.le_refl _, by simp, hhead, ?_⟩
        intro j other hj
        omega
      · rename_i hhead
        rcases ih h with ⟨hle, hget, hid, hbefore⟩
        have hshift : idx - start = idx - (start + 1) + 1 := by
          omega
        refine ⟨by omega, ?_, hid, ?_⟩
        · rw [hshift, List.getElem?_cons_succ]
          exact hget
        · intro j other hj hother
          cases j with
          | zero =>
              rw [List.getElem?_cons_zero, Option.some.injEq] at hother
              rw [← hother]
              simpa using hhead
          | succ j =>
              rw [List.getElem?_cons_succ] at hother
              exact hbefore j other (by omega) hother

theorem firstFrom_none {ids : List NodeId} {start : Nat} (h : firstFrom p start ids = none)
    {id : NodeId} (hid : id ∈ ids) : p id = false := by
  induction ids generalizing start with
  | nil =>
      cases hid
  | cons head rest ih =>
      unfold firstFrom at h
      split at h
      · cases h
      · rename_i hhead
        cases hid with
        | head =>
            simpa using hhead
        | tail _ htail =>
            exact ih h htail

theorem child?_lt {idx : Nat} {id : NodeId} (h : tree.child? list idx = some id) :
    idx < tree.childCount list :=
  (List.getElem?_eq_some_iff.mp h).1

theorem drop_of_child? {idx : Nat} {id : NodeId} (h : tree.child? list idx = some id) :
    (tree.children list).drop idx = id :: (tree.children list).drop (idx + 1) := by
  rcases List.getElem?_eq_some_iff.mp h with ⟨hlt, hget⟩
  rw [List.drop_eq_getElem_cons hlt, hget]

theorem nextBy_some {start idx : Nat} {id : NodeId}
    (h : tree.nextBy list start p = some (idx, id)) :
    start <= idx ∧ tree.child? list idx = some id ∧ p id = true ∧
      forall j other, start <= j -> j < idx -> tree.child? list j = some other ->
        p other = false := by
  unfold nextBy at h
  rcases firstFrom_some h with ⟨hle, hget, hid, hbefore⟩
  refine ⟨hle, ?_, hid, ?_⟩
  · rw [List.getElem?_drop, show start + (idx - start) = idx by omega] at hget
    exact hget
  · intro j other hstart hj hother
    apply hbefore (j - start) other (by omega)
    rw [List.getElem?_drop, show start + (j - start) = j by omega]
    exact hother

theorem nextBy_none {start : Nat} (h : tree.nextBy list start p = none) {idx : Nat}
    {id : NodeId} (hstart : start <= idx) (hchild : tree.child? list idx = some id) :
    p id = false := by
  unfold nextBy at h
  apply firstFrom_none h
  apply List.mem_of_getElem? (i := idx - start)
  rw [List.getElem?_drop, show start + (idx - start) = idx by omega]
  exact hchild

theorem next_some {idx next : Nat} {id : NodeId} {skipBlank skipComment : Bool}
    (h : tree.next list idx skipBlank skipComment = some (next, id)) :
    idx < next ∧ tree.child? list next = some id ∧
      tree.isSkipped id skipBlank skipComment = false := by
  rcases nextBy_some h with ⟨hle, hchild, hid, _⟩
  exact ⟨hle, hchild, by simpa using hid⟩

theorem next_of_child {idx : Nat} {id : NodeId} {skipBlank skipComment : Bool}
    (hchild : tree.child? list (idx + 1) = some id)
    (hcounts : tree.isSkipped id skipBlank skipComment = false) :
    tree.next list idx skipBlank skipComment = some (idx + 1, id) := by
  unfold next nextNotBy nextBy
  rw [drop_of_child? hchild, firstFrom, if_pos (by simp [hcounts])]

/-- What stands between a position and the next child that counts is passed
over. -/
theorem next_between {idx next : Nat} {id : NodeId} {skipBlank skipComment : Bool}
    (h : tree.next list idx skipBlank skipComment = some (next, id)) {j : Nat} {other : NodeId}
    (hidx : idx < j) (hj : j < next) (hother : tree.child? list j = some other) :
    tree.isSkipped other skipBlank skipComment = true := by
  simpa using (nextBy_some h).2.2.2 j other hidx hj hother

theorem next_none {idx : Nat} {skipBlank skipComment : Bool}
    (h : tree.next list idx skipBlank skipComment = none) {j : Nat} {id : NodeId} (hj : idx < j)
    (hchild : tree.child? list j = some id) :
    tree.isSkipped id skipBlank skipComment = true := by
  simpa using nextBy_none h hj hchild

theorem next_eq_some_iff {idx next : Nat} {id : NodeId} {skipBlank skipComment : Bool} :
    tree.next list idx skipBlank skipComment = some (next, id) <->
      idx < next ∧ tree.child? list next = some id ∧
        tree.isSkipped id skipBlank skipComment = false ∧
        forall j other, idx < j -> j < next -> tree.child? list j = some other ->
          tree.isSkipped other skipBlank skipComment = true := by
  constructor
  · intro h
    rcases next_some h with ⟨hlt, hchild, hcounts⟩
    exact ⟨hlt, hchild, hcounts, fun j other hidx hj hother => next_between h hidx hj hother⟩
  · rintro ⟨hlt, hchild, hcounts, hbetween⟩
    cases hfound : tree.next list idx skipBlank skipComment with
    | none =>
        rw [next_none hfound hlt hchild] at hcounts
        cases hcounts
    | some hit =>
        rcases hit with ⟨found, other⟩
        rcases next_some hfound with ⟨hltFound, hchildFound, hcountsFound⟩
        rcases Nat.lt_trichotomy found next with hbefore | rfl | hbehind
        · rw [hbetween found other hltFound hbefore hchildFound] at hcountsFound
          cases hcountsFound
        · cases hchildFound.symm.trans hchild
          rfl
        · rw [next_between hfound hlt hbehind hchild] at hcounts
          cases hcounts

/-!
# Searching backwards
-/

theorem lastFrom_some {ids : List NodeId} {start idx : Nat} {id : NodeId}
    (h : lastFrom p start ids = some (idx, id)) :
    start <= idx ∧ ids[idx - start]? = some id ∧ p id = true := by
  induction ids generalizing start with
  | nil =>
      cases h
  | cons head rest ih =>
      unfold lastFrom at h
      split at h
      · rename_i hit hrest
        cases h
        rcases ih hrest with ⟨hle, hget, hid⟩
        have hshift : idx - start = idx - (start + 1) + 1 := by
          omega
        refine ⟨by omega, ?_, hid⟩
        rw [hshift, List.getElem?_cons_succ]
        exact hget
      · split at h
        · rename_i hhead
          cases h
          exact ⟨Nat.le_refl _, by simp, hhead⟩
        · cases h

theorem lastFrom_none {ids : List NodeId} {start : Nat} (h : lastFrom p start ids = none)
    {id : NodeId} (hid : id ∈ ids) : p id = false := by
  induction ids generalizing start with
  | nil =>
      cases hid
  | cons head rest ih =>
      unfold lastFrom at h
      split at h
      · cases h
      · rename_i hrest
        cases hid with
        | head =>
            simpa using h
        | tail _ htail =>
            exact ih hrest htail

theorem lastFrom_after {ids : List NodeId} {start idx : Nat} {id : NodeId}
    (h : lastFrom p start ids = some (idx, id)) {j : Nat} {other : NodeId} (hj : idx < j)
    (hother : ids[j - start]? = some other) : p other = false := by
  induction ids generalizing start with
  | nil =>
      cases h
  | cons head rest ih =>
      have hle := (lastFrom_some h).1
      rw [show j - start = j - (start + 1) + 1 by omega, List.getElem?_cons_succ] at hother
      unfold lastFrom at h
      split at h
      · rename_i hit hrest
        cases h
        exact ih hrest hother
      · rename_i hrest
        exact lastFrom_none hrest (List.mem_of_getElem? hother)

theorem prev_some {idx prev : Nat} {id : NodeId} {skipBlank skipComment : Bool}
    (h : tree.prev list idx skipBlank skipComment = some (prev, id)) :
    prev < idx ∧ tree.child? list prev = some id ∧
      tree.isSkipped id skipBlank skipComment = false := by
  unfold Tree.prev at h
  rcases lastFrom_some h with ⟨_, hget, hid⟩
  rw [Nat.sub_zero, List.getElem?_take] at hget
  split at hget
  · rename_i hlt
    exact ⟨hlt, hget, by simpa using hid⟩
  · cases hget

/-- What stands between a position and the last child before it that counts is
passed over. -/
theorem prev_between {idx prev : Nat} {id : NodeId} {skipBlank skipComment : Bool}
    (h : tree.prev list idx skipBlank skipComment = some (prev, id)) {j : Nat} {other : NodeId}
    (hprev : prev < j) (hj : j < idx) (hother : tree.child? list j = some other) :
    tree.isSkipped other skipBlank skipComment = true := by
  have hget : ((tree.children list).take idx)[j - 0]? = some other := by
    rw [Nat.sub_zero, List.getElem?_take_of_lt hj]
    exact hother
  simpa using lastFrom_after h hprev hget

theorem lastFrom_append_singleton (ids : List NodeId) (start : Nat) (id : NodeId) :
    lastFrom p start (ids ++ [id]) =
      if p id then some (start + ids.length, id) else lastFrom p start ids := by
  induction ids generalizing start with
  | nil =>
      simp [lastFrom]
  | cons head rest ih =>
      rw [List.cons_append, lastFrom, ih]
      by_cases hid : p id = true
      · simp only [hid, if_true, List.length_cons]
        rw [Nat.add_right_comm, Nat.add_assoc]
      · simp only [hid]
        rfl

/-- The last child before the next position is the child at this one, if it is
not passed over. -/
theorem prev_succ {idx : Nat} {id : NodeId} {skipBlank skipComment : Bool}
    (hchild : tree.child? list idx = some id) :
    tree.prev list (idx + 1) skipBlank skipComment =
      if tree.isSkipped id skipBlank skipComment then tree.prev list idx skipBlank skipComment
      else some (idx, id) := by
  have hlt := child?_lt hchild
  have htake : (tree.children list).take (idx + 1) = (tree.children list).take idx ++ [id] := by
    rw [List.take_add_one]
    unfold child? at hchild
    rw [hchild]
    rfl
  have hlength : ((tree.children list).take idx).length = idx := by
    rw [List.length_take]
    exact Nat.min_eq_left (Nat.le_of_lt hlt)
  unfold Tree.prev
  rw [htake, lastFrom_append_singleton, hlength, Nat.zero_add]
  cases tree.isSkipped id skipBlank skipComment <;> rfl

/-!
# Searches along lists whose children are known

The children are known by what a function makes of them, which tells what is passed over.
-/

section

variable {α : Type} {view : NodeId -> α} {left passed right : List α} {x y : α}

theorem exists_child_of_map (h : (tree.children list).map view = left ++ x :: right) :
    exists id, tree.child? list left.length = some id ∧ view id = x := by
  have hget : ((tree.children list).map view)[left.length]? = some x := by
    rw [h, List.getElem?_append_right (Nat.le_refl _), Nat.sub_self, List.getElem?_cons_zero]
  rw [List.getElem?_map] at hget
  exact Option.map_eq_some_iff.mp hget

variable (skips : α -> Bool) {skipBlank skipComment : Bool}
  (hskips : forall id, id ∈ tree.children list ->
    tree.isSkipped id skipBlank skipComment = skips (view id))
include hskips

theorem next_of_map (h : (tree.children list).map view = left ++ x :: (passed ++ y :: right))
    (hpassed : forall z, z ∈ passed -> skips z = true) (hy : skips y = false) :
    exists id, tree.next list left.length skipBlank skipComment =
      some (left.length + 1 + passed.length, id) ∧ view id = y := by
  have hcut : (tree.children list).map view = (left ++ x :: passed) ++ y :: right := by
    rw [h, List.append_assoc, List.cons_append]
  have hlength : (left ++ x :: passed).length = left.length + 1 + passed.length := by
    rw [List.length_append, List.length_cons]
    omega
  rcases exists_child_of_map hcut with ⟨id, hchild, hid⟩
  rw [hlength] at hchild
  refine ⟨id, next_eq_some_iff.mpr ⟨by omega, hchild, ?_, ?_⟩, hid⟩
  · rw [hskips id (List.mem_of_getElem? hchild), hid, hy]
  · intro j below hj hlt hbelow
    rw [hskips below (List.mem_of_getElem? hbelow)]
    apply hpassed
    have hget : ((tree.children list).map view)[j]? = some (view below) := by
      rw [child?] at hbelow
      rw [List.getElem?_map, hbelow, Option.map_some]
    rw [h, List.getElem?_append_right (Nat.le_of_lt hj),
      show j - left.length = j - left.length - 1 + 1 by omega, List.getElem?_cons_succ,
      List.getElem?_append_left (by omega)] at hget
    exact List.mem_of_getElem? hget

theorem prev_of_map (h : (tree.children list).map view = left ++ x :: (passed ++ right))
    (hpassed : forall z, z ∈ passed -> skips z = true) (hx : skips x = false) :
    exists id, tree.prev list (left.length + 1 + passed.length) skipBlank skipComment =
      some (left.length, id) ∧ view id = x := by
  induction passed using List.reverseRecOn generalizing right with
  | nil =>
      rcases exists_child_of_map h with ⟨id, hchild, hid⟩
      refine ⟨id, ?_, hid⟩
      rw [List.length_nil, Nat.add_zero, prev_succ hchild,
        hskips id (List.mem_of_getElem? hchild), hid, hx]
      rfl
  | append_singleton passed last ih =>
      have hcut : (tree.children list).map view = (left ++ x :: passed) ++ last :: right := by
        rw [h]
        simp
      have hlength : (left ++ x :: passed).length = left.length + 1 + passed.length := by
        rw [List.length_append, List.length_cons]
        omega
      rcases exists_child_of_map hcut with ⟨other, hother, hlast⟩
      rw [hlength] at hother
      rw [List.length_append, List.length_singleton, ← Nat.add_assoc, prev_succ hother,
        hskips other (List.mem_of_getElem? hother), hlast, hpassed last (by simp)]
      refine @ih (last :: right) ?_ fun z hmem => hpassed z (by simp [hmem])
      rw [h, List.append_assoc, List.singleton_append]

end

end Tree
end SqlLayout
