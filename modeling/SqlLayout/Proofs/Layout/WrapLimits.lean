import SqlLayout.Proofs.Layout.ItemLines

/-!
# Larger limits

Two walks along the items of a list, with limits of which one is not below the other.  The walk
with the larger limit never falls behind: it has broken less lines, or as many and then it has
not come further on its line.  Limits are compared as signed words, and there the limits from
the half of the range on stand below all others.
-/

namespace SqlLayout

/-!
# Limits as words
-/

theorem signed64_of_lt_half {limit : Nat} (h : limit < 0x8000000000000000) :
    signed64 limit = limit := by
  apply signed64_of_word
  · omega
  · omega

theorem signed64_of_half_le {limit : Nat} (hhalf : 0x8000000000000000 <= limit)
    (hword : limit < 0x10000000000000000) : signed64 limit = limit - 0x10000000000000000 := by
  have hshift : signed64 limit = signed64 ((limit : Int) - 0x10000000000000000) :=
    (Int.sub_bmod_right limit _).symm
  rw [hshift]
  apply signed64_of_word
  · omega
  · omega

theorem signed64_le {limit limit' : Nat} (hle : limit <= limit')
    (hword : limit' < 0x10000000000000000)
    (hside : limit' < 0x8000000000000000 ∨ 0x8000000000000000 <= limit) :
    signed64 limit <= signed64 limit' := by
  rcases hside with hlow | hhigh
  · rw [signed64_of_lt_half hlow, signed64_of_lt_half (Nat.lt_of_le_of_lt hle hlow)]
    omega
  · rw [signed64_of_half_le hhigh (Nat.lt_of_le_of_lt hle hword),
      signed64_of_half_le (Nat.le_trans hhigh hle) hword]
    omega

theorem signed64_lt {limit limit' : Nat} (hlow : limit < 0x8000000000000000)
    (hhigh : 0x8000000000000000 <= limit') (hword : limit' < 0x10000000000000000) :
    signed64 limit' < signed64 limit := by
  rw [signed64_of_lt_half hlow, signed64_of_half_le hhigh hword]
  omega

/-!
# Two walks
-/

/-- The columns that some items take, each with the one for its comma. -/
def itemsWidth (length : NodeId -> Nat) : List NodeId -> Nat
  | [] => 0
  | item :: rest => length item + 1 + itemsWidth length rest

theorem le_itemsWidth (length : NodeId -> Nat) {items : List NodeId} {item : NodeId}
    (h : item ∈ items) : length item + 1 <= itemsWidth length items := by
  induction items with
  | nil =>
      cases h
  | cons other rest ih =>
      rw [itemsWidth]
      rcases List.mem_cons.mp h with rfl | hrest
      · exact Nat.le_add_right _ _
      · exact Nat.le_trans (ih hrest) (Nat.le_add_left _ _)

/-- With the larger limit there is at most one break more, and none more if the walk has not
come further on its line. -/
theorem length_overflowing_le {limit limit' start : Int} {length : NodeId -> Nat}
    {items : List NodeId} (hlimit : limit <= limit') (hlow : -0x8000000000000000 <= start)
    (position position' : Int) (hstart : start <= position) (hstart' : start <= position')
    (hend : position + itemsWidth length items < 0x8000000000000000)
    (hend' : position' + itemsWidth length items < 0x8000000000000000) :
    (position' <= position ->
      (overflowing limit' start length position' items).length <=
        (overflowing limit start length position items).length) ∧
    (overflowing limit' start length position' items).length <=
      (overflowing limit start length position items).length + 1 := by
  induction items generalizing position position' with
  | nil =>
      exact ⟨fun _ => Nat.le_refl _, Nat.zero_le _⟩
  | cons item rest ih =>
      rw [itemsWidth] at hend hend'
      have hsigned := signed64_of_word (n := position + (length item : Int) + 1)
        (by omega) (by omega)
      have hsigned' := signed64_of_word (n := position' + (length item : Int) + 1)
        (by omega) (by omega)
      rw [overflowing, overflowing, hsigned, hsigned']
      by_cases hover' : limit' < position' + (length item : Int) + 1
      · rw [if_pos hover', List.length_cons]
        by_cases hover : limit < position + (length item : Int) + 1
        · -- Both walks break, and start their lines at the same column.
          have hboth := (ih start start (Int.le_refl _) (Int.le_refl _) (by omega)
            (by omega)).1 (Int.le_refl _)
          rw [if_pos hover, List.length_cons]
          exact ⟨fun _ => Nat.succ_le_succ hboth, by omega⟩
        · -- Only the walk with the larger limit breaks, so it had come further.
          have hone := (ih (position + (length item : Int) + 1) start (by omega)
            (Int.le_refl _) (by omega) (by omega)).1 (by omega)
          rw [if_neg hover]
          exact ⟨fun hle => by omega, Nat.succ_le_succ hone⟩
      · rw [if_neg hover']
        by_cases hover : limit < position + (length item : Int) + 1
        · have hother := (ih start (position' + (length item : Int) + 1) (Int.le_refl _)
            (by omega) (by omega) (by omega)).2
          rw [if_pos hover, List.length_cons]
          exact ⟨fun _ => hother, Nat.le_succ_of_le hother⟩
        · have hnone := ih (position + (length item : Int) + 1)
            (position' + (length item : Int) + 1) (by omega) (by omega) (by omega) (by omega)
          rw [if_neg hover]
          exact ⟨fun hle => hnone.1 (by omega), hnone.2⟩

namespace Indenting

open Tree Statement

variable {w : Indenting} {list first : NodeId} {items rest : List NodeId} {limit limit' : Nat}

/-!
# The breaks of a list
-/

theorem childCount_breakBefore (hlist : w.tree.isGroup list = true) (place : Nat) :
    (w.breakBefore list place).tree.childCount list = w.tree.childCount list + 1 := by
  have hinserted := inserted_insertAt hlist place ⟨.whitespace, w.indenter.newline, none⟩
  have hchildren : (w.breakBefore list place).tree.children list = _ :=
    hinserted.children_after_list
  rw [childCount, childCount, hchildren, List.length_append, List.length_cons, ← Nat.add_assoc,
    ← List.length_append, List.take_append_drop]

theorem childCount_wrapItems {length : NodeId -> Nat} (hwf : w.tree.WellFormed)
    (hlist : w.tree.isGroup list = true)
    (hitems : forall id, id ∈ items ->
      id ∈ w.tree.children list ∧ (w.tree.value id).length = length id) (position : Int) :
    (wrapItems list position items w).tree.childCount list =
      w.tree.childCount list +
        (overflowing (signed64 w.indenter.wrapAfter) w.indenter.offset length position
          items).length := by
  induction items generalizing w position with
  | nil =>
      rfl
  | cons item rest ih =>
      rcases hitems item List.mem_cons_self with ⟨hmem, hlength⟩
      have hrest : forall id, id ∈ rest ->
          id ∈ w.tree.children list ∧ (w.tree.value id).length = length id :=
        fun id hid => hitems id (List.mem_cons_of_mem _ hid)
      rw [wrapItems, overflowing, hlength]
      dsimp only
      split
      · rcases exists_restarted hlist hmem w.indenter.newline with
          ⟨place, front, back, hplace, hrestart⟩
        have hrelaid : w.tree.RelaidAt (fun id => id = list) (w.breakBefore list place).tree :=
          relaidAt_insertBlank hwf hlist place w.indenter.newline
        have hafter := ih (w := w.breakBefore list place) hrelaid.wellFormed
          (hrelaid.reblanked.isGroup_of_isGroup hlist) (hrestart.items_eq hwf hlist hrest)
          w.indenter.offset
        rw [indenter_breakBefore, childCount_breakBefore hlist] at hafter
        rw [hplace, List.length_cons]
        refine hafter.trans ?_
        omega
      · exact ih hwf hlist hrest _

def withLimit (w : Indenting) (limit : Nat) : Indenting :=
  { w with indenter := { w.indenter with wrapAfter := limit } }

/-- How many line breaks come in before the items of a list, when it is met. -/
def itemBreaks (list : NodeId) (w : Indenting) : Nat :=
  (w.itemsCourse list).start.tree.childCount list - w.tree.childCount list

/-- The items of a list but the first one, if lines may be started for them. -/
def wrappedItems (list : NodeId) (w : Indenting) : List NodeId :=
  if w.tree.isWithin list .function then [] else (w.tree.identifiers list).drop 1

/-- The column from which the items of a list are counted, if it has any. -/
def listStart (list : NodeId) (w : Indenting) : Int :=
  ((w.tree.identifiers list).head?.map w.itemsStart).getD 0

theorem itemBreaks_eq (hwf : w.tree.WellFormed) (hlist : w.tree.isGroup list = true)
    (limit : Nat) :
    (w.withLimit limit).itemBreaks list =
      (overflowing (signed64 limit) (w.listStart list) (fun id => (w.tree.value id).length)
        (w.listStart list) (w.wrappedItems list)).length := by
  have htree : (w.withLimit limit).tree = w.tree := rfl
  unfold itemBreaks itemsCourse wrappedItems listStart
  rw [htree]
  cases hitems : w.tree.identifiers list with
  | nil =>
      simp [overflowing, htree]
  | cons first rest =>
      cases rest with
      | nil =>
          simp [overflowing, htree]
      | cons second rest =>
          dsimp only [List.drop_succ_cons, List.drop_zero, List.head?_cons]
          split
          · simp [overflowing, htree]
          · have hparts : forall id, id ∈ second :: rest -> id ∈ w.tree.children list ∧
                (w.tree.value id).length = (w.tree.value id).length := by
              intro id hid
              have hin : id ∈ w.tree.identifiers list := hitems ▸ List.mem_cons_of_mem _ hid
              rw [identifiers_eq_filter] at hin
              exact ⟨List.mem_of_mem_filter (List.mem_of_mem_filter hin), rfl⟩
            have hcount := childCount_wrapItems
              (w := (w.withLimit limit).shift (w.itemColumns first)) hwf hlist hparts
              (w.itemsStart first)
            have hstart : w.tree.childCount list =
              ((w.withLimit limit).shift (w.itemColumns first)).tree.childCount list := rfl
            rw [hstart]
            exact Nat.sub_eq_of_eq_add (hcount.trans (Nat.add_comm _ _))

/-- The columns along the items of a list are words. -/
def ItemsFit (list : NodeId) (w : Indenting) : Prop :=
  -0x8000000000000000 <= w.listStart list ∧
    w.listStart list + itemsWidth (fun id => (w.tree.value id).length) (w.wrappedItems list) <
      0x8000000000000000

/-- Of two limits in the same half of the range the larger one never breaks more lines of a
list.  A limit of the upper half stands below those of the lower half: it never breaks less
lines than one of them, and a line for every item that is counted from a column which is not
negative. -/
theorem itemBreaks_antitone (hwf : w.tree.WellFormed)
    (hkind : w.tree.kind? list = some .identifierList) (hle : limit <= limit')
    (hword : limit' < 0x10000000000000000) (hfit : w.ItemsFit list) :
    (limit' < 0x8000000000000000 ∨ 0x8000000000000000 <= limit ->
      (w.withLimit limit').itemBreaks list <= (w.withLimit limit).itemBreaks list) ∧
    (limit < 0x8000000000000000 -> 0x8000000000000000 <= limit' ->
      (w.withLimit limit).itemBreaks list <= (w.withLimit limit').itemBreaks list) ∧
    (0x8000000000000000 <= limit' -> 0 <= w.listStart list ->
      (w.withLimit limit').itemBreaks list = (w.wrappedItems list).length) := by
  have hlist : w.tree.isGroup list = true := isGroup_iff_kind?.mpr ⟨_, hkind⟩
  have hbreaks := fun {lower upper : Int} (hsigned : lower <= upper) =>
    (length_overflowing_le hsigned hfit.1 _ _ (Int.le_refl _) (Int.le_refl _) hfit.2 hfit.2).1
      (Int.le_refl _)
  rw [itemBreaks_eq hwf hlist, itemBreaks_eq hwf hlist]
  refine ⟨fun hside => hbreaks (signed64_le hle hword hside),
    fun hlow hhigh => hbreaks (Int.le_of_lt (signed64_lt hlow hhigh hword)), ?_⟩
  intro hhigh hstart
  congr 1
  apply overflowing_eq_self
  · rw [signed64_of_half_le hhigh hword]
    omega
  · exact hfit.1
  · intro item hitem
    have hwidth := le_itemsWidth (fun id => (w.tree.value id).length) hitem
    have hend := hfit.2
    omega

/-- Among three names a limit of nine columns saves one break of two, and the first limit of the
upper half saves none. -/
theorem itemBreaks_antitone_names :
    exists (s : Statement) (w : Indenting), s.text = Text.of "select a, b, c" ∧
      w = s.start { width := 2 } ∧ w.tree.WellFormed ∧
      w.tree.kind? 13 = some .identifierList ∧ w.ItemsFit 13 ∧
      (w.withLimit 9).itemBreaks 13 <= (w.withLimit 0).itemBreaks 13 ∧
      (w.withLimit 9).itemBreaks 13 = 1 ∧
      (w.withLimit 0).itemBreaks 13 <= (w.withLimit 0x8000000000000000).itemBreaks 13 ∧
      (w.withLimit 0x8000000000000000).itemBreaks 13 = 2 := by
  have htokens : tokenize ⟨.generic, Vocabulary.ofDialect .generic⟩ (Text.of "select a, b, c") =
      [⟨.dml, Text.of "select", some 0⟩, ⟨.whitespace, [' '], some 6⟩, ⟨.name, ['a'], some 7⟩,
       ⟨.punctuation, [','], some 8⟩, ⟨.whitespace, [' '], some 9⟩, ⟨.name, ['b'], some 10⟩,
       ⟨.punctuation, [','], some 11⟩, ⟨.whitespace, [' '], some 12⟩, ⟨.name, ['c'], some 13⟩] := by
    decide +kernel
  let start (s : Statement) : Indenting := s.start { width := 2 }
  rcases exists_parsed (p := fun s => s.text == Text.of "select a, b, c" &&
      (start s).tree.kind? 13 == some .identifierList && (start s).listStart 13 == 7 &&
      itemsWidth (fun id => ((start s).tree.value id).length) ((start s).wrappedItems 13) == 4 &&
      ((start s).wrappedItems 13).length == 2 && ((start s).withLimit 9).itemBreaks 13 == 1)
    htokens (by decide +kernel) with ⟨statements, s, hparse, hs, hfound⟩
  simp only [Bool.and_eq_true, beq_iff_eq] at hfound
  rcases hfound with ⟨⟨⟨⟨⟨htext, hkind⟩, hstart⟩, hwidth⟩, hlength⟩, hone⟩
  have hparsed : s.IsParsed := ⟨_, _, _, statements, hparse, hs⟩
  have hwf : (start s).tree.WellFormed := hparsed.wellFormed.1
  have hfit : (start s).ItemsFit 13 := by
    unfold ItemsFit
    rw [hstart, hwidth]
    decide
  have hsmall := itemBreaks_antitone hwf hkind (show 0 <= 9 by decide) (by decide) hfit
  have hlarge := itemBreaks_antitone hwf hkind (show 0 <= 0x8000000000000000 by decide)
    (by decide) hfit
  exact ⟨s, start s, htext, rfl, hwf, hkind, hfit, hsmall.1 (Or.inl (by decide)), hone,
    hlarge.2.1 (by decide) (by decide),
    (hlarge.2.2 (by decide) (by rw [hstart]; decide)).trans hlength⟩

/-- Two names fit on a line of a hundred columns, and are broken apart with the first limit of
the upper half. -/
theorem larger_limit_breaks_more :
    ¬ forall (w : Indenting) (list : NodeId) (limit limit' : Nat), w.tree.WellFormed ->
      w.tree.kind? list = some .identifierList -> limit <= limit' ->
      limit' < 0x10000000000000000 ->
      (w.withLimit limit').itemBreaks list <= (w.withLimit limit).itemBreaks list := by
  have htokens : tokenize ⟨.generic, Vocabulary.ofDialect .generic⟩ (Text.of "select a, b") =
      [⟨.dml, Text.of "select", some 0⟩, ⟨.whitespace, [' '], some 6⟩, ⟨.name, ['a'], some 7⟩,
       ⟨.punctuation, [','], some 8⟩, ⟨.whitespace, [' '], some 9⟩, ⟨.name, ['b'], some 10⟩] := by
    decide +kernel
  let start (s : Statement) : Indenting := s.start { width := 2 }
  rcases exists_parsed (p := fun s => (start s).tree.kind? 9 == some .identifierList &&
      ((start s).withLimit 100).itemBreaks 9 == 0 &&
      ((start s).withLimit 0x8000000000000000).itemBreaks 9 == 1)
    htokens (by decide +kernel) with ⟨statements, s, hparse, hs, hfound⟩
  simp only [Bool.and_eq_true, beq_iff_eq] at hfound
  rcases hfound with ⟨⟨hkind, hnone⟩, hone⟩
  have hparsed : s.IsParsed := ⟨_, _, _, statements, hparse, hs⟩
  intro hall
  have hmore := hall (start s) 9 100 0x8000000000000000 hparsed.wellFormed.1 hkind (by decide)
    (by decide)
  rw [hnone, hone] at hmore
  exact absurd hmore (by decide)

end Indenting
end SqlLayout
