import SqlLayout.Layout.Indent
import SqlLayout.Proofs.Parsing
import SqlLayout.Proofs.Tree.Search

/-!
# The keywords that start lines

The search for the next keyword passes over a BETWEEN and the AND behind it, and takes
what comes then as it is.  Whether that is one more BETWEEN it does not look, so an
interval that follows another one is torn.
-/

namespace SqlLayout
namespace Tree

variable {tree : Tree} {list : NodeId} {accepts : Text -> Bool}

/-!
# Accepted keywords
-/

def acceptedKeyword? (tree : Tree) (accepts : Text -> Bool) (hit : NodeId × Nat) :
    Option (Nat × Text) :=
  if tree.isCategory hit.1 .keyword && accepts (tree.normalized hit.1) then
    some (hit.2, tree.normalized hit.1)
  else none

/-- The accepted keywords among the children at or after a position. -/
def acceptedFrom (tree : Tree) (list : NodeId) (accepts : Text -> Bool) (start : Nat) :
    List (Nat × Text) :=
  (((tree.children list).drop start).zipIdx start).filterMap (tree.acceptedKeyword? accepts)

theorem acceptedFrom_firstFrom {ids : List NodeId} {start place : Nat} {id : NodeId}
    (h : firstFrom (fun id => tree.isCategory id .keyword && accepts (tree.normalized id))
      start ids = some (place, id)) :
    (ids.zipIdx start).filterMap (tree.acceptedKeyword? accepts) =
      (place, tree.normalized id) ::
        ((ids.drop (place + 1 - start)).zipIdx (place + 1)).filterMap
          (tree.acceptedKeyword? accepts) := by
  induction ids generalizing start with
  | nil =>
      cases h
  | cons head rest ih =>
      unfold firstFrom at h
      split at h
      · rename_i hhead
        cases h
        rw [List.zipIdx_cons, List.filterMap_cons_some (b := (place, tree.normalized id)),
          Nat.add_sub_cancel_left, List.drop_one, List.tail_cons]
        exact if_pos hhead
      · rename_i hhead
        have hle := (firstFrom_some h).1
        rw [List.zipIdx_cons, List.filterMap_cons_none, ih h,
          show place + 1 - start = place + 1 - (start + 1) + 1 by omega, List.drop_succ_cons]
        exact if_neg hhead

theorem acceptedFrom_of_some {start place : Nat} {id : NodeId}
    (h : tree.nextKeyword list accepts start = some (place, id)) :
    tree.acceptedFrom list accepts start =
      (place, tree.normalized id) :: tree.acceptedFrom list accepts (place + 1) := by
  have hle := (nextBy_some h).1
  unfold acceptedFrom
  rw [acceptedFrom_firstFrom h, List.drop_drop,
    show start + (place + 1 - start) = place + 1 by omega]

theorem acceptedFrom_of_none {start : Nat} (h : tree.nextKeyword list accepts start = none) :
    tree.acceptedFrom list accepts start = [] := by
  unfold acceptedFrom
  rw [List.filterMap_eq_nil_iff]
  intro hit hmem
  exact if_neg (by simp [firstFrom_none h (List.fst_mem_of_mem_zipIdx hmem)])

theorem child?_of_mem_acceptedFrom {start : Nat} {hit : Nat × Text}
    (h : hit ∈ tree.acceptedFrom list accepts start) :
    (tree.child? list hit.1).map tree.normalized = some hit.2 := by
  rcases List.mem_filterMap.mp h with ⟨⟨id, place⟩, hmem, hhit⟩
  unfold acceptedKeyword? at hhit
  split at hhit
  · cases hhit
    have hget := List.mk_mem_zipIdx_iff_le_and_getElem?_sub.mp hmem
    rw [List.getElem?_drop, show start + (place - start) = place by omega] at hget
    exact congrArg (Option.map tree.normalized) hget.2
  · cases hhit

/-!
# Repeated search
-/

theorem nextBreak_some {start place : Nat} (h : tree.nextBreak list accepts start = some place) :
    start <= place ∧ exists word, tree.child? list place = some word ∧
      (tree.isCategory word .keyword && accepts (tree.normalized word)) = true := by
  unfold nextBreak at h
  split at h
  · cases h
  · rename_i first id hfirst
    have hfound := nextBy_some hfirst
    split at h
    · cases h
      exact ⟨hfound.1, id, hfound.2.1, hfound.2.2.1⟩
    · split at h
      · cases h
      · rename_i after next hnext
        have hbehind := nextBy_some hnext
        split at h
        · cases h
          exact ⟨by omega, next, hbehind.2.1, hbehind.2.2.1⟩
        · rcases Option.map_eq_some_iff.mp h with ⟨⟨last, other⟩, hlast, rfl⟩
          have hthird := nextBy_some hlast
          exact ⟨by dsimp only; omega, other, hthird.2.1, hthird.2.2.1⟩

theorem nextBreak_bounds {start place : Nat} (h : tree.nextBreak list accepts start = some place) :
    start <= place ∧ place < tree.childCount list := by
  rcases nextBreak_some h with ⟨hle, word, hchild, _⟩
  exact ⟨hle, child?_lt hchild⟩

/-- The places that the search finds one after the other, each time from right behind the
last one on. -/
def breaksFrom (tree : Tree) (list : NodeId) (accepts : Text -> Bool) (start : Nat) : List Nat :=
  match _h : tree.nextBreak list accepts start with
  | none => []
  | some place => place :: tree.breaksFrom list accepts (place + 1)
termination_by tree.childCount list - start
decreasing_by
  have := nextBreak_bounds _h
  omega

/-- The keywords that the search stops at.  What comes behind BETWEEN and its AND, or
behind a BETWEEN without AND, is not looked at again. -/
def heeded : List (Nat × Text) -> List (Nat × Text)
  | [] => []
  | (place, word) :: rest =>
      if word != Text.of "BETWEEN" then (place, word) :: heeded rest
      else
        match rest with
        | [] => []
        | (after, next) :: rest =>
            if next != Text.of "AND" then (after, next) :: heeded rest
            else
              match rest with
              | [] => []
              | hit :: rest => hit :: heeded rest

section Heeded

variable {hit : Nat × Text} {rest : List (Nat × Text)} {place after : Nat} {word next : Text}

theorem heeded_cons (h : (word != Text.of "BETWEEN") = true) :
    heeded ((place, word) :: rest) = (place, word) :: heeded rest := by
  rw [heeded.eq_def]
  exact if_pos h

theorem heeded_between_nil (h : ¬ (word != Text.of "BETWEEN") = true) :
    heeded [(place, word)] = [] := by
  rw [heeded.eq_def]
  exact if_neg h

theorem heeded_between_cons (h : ¬ (word != Text.of "BETWEEN") = true)
    (hnext : (next != Text.of "AND") = true) :
    heeded ((place, word) :: (after, next) :: rest) = (after, next) :: heeded rest := by
  rw [heeded.eq_def]
  exact (if_neg h).trans (if_pos hnext)

theorem heeded_between_and_nil (h : ¬ (word != Text.of "BETWEEN") = true)
    (hnext : ¬ (next != Text.of "AND") = true) :
    heeded [(place, word), (after, next)] = [] := by
  rw [heeded.eq_def]
  exact (if_neg h).trans (if_neg hnext)

theorem heeded_between_and_cons (h : ¬ (word != Text.of "BETWEEN") = true)
    (hnext : ¬ (next != Text.of "AND") = true) :
    heeded ((place, word) :: (after, next) :: hit :: rest) = hit :: heeded rest := by
  rw [heeded.eq_def]
  exact (if_neg h).trans (if_neg hnext)

end Heeded

/-- The keywords without each BETWEEN and without the AND that comes next behind one,
`before` being the keyword in front of them. -/
def unpaired (before : Option Text) : List (Nat × Text) -> List (Nat × Text)
  | [] => []
  | (place, word) :: rest =>
      if word == Text.of "BETWEEN" ||
          (word == Text.of "AND" && before == some (Text.of "BETWEEN")) then
        unpaired (some word) rest
      else (place, word) :: unpaired (some word) rest

/-- A BETWEEN that comes next behind another one, or next behind the AND of another one. -/
def IntervalsMeet (words : List Text) : Prop :=
  [Text.of "BETWEEN", Text.of "BETWEEN"] <:+: words ∨
    [Text.of "BETWEEN", Text.of "AND", Text.of "BETWEEN"] <:+: words

theorem heeded_of_nextBreak {start place : Nat}
    (h : tree.nextBreak list accepts start = some place) :
    exists word, heeded (tree.acceptedFrom list accepts start) =
      (place, word) :: heeded (tree.acceptedFrom list accepts (place + 1)) := by
  unfold nextBreak at h
  split at h
  · cases h
  · rename_i first id hfirst
    rw [acceptedFrom_of_some hfirst]
    split at h
    · rename_i hword
      cases h
      exact ⟨_, heeded_cons hword⟩
    · rename_i hword
      split at h
      · cases h
      · rename_i after next hnext
        rw [acceptedFrom_of_some hnext]
        split at h
        · rename_i hand
          cases h
          exact ⟨_, heeded_between_cons hword hand⟩
        · rename_i hand
          rcases Option.map_eq_some_iff.mp h with ⟨⟨last, other⟩, hlast, rfl⟩
          rw [acceptedFrom_of_some hlast]
          exact ⟨_, heeded_between_and_cons hword hand⟩

theorem heeded_of_nextBreak_none {start : Nat}
    (h : tree.nextBreak list accepts start = none) :
    heeded (tree.acceptedFrom list accepts start) = [] := by
  unfold nextBreak at h
  split at h
  · rename_i hfirst
    rw [acceptedFrom_of_none hfirst]
    rfl
  · rename_i first id hfirst
    rw [acceptedFrom_of_some hfirst]
    split at h
    · cases h
    · rename_i hword
      split at h
      · rename_i hnext
        rw [acceptedFrom_of_none hnext, heeded_between_nil hword]
      · rename_i after next hnext
        rw [acceptedFrom_of_some hnext]
        split at h
        · cases h
        · rename_i hand
          rw [acceptedFrom_of_none (Option.map_eq_none_iff.mp h),
            heeded_between_and_nil hword hand]

theorem breaksFrom_eq_heeded (tree : Tree) (list : NodeId) (accepts : Text -> Bool)
    (start : Nat) :
    tree.breaksFrom list accepts start =
      (heeded (tree.acceptedFrom list accepts start)).map Prod.fst := by
  fun_induction breaksFrom tree list accepts start with
  | case1 start hnone =>
      rw [heeded_of_nextBreak_none hnone]
      rfl
  | case2 start place hsome ih =>
      rcases heeded_of_nextBreak hsome with ⟨word, hheeded⟩
      rw [hheeded, ih]
      rfl

/-!
# Intervals that follow one another
-/

section Meeting

variable {word next : Text} {words : List Text}

theorem intervalsMeet_cons :
    IntervalsMeet (word :: words) <->
      (word = Text.of "BETWEEN" ∧
        ([Text.of "BETWEEN"] <+: words ∨ [Text.of "AND", Text.of "BETWEEN"] <+: words)) ∨
      IntervalsMeet words := by
  unfold IntervalsMeet
  rw [List.infix_cons_iff, List.infix_cons_iff, List.cons_prefix_cons, List.cons_prefix_cons,
    eq_comm (a := word)]
  tauto

theorem intervalsMeet_cons_of_ne (h : word ≠ Text.of "BETWEEN") :
    IntervalsMeet (word :: words) <-> IntervalsMeet words := by
  rw [intervalsMeet_cons, or_iff_right]
  exact fun hfront => h hfront.1

theorem intervalsMeet_between_cons (h : next ≠ Text.of "AND") :
    IntervalsMeet (Text.of "BETWEEN" :: next :: words) <->
      next = Text.of "BETWEEN" ∨ IntervalsMeet words := by
  by_cases hnext : next = Text.of "BETWEEN"
  · simp [intervalsMeet_cons, hnext]
  · rw [intervalsMeet_cons, intervalsMeet_cons_of_ne hnext]
    simp [List.cons_prefix_cons, hnext, Ne.symm hnext, Ne.symm h]

theorem intervalsMeet_between_and_cons :
    IntervalsMeet (Text.of "BETWEEN" :: Text.of "AND" :: word :: words) <->
      word = Text.of "BETWEEN" ∨ IntervalsMeet words := by
  have hand : Text.of "AND" ≠ Text.of "BETWEEN" := by
    decide
  by_cases hword : word = Text.of "BETWEEN"
  · simp [intervalsMeet_cons, List.cons_prefix_cons, hword]
  · rw [intervalsMeet_cons, intervalsMeet_cons_of_ne hand, intervalsMeet_cons_of_ne hword]
    simp [List.cons_prefix_cons, hword, Ne.symm hword, Ne.symm hand]

theorem not_intervalsMeet_between : ¬ IntervalsMeet [Text.of "BETWEEN"] := by
  unfold IntervalsMeet
  decide

theorem not_intervalsMeet_between_and :
    ¬ IntervalsMeet [Text.of "BETWEEN", Text.of "AND"] := by
  unfold IntervalsMeet
  decide

end Meeting

theorem between_mem_heeded {hits : List (Nat × Text)} (h : IntervalsMeet (hits.map Prod.snd)) :
    exists hit, hit ∈ heeded hits ∧ hit.2 = Text.of "BETWEEN" := by
  fun_induction heeded hits with
  | case1 =>
      simp [IntervalsMeet] at h
  | case2 place word rest hword ih =>
      rcases ih ((intervalsMeet_cons_of_ne (bne_iff_ne.mp hword)).mp h) with ⟨hit, hmem, hhit⟩
      exact ⟨hit, List.mem_cons_of_mem _ hmem, hhit⟩
  | case3 place word hword =>
      obtain rfl : word = Text.of "BETWEEN" := by simpa using hword
      exact absurd h not_intervalsMeet_between
  | case4 place word hword after next rest hnext ih =>
      obtain rfl : word = Text.of "BETWEEN" := by simpa using hword
      rcases (intervalsMeet_between_cons (bne_iff_ne.mp hnext)).mp h with hmeets | hrest
      · exact ⟨_, List.mem_cons_self, hmeets⟩
      · rcases ih hrest with ⟨hit, hmem, hhit⟩
        exact ⟨hit, List.mem_cons_of_mem _ hmem, hhit⟩
  | case5 place word hword after next hnext =>
      obtain rfl : word = Text.of "BETWEEN" := by simpa using hword
      obtain rfl : next = Text.of "AND" := by simpa using hnext
      exact absurd h not_intervalsMeet_between_and
  | case6 place word hword after next hnext hit rest ih =>
      obtain rfl : word = Text.of "BETWEEN" := by simpa using hword
      obtain rfl : next = Text.of "AND" := by simpa using hnext
      rcases intervalsMeet_between_and_cons.mp h with hmeets | hrest
      · exact ⟨_, List.mem_cons_self, hmeets⟩
      · rcases ih hrest with ⟨hit, hmem, hhit⟩
        exact ⟨hit, List.mem_cons_of_mem _ hmem, hhit⟩

theorem ne_between_of_mem_unpaired {before : Option Text} {hits : List (Nat × Text)}
    {hit : Nat × Text} (h : hit ∈ unpaired before hits) : hit.2 ≠ Text.of "BETWEEN" := by
  induction hits generalizing before with
  | nil =>
      cases h
  | cons head rest ih =>
      rw [unpaired] at h
      split at h
      · exact ih h
      · rename_i hhead
        rcases List.mem_cons.mp h with rfl | hrest
        · simp only [Bool.or_eq_true, beq_iff_eq] at hhead
          exact fun heq => hhead (Or.inl heq)
        · exact ih hrest

/-- Where no intervals meet, the search heeds all keywords but those of an interval. -/
theorem heeded_eq_unpaired {before : Option Text} {hits : List (Nat × Text)}
    (hbefore : before ≠ some (Text.of "BETWEEN"))
    (h : ¬ IntervalsMeet (hits.map Prod.snd)) : heeded hits = unpaired before hits := by
  fun_induction heeded hits generalizing before with
  | case1 =>
      rfl
  | case2 place word rest hword ih =>
      rw [bne_iff_ne] at hword
      have hnext : some word ≠ some (Text.of "BETWEEN") := by
        simpa using hword
      rw [ih hnext fun hmeets => h ((intervalsMeet_cons_of_ne hword).mpr hmeets)]
      simp [unpaired, hword, hbefore]
  | case3 place word hword =>
      obtain rfl : word = Text.of "BETWEEN" := by simpa using hword
      simp [unpaired]
  | case4 place word hword after next rest hnext ih =>
      obtain rfl : word = Text.of "BETWEEN" := by simpa using hword
      rw [bne_iff_ne] at hnext
      rw [List.map_cons, List.map_cons, intervalsMeet_between_cons hnext, not_or] at h
      have hapart : some next ≠ some (Text.of "BETWEEN") := by
        simpa using h.1
      rw [ih hapart h.2]
      simp [unpaired, hnext, h.1]
  | case5 place word hword after next hnext =>
      obtain rfl : word = Text.of "BETWEEN" := by simpa using hword
      obtain rfl : next = Text.of "AND" := by simpa using hnext
      simp [unpaired]
  | case6 place word hword after next hnext hit rest ih =>
      obtain rfl : word = Text.of "BETWEEN" := by simpa using hword
      obtain rfl : next = Text.of "AND" := by simpa using hnext
      rw [List.map_cons, List.map_cons, List.map_cons, intervalsMeet_between_and_cons,
        not_or] at h
      have hand : Text.of "AND" ≠ Text.of "BETWEEN" := by
        decide
      have hapart : some hit.2 ≠ some (Text.of "BETWEEN") := by
        simpa using h.1
      rw [ih hapart h.2]
      simp [unpaired, h.1, hand]

theorem unpaired_subset {before : Option Text} {hits : List (Nat × Text)} :
    unpaired before hits ⊆ hits := by
  induction hits generalizing before with
  | nil =>
      exact List.Subset.refl []
  | cons hit rest ih =>
      rw [unpaired]
      split
      · exact List.subset_cons_of_subset hit ih
      · exact List.cons_subset_cons hit ih

theorem heeded_subset (hits : List (Nat × Text)) : heeded hits ⊆ hits := by
  fun_induction heeded hits with
  | case1 | case3 | case5 =>
      exact List.nil_subset _
  | case2 place word rest _ ih =>
      exact List.cons_subset_cons _ ih
  | case4 place word _ after next rest _ ih =>
      exact List.subset_cons_of_subset _ (List.cons_subset_cons _ ih)
  | case6 place word _ after next _ hit rest ih =>
      exact List.subset_cons_of_subset _
        (List.subset_cons_of_subset _ (List.cons_subset_cons _ ih))

theorem breaksFrom_ne_unpaired
    (h : IntervalsMeet ((tree.acceptedFrom list accepts 0).map Prod.snd)) :
    tree.breaksFrom list accepts 0 ≠
      (unpaired none (tree.acceptedFrom list accepts 0)).map Prod.fst := by
  intro hsame
  rcases between_mem_heeded h with ⟨hit, hheeded, hword⟩
  have hplace : hit.1 ∈ tree.breaksFrom list accepts 0 := by
    rw [breaksFrom_eq_heeded]
    exact List.mem_map_of_mem hheeded
  rw [hsame] at hplace
  rcases List.mem_map.mp hplace with ⟨other, hother, hfst⟩
  -- One place holds one keyword.
  have hhit := child?_of_mem_acceptedFrom (heeded_subset _ hheeded)
  have hchild := child?_of_mem_acceptedFrom (unpaired_subset hother)
  rw [hfst, hhit, Option.some.injEq, hword] at hchild
  exact ne_between_of_mem_unpaired hother hchild.symm

/-- The search stops at all accepted keywords but each BETWEEN and the AND that belongs to
it if and only if no BETWEEN comes next behind another interval. -/
theorem breaksFrom_eq_unpaired_iff (tree : Tree) (list : NodeId) (accepts : Text -> Bool) :
    tree.breaksFrom list accepts 0 =
        (heeded (tree.acceptedFrom list accepts 0)).map Prod.fst ∧
      (tree.breaksFrom list accepts 0 =
          (unpaired none (tree.acceptedFrom list accepts 0)).map Prod.fst <->
        ¬ IntervalsMeet ((tree.acceptedFrom list accepts 0).map Prod.snd)) := by
  refine ⟨breaksFrom_eq_heeded tree list accepts 0, fun hsame hmeets => ?_, fun hapart => ?_⟩
  · exact breaksFrom_ne_unpaired hmeets hsame
  · have hnone : none ≠ some (Text.of "BETWEEN") := nofun
    rw [breaksFrom_eq_heeded, heeded_eq_unpaired hnone hapart]

end Tree

theorem tokenize_arm_with_intervals :
    tokenize ⟨.generic, Vocabulary.ofDialect .generic⟩
        (Text.of "case when a between 1 and 2 then b between 3 and 4 end") =
      [⟨.keyword, Text.of "case", some 0⟩, ⟨.whitespace, [' '], some 4⟩,
        ⟨.keyword, Text.of "when", some 5⟩, ⟨.whitespace, [' '], some 9⟩,
        ⟨.name, ['a'], some 10⟩, ⟨.whitespace, [' '], some 11⟩,
        ⟨.keyword, Text.of "between", some 12⟩, ⟨.whitespace, [' '], some 19⟩,
        ⟨.integer, ['1'], some 20⟩, ⟨.whitespace, [' '], some 21⟩,
        ⟨.keyword, Text.of "and", some 22⟩, ⟨.whitespace, [' '], some 25⟩,
        ⟨.integer, ['2'], some 26⟩, ⟨.whitespace, [' '], some 27⟩,
        ⟨.keyword, Text.of "then", some 28⟩, ⟨.whitespace, [' '], some 32⟩,
        ⟨.name, ['b'], some 33⟩, ⟨.whitespace, [' '], some 34⟩,
        ⟨.keyword, Text.of "between", some 35⟩, ⟨.whitespace, [' '], some 42⟩,
        ⟨.integer, ['3'], some 43⟩, ⟨.whitespace, [' '], some 44⟩,
        ⟨.keyword, Text.of "and", some 45⟩, ⟨.whitespace, [' '], some 48⟩,
        ⟨.integer, ['4'], some 49⟩, ⟨.whitespace, [' '], some 50⟩,
        ⟨.keyword, Text.of "end", some 51⟩] := by
  decide +kernel

/-- The condition and the value of one arm are children of one list, so two intervals can
follow one another there. -/
theorem breaksFrom_between :
    ¬ forall (sql : Text) (statements : List Statement) (s : Statement) (list : NodeId),
      parse sql {} defaultMaxDepth = .ok statements -> s ∈ statements ->
      s.tree.breaksFrom list breaksLine 0 =
        (Tree.unpaired none (s.tree.acceptedFrom list breaksLine 0)).map Prod.fst := by
  rcases exists_parsed (p := fun s =>
      (s.tree.acceptedFrom 28 breaksLine 0).map Prod.snd ==
        [Text.of "BETWEEN", Text.of "AND", Text.of "BETWEEN", Text.of "AND"])
    tokenize_arm_with_intervals (by decide +kernel) with ⟨statements, s, hparse, hs, hwords⟩
  intro hall
  apply Tree.breaksFrom_ne_unpaired _ (hall _ statements s 28 hparse hs)
  rw [eq_of_beq hwords]
  exact Or.inr ⟨[], [Text.of "AND"], rfl⟩

end SqlLayout
