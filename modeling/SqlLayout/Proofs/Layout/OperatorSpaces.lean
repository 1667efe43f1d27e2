import SqlLayout.Proofs.Grouping.FirstChildren
import SqlLayout.Proofs.Layout.BlankTokens
import SqlLayout.Proofs.Layout.Handlers
import SqlLayout.Proofs.Layout.SpacedRoses

/-!
# The walk that spaces operators

The walk stands behind an operator that has its spaces and looks for the next one.  What
it makes of a list is what `Rose.spaceAfter` makes of the roses of the children.
-/

namespace SqlLayout
namespace Tree

open Rose

variable {tree after : Tree} {list id : NodeId}

theorem WellFormed.holdsOperator_rose (hwf : tree.WellFormed) (hid : id < tree.size) :
    (tree.rose id).holdsOperator = tree.isA id .operator := by
  rcases isGroup_or_token? hid with hgroup | ⟨token, htoken⟩
  · rcases isGroup_iff_kind?.mp hgroup with ⟨kind, hkind⟩
    rw [hwf.rose_of_kind? hkind, isA, tokenHas_of_isGroup hgroup]
    rfl
  · rw [rose_of_token? htoken, isA, tokenHas, htoken]
    rfl

theorem WellFormed.childHas_solid (hwf : tree.WellFormed) {front back : List Rose}
    (hroses : tree.childRoses list = front ++ back) :
    tree.childHas list front.length (fun id => !tree.isWhitespace id) =
      back.head?.any fun rose => !rose.isBlank := by
  have hplace := getElem?_childRoses tree list front.length
  rw [hroses, List.getElem?_append_right (Nat.le_refl _), Nat.sub_self, ← List.head?_eq_getElem?]
    at hplace
  rw [hplace]
  unfold childHas
  cases hchild : tree.child? list front.length with
  | none =>
      rfl
  | some id =>
      rw [Option.map_some, Option.any_some,
        hwf.isBlank_rose (hwf.child_lt_size (List.mem_of_getElem? hchild))]

theorem WellFormed.childHas_solid_before (hwf : tree.WellFormed) {front back : List Rose}
    (hroses : tree.childRoses list = front ++ back) :
    (decide (0 < front.length) &&
        tree.childHas list (front.length - 1) fun id => !tree.isWhitespace id) =
      front.getLast?.any fun rose => !rose.isBlank := by
  rcases List.eq_nil_or_concat front with rfl | ⟨rest, last, rfl⟩
  · rfl
  · rw [List.concat_eq_append] at hroses ⊢
    rw [List.append_assoc] at hroses
    rw [List.length_append, List.length_singleton, Nat.add_sub_cancel, hwf.childHas_solid hroses,
      List.getLast?_append_of_ne_nil _ (List.cons_ne_nil _ _), decide_eq_true (Nat.succ_pos _),
      Bool.true_and]
    rfl

theorem gap_right {op : Rose} (hop : op.holdsOperator = true) (back : List Rose) :
    gap (some op) back.head? =
      if back.head?.any (fun rose => !rose.isBlank) = true then [.token (.blank [' '])]
      else [] := by
  cases back with
  | nil =>
      rfl
  | cons next rest =>
      rw [List.head?_cons, gap, wantsSpace, hop, isBlank_of_holdsOperator hop, Option.any_some]
      rfl

theorem gap_left {op : Rose} (hop : op.holdsOperator = true) (left : Option Rose) :
    gap left (some op) =
      if left.any (fun rose => !rose.isBlank) = true then [.token (.blank [' '])] else [] := by
  cases left with
  | none =>
      rfl
  | some left =>
      rw [gap, wantsSpace, hop, isBlank_of_holdsOperator hop, Option.any_some, Bool.or_true,
        Bool.true_and, Bool.not_false, Bool.and_true]

theorem WellFormed.nextOperator (hwf : tree.WellFormed) {before rest : List Rose}
    (hroses : tree.childRoses list = before ++ rest) :
    (tree.nextBy list before.length (fun id => tree.isA id .operator) = none ∧
        forall rose, rose ∈ rest -> rose.holdsOperator = false) ∨
      exists id quiet op back,
        tree.nextBy list before.length (fun id => tree.isA id .operator) =
          some (before.length + quiet.length, id) ∧
        rest = quiet ++ op :: back ∧ op.holdsOperator = true ∧
        forall rose, rose ∈ quiet -> rose.holdsOperator = false := by
  have hget : forall {idx : Nat} {rose : Rose}, rest[idx]? = some rose ->
      exists id, tree.child? list (before.length + idx) = some id ∧
        rose.holdsOperator = tree.isA id .operator := by
    intro idx rose hrose
    have hplace : (tree.childRoses list)[before.length + idx]? = some rose := by
      rw [hroses, List.getElem?_append_right (Nat.le_add_right _ _), Nat.add_sub_cancel_left]
      exact hrose
    rw [getElem?_childRoses] at hplace
    rcases Option.map_eq_some_iff.mp hplace with ⟨id, hchild, rfl⟩
    exact ⟨id, hchild, hwf.holdsOperator_rose (hwf.child_lt_size (List.mem_of_getElem? hchild))⟩
  cases hnext : tree.nextBy list before.length fun id => tree.isA id .operator with
  | none =>
      refine Or.inl ⟨rfl, fun rose hrose => ?_⟩
      rcases List.mem_iff_getElem?.mp hrose with ⟨idx, hidx⟩
      rcases hget hidx with ⟨id, hchild, heq⟩
      rw [heq]
      exact nextBy_none hnext (Nat.le_add_right _ _) hchild
  | some found =>
      rcases found with ⟨place, id⟩
      rcases nextBy_some hnext with ⟨hle, hchild, hid, hbefore⟩
      rcases Nat.exists_eq_add_of_le hle with ⟨idx, rfl⟩
      have hplace := getElem?_childRoses tree list (before.length + idx)
      rw [hroses, List.getElem?_append_right (Nat.le_add_right _ _), Nat.add_sub_cancel_left,
        hchild, Option.map_some] at hplace
      have hidx := (List.getElem?_eq_some_iff.mp hplace).1
      refine Or.inr ⟨id, rest.take idx, tree.rose id, rest.drop (idx + 1), ?_, ?_, ?_, ?_⟩
      · rw [List.length_take_of_le (Nat.le_of_lt hidx)]
      · have hsplit := List.take_append_drop idx rest
        rw [List.drop_eq_getElem_cons hidx, (List.getElem?_eq_some_iff.mp hplace).2] at hsplit
        exact hsplit.symm
      · rw [hwf.holdsOperator_rose (hwf.child_lt_size (List.mem_of_getElem? hchild))]
        exact hid
      · intro rose hrose
        rcases List.mem_iff_getElem?.mp hrose with ⟨j, hj⟩
        have hlt := (List.getElem?_eq_some_iff.mp hj).1
        rw [List.length_take_of_le (Nat.le_of_lt hidx)] at hlt
        rw [List.getElem?_take_of_lt hlt] at hj
        rcases hget hj with ⟨other, hother, heq⟩
        rw [heq]
        exact hbefore _ other (Nat.le_add_right _ _) (by omega) hother

theorem spaceNextOperator_of_found (hwf : tree.WellFormed) (hlist : tree.isGroup list = true)
    {front back : List Rose} {op : Rose} (hroses : tree.childRoses list = front ++ op :: back)
    (hop : op.holdsOperator = true) {start : Nat}
    (hnext : tree.nextBy list start (fun id => tree.isA id .operator) =
      some (front.length, id)) :
    exists after, tree.FilledWithin list after ∧
      after.childRoses list =
        (front ++ gap front.getLast? (some op) ++ [op]) ++ (gap (some op) back.head? ++ back) ∧
      spaceNextOperator list tree start =
        some (after, (front ++ gap front.getLast? (some op) ++ [op]).length) := by
  have hright : (front ++ [op]).length = front.length + 1 := by
    rw [List.length_append, List.length_singleton]
  have hroses' : tree.childRoses list = (front ++ [op]) ++ back := by
    rw [hroses, List.append_assoc, List.singleton_append]
  -- The space on the right comes first.
  have hspaced : exists spaced,
      (if tree.childHas list (front.length + 1) (fun id => !tree.isWhitespace id) = true then
        tree.insertBlank list (front.length + 1) [' '] else tree) = spaced ∧
      tree.FilledWithin list spaced ∧
      spaced.childRoses list = front ++ op :: (gap (some op) back.head? ++ back) := by
    refine ⟨_, rfl, ?_⟩
    rw [← hright, hwf.childHas_solid hroses', gap_right hop]
    split
    · refine ⟨filledWithin_insertBlank hwf hlist _ _, ?_⟩
      rw [childRoses_insertBlank hwf hlist hroses', List.append_assoc]
      rfl
    · exact ⟨FilledWithin.refl hwf list, hroses⟩
  rcases hspaced with ⟨spaced, hif, hfill, hafter⟩
  have hgroup := hfill.reblanked.isGroup_of_isGroup hlist
  have hsolid := hfill.wellFormed.childHas_solid_before hafter
  rw [spaceNextOperator, hnext]
  dsimp only
  rw [hif, hsolid, gap_left hop]
  split
  · refine ⟨spaced.insertBlank list front.length [' '],
      hfill.trans hwf (filledWithin_insertBlank hfill.wellFormed hgroup _ _), ?_, ?_⟩
    · rw [childRoses_insertBlank hfill.wellFormed hgroup hafter]
      simp only [List.append_assoc, List.cons_append, List.nil_append]
    · simp only [List.length_append, List.length_singleton]
  · refine ⟨_, hfill, ?_, ?_⟩
    · rw [hafter]
      simp only [List.append_assoc, List.nil_append, List.singleton_append]
    · rw [List.append_nil, hright]

theorem sweep_spaceNextOperator (hwf : tree.WellFormed) (hlist : tree.isGroup list = true)
    {before rest : List Rose} (hroses : tree.childRoses list = before ++ rest)
    (hready : Ready before.getLast? rest) {budget : Nat}
    (hbudget : rest.countP holdsOperator <= budget) :
    tree.FilledWithin list (sweep (spaceNextOperator list) budget before.length tree) ∧
      (sweep (spaceNextOperator list) budget before.length tree).childRoses list =
        before ++ spaceAfter before.getLast? rest := by
  induction budget generalizing tree before rest with
  | zero =>
      have hquiet : forall rose, rose ∈ rest -> rose.holdsOperator = false := by
        intro rose hrose
        have hnone := List.countP_eq_zero.mp (Nat.le_zero.mp hbudget) rose hrose
        exact Bool.eq_false_iff.mpr hnone
      rw [sweep, spaceAfter_eq_self hquiet hready]
      exact ⟨FilledWithin.refl hwf list, hroses⟩
  | succ budget ih =>
      rcases hwf.nextOperator hroses with
        ⟨hnone, hquiet⟩ | ⟨id, quiet, op, back, hnext, rfl, hop, hquiet⟩
      · rw [sweep, spaceNextOperator, hnone, spaceAfter_eq_self hquiet hready]
        exact ⟨FilledWithin.refl hwf list, hroses⟩
      · rw [← List.append_assoc] at hroses
        rw [← List.length_append] at hnext
        rcases spaceNextOperator_of_found hwf hlist hroses hop hnext with
          ⟨after, hfill, hafter, hstep⟩
        have hgroup := hfill.reblanked.isGroup_of_isGroup hlist
        have hlast : (before ++ quiet ++ gap (before ++ quiet).getLast? (some op) ++
            [op]).getLast? = some op := by
          rw [List.getLast?_append_of_ne_nil _ (List.cons_ne_nil _ _)]
          rfl
        have hless : (gap (some op) back.head? ++ back).countP holdsOperator <= budget := by
          have hgap : (gap (some op) back.head?).countP holdsOperator = 0 := by
            rcases gap_cases (some op) back.head? with hgap | hgap
            · rw [hgap]
              rfl
            · rw [hgap]
              rfl
          rw [List.countP_append, List.countP_cons_of_pos hop] at hbudget
          rw [List.countP_append, hgap]
          omega
        rcases ih hfill.wellFormed hgroup hafter (by rw [hlast]; exact ready_gap _ _) hless with
          ⟨hlater, hresult⟩
        rw [sweep, hstep]
        refine ⟨hfill.trans hwf hlater, ?_⟩
        dsimp only
        rw [hresult, hlast, spaceAfter_gap, spaceAfter_append, spaceAfter_of_quiet hquiet hready,
          spaceAfter, List.getLast?_append]
        simp only [List.append_assoc, List.singleton_append]

theorem sweepList_spaceNextOperator (hwf : tree.WellFormed) (hlist : tree.isGroup list = true) :
    tree.FilledWithin list (tree.sweepList list (spaceNextOperator list)) ∧
      (tree.sweepList list (spaceNextOperator list)).childRoses list =
        spaceAfter none (tree.childRoses list) := by
  have hroses : tree.childRoses list = [] ++ tree.childRoses list := rfl
  have hready : Ready ([] : List Rose).getLast? (tree.childRoses list) := by
    rintro rose hnone
    cases hnone
  have hbudget : (tree.childRoses list).countP holdsOperator <= tree.childCount list := by
    refine Nat.le_trans List.countP_le_length ?_
    rw [childRoses, List.length_map]
    exact Nat.le_refl _
  exact sweep_spaceNextOperator hwf hlist hroses hready hbudget

theorem rose_spaceOperatorsWithin {depth : Nat} (hwf : tree.WellFormed)
    (hlist : tree.isGroup list = true)
    (hnests : Nests (fun _ => false) depth (tree.rose list)) :
    tree.FilledWithin list (spaceOperatorsWithin depth list tree) ∧
      (spaceOperatorsWithin depth list tree).rose list = (tree.rose list).spaced := by
  induction depth generalizing tree list with
  | zero =>
      rcases isGroup_iff_kind?.mp hlist with ⟨kind, hkind⟩
      rw [hwf.rose_of_kind? hkind] at hnests
      cases hnests with
      | free hfree _ =>
          cases hfree
  | succ depth ih =>
      rcases isGroup_iff_kind?.mp hlist with ⟨kind, hkind⟩
      have hrose := hwf.rose_of_kind? hkind
      have hbelow : forall id, id ∈ tree.children list ->
          Nests (fun _ => false) depth (tree.rose id) := by
        intro id hid
        rw [hrose] at hnests
        cases hnests with
        | free hfree _ =>
            cases hfree
        | group hall =>
            exact hall _ (List.mem_map_of_mem hid)
      have hvisit : forall (tree : Tree) (id : NodeId), tree.WellFormed -> tree.isGroup id = true ->
          Nests (fun _ => false) depth (tree.rose id) ->
          tree.FilledWithin id (spaceOperatorsWithin depth id tree) ∧
            (spaceOperatorsWithin depth id tree).rose id = (tree.rose id).spaced :=
        fun _ _ hwf hgroup hfits => ih hwf hgroup hfits
      rcases childRoses_foldl_sublists hvisit hwf hbelow (fun _ => rfl) with ⟨hinner, hroses⟩
      rw [spaceOperatorsWithin]
      generalize (tree.sublists list).foldl
        (fun tree sublist => spaceOperatorsWithin depth sublist tree) tree = inner at hinner hroses
      have hgroup := hinner.reblanked.isGroup_of_isGroup hlist
      rcases sweepList_spaceNextOperator hinner.wellFormed hgroup with ⟨houter, hspaced⟩
      have hfill := hinner.trans hwf houter
      refine ⟨hfill, ?_⟩
      have hkind' := (hfill.reblanked.kind?_eq list (lt_size_of_isGroup hlist)).trans hkind
      rw [hfill.wellFormed.rose_of_kind? hkind', ← childRoses, hspaced, hroses, hrose, spaced,
        spacedOf_eq_map, childRoses]

/-!
# Parsed statements
-/

theorem GroupsBeginSolid.full_rose (h : tree.GroupsBeginSolid) (hwf : tree.WellFormed)
    (hid : id < tree.size) (hne : tree.isGroup id = true -> tree.children id ≠ []) :
    Full (tree.rose id) := by
  induction id using hwf.induction_up with
  | step id ih =>
      rcases isGroup_or_token? hid with hgroup | ⟨token, htoken⟩
      · rcases isGroup_iff_kind?.mp hgroup with ⟨kind, hkind⟩
        rw [hwf.rose_of_kind? hkind]
        refine Full.group (fun hnil => hne hgroup (List.map_eq_nil_iff.mp hnil)) ?_
        intro child hchild
        rcases List.mem_map.mp hchild with ⟨below, hmem, rfl⟩
        refine ih below hmem (hwf.child_lt_size hmem) fun hlist => ?_
        rcases h id below hmem hlist with ⟨first, hfirst, _⟩
        exact List.ne_nil_of_mem (List.mem_of_getElem? hfirst)
      · rw [rose_of_token? htoken]
        exact Full.token

end Tree

theorem Token.Contiguous.inSource {offset : Nat} {tokens : List Token}
    (h : Contiguous offset tokens) : forall token, token ∈ tokens -> token.inSource = true := by
  induction tokens generalizing offset with
  | nil =>
      intro token hmem
      cases hmem
  | cons first rest ih =>
      intro token hmem
      rcases List.mem_cons.mp hmem with rfl | htail
      · unfold Token.inSource
        rw [h.1]
        rfl
      · exact ih h.2 token htail

theorem inSource_of_parse {sql : Text} {options : LexerOptions} {limit : Nat}
    {statements : List Statement} (h : parse sql options limit = .ok statements)
    {s : Statement} (hs : s ∈ statements) :
    forall token, token ∈ s.tokens -> token.inSource = true := by
  rcases exists_tokens_of_parse h hs with ⟨config, tokens, _, hpart, hkept⟩
  intro token htoken
  rcases exists_of_mem_forall₂ hkept htoken with ⟨old, hold, hsame⟩
  have hcontiguous := (emits_tokenize config sql).contiguous (ready_start sql)
  unfold Token.inSource
  rw [hsame.position_eq]
  exact hcontiguous.inSource old (hpart.subset hold)

theorem Statement.full_rose_of_parse {sql : Text} {options : LexerOptions} {limit : Nat}
    {statements : List Statement} (hparse : parse sql options limit = .ok statements)
    {s : Statement} (hs : s ∈ statements) (hne : s.tokens ≠ []) :
    Rose.Full (s.tree.rose s.root) := by
  rcases parse_ok hparse with ⟨config, _, hgroups⟩
  rcases exists_of_mem_forall₂ hgroups hs with ⟨flat, hflat, hgroup⟩
  rcases exists_of_mem_splitStatements hflat with ⟨tokens, _, rfl⟩
  rcases wellFormed_of_group hgroup with ⟨hwf, hroot⟩
  have hid := Tree.lt_size_of_isGroup hroot
  apply (groupsBeginSolid_of_group hgroup).full_rose hwf hid
  intro _ hnil
  rcases Tree.isGroup_iff_kind?.mp hroot with ⟨kind, hkind⟩
  apply hne
  rw [Statement.tokens, ← hwf.tokens_rose hid, hwf.rose_of_kind? hkind, hnil]
  rfl

/-- Spacing the operators of a statement spaces its rose. -/
theorem Statement.tokens_spaceOperators {s : Statement} (hwf : s.tree.WellFormed)
    (hroot : s.tree.isGroup s.root = true) :
    s.spaceOperators.tokens = (s.tree.rose s.root).spaced.tokens := by
  have hid := Tree.lt_size_of_isGroup hroot
  have hnests : Rose.Nests (fun _ => false) s.tree.size (s.tree.rose s.root) :=
    hwf.nests_rose hid (Nat.le_add_left _ _)
  rcases Tree.rose_spaceOperatorsWithin hwf hroot hnests with ⟨hfill, hspaced⟩
  rw [← hspaced, hfill.wellFormed.tokens_rose (Nat.lt_of_lt_of_le hid hfill.size_le)]
  rfl

/-- Between two operators that stand side by side there comes one space, or nothing: nothing
if and only if the one ends a group, the other begins a group, and the groups are
neighbours in a list. -/
theorem spaceOperators_between {sql : Text} {options : LexerOptions} {limit : Nat}
    {statements : List Statement} (hparse : parse sql options limit = .ok statements)
    {s : Statement} (hs : s ∈ statements) {front back : List Token} {left right : Token}
    (htokens : s.tokens = front ++ left :: right :: back) (hleft : left.isOperator = true)
    (hright : right.isOperator = true) :
    exists front' back',
      s.spaceOperators.tokens = front' ++ left ::
        ((if (s.tree.rose s.root).seams[front.length]? = some true then [] else [.blank [' ']]) ++
          right :: back') ∧
      front'.filter Token.inSource = front ∧ back'.filter Token.inSource = back := by
  rcases parse_wellFormed hparse hs with ⟨hwf, hroot⟩
  have hsource := inSource_of_parse hparse hs
  have hrose : (s.tree.rose s.root).tokens = front ++ left :: right :: back := by
    rw [hwf.tokens_rose (Tree.lt_size_of_isGroup hroot)]
    exact htokens
  have hfull : Rose.Full (s.tree.rose s.root) := by
    apply Statement.full_rose_of_parse hparse hs
    rw [htokens]
    exact List.append_ne_nil_of_right_ne_nil front (List.cons_ne_nil _ _)
  rcases hfull.spaced_between hrose hleft hright with ⟨front', back', hsplit, hfront⟩
  rw [htokens] at hsource
  have hkept : front.filter Token.inSource = front :=
    List.filter_eq_self.mpr fun token hmem => hsource token (List.mem_append_left _ hmem)
  refine ⟨front', back', (Statement.tokens_spaceOperators hwf hroot).trans hsplit,
    hfront.trans hkept, ?_⟩
  -- What is left behind the two is what the source has there.
  have hfilter := Rose.filter_tokens_spaced (s.tree.rose s.root)
  have hbetween : (if (s.tree.rose s.root).seams[front.length]? = some true then []
      else [Token.blank [' ']]).filter Token.inSource = [] := by
    split <;> rfl
  rw [hsplit, hrose, List.filter_eq_self.mpr hsource, List.filter_append, hfront, hkept,
    List.filter_cons_of_pos (hsource left (by simp)), List.filter_append, hbetween,
    List.nil_append, List.filter_cons_of_pos (hsource right (by simp))] at hfilter
  have htail := List.append_cancel_left hfilter
  rw [List.cons.injEq, List.cons.injEq] at htail
  exact htail.2.2

theorem tokenize_contains :
    tokenize ⟨.generic, Vocabulary.ofDialect .generic⟩ (Text.of "a@>b") =
      [⟨.name, ['a'], some 0⟩, ⟨.operator, ['@'], some 1⟩, ⟨.comparison, ['>'], some 2⟩,
       ⟨.name, ['b'], some 3⟩] := by
  decide +kernel

theorem exists_contains :
    exists statements s, parse (Text.of "a@>b") {} defaultMaxDepth = .ok statements ∧
      s ∈ statements ∧
      s.tokens = [⟨.name, ['a'], some 0⟩] ++ ⟨.operator, ['@'], some 1⟩ ::
        ⟨.comparison, ['>'], some 2⟩ :: [⟨.name, ['b'], some 3⟩] ∧
      (s.tree.rose s.root).seams[1]? = some false ∧
      s.spaceOperators.tokens =
        [⟨.name, ['a'], some 0⟩, .blank [' '], ⟨.operator, ['@'], some 1⟩, .blank [' '],
         ⟨.comparison, ['>'], some 2⟩, .blank [' '], ⟨.name, ['b'], some 3⟩] := by
  rcases exists_parsed (p := fun s => s.tokens ==
        [⟨.name, ['a'], some 0⟩, ⟨.operator, ['@'], some 1⟩, ⟨.comparison, ['>'], some 2⟩,
         ⟨.name, ['b'], some 3⟩] &&
      ((s.tree.rose s.root).seams[1]? == some false &&
      s.spaceOperators.tokens ==
        [⟨.name, ['a'], some 0⟩, .blank [' '], ⟨.operator, ['@'], some 1⟩, .blank [' '],
         ⟨.comparison, ['>'], some 2⟩, .blank [' '], ⟨.name, ['b'], some 3⟩]))
    tokenize_contains (by decide) with ⟨statements, s, hparse, hs, hfound⟩
  rw [Bool.and_eq_true, Bool.and_eq_true, beq_iff_eq, beq_iff_eq, beq_iff_eq] at hfound
  exact ⟨statements, s, hparse, hs, hfound⟩

/-- No seam is between the two, so the space is what the theorem says. -/
theorem spaceOperators_between_contains :
    exists statements s, parse (Text.of "a@>b") {} defaultMaxDepth = .ok statements ∧
      s ∈ statements ∧
      s.tokens = [⟨.name, ['a'], some 0⟩] ++ ⟨.operator, ['@'], some 1⟩ ::
        ⟨.comparison, ['>'], some 2⟩ :: [⟨.name, ['b'], some 3⟩] ∧
      (s.tree.rose s.root).seams[1]? = some false ∧
      exists front' back',
        s.spaceOperators.tokens = front' ++ ⟨.operator, ['@'], some 1⟩ ::
          ((if (s.tree.rose s.root).seams[1]? = some true then [] else [.blank [' ']]) ++
            ⟨.comparison, ['>'], some 2⟩ :: back') ∧
        front'.filter Token.inSource = [⟨.name, ['a'], some 0⟩] ∧
        back'.filter Token.inSource = [⟨.name, ['b'], some 3⟩] := by
  rcases exists_contains with ⟨statements, s, hparse, hs, htokens, hseam, _⟩
  exact ⟨statements, s, hparse, hs, htokens, hseam,
    spaceOperators_between hparse hs htokens (by decide) (by decide)⟩

/-- An operator that is read as two tokens is cut in two. -/
theorem spaceOperators_splits_contains :
    ¬ forall (sql : Text) (statements : List Statement) (s : Statement)
      (front back : List Token) (left right : Token),
      parse sql {} defaultMaxDepth = .ok statements -> s ∈ statements ->
      s.tokens = front ++ left :: right :: back ->
      left.isOperator = true -> right.isOperator = true ->
      exists front' back', s.spaceOperators.tokens = front' ++ left :: right :: back' := by
  rcases exists_contains with ⟨statements, s, hparse, hs, htokens, _, hspaced⟩
  intro hall
  rcases hall _ statements s [⟨.name, ['a'], some 0⟩] [⟨.name, ['b'], some 3⟩]
    ⟨.operator, ['@'], some 1⟩ ⟨.comparison, ['>'], some 2⟩ hparse hs htokens (by decide)
    (by decide) with ⟨front', back', hafter⟩
  rw [hspaced] at hafter
  have hinfix : [⟨.operator, ['@'], some 1⟩, ⟨.comparison, ['>'], some 2⟩] <:+:
      [⟨.name, ['a'], some 0⟩, Token.blank [' '], ⟨.operator, ['@'], some 1⟩, .blank [' '],
       ⟨.comparison, ['>'], some 2⟩, .blank [' '], ⟨.name, ['b'], some 3⟩] := by
    rw [hafter]
    exact ⟨front', back', by rw [List.append_assoc]; rfl⟩
  revert hinfix
  decide

end SqlLayout
