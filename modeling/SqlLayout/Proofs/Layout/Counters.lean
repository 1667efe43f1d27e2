import SqlLayout.Proofs.Layout.Courses
import SqlLayout.Proofs.Layout.Separation
import SqlLayout.Proofs.Parsing

/-!
# The counters of an indentation

On its way through a list the indentation raises the number of open levels and moves the
offset, and takes back what it did.  What was nested in one list is known to a later one
by the text only, on which columns are measured.
-/

namespace SqlLayout

/-!
# Columns of a text
-/

namespace Text

variable {front : Text}

/-- The column behind a text that starts at a column. -/
def columnFrom (column : Nat) (text : Text) : Nat :=
  match lineTail? text with
  | some tail => tail.length
  | none => column + text.length

theorem lineTail?_append (front back : Text) :
    lineTail? (front ++ back) =
      match lineTail? back with
      | some tail => some tail
      | none => (lineTail? front).map (· ++ back) := by
  induction front with
  | nil =>
      cases hback : lineTail? back with
      | none => exact hback
      | some tail => exact hback
  | cons c front ih =>
      rw [List.cons_append, lineTail?, ih, lineTail?]
      cases lineTail? back with
      | some tail =>
          rfl
      | none =>
          cases lineTail? front with
          | some tail =>
              rfl
          | none =>
              dsimp only [Option.map_none]
              split
              · rfl
              · rfl

theorem columnFrom_append (column : Nat) (front back : Text) :
    columnFrom column (front ++ back) = columnFrom (columnFrom column front) back := by
  rw [columnFrom, lineTail?_append, columnFrom, columnFrom]
  cases lineTail? back with
  | some tail =>
      rfl
  | none =>
      cases lineTail? front with
      | some tail =>
          exact List.length_append
      | none =>
          dsimp only [Option.map_none]
          rw [List.length_append, Nat.add_assoc]

end Text

namespace Indenting

open Tree

variable {tree : Tree} {w v : Indenting} {list sublist leaf : NodeId} {depth : Nat}
  {front back : List NodeId}

theorem textOf_cons (id : NodeId) (ids : List NodeId) :
    tree.textOf (id :: ids) = leafText tree id ++ tree.textOf ids := by
  unfold Tree.textOf leafText
  cases htoken : tree.token? id with
  | none =>
      rw [List.filterMap_cons_none htoken]
      rfl
  | some token =>
      rw [List.filterMap_cons_some htoken]
      rfl

theorem columnAfter_eq (hleaf : leaf ∉ front) (column : Nat) :
    columnAfter tree leaf column (front ++ leaf :: back) =
      Text.columnFrom column (tree.textOf (front ++ [leaf])) := by
  induction front generalizing column with
  | nil =>
      rw [List.nil_append, columnAfter, if_pos (beq_self_eq_true leaf), List.nil_append,
        textOf_cons, Tree.textOf, List.filterMap_nil, List.flatMap_nil, List.append_nil]
      rfl
  | cons id front ih =>
      rw [List.mem_cons, not_or] at hleaf
      rw [List.cons_append, columnAfter, if_neg (by simpa using Ne.symm hleaf.1), ih hleaf.2,
        List.cons_append, textOf_cons, Text.columnFrom_append]
      rfl

/-!
# Levels
-/

/-- Whether a list opens a level. -/
def opensLevel (list : NodeId) (w : Indenting) : Bool :=
  match w.tree.kind? list with
  | some .whereClause => true
  | some .parenthesis => w.opensSubquery list
  | _ => false

theorem indent_start (list : NodeId) (w : Indenting) :
    (w.course list).start.indenter.indent =
      w.indenter.indent + if w.opensLevel list then 1 else 0 := by
  unfold course
  split
  · rename_i hkind
    rw [opensLevel, hkind, if_pos rfl]
    exact congrArg (fun i => i.indent + 1) (indenter_breakFirst list _ w)
  · rename_i hkind
    rw [opensLevel, hkind]
    unfold parenthesisCourse
    dsimp only
    split
    · rfl
    · rfl
  · rename_i hkind
    rw [opensLevel, hkind, if_neg Bool.false_ne_true, indenter_items]
    rfl
  · rename_i hkind
    rw [opensLevel, hkind, if_neg Bool.false_ne_true]
    change (breakArms list _ ((w.shift _).shift _)).indenter.indent = _
    rw [indenter_breakArms]
    rfl
  · rename_i hwhere hparenthesis hitems hcase
    have hnone : w.opensLevel list = false := by
      unfold opensLevel
      split
      · exact absurd ‹_› hwhere
      · exact absurd ‹_› hparenthesis
      · rfl
    rw [hnone, if_neg Bool.false_ne_true]
    rfl

/-- The state in which the lists below a list are done. -/
def visited (depth : Nat) (list : NodeId) (w : Indenting) : Indenting :=
  visitAll depth ((w.opened list).tree.sublists list) (w.opened list)

theorem indent_opened (list : NodeId) (w : Indenting) :
    (w.opened list).indenter.indent =
      w.indenter.indent + if w.opensLevel list then 1 else 0 := by
  rw [indenter_opened, indent_start]

theorem indent_visited (depth : Nat) (list : NodeId) (w : Indenting) :
    (w.visited depth list).indenter.indent =
      w.indenter.indent + if w.opensLevel list then 1 else 0 := by
  rw [visited, indenter_visitAll, indent_opened]

/-!
# The root
-/

@[simp] theorem root_breakFirst (list : NodeId) (word : Text) (w : Indenting) :
    (w.breakFirst list word).root = w.root := by
  obtain ⟨_, h⟩ := breakFirst_frame list word w
  rw [h]

theorem root_wrapItems (list : NodeId) (position : Int) (items : List NodeId)
    (w : Indenting) : (wrapItems list position items w).root = w.root := by
  obtain ⟨_, h⟩ := wrapItems_frame list position items w
  rw [h]

theorem root_breakArms (list : NodeId) (arms : List Tree.CaseArm) (w : Indenting) :
    (breakArms list arms w).root = w.root := by
  obtain ⟨_, h⟩ := breakArms_frame list arms w
  rw [h]

theorem root_opened (list : NodeId) (w : Indenting) : (w.opened list).root = w.root := by
  have hstart : (w.course list).start.root = w.root := by
    unfold course
    split
    · exact root_breakFirst list _ w
    · unfold parenthesisCourse
      dsimp only
      split
      · rfl
      · rfl
    · unfold itemsCourse
      dsimp only
      split
      · split
        · rfl
        · exact root_wrapItems list _ _ (w.shift _)
      · rfl
    · exact root_breakArms list _ ((w.shift _).shift _)
    · rfl
  rw [← hstart]
  unfold opened
  dsimp only
  split
  · rfl
  · rfl

theorem root_finish (list : NodeId) (w v : Indenting) :
    ((w.course list).finish v).root = v.root := by
  unfold course
  split
  · rfl
  · unfold parenthesisCourse
    dsimp only
    split
    · rfl
    · rfl
  · rfl
  · exact root_breakFirst list _ ((v.shift _).shift _)
  · rfl

theorem root_foldl {visit : Indenting -> NodeId -> Indenting}
    (hvisit : forall w id, (visit w id).root = w.root) (ids : List NodeId) (w : Indenting) :
    (ids.foldl visit w).root = w.root := by
  induction ids generalizing w with
  | nil =>
      rfl
  | cons first rest ih =>
      exact (ih _).trans (hvisit w first)

theorem root_processList (depth : Nat) (list : NodeId) (w : Indenting) :
    (processList depth list w).root = w.root := by
  induction depth generalizing list w with
  | zero =>
      rfl
  | succ depth ih =>
      rw [processList_succ, root_finish, visitAll, root_foldl (fun w id => ih id w), root_opened]

theorem visitAll_eq (depth : Nat) (lists : List NodeId) (w : Indenting) :
    visitAll depth lists w = { w with tree := (visitAll depth lists w).tree } := by
  have hindenter := indenter_visitAll depth lists w
  have hroot : (visitAll depth lists w).root = w.root :=
    root_foldl (fun w id => root_processList depth id w) lists w
  rw [← hindenter, ← hroot]

/-!
# States on the way
-/

/-- The states that an indentation passes on its way through a list. -/
inductive Passes : Nat -> NodeId -> Indenting -> Indenting -> Prop where
  | met {depth : Nat} {list : NodeId} {w : Indenting} : Passes depth list w w
  | started {depth : Nat} {list : NodeId} {w : Indenting} :
      Passes (depth + 1) list w (w.course list).start
  | opened {depth : Nat} {list : NodeId} {w : Indenting} :
      Passes (depth + 1) list w (w.opened list)
  | inside {depth : Nat} {list sublist : NodeId} {w v : Indenting} {front back : List NodeId}
      (hsplit : (w.opened list).tree.sublists list = front ++ sublist :: back)
      (h : Passes depth sublist (visitAll depth front (w.opened list)) v) :
      Passes (depth + 1) list w v
  | visited {depth : Nat} {list : NodeId} {w : Indenting} :
      Passes (depth + 1) list w (w.visited depth list)
  | left {depth : Nat} {list : NodeId} {w : Indenting} :
      Passes depth list w (processList depth list w)

theorem Passes.indent_le (h : Passes depth list w v) :
    w.indenter.indent <= v.indenter.indent := by
  induction h with
  | met =>
      exact Nat.le_refl _
  | started =>
      rw [indent_start]
      exact Nat.le_add_right _ _
  | opened =>
      rw [indent_opened]
      exact Nat.le_add_right _ _
  | inside _ _ ih =>
      rw [indenter_visitAll, indent_opened] at ih
      exact Nat.le_trans (Nat.le_add_right _ _) ih
  | visited =>
      rw [indent_visited]
      exact Nat.le_add_right _ _
  | left =>
      rw [indenter_processList]

/-- The way through a list ends with the counters it began with, never has less levels open
than at the beginning, and takes back a level just where it opened one.  A list below is met
in the state in which the list was opened, but for the tree: what was nested before it moves
a column only by the text in front of it. -/
theorem counters_restored (depth : Nat) (list : NodeId) (w : Indenting) :
    (processList depth list w).indenter = w.indenter ∧
      (forall v, Passes depth list w v -> w.indenter.indent <= v.indenter.indent) ∧
      (w.visited depth list).indenter.indent =
        w.indenter.indent + (if w.opensLevel list then 1 else 0) ∧
      forall front sublist back,
        (w.opened list).tree.sublists list = front ++ sublist :: back ->
        exists tree, visitAll depth front (w.opened list) = { w.opened list with tree := tree } ∧
          forall before leaf behind, leaf ∉ before ->
            tree.leaves w.root = before ++ leaf :: behind ->
            (visitAll depth front (w.opened list)).offsetAfter leaf =
              (Text.columnFrom 0 (tree.textOf (before ++ [leaf])) : Int) -
                (w.opened list).indenter.levelColumns - (w.opened list).indenter.offset := by
  refine ⟨indenter_processList depth list w, fun v hv => hv.indent_le,
    indent_visited depth list w, ?_⟩
  intro front sublist back _
  refine ⟨_, visitAll_eq depth front (w.opened list), ?_⟩
  intro before leaf behind hleaf hleaves
  have hroot : (visitAll depth front (w.opened list)).root = w.root :=
    (congrArg Indenting.root (visitAll_eq depth front (w.opened list))).trans (root_opened list w)
  rw [offsetAfter, hroot, hleaves, columnAfter_eq hleaf, indenter_visitAll]

/-- A subquery opens a level that the bracket behind it does not see: what is measured there
is the text, which has got a line break in front. -/
theorem counters_restored_brackets :
    exists (s : Statement) (w v : Indenting), s.text = Text.of "(select a)(b)" ∧
      w = { indenter := { width := 2 }, tree := s.tree, root := s.root } ∧
      Passes 3 w.root w v ∧ v.indenter.indent = 1 ∧
      w.indenter.indent <= v.indenter.indent ∧
      (processList 3 w.root w).indenter = w.indenter ∧
      exists tree, visitAll 2 [9] (w.opened w.root) = { w.opened w.root with tree := tree } ∧
        tree.textOf (tree.leaves w.root) = Text.of "\n  (select a)(b)" ∧
        (visitAll 2 [9] (w.opened w.root)).offsetAfter 5 = 13 := by
  have htokens : tokenize ⟨.generic, Vocabulary.ofDialect .generic⟩ (Text.of "(select a)(b)") =
      [⟨.punctuation, ['('], some 0⟩, ⟨.dml, Text.of "select", some 1⟩,
       ⟨.whitespace, [' '], some 7⟩, ⟨.name, ['a'], some 8⟩, ⟨.punctuation, [')'], some 9⟩,
       ⟨.punctuation, ['('], some 10⟩, ⟨.name, ['b'], some 11⟩,
       ⟨.punctuation, [')'], some 12⟩] := by
    decide +kernel
  let start (s : Statement) : Indenting :=
    { indenter := { width := 2 }, tree := s.tree, root := s.root }
  let first (s : Statement) : Indenting := (start s).opened s.root
  let second (s : Statement) : Indenting := visitAll 2 [9] (first s)
  rcases exists_parsed (p := fun s => s.text == Text.of "(select a)(b)" &&
      (first s).tree.sublists s.root == [9, 10] &&
      ((first s).opened 9).indenter.indent == 1 &&
      (second s).tree.leaves s.root == [13, 0, 1, 2, 3, 4] ++ 5 :: [6, 7] &&
      (second s).tree.textOf ((second s).tree.leaves s.root) == Text.of "\n  (select a)(b)" &&
      (Text.columnFrom 0 ((second s).tree.textOf ([13, 0, 1, 2, 3, 4] ++ [5])) : Int) -
        (first s).indenter.levelColumns - (first s).indenter.offset == 13)
    htokens (by decide +kernel) with ⟨_, s, _, _, hfound⟩
  simp only [Bool.and_eq_true, beq_iff_eq] at hfound
  rcases hfound with ⟨⟨⟨⟨⟨htext, hsublists⟩, hlevel⟩, hleaves⟩, hbroken⟩, hcolumn⟩
  have hsplit : ((start s).opened s.root).tree.sublists s.root = [] ++ 9 :: [10] := hsublists
  have hpasses : Passes 3 s.root (start s) ((first s).opened 9) :=
    Passes.inside hsplit Passes.opened
  rcases counters_restored 3 s.root (start s) with ⟨hsame, hleast, _, _⟩
  rcases counters_restored 2 s.root (start s) with ⟨_, _, _, hlists⟩
  rcases hlists [9] 10 [] hsublists with ⟨tree, htree, hcolumns⟩
  have hsecond : (second s).tree = tree := congrArg Indenting.tree htree
  rw [hsecond] at hleaves hbroken hcolumn
  exact ⟨s, start s, (first s).opened 9, htext, rfl, hpasses, hlevel, hleast _ hpasses, hsame,
    tree, htree, hbroken, (hcolumns _ 5 _ (by decide) hleaves).trans hcolumn⟩

end Indenting
end SqlLayout
