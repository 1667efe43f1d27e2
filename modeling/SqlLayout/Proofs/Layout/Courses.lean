import SqlLayout.Proofs.Layout.Relining
import SqlLayout.Proofs.Layout.Spaces

/-!
# The course of an indentation

Every list is laid out in the same three stages: lines are started among its own
children, then the lists below it are laid out from left to right, and at last a line
may be started for the word that closes it.  A list is met once, as it was at the
beginning, and what is done to it then is final.
-/

namespace SqlLayout
namespace Indenting

open Tree

variable {tree after : Tree} {w : Indenting} {list id other : NodeId} {depth : Nat}

@[simp] theorem tree_shift (w : Indenting) (columns : Int) : (w.shift columns).tree = w.tree :=
  rfl

/-!
# Stages
-/

/-- What stands around the walk along a list: the state in which it starts, whether
statements start lines, and what is done when the lists below are finished. -/
structure Course where
  start : Indenting
  splits : Bool := true
  finish : Indenting -> Indenting := fun w => w

def breakFirst (list : NodeId) (word : Text) (w : Indenting) : Indenting :=
  match w.tree.nextBy list 0 fun id => w.tree.isKeywordIn id [word] with
  | some (place, _) => w.breakBefore list place
  | none => w

def whereCourse (list : NodeId) (w : Indenting) : Course where
  start := (w.breakFirst list (Text.of "WHERE")).deepen
  finish := surface

def opensSubquery (list : NodeId) (w : Indenting) : Bool :=
  match w.tree.next list 0 true with
  | some (_, first) => w.tree.isCategory first .dml || w.tree.isCategory first .ddl
  | none => false

def bracketColumns (list : NodeId) (w : Indenting) : Int :=
  match w.tree.nextBy list 0 fun id => w.tree.isPunctuationIn id [['(']] with
  | some (_, bracket) => w.offsetAfter bracket
  | none => 0

def parenthesisCourse (list : NodeId) (w : Indenting) : Course :=
  let isSubquery := w.opensSubquery list
  let opened := if isSubquery then w.deepen.breakBefore list 0 else w
  let columns := opened.bracketColumns list
  { start := opened.shift columns
    splits := !isSubquery
    finish := fun w => (if isSubquery then w.surface else w).shift (-columns) }

def itemColumns (first : NodeId) (w : Indenting) : Int :=
  if w.indenter.fill == '\t' then 1 else (w.offsetBefore? first).getD 0

def itemsCourse (list : NodeId) (w : Indenting) : Course where
  start :=
    match w.tree.identifiers list with
    | first :: second :: rest =>
        if w.tree.isWithin list .function then w
        else
          let columns := w.itemColumns first
          let w := w.shift columns
          (wrapItems list w.indenter.offset (second :: rest) w).shift (-columns)
    | _ => w

def caseCourse (list : NodeId) (w : Indenting) : Course :=
  let arms := w.tree.cases list false
  let outer := ((w.tree.child? list 0).bind w.offsetBefore?).getD 0
  let moved := w.shift outer
  let inner := ((arms.head?.bind armLeader?).bind moved.offsetBefore?).getD 0
  { start := (breakArms list (arms.drop 1) (moved.shift inner)).shift 5
    finish := fun w =>
      (((w.shift (-5)).shift (-inner)).breakFirst list (Text.of "END")).shift (-outer) }

def course (list : NodeId) (w : Indenting) : Course :=
  match w.tree.kind? list with
  | some .whereClause => w.whereCourse list
  | some .parenthesis => w.parenthesisCourse list
  | some .identifierList => w.itemsCourse list
  | some .caseBlock => w.caseCourse list
  | _ => { start := w }

/-- The state in which the lists below a list are met. -/
def opened (list : NodeId) (w : Indenting) : Indenting :=
  let start := (w.course list).start
  (if (w.course list).splits then start.splitStatements list else start).splitKeywords list

/-- The walk along a list between its two ends. -/
def Course.run (visit : NodeId -> Indenting -> Indenting) (list : NodeId) (c : Course) :
    Indenting :=
  c.finish (processDefault visit list c.splits c.start)

section

variable (visit : NodeId -> Indenting -> Indenting) (list : NodeId) (w : Indenting)

theorem processWhere_eq : processWhere visit list w = (w.whereCourse list).run visit list := by
  unfold processWhere
  extract_lets broken
  have hbroken : broken = w.breakFirst list (Text.of "WHERE") := by
    unfold broken breakFirst
    generalize (w.tree.nextBy list 0 fun id => w.tree.isKeywordIn id [Text.of "WHERE"]) = hit
    cases hit with
    | none =>
        rfl
    | some hit =>
        rfl
  rw [hbroken]
  unfold Course.run whereCourse
  dsimp only

theorem processParenthesis_eq :
    processParenthesis visit list w = (w.parenthesisCourse list).run visit list := by
  unfold processParenthesis
  extract_lets isSubquery opened columns inside closed
  have hsubquery : w.opensSubquery list = isSubquery := by
    unfold opensSubquery isSubquery
    cases w.tree.next list 0 true with
    | none =>
        rfl
    | some hit =>
        rfl
  have hcolumns : opened.bracketColumns list = columns := by
    unfold bracketColumns columns
    generalize (opened.tree.nextBy list 0 fun id => opened.tree.isPunctuationIn id [['(']]) = hit
    cases hit with
    | none =>
        rfl
    | some hit =>
        rfl
  unfold Course.run parenthesisCourse
  dsimp only
  rw [hsubquery]
  change closed.shift (-columns) = Indenting.shift (if isSubquery then
    (processDefault visit list (!isSubquery)
      (opened.shift (opened.bracketColumns list))).surface
    else processDefault visit list (!isSubquery) (opened.shift (opened.bracketColumns list)))
    (-opened.bracketColumns list)
  rw [hcolumns]

theorem processIdentifierList_eq :
    processIdentifierList visit list w = (w.itemsCourse list).run visit list := by
  unfold processIdentifierList Course.run itemsCourse itemColumns
  cases w.tree.identifiers list with
  | nil =>
      dsimp only
  | cons first rest =>
      cases rest with
      | nil =>
          dsimp only
      | cons second rest =>
          dsimp only

theorem processCase_eq : processCase visit list w = (w.caseCourse list).run visit list := by
  unfold processCase
  extract_lets arms outer moved inner broken inside ended
  have hended : ended = inside.breakFirst list (Text.of "END") := by
    unfold ended breakFirst
    generalize (inside.tree.nextBy list 0 fun id =>
      inside.tree.isKeywordIn id [Text.of "END"]) = hit
    cases hit with
    | none =>
        rfl
    | some hit =>
        rfl
  rw [hended]
  unfold Course.run caseCourse
  dsimp only [inside, broken, inner, moved, outer, arms]

end

/-- The lists below, from left to right. -/
def visitAll (depth : Nat) (lists : List NodeId) (w : Indenting) : Indenting :=
  lists.foldl (fun w list => processList depth list w) w

theorem processList_succ (depth : Nat) (list : NodeId) (w : Indenting) :
    processList (depth + 1) list w =
      (w.course list).finish
        (visitAll depth ((w.opened list).tree.sublists list) (w.opened list)) := by
  have hrun : processList (depth + 1) list w = (w.course list).run (processList depth) list := by
    unfold processList
    split
    · rename_i hkind
      rw [processWhere_eq, course, hkind]
    · rename_i hkind
      rw [processParenthesis_eq, course, hkind]
    · rename_i hkind
      rw [processIdentifierList_eq, course, hkind]
    · rename_i hkind
      rw [processCase_eq, course, hkind]
    · rename_i hwhere hparenthesis hitems hcase
      unfold course
      split
      · exact absurd ‹_› hwhere
      · exact absurd ‹_› hparenthesis
      · exact absurd ‹_› hitems
      · exact absurd ‹_› hcase
      · rfl
  exact hrun

/-!
# Breaks in one list
-/

theorem relines_breakFirst (list : NodeId) (word : Text) (w : Indenting) :
    Relines list w.tree (w.breakFirst list word).tree := by
  unfold breakFirst
  split
  · exact Relines.refl.insert _ _
  · exact Relines.refl

theorem relines_splitNextStatement {newline : Text} {idx next : Nat}
    (h : splitNextStatement newline list tree idx = some (after, next)) :
    Relines list tree after := by
  unfold splitNextStatement at h
  split at h
  · cases h
  · cases h
    exact Relines.refl
  · split at h
    · rename_i hblank
      cases h
      exact (Relines.refl.removeBefore hblank).insert _ _
    · cases h
      exact Relines.refl.insert _ _

theorem relines_splitNextKeyword {newline : Text} {idx next : Nat}
    (h : splitNextKeyword newline list tree idx = some (after, next)) :
    Relines list tree after := by
  unfold splitNextKeyword at h
  split at h
  · cases h
  · rename_i place _
    have hdrop := Relines.dropBefore tree list place
    dsimp only at h
    generalize (if tree.blankBefore list place then (tree.removeAt list (place - 1), place - 1)
      else (tree, place)) = dropped at h hdrop
    split at h
    · cases h
      exact hdrop
    · cases h
      exact hdrop.insert _ _

theorem relines_splitStatements (list : NodeId) (w : Indenting) :
    Relines list w.tree (w.splitStatements list).tree :=
  Relines.sweep relines_splitNextStatement _ 0 w.tree

theorem relines_splitKeywords (list : NodeId) (w : Indenting) :
    Relines list w.tree (w.splitKeywords list).tree :=
  Relines.sweep relines_splitNextKeyword _ 0 w.tree

theorem relines_wrapItems (list : NodeId) (position : Int) (items : List NodeId)
    (w : Indenting) : Relines list w.tree (wrapItems list position items w).tree := by
  induction items generalizing position w with
  | nil =>
      exact Relines.refl
  | cons item rest ih =>
      unfold wrapItems
      dsimp only
      split
      · refine Relines.trans ?_ (ih _ _)
        split
        · exact Relines.refl.insert _ _
        · exact Relines.refl
      · exact ih _ w

theorem relines_breakArms (list : NodeId) (arms : List Tree.CaseArm) (w : Indenting) :
    Relines list w.tree (breakArms list arms w).tree := by
  induction arms generalizing w with
  | nil =>
      exact Relines.refl
  | cons arm rest ih =>
      refine Relines.trans ?_ (ih _)
      dsimp only
      split
      · exact Relines.refl.insert _ _
      · exact Relines.refl

theorem relines_start (list : NodeId) (w : Indenting) :
    Relines list w.tree (w.course list).start.tree := by
  unfold course
  split
  · exact relines_breakFirst list _ w
  · unfold parenthesisCourse
    extract_lets isSubquery opened columns
    change Relines list w.tree opened.tree
    unfold opened
    split
    · exact Relines.refl.insert _ _
    · exact Relines.refl
  · unfold itemsCourse
    dsimp only
    split
    · split
      · exact Relines.refl
      · exact relines_wrapItems list _ _ (w.shift _)
    · exact Relines.refl
  · exact relines_breakArms list _ ((w.shift _).shift _)
  · exact Relines.refl

theorem relines_opened (list : NodeId) (w : Indenting) :
    Relines list w.tree (w.opened list).tree := by
  refine ((relines_start list w).trans ?_).trans (relines_splitKeywords list _)
  split
  · exact relines_splitStatements list _
  · exact Relines.refl

theorem relines_finish (list : NodeId) (w w' : Indenting) :
    Relines list w'.tree ((w.course list).finish w').tree := by
  unfold course
  split
  · exact Relines.refl
  · unfold parenthesisCourse
    dsimp only
    rw [tree_shift]
    split
    · exact Relines.refl
    · exact Relines.refl
  · exact Relines.refl
  · exact relines_breakFirst list _ ((w'.shift _).shift _)
  · exact Relines.refl

/-!
# The indenter between two stages
-/

@[simp] theorem indenter_breakBefore (w : Indenting) (list : NodeId) (idx : Nat) :
    (w.breakBefore list idx).indenter = w.indenter :=
  rfl

-- Breaking lines changes the tree and nothing else of the state.

theorem breakFirst_frame (list : NodeId) (word : Text) (w : Indenting) :
    exists tree, w.breakFirst list word = { w with tree := tree } := by
  unfold breakFirst
  split
  · exact ⟨_, rfl⟩
  · exact ⟨w.tree, rfl⟩

theorem wrapItems_frame (list : NodeId) (position : Int) (items : List NodeId)
    (w : Indenting) : exists tree, wrapItems list position items w = { w with tree := tree } := by
  induction items generalizing position w with
  | nil =>
      exact ⟨w.tree, rfl⟩
  | cons item rest ih =>
      unfold wrapItems
      dsimp only
      split
      · cases w.tree.indexOf? list item with
        | none =>
            exact ih _ w
        | some place =>
            exact ih _ (w.breakBefore list place)
      · exact ih _ w

theorem breakArms_frame (list : NodeId) (arms : List Tree.CaseArm) (w : Indenting) :
    exists tree, breakArms list arms w = { w with tree := tree } := by
  induction arms generalizing w with
  | nil =>
      exact ⟨w.tree, rfl⟩
  | cons arm rest ih =>
      unfold breakArms
      rw [List.foldl_cons]
      cases (armLeader? arm).bind (w.tree.indexOf? list) with
      | none =>
          exact ih w
      | some place =>
          exact ih (w.breakBefore list place)

@[simp] theorem indenter_breakFirst (list : NodeId) (word : Text) (w : Indenting) :
    (w.breakFirst list word).indenter = w.indenter := by
  obtain ⟨_, h⟩ := breakFirst_frame list word w
  rw [h]

theorem indenter_wrapItems (list : NodeId) (position : Int) (items : List NodeId)
    (w : Indenting) : (wrapItems list position items w).indenter = w.indenter := by
  obtain ⟨_, h⟩ := wrapItems_frame list position items w
  rw [h]

theorem indenter_breakArms (list : NodeId) (arms : List Tree.CaseArm) (w : Indenting) :
    (breakArms list arms w).indenter = w.indenter := by
  obtain ⟨_, h⟩ := breakArms_frame list arms w
  rw [h]

theorem indenter_shift_back {w w' : Indenting} {columns : Int}
    (h : w'.indenter = (w.shift columns).indenter) :
    (w'.shift (-columns)).indenter = w.indenter := by
  unfold shift at h ⊢
  rw [h]
  dsimp only
  rw [Int.add_neg_cancel_right]

theorem indenter_surface_deepen {w w' : Indenting} (h : w'.indenter = w.deepen.indenter) :
    w'.surface.indenter = w.indenter := by
  unfold surface
  rw [h]
  rfl

theorem indenter_items (list : NodeId) (w : Indenting) :
    (w.itemsCourse list).start.indenter = w.indenter := by
  unfold itemsCourse
  dsimp only
  split
  · split
    · rfl
    · exact indenter_shift_back (indenter_wrapItems _ _ _ _)
  · rfl

theorem indenter_opened (list : NodeId) (w : Indenting) :
    (w.opened list).indenter = (w.course list).start.indenter := by
  unfold opened
  dsimp only
  split
  · rfl
  · rfl

theorem indenter_finish {w' : Indenting}
    (h : w'.indenter = (w.course list).start.indenter) :
    ((w.course list).finish w').indenter = w.indenter := by
  unfold course at h ⊢
  split at h
  · exact (indenter_surface_deepen h).trans (indenter_breakFirst list _ w)
  · unfold parenthesisCourse at h ⊢
    dsimp only at h ⊢
    split at h
    · rename_i hsubquery
      rw [if_pos hsubquery, if_pos hsubquery]
      exact indenter_surface_deepen (w := w) (indenter_shift_back (w := w.deepen) h)
    · rename_i hsubquery
      rw [if_neg hsubquery, if_neg hsubquery]
      exact indenter_shift_back h
  · exact h.trans (indenter_items list w)
  · unfold caseCourse at h ⊢
    dsimp only at h ⊢
    have hbroken := (indenter_shift_back h).trans (indenter_breakArms list _ _)
    exact indenter_shift_back ((indenter_breakFirst list _ _).trans (indenter_shift_back hbroken))
  · exact h

def settings (w : Indenting) : Nat × Char × Nat :=
  (w.indenter.width, w.indenter.fill, w.indenter.wrapAfter)

theorem settings_of_indenter {w w' : Indenting} (h : w'.indenter = w.indenter) :
    w'.settings = w.settings := by
  rw [settings, settings, h]

theorem settings_opened (list : NodeId) (w : Indenting) :
    (w.opened list).settings = w.settings := by
  rw [settings_of_indenter (indenter_opened list w)]
  unfold course
  split
  · change (w.breakFirst list (Text.of "WHERE")).settings = w.settings
    exact settings_of_indenter (indenter_breakFirst list _ w)
  · unfold parenthesisCourse
    dsimp only
    split
    · rfl
    · rfl
  · exact settings_of_indenter (indenter_items list w)
  · unfold caseCourse
    dsimp only
    generalize ((w.tree.child? list 0).bind w.offsetBefore?).getD 0 = outer
    generalize (((w.tree.cases list false).head?.bind armLeader?).bind
      (w.shift outer).offsetBefore?).getD 0 = inner
    change (breakArms list _ ((w.shift outer).shift inner)).settings =
      ((w.shift outer).shift inner).settings
    exact settings_of_indenter (indenter_breakArms list _ _)
  · rfl

theorem indenter_foldl {visit : Indenting -> NodeId -> Indenting}
    (hvisit : forall w id, (visit w id).indenter = w.indenter) (ids : List NodeId)
    (w : Indenting) : (ids.foldl visit w).indenter = w.indenter := by
  induction ids generalizing w with
  | nil =>
      rfl
  | cons first rest ih =>
      exact (ih _).trans (hvisit w first)

theorem indenter_processList (depth : Nat) (list : NodeId) (w : Indenting) :
    (processList depth list w).indenter = w.indenter := by
  induction depth generalizing list w with
  | zero =>
      rfl
  | succ depth ih =>
      rw [processList_succ]
      exact indenter_finish ((indenter_foldl (fun w id => ih id w) _ _).trans
        (indenter_opened list w))

theorem indenter_visitAll (depth : Nat) (lists : List NodeId) (w : Indenting) :
    (visitAll depth lists w).indenter = w.indenter :=
  indenter_foldl (fun w id => indenter_processList depth id w) lists w

/-!
# Lists below a list
-/

section

variable (hwf : w.tree.WellFormed) (hlist : w.tree.isGroup list = true)
include hwf hlist

theorem relaidAt_opened : w.tree.RelaidAt (fun id => id = list) (w.opened list).tree :=
  (relines_opened list w).relaidAt hwf hlist

theorem sublists_opened : (w.opened list).tree.sublists list = w.tree.sublists list :=
  (relaidAt_opened hwf hlist).sublists_eq hwf (lt_size_of_isGroup hlist)

end

theorem relaidAt_processList (depth : Nat) {list : NodeId} {w : Indenting}
    (hwf : w.tree.WellFormed) (hlist : w.tree.isGroup list = true) :
    w.tree.RelaidAt (w.tree.AtOrAbove list) (processList depth list w).tree := by
  induction depth generalizing list w with
  | zero =>
      exact RelaidAt.refl hwf _
  | succ depth ih =>
      rw [processList_succ]
      have hopened := relaidAt_opened hwf hlist
      have hbelow := relaidAt_foldl Indenting.tree (fun w list => processList depth list w)
        (fun w id => ih) ((w.opened list).tree.sublists list) hopened.wellFormed
        fun _ hid => isGroup_of_mem_sublists hid
      have hall : w.tree.RelaidAt (w.tree.AtOrAbove list)
          (visitAll depth ((w.opened list).tree.sublists list) (w.opened list)).tree := by
        refine (hopened.mono fun id _ hid => Or.inl hid.symm).trans hbelow ?_
        rintro id hid ⟨sublist, hsublist, habove⟩
        have hparent := hopened.wellFormed.parent?_of_mem (List.mem_filter.mp hsublist).1
        have hlater : (w.opened list).tree.AtOrAbove list id :=
          AtOrAbove.trans (Or.inr (above_of_parent? hparent)) habove
        exact hopened.atOrAbove_old hwf hid hlater
      have hfinish := (relines_finish list w _).relaidAt hall.wellFormed
        (hall.reblanked.isGroup_of_isGroup hlist)
      exact hall.trans hfinish fun id _ hid => Or.inl hid.symm

theorem relaidAt_visitAll (depth : Nat) (lists : List NodeId) {w : Indenting}
    (hwf : w.tree.WellFormed) (hlists : forall id, id ∈ lists -> w.tree.isGroup id = true) :
    w.tree.RelaidAt (fun other => exists id, id ∈ lists ∧ w.tree.AtOrAbove id other)
      (visitAll depth lists w).tree :=
  relaidAt_foldl Indenting.tree (fun w list => processList depth list w)
    (fun _ _ => relaidAt_processList depth) lists hwf hlists

theorem relaidAt_front {front back : List NodeId} {sublist : NodeId} (depth : Nat)
    (hwf : w.tree.WellFormed) (hlist : w.tree.isGroup list = true)
    (hsplit : (w.opened list).tree.sublists list = front ++ sublist :: back) :
    w.tree.RelaidAt (fun id => ¬ w.tree.AtOrAbove sublist id)
      (visitAll depth front (w.opened list)).tree := by
  have hopened := relaidAt_opened hwf hlist
  have hold := (sublists_opened hwf hlist).symm.trans hsplit
  have hfront := relaidAt_visitAll depth front hopened.wellFormed fun id hid =>
    isGroup_of_mem_sublists (hsplit ▸ List.mem_append_left _ hid)
  refine (hopened.mono ?_).trans hfront ?_
  · rintro id _ rfl
    exact hwf.not_atOrAbove_list (List.mem_of_mem_filter (hold ▸ List.mem_append_cons_self))
  · rintro id hid ⟨first, hfirst, habove⟩ hbelow
    exact hwf.not_atOrAbove_of_split hold (List.mem_append_left _ hfirst) hbelow
      (hopened.atOrAbove_old hwf hid habove)

/-!
# Where a list is met
-/

/-- On its way through a list the indentation comes to a list at or below it, and is in
this state then. -/
inductive Reaches : Nat -> NodeId -> Indenting -> NodeId -> Indenting -> Prop where
  | here {depth : Nat} {list : NodeId} {w : Indenting} : Reaches (depth + 1) list w list w
  | inside {depth : Nat} {list sublist other : NodeId} {w v : Indenting}
      {front back : List NodeId}
      (hsplit : (w.opened list).tree.sublists list = front ++ sublist :: back)
      (h : Reaches depth sublist (visitAll depth front (w.opened list)) other v) :
      Reaches (depth + 1) list w other v

namespace Reaches

variable {v : Indenting}

theorem settings_eq (h : Reaches depth list w other v) : v.settings = w.settings := by
  induction h with
  | here =>
      rfl
  | inside _ _ ih =>
      rw [ih, settings_of_indenter (indenter_visitAll _ _ _), settings_opened]

theorem untouched (hwf : w.tree.WellFormed) (hlist : w.tree.isGroup list = true)
    (h : Reaches depth list w other v) :
    w.tree.AtOrAbove list other ∧ w.tree.isGroup other = true ∧
      w.tree.RelaidAt (fun id => ¬ w.tree.AtOrAbove other id) v.tree := by
  induction h with
  | here =>
      exact ⟨Or.inl rfl, hlist, RelaidAt.refl hwf _⟩
  | @inside depth list sublist other w v front back hsplit _ ih =>
      have hfront := relaidAt_front depth hwf hlist hsplit
      have hsublist : sublist ∈ w.tree.sublists list := by
        rw [← sublists_opened hwf hlist, hsplit]
        exact List.mem_append_cons_self
      rcases ih hfront.wellFormed (hfront.reblanked.isGroup_of_isGroup
        (isGroup_of_mem_sublists hsublist)) with ⟨habove, hgroup, hrest⟩
      have hother := hfront.lt_size_of_isGroup hgroup
      have hbelow := hfront.atOrAbove_old hwf hother habove
      have hfree : w.tree.RelaidAt (fun id => ¬ w.tree.AtOrAbove other id)
          (visitAll depth front (w.opened list)).tree :=
        hfront.mono fun id _ hout hin => hout (hbelow.trans hin)
      refine ⟨AtOrAbove.trans (Or.inr (above_of_parent?
          (hwf.parent?_of_mem (List.mem_of_mem_filter hsublist)))) hbelow,
        (hfront.reblanked.isGroup_eq hother).symm.trans hgroup, ?_⟩
      exact hfree.trans hrest fun id _ hout hin =>
        hout (hfree.atOrAbove_of_free hwf (fun _ hin htouched => htouched hin) hin)

/-- Every group at or below a list is met. -/
theorem exists_reaches (hwf : w.tree.WellFormed) (hlist : w.tree.isGroup list = true)
    (hnests : w.tree.nestsWithin depth list = true) (habove : w.tree.AtOrAbove list other)
    (hgroup : w.tree.isGroup other = true) : exists v, Reaches depth list w other v := by
  induction depth generalizing list w with
  | zero =>
      cases hnests
  | succ depth ih =>
      rcases habove with rfl | habove
      · exact ⟨w, here⟩
      · rcases hwf.exists_sublist_above habove hgroup with ⟨sublist, hsublist, hbelow⟩
        rcases List.append_of_mem hsublist with ⟨front, back, hsplit⟩
        rw [← sublists_opened hwf hlist] at hsplit
        have hfront := relaidAt_front depth hwf hlist hsplit
        have hsublistGroup := isGroup_of_mem_sublists hsublist
        have hnests' : w.tree.nestsWithin depth sublist = true :=
          List.all_eq_true.mp hnests sublist hsublist
        rw [← hfront.nestsWithin_eq hwf (lt_size_of_isGroup hsublistGroup)] at hnests'
        rcases ih hfront.wellFormed (hfront.reblanked.isGroup_of_isGroup hsublistGroup) hnests'
          (hfront.atOrAbove_of_solid hwf (tokenHas_of_isGroup hgroup _) hbelow)
          (hfront.reblanked.isGroup_of_isGroup hgroup) with ⟨v, hv⟩
        exact ⟨v, inside hsplit hv⟩

end Reaches

/-!
# What is done after a list is met
-/

section

variable {w' : Indenting} {front back : List NodeId} {sublist : NodeId}
  (hwf : w'.tree.WellFormed) (hother : w'.tree.isGroup other = true)
include hwf hother

theorem sameList_back (depth : Nat) (hsplit : w'.tree.sublists list = front ++ sublist :: back)
    (hbelow : w'.tree.AtOrAbove sublist other) :
    w'.tree.SameList other (visitAll depth back w').tree := by
  have hback := relaidAt_visitAll depth back hwf fun id hid =>
    isGroup_of_mem_sublists (hsplit ▸ List.mem_append_right _ (List.mem_cons_of_mem _ hid))
  have hapart : forall id, w'.tree.AtOrAbove sublist id ->
      ¬ exists later, later ∈ back ∧ w'.tree.AtOrAbove later id := by
    rintro id hid ⟨later, hlater, habove⟩
    exact hwf.not_atOrAbove_of_split hsplit (List.mem_append_right _ hlater) hid habove
  apply hback.sameList hwf (lt_size_of_isGroup hother) (hapart other hbelow)
  intro id hid htouched
  have hparent := above_of_parent? (hwf.parent?_of_mem hid)
  exact absurd htouched (hapart id (hbelow.trans (Or.inr hparent)))

theorem sameList_finish (w : Indenting) (hmem : sublist ∈ w'.tree.children list)
    (hbelow : w'.tree.AtOrAbove sublist other) :
    w'.tree.SameList other ((w.course list).finish w').tree := by
  have hfinish := (relines_finish list w w').relaidAt hwf (isGroup_of_mem_children hmem)
  apply hfinish.sameList hwf (lt_size_of_isGroup hother)
  · rintro rfl
    exact hwf.not_atOrAbove_list hmem hbelow
  · rintro id hid rfl
    have hparent := above_of_parent? (hwf.parent?_of_mem hid)
    exact absurd (hbelow.trans (Or.inr hparent)) (hwf.not_atOrAbove_list hmem)

end

/-- What is done to a list of items when it is met is final: only the lists below it are
laid out after that. -/
theorem Reaches.sameList {v : Indenting} (hwf : w.tree.WellFormed)
    (hlist : w.tree.isGroup list = true) (h : Reaches depth list w other v)
    (hkind : v.tree.kind? other = some .identifierList) :
    (v.opened other).tree.SameList other (processList depth list w).tree := by
  induction h with
  | @here depth list w =>
      have hopened := relaidAt_opened hwf hlist
      have hall := relaidAt_visitAll depth ((w.opened list).tree.sublists list) hopened.wellFormed
        fun _ hid => isGroup_of_mem_sublists hid
      have hfinish : forall w', (w.course list).finish w' = w' := by
        intro w'
        rw [course, hkind]
        rfl
      rw [processList_succ, hfinish]
      apply hall.sameList hopened.wellFormed
        (Nat.lt_of_lt_of_le (lt_size_of_isGroup hlist) hopened.size_le)
      · rintro ⟨sublist, hsublist, habove⟩
        exact hopened.wellFormed.not_atOrAbove_list (List.mem_filter.mp hsublist).1 habove
      · rintro id hid ⟨sublist, hsublist, habove⟩
        rw [← hopened.wellFormed.eq_of_children_above (List.mem_filter.mp hsublist).1 hid habove
          (Or.inl rfl)]
        exact isGroup_of_mem_sublists hsublist
  | @inside depth list sublist other w v front back hsplit hreach ih =>
      have hfront := relaidAt_front depth hwf hlist hsplit
      have hold := (sublists_opened hwf hlist).symm.trans hsplit
      have hsublist := hfront.reblanked.isGroup_of_isGroup
        (isGroup_of_mem_sublists (hold ▸ List.mem_append_cons_self))
      have hown := relaidAt_processList depth hfront.wellFormed hsublist
      have hmet := ih hfront.wellFormed hsublist hkind
      rcases hreach.untouched hfront.wellFormed hsublist with ⟨habove, hgroup, _⟩
      have hbelow := hown.atOrAbove_of_solid hfront.wellFormed (tokenHas_of_isGroup hgroup _) habove
      have hother := hown.reblanked.isGroup_of_isGroup hgroup
      have hlater : w.tree.RelaidAt (fun _ => True)
          (processList depth sublist (visitAll depth front (w.opened list))).tree :=
        (hfront.mono fun _ _ _ => trivial).trans hown fun _ _ _ => trivial
      have hsplit' := (hlater.sublists_eq hwf (lt_size_of_isGroup hlist)).trans hold
      have hvisit : visitAll depth (front ++ sublist :: back) (w.opened list) =
          visitAll depth back (processList depth sublist (visitAll depth front (w.opened list))) :=
        List.foldl_append
      rw [processList_succ, hsplit, hvisit]
      generalize processList depth sublist (visitAll depth front (w.opened list)) = w' at *
      have hback := relaidAt_visitAll depth back hlater.wellFormed fun id hid =>
        isGroup_of_mem_sublists (hsplit' ▸ List.mem_append_right _ (List.mem_cons_of_mem _ hid))
      have hlast : sublist ∈ (visitAll depth back w').tree.sublists list := by
        rw [hback.sublists_eq hlater.wellFormed
          (lt_size_of_isGroup (hlater.reblanked.isGroup_of_isGroup hlist)), hsplit']
        exact List.mem_append_cons_self
      exact (hmet.trans (sameList_back hlater.wellFormed hother depth hsplit' hbelow)).trans
        (sameList_finish hback.wellFormed (hback.reblanked.isGroup_of_isGroup hother) w
          (List.mem_of_mem_filter hlast)
          (hback.atOrAbove_of_solid hlater.wellFormed (tokenHas_of_isGroup hother _) hbelow))

end Indenting
end SqlLayout
