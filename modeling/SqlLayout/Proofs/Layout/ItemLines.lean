import SqlLayout.Proofs.Layout.LineStarts
import SqlLayout.Proofs.Layout.MarginBounds
import SqlLayout.Proofs.Layout.Separation
import SqlLayout.Proofs.Layout.SqueezedBlanks

/-!
# Lines for the items of a list

The items of a list are counted from the column at which the first one starts, and that
column is counted from the open levels.  A line is started for each item with which the
count passes the limit.  Walks along the list that come later may take the line away only
from a keyword.
-/

namespace SqlLayout

/-- The items with which the count passes a limit.  An item counts with its length and one
column for the comma before it; after a line break the count starts again. -/
def overflowing (limit start : Int) (length : NodeId -> Nat) : Int -> List NodeId -> List NodeId
  | _, [] => []
  | position, item :: rest =>
      let position := position + (length item : Int) + 1
      if limit < signed64 position then item :: overflowing limit start length start rest
      else overflowing limit start length position rest

theorem overflowing_congr {limit start : Int} {length length' : NodeId -> Nat}
    {items : List NodeId} (h : forall item, item ∈ items -> length item = length' item)
    (position : Int) :
    overflowing limit start length position items =
      overflowing limit start length' position items := by
  induction items generalizing position with
  | nil =>
      rfl
  | cons item rest ih =>
      have hrest := ih fun other hother => h other (List.mem_cons_of_mem _ hother)
      rw [overflowing, overflowing, h item List.mem_cons_self, hrest, hrest]

theorem signed64_of_word {n : Int} (hlow : -0x8000000000000000 <= n)
    (hhigh : n < 0x8000000000000000) : signed64 n = n := by
  unfold signed64
  apply Int.bmod_eq_of_le <;> omega

theorem overflowing_eq_self {limit start : Int} {length : NodeId -> Nat} {items : List NodeId}
    (hlimit : limit <= start) (hlow : -0x8000000000000000 <= start)
    (hbound : forall item, item ∈ items -> start + (length item : Int) + 1 < 0x8000000000000000) :
    overflowing limit start length start items = items := by
  induction items with
  | nil =>
      rfl
  | cons item rest ih =>
      have hsigned := signed64_of_word (by omega) (hbound item List.mem_cons_self)
      rw [overflowing, hsigned, if_pos (by omega),
        ih fun other hother => hbound other (List.mem_cons_of_mem _ hother)]

theorem Tree.Restarted.items_eq {tree after : Tree} {list word : NodeId} {newline : Text}
    {front new back items : List NodeId} {length : NodeId -> Nat}
    (h : tree.Restarted list newline front [] word new back after) (hwf : tree.WellFormed)
    (hlist : tree.isGroup list = true)
    (hitems : forall id, id ∈ items ->
      id ∈ tree.children list ∧ (tree.value id).length = length id) :
    forall id, id ∈ items -> id ∈ after.children list ∧ (after.value id).length = length id := by
  intro id hid
  rcases hitems id hid with ⟨hin, hlength⟩
  refine ⟨h.mem_children hin, ?_⟩
  rw [(h.relines.relaidAt hwf hlist).value_of_child hwf hin, hlength]

namespace Indenting

open Tree

variable {w : Indenting} {list item first : NodeId} {items rest : List NodeId} {p : Text -> Bool}

/-- The column from which the items of a list are counted. -/
def itemsStart (first : NodeId) (w : Indenting) : Int := w.indenter.offset + w.itemColumns first

/-- The break before an item. -/
def itemBreak (first : NodeId) (w : Indenting) : Text :=
  (w.shift (w.itemColumns first)).indenter.newline

/-- The column that has been reached does not count: a list is measured from where its first
item starts, less the columns of the open levels. -/
theorem itemsStart_eq {leaf : NodeId} {leaves : List NodeId} (hfill : w.indenter.fill ≠ '\t')
    (hleaves : w.tree.leaves first = leaf :: leaves) :
    w.itemsStart first = (columnAfter w.tree leaf 0 (w.tree.leaves w.root) : Int) -
      ((leafText w.tree leaf).length : Int) - w.indenter.levelColumns := by
  have hcolumns : w.itemColumns first =
      w.offsetAfter leaf - ((leafText w.tree leaf).length : Int) := by
    unfold itemColumns offsetBefore?
    rw [if_neg (by simpa using hfill), hleaves, Option.getD_some]
  rw [itemsStart, hcolumns, offsetAfter]
  omega

theorem leftHas_wrapItems {length : NodeId -> Nat} (hwf : w.tree.WellFormed)
    (hlist : w.tree.isGroup list = true) (hitem : item ∈ w.tree.solidChildren list)
    (hitems : forall id, id ∈ items ->
      id ∈ w.tree.children list ∧ (w.tree.value id).length = length id) (position : Int) :
    (wrapItems list position items w).tree.leftHas list item p =
      if item ∈ overflowing (signed64 w.indenter.wrapAfter) w.indenter.offset length position items
      then p w.indenter.newline else w.tree.leftHas list item p := by
  induction items generalizing w position with
  | nil =>
      rfl
  | cons next rest ih =>
      rcases hitems next List.mem_cons_self with ⟨hmem, hlength⟩
      have hrest : forall id, id ∈ rest ->
          id ∈ w.tree.children list ∧ (w.tree.value id).length = length id :=
        fun id hid => hitems id (List.mem_cons_of_mem _ hid)
      rw [wrapItems, overflowing, hlength]
      dsimp only
      split
      · rcases exists_restarted hlist hmem w.indenter.newline with
          ⟨place, front, back, hplace, hrestart⟩
        have hedited : Edited w.tree list item (w.breakBefore list place).tree :=
          (Edited.refl hwf hlist hitem).next hrestart.relines
        have hlater := hrestart.items_eq hwf hlist hrest
        have hbroken : (w.breakBefore list place).tree.leftHas list item p =
            if item = next then p w.indenter.newline else w.tree.leftHas list item p := by
          split
          · rename_i hnext
            rw [hnext]
            exact hrestart.leftHas_word hwf hlist ⟨_, rfl⟩
          · rename_i hnext
            exact hrestart.leftHas_of_ne hwf hlist hitem hnext
        have hafter := ih (w := w.breakBefore list place) hedited.relaid.wellFormed
          hedited.isGroup_list hedited.mem_item hlater w.indenter.offset
        rw [indenter_breakBefore, hbroken] at hafter
        rw [hplace]
        refine Eq.trans hafter ?_
        by_cases hnext : item = next
        · rw [if_pos hnext, hnext, if_pos List.mem_cons_self, ite_self]
        · simp [hnext]
      · exact ih hwf hlist hitem hrest _

/-!
# A list when it is met
-/

section

variable (hwf : w.tree.WellFormed) (hlist : w.tree.isGroup list = true)
  (hkind : w.tree.kind? list = some .identifierList)
  (hitems : w.tree.identifiers list = first :: rest) (hrest : rest ≠ [])
  (hfree : w.tree.isWithin list .function = false)
include hkind hitems hrest hfree

theorem opened_items :
    w.opened list =
      (((wrapItems list (w.itemsStart first) rest (w.shift (w.itemColumns first))).shift
        (-w.itemColumns first)).splitStatements list).splitKeywords list := by
  rcases List.exists_cons_of_ne_nil hrest with ⟨second, others, rfl⟩
  have hcourse : w.course list = w.itemsCourse list := by
    rw [course, hkind]
  have hstart : (w.itemsCourse list).start =
      (wrapItems list (w.itemsStart first) (second :: others)
        (w.shift (w.itemColumns first))).shift (-w.itemColumns first) := by
    unfold itemsCourse
    rw [hitems]
    dsimp only
    rw [hfree]
    rfl
  unfold opened
  rw [hcourse, hstart]
  rfl

include hwf hlist

theorem leftHas_opened (hitem : item ∈ rest) :
    (w.tree.isStatementWord item = false -> w.tree.isClauseWord item = false ->
        ((w.opened list).tree.startsLine list item = true <->
          item ∈ overflowing (signed64 w.indenter.wrapAfter) (w.itemsStart first)
              (fun id => (w.tree.value id).length) (w.itemsStart first) rest ∨
            w.tree.startsLine list item = true)) ∧
      (item ∈ overflowing (signed64 w.indenter.wrapAfter) (w.itemsStart first)
          (fun id => (w.tree.value id).length) (w.itemsStart first) rest ->
        (w.tree.isClauseWord item = true -> (w.itemBreak first).closesLine = false) ->
        (w.opened list).tree.startsLine list item = true) := by
  rw [opened_items hkind hitems hrest hfree]
  have hparts : forall id, id ∈ rest -> id ∈ w.tree.solidChildren list := by
    intro id hid
    have hin : id ∈ w.tree.identifiers list := hitems ▸ List.mem_cons_of_mem _ hid
    rw [identifiers_eq_filter] at hin
    exact List.mem_of_mem_filter hin
  have hwrap := fun p : Text -> Bool => leftHas_wrapItems (w := w.shift (w.itemColumns first))
    (p := p) hwf hlist (hparts item hitem)
    (fun id hid => ⟨List.mem_of_mem_filter (hparts id hid), rfl⟩) (w.itemsStart first)
  have hwrapped : Edited w.tree list item ((wrapItems list (w.itemsStart first) rest
      (w.shift (w.itemColumns first))).shift (-w.itemColumns first)).tree :=
    (Edited.refl hwf hlist (hparts item hitem)).next
      (relines_wrapItems list (w.itemsStart first) rest (w.shift (w.itemColumns first)))
  generalize hmiddle : (wrapItems list (w.itemsStart first) rest
    (w.shift (w.itemColumns first))).shift (-w.itemColumns first) = middle at hwrapped
  have hleft : forall p, middle.tree.leftHas list item p =
      if item ∈ overflowing (signed64 w.indenter.wrapAfter) (w.itemsStart first)
          (fun id => (w.tree.value id).length) (w.itemsStart first) rest
      then p (w.itemBreak first) else w.tree.leftHas list item p := by
    intro p
    rw [← hmiddle]
    exact hwrap p
  have hsplit := hwrapped.next (relines_splitStatements list middle)
  have hstatement := isStatementWord_congr hwrapped.token?_item
  have hclause := isClauseWord_congr hsplit.token?_item
  have hkeep := fun p : Text -> Bool => leftHas_splitStatements (p := p)
    hwrapped.relaid.wellFormed hwrapped.isGroup_list hwrapped.mem_item
  have hkeep' := fun p : Text -> Bool => leftHas_splitKeywords (p := p)
    hsplit.relaid.wellFormed hsplit.isGroup_list hsplit.mem_item
  constructor
  · intro hplain hplain'
    rw [startsLine, hkeep' _ (hclause.trans hplain'), hkeep _ (hstatement.trans hplain), hleft]
    split
    · rename_i hover
      simp [hover, itemBreak, Indenter.opensLine_newline]
    · rename_i hover
      simp [hover, startsLine]
  · intro hover hpad
    have hstart : middle.tree.startsLine list item = true := by
      rw [startsLine, hleft, if_pos hover]
      exact Indenter.opensLine_newline _
    cases hword : w.tree.isClauseWord item with
    | true =>
        have hnone : w.tree.isStatementWord item = false := by
          by_contra hsome
          rw [isClauseWord_of_isStatementWord (Bool.not_eq_false _ ▸ hsome)] at hword
          cases hword
        apply startsLine_splitKeywords hsplit.relaid.wellFormed hsplit.isGroup_list hsplit.mem_item
        rw [hkeep _ (hstatement.trans hnone), hleft, if_pos hover, Text.opensIndented, hpad hword]
        rfl
    | false =>
        rw [startsLine, hkeep' _ (hclause.trans hword)]
        exact startsLine_splitStatements hwrapped.relaid.wellFormed hwrapped.isGroup_list
          hwrapped.mem_item hstart

end

end Indenting

namespace Statement

variable {s : Statement} {i : Indenter} {list first item : NodeId} {rest : List NodeId}
  {v : Indenting}

/-!
# A statement
-/

/-- A statement before it is laid out. -/
def start (s : Statement) (i : Indenter) : Indenting where
  indenter := { i with indent := 0, offset := 0 }
  tree := s.tree
  root := s.root

/-- The state in which an indenter meets a list of a statement. -/
def Meets (s : Statement) (i : Indenter) (list : NodeId) (v : Indenting) : Prop :=
  Indenting.Reaches s.tree.size s.root (s.start i) list v

theorem relines_separate (s : Statement) (i : Indenter) :
    Tree.Relines s.root (Indenting.processList s.tree.size s.root (s.start i)).tree
      (s.indent i).1.tree := by
  unfold indent separate
  dsimp only
  split
  · exact Tree.Relines.refl
  · exact Tree.Relines.refl.insert _ _

theorem relaidAt_indent (hwf : s.tree.WellFormed) (hroot : s.tree.isGroup s.root = true)
    (i : Indenter) : s.tree.RelaidAt (fun _ => True) (s.indent i).1.tree := by
  have hdone : s.tree.RelaidAt (s.tree.AtOrAbove s.root)
      (Indenting.processList s.tree.size s.root (s.start i)).tree :=
    Indenting.relaidAt_processList (w := s.start i) s.tree.size hwf hroot
  have hlast := (relines_separate s i).relaidAt hdone.wellFormed
    (hdone.reblanked.isGroup_of_isGroup hroot)
  exact (hdone.mono fun _ _ _ => trivial).trans hlast fun _ _ _ => trivial

theorem exists_meets (hwf : s.tree.WellFormed) (hroot : s.tree.isGroup s.root = true)
    (hbelow : s.tree.AtOrAbove s.root list) (hlist : s.tree.isGroup list = true)
    (i : Indenter) : exists v, s.Meets i list v :=
  Indenting.Reaches.exists_reaches (w := s.start i) hwf hroot
    (hwf.nestsWithin_of_depth (Tree.lt_size_of_isGroup hroot) (Nat.le_add_left _ _)) hbelow hlist

theorem Meets.spec (h : s.Meets i list v) (hwf : s.tree.WellFormed)
    (hroot : s.tree.kind? s.root = some .statement)
    (hkind : s.tree.kind? list = some .identifierList) :
    v.settings = (s.start i).settings ∧
      s.tree.RelaidAt (fun id => ¬ s.tree.AtOrAbove list id) v.tree ∧
      (v.opened list).tree.SameList list (s.indent i).1.tree := by
  have hgroup : s.tree.isGroup s.root = true := Tree.isGroup_iff_kind?.mpr ⟨_, hroot⟩
  have hlist : s.tree.isGroup list = true := Tree.isGroup_iff_kind?.mpr ⟨_, hkind⟩
  have hfree := (Indenting.Reaches.untouched hwf hgroup h).2.2
  have hkind' : v.tree.kind? list = some .identifierList :=
    (hfree.reblanked.kind?_eq list (Tree.lt_size_of_isGroup hlist)).trans hkind
  have hdone : s.tree.RelaidAt (s.tree.AtOrAbove s.root)
      (Indenting.processList s.tree.size s.root (s.start i)).tree :=
    Indenting.relaidAt_processList (w := s.start i) s.tree.size hwf hgroup
  refine ⟨Indenting.Reaches.settings_eq h, hfree,
    (Indenting.Reaches.sameList hwf hgroup h hkind').trans ?_⟩
  -- The separator comes into the root, which is no list of items and holds no list twice.
  apply ((relines_separate s i).relaidAt hdone.wellFormed
    (hdone.reblanked.isGroup_of_isGroup hgroup)).sameList hdone.wellFormed
    (Tree.lt_size_of_isGroup (hdone.reblanked.isGroup_of_isGroup hlist))
  · rintro rfl
    rw [hroot] at hkind
    cases hkind
  · rintro id _ rfl
    exact hdone.reblanked.isGroup_of_isGroup hgroup

theorem Meets.startsLine_indent (h : s.Meets i list v) (hwf : s.tree.WellFormed)
    (hroot : s.tree.kind? s.root = some .statement)
    (hkind : s.tree.kind? list = some .identifierList)
    (hitems : s.tree.identifiers list = first :: rest)
    (hfree : s.tree.isWithin list .function = false) (hitem : item ∈ rest) :
    (s.tree.isStatementWord item = false -> s.tree.isClauseWord item = false ->
      ((s.indent i).1.tree.startsLine list item = true <->
        item ∈ overflowing (signed64 i.wrapAfter) (v.itemsStart first)
          (fun id => (s.tree.value id).length) (v.itemsStart first) rest ∨
          s.tree.startsLine list item = true)) ∧
    (item ∈ overflowing (signed64 i.wrapAfter) (v.itemsStart first)
        (fun id => (s.tree.value id).length) (v.itemsStart first) rest ->
      (s.tree.isClauseWord item = true -> (v.itemBreak first).closesLine = false) ->
      (s.indent i).1.tree.startsLine list item = true) := by
  have hlist : s.tree.isGroup list = true := Tree.isGroup_iff_kind?.mpr ⟨_, hkind⟩
  have hlt := Tree.lt_size_of_isGroup hlist
  rcases h.spec hwf hroot hkind with ⟨hsettings, hmet, hsame⟩
  have hwrap : v.indenter.wrapAfter = i.wrapAfter :=
    congrArg (fun settings => settings.2.2) hsettings
  have hchild : forall id, id ∈ rest -> id ∈ s.tree.solidChildren list := by
    intro id hid
    have hin : id ∈ s.tree.identifiers list := hitems ▸ List.mem_cons_of_mem _ hid
    rw [Tree.identifiers_eq_filter] at hin
    exact List.mem_of_mem_filter hin
  have hbelowList : forall id, id ∈ s.tree.children list -> s.tree.AtOrAbove list id :=
    fun id hid => Or.inr (Tree.above_of_parent? (hwf.parent?_of_mem hid))
  have hvalue : forall id, id ∈ rest -> (v.tree.value id).length = (s.tree.value id).length := by
    intro id hid
    have hmem := List.mem_of_mem_filter (hchild id hid)
    rw [hmet.value_eq hwf (hwf.child_lt_size hmem) fun below hin htouched =>
      htouched ((hbelowList id hmem).trans hin)]
  have htoken : v.tree.token? item = s.tree.token? item := by
    rcases List.mem_filter.mp (hchild item hitem) with ⟨hmem, hsolid⟩
    exact hmet.reblanked.token?_eq (hwf.child_lt_size hmem) (by simpa using hsolid)
  have hunmoved : s.tree.SameList list v.tree :=
    hmet.sameList hwf hlt (fun htouched => htouched (Or.inl rfl))
      fun id hid htouched => absurd (hbelowList id hid) htouched
  have hopened := Indenting.leftHas_opened (w := v) hmet.wellFormed
    (hmet.reblanked.isGroup_of_isGroup hlist)
    ((hmet.reblanked.kind?_eq list hlt).trans hkind)
    ((hmet.identifiers_eq hwf hlt).trans hitems) (List.ne_nil_of_mem hitem)
    ((hmet.isWithin_eq hwf hlt (Tree.tokenHas_of_isGroup hlist _) .function).trans hfree) hitem
  rw [hwrap, overflowing_congr hvalue, Tree.isStatementWord_congr htoken,
    Tree.isClauseWord_congr htoken] at hopened
  unfold Tree.startsLine at hopened ⊢
  rw [hsame.leftHas_eq]
  rw [hunmoved.leftHas_eq] at hopened
  exact hopened

/-- Without a limit every item starts a line that is counted from a column that is not
negative, unless the line would be empty up to a word that starts a clause. -/
theorem Meets.startsLine_of_start_nonneg (h : s.Meets i list v) (hwf : s.tree.WellFormed)
    (hroot : s.tree.kind? s.root = some .statement)
    (hkind : s.tree.kind? list = some .identifierList)
    (hitems : s.tree.identifiers list = first :: rest)
    (hfree : s.tree.isWithin list .function = false) (hlimit : i.wrapAfter = 0)
    (hstart : 0 <= v.itemsStart first)
    (hbound : forall item, item ∈ rest ->
      v.itemsStart first + ((s.tree.value item).length : Int) + 1 < 0x8000000000000000)
    (hitem : item ∈ rest)
    (hpad : s.tree.isClauseWord item = true -> (v.itemBreak first).closesLine = false) :
    (s.indent i).1.tree.startsLine list item = true := by
  have hsigned : signed64 ((0 : Nat) : Int) = 0 := rfl
  apply (h.startsLine_indent hwf hroot hkind hitems hfree hitem).2 ?_ hpad
  rw [hlimit, hsigned, overflowing_eq_self hstart (by omega) hbound]
  exact hitem

theorem IsParsed.kind?_root (h : s.IsParsed) : s.tree.kind? s.root = some .statement := by
  rcases h with ⟨_, _, _, _, hparse, hs⟩
  rcases parse_ok hparse with ⟨_, _, hgroups⟩
  rcases exists_of_mem_forall₂ hgroups hs with ⟨flat, hflat, hgroup⟩
  rcases exists_of_mem_splitStatements hflat with ⟨tokens, _, rfl⟩
  exact kind?_root_of_group hgroup

theorem startsLine_stripBlanks (hwf : s.tree.WellFormed) (hroot : s.tree.isGroup s.root = true)
    (hbelow : s.stripBlanks.tree.AtOrAbove s.root list) (item : NodeId) :
    s.stripBlanks.tree.startsLine list item = false := by
  have hstripped : s.tree.StrippedAt (s.tree.AtOrAbove s.root) s.stripBlanks.tree :=
    Tree.strips_stripBlanksWithin s.tree.size true s.root s.tree hwf hroot
  apply Bool.eq_false_iff.mpr
  intro hstarts
  rcases Tree.leftHas_iff.mp hstarts with ⟨left, token, hleft, htoken, hblank, hopens⟩
  have hparent := hstripped.wellFormed.parent?_of_mem (mem_of_leftIn hleft)
  rcases isSqueezed_stripBlanks hwf hroot
    (hbelow.trans (Or.inr (Tree.above_of_parent? hparent))) token htoken hblank with
    hvalue | hvalue
  · rw [hvalue] at hopens
    cases hopens
  · rw [hvalue] at hopens
    cases hopens

/-- A statement that is stripped and indented, and a list of items in it that is not the
arguments of a call.  The items are counted from the column of the first one, less the
columns of the open levels, when the list is met.  Of the items that are no keywords those
start a line with which the count passes the limit.  Keywords with which it does start one,
too, unless the line would be empty up to a word that starts a clause. -/
theorem items_start_lines_iff (hs : s.IsParsed) (i : Indenter)
    (hbelow : (s.stripBlanks.indent i).1.tree.AtOrAbove s.root list)
    (hkind : (s.stripBlanks.indent i).1.tree.kind? list = some .identifierList)
    (hitems : (s.stripBlanks.indent i).1.tree.identifiers list = first :: rest)
    (hfree : (s.stripBlanks.indent i).1.tree.isWithin list .function = false) :
    (exists v, s.stripBlanks.Meets i list v) ∧
      forall v, s.stripBlanks.Meets i list v -> forall item, item ∈ rest ->
        ((s.stripBlanks.indent i).1.tree.isStatementWord item = false ->
          (s.stripBlanks.indent i).1.tree.isClauseWord item = false ->
          ((s.stripBlanks.indent i).1.tree.startsLine list item = true <->
            item ∈ overflowing (signed64 i.wrapAfter) (v.itemsStart first)
              (fun id => (s.stripBlanks.tree.value id).length) (v.itemsStart first) rest)) ∧
        (item ∈ overflowing (signed64 i.wrapAfter) (v.itemsStart first)
            (fun id => (s.stripBlanks.tree.value id).length) (v.itemsStart first) rest ->
          ((s.stripBlanks.indent i).1.tree.isClauseWord item = true ->
            (v.itemBreak first).closesLine = false) ->
          (s.stripBlanks.indent i).1.tree.startsLine list item = true) := by
  rcases hs.wellFormed with ⟨hwf, hroot⟩
  have hstripped : s.tree.StrippedAt (s.tree.AtOrAbove s.root) s.stripBlanks.tree :=
    Tree.strips_stripBlanksWithin s.tree.size true s.root s.tree hwf hroot
  have hwf' := hstripped.wellFormed
  have hroot' := hstripped.reblanked.isGroup_of_isGroup hroot
  have hkind' : s.stripBlanks.tree.kind? s.stripBlanks.root = some .statement :=
    (hstripped.reblanked.kind?_eq s.root (Tree.lt_size_of_isGroup hroot)).trans hs.kind?_root
  have hlaid := relaidAt_indent (s := s.stripBlanks) hwf' hroot' i
  have hgroup : (s.stripBlanks.indent i).1.tree.isGroup list = true :=
    Tree.isGroup_iff_kind?.mpr ⟨_, hkind⟩
  have hlt := hlaid.lt_size_of_isGroup hgroup
  have hlist : s.stripBlanks.tree.isGroup list = true :=
    (hlaid.reblanked.isGroup_eq hlt).symm.trans hgroup
  have hbelow' := hlaid.atOrAbove_old hwf' hlt hbelow
  have hitems' := (hlaid.identifiers_eq hwf' hlt).symm.trans hitems
  have hfree' := (hlaid.isWithin_eq hwf' hlt (Tree.tokenHas_of_isGroup hlist _)
    .function).symm.trans hfree
  refine ⟨exists_meets hwf' hroot' hbelow' hlist i, ?_⟩
  intro v hmeets item hitem
  have hlines := hmeets.startsLine_indent hwf' hkind'
    ((hlaid.reblanked.kind?_eq list hlt).symm.trans hkind) hitems' hfree' hitem
  have htoken : (s.stripBlanks.indent i).1.tree.token? item = s.stripBlanks.tree.token? item := by
    have hin : item ∈ s.stripBlanks.tree.identifiers list := hitems' ▸ List.mem_cons_of_mem _ hitem
    rw [Tree.identifiers_eq_filter] at hin
    rcases List.mem_filter.mp (List.mem_of_mem_filter hin) with ⟨hmem, hsolid⟩
    exact hlaid.reblanked.token?_eq (hwf'.child_lt_size hmem) (by simpa using hsolid)
  rw [startsLine_stripBlanks hwf hroot hbelow' item, ← Tree.isStatementWord_congr htoken,
    ← Tree.isClauseWord_congr htoken] at hlines
  simp only [Bool.false_eq_true, or_false] at hlines
  exact hlines

/-- Two names behind a keyword come to stand one below the other. -/
theorem items_start_lines_iff_names :
    exists s, Statement.IsParsed s ∧ s.text = Text.of "select a, b" ∧
      (s.stripBlanks.indent { width := 2 }).1.text = Text.of "select a, \n       b" ∧
      (s.stripBlanks.indent { width := 2 }).1.tree.AtOrAbove s.root 9 ∧
      exists v, s.stripBlanks.Meets { width := 2 } 9 v ∧ forall item, item ∈ [8] ->
        ((s.stripBlanks.indent { width := 2 }).1.tree.isStatementWord item = false ->
          (s.stripBlanks.indent { width := 2 }).1.tree.isClauseWord item = false ->
          ((s.stripBlanks.indent { width := 2 }).1.tree.startsLine 9 item = true <->
            item ∈ overflowing (signed64 0) (v.itemsStart 7)
              (fun id => (s.stripBlanks.tree.value id).length) (v.itemsStart 7) [8])) := by
  have htokens : tokenize ⟨.generic, Vocabulary.ofDialect .generic⟩ (Text.of "select a, b") =
      [⟨.dml, Text.of "select", some 0⟩, ⟨.whitespace, [' '], some 6⟩, ⟨.name, ['a'], some 7⟩,
       ⟨.punctuation, [','], some 8⟩, ⟨.whitespace, [' '], some 9⟩, ⟨.name, ['b'], some 10⟩] := by
    decide +kernel
  rcases exists_parsed (p := fun s => s.text == Text.of "select a, b" && s.root == 6 &&
      (s.stripBlanks.indent { width := 2 }).1.text == Text.of "select a, \n       b" &&
      (s.stripBlanks.indent { width := 2 }).1.tree.parent? 9 == some 6 &&
      (s.stripBlanks.indent { width := 2 }).1.tree.kind? 9 == some .identifierList &&
      (s.stripBlanks.indent { width := 2 }).1.tree.identifiers 9 == [7, 8] &&
      !(s.stripBlanks.indent { width := 2 }).1.tree.isWithin 9 .function)
    htokens (by decide +kernel) with ⟨statements, s, hparse, hs, hfound⟩
  simp only [Bool.and_eq_true, beq_iff_eq, Bool.not_eq_true'] at hfound
  rcases hfound with ⟨⟨⟨⟨⟨⟨htext, hroot⟩, hlaid⟩, hparent⟩, hkind⟩, hitems⟩, hfree⟩
  have hparsed : s.IsParsed := ⟨_, _, _, statements, hparse, hs⟩
  have hbelow : (s.stripBlanks.indent { width := 2 }).1.tree.AtOrAbove s.root 9 :=
    hroot ▸ Or.inr (Tree.above_of_parent? hparent)
  rcases items_start_lines_iff hparsed { width := 2 } hbelow hkind hitems hfree with
    ⟨⟨v, hmeets⟩, hlines⟩
  exact ⟨s, hparsed, htext, hlaid, hbelow, v, hmeets,
    fun item hitem => (hlines v hmeets item hitem).1⟩

/-- The first item breaks a line and is longer than what stands on its last line, so that the
items are counted from a column below zero. -/
theorem items_share_line :
    ¬ forall (s : Statement) (i : Indenter) (list first item : NodeId) (rest : List NodeId),
      s.IsParsed -> 1 <= i.width -> i.fill = ' ' -> i.wrapAfter = 0 ->
      (s.stripBlanks.indent i).1.tree.AtOrAbove s.root list ->
      (s.stripBlanks.indent i).1.tree.kind? list = some .identifierList ->
      (s.stripBlanks.indent i).1.tree.identifiers list = first :: rest ->
      (s.stripBlanks.indent i).1.tree.isWithin list .function = false -> item ∈ rest ->
      (s.stripBlanks.indent i).1.tree.startsLine list item = true := by
  have htokens : tokenize ⟨.generic, Vocabulary.ofDialect .generic⟩
      (Text.of "select 'a\nb', c") =
      [⟨.dml, Text.of "select", some 0⟩, ⟨.whitespace, [' '], some 6⟩,
       ⟨.singleQuoted, Text.of "'a\nb'", some 7⟩, ⟨.punctuation, [','], some 12⟩,
       ⟨.whitespace, [' '], some 13⟩, ⟨.name, ['c'], some 14⟩] := by
    decide +kernel
  rcases exists_parsed (p := fun s => s.root == 6 &&
      (s.stripBlanks.indent { width := 2 }).1.tree.parent? 8 == some 6 &&
      (s.stripBlanks.indent { width := 2 }).1.tree.kind? 8 == some .identifierList &&
      (s.stripBlanks.indent { width := 2 }).1.tree.identifiers 8 == [2, 7] &&
      !(s.stripBlanks.indent { width := 2 }).1.tree.isWithin 8 .function &&
      !(s.stripBlanks.indent { width := 2 }).1.tree.startsLine 8 7)
    htokens (by decide +kernel) with ⟨statements, s, hparse, hs, hfound⟩
  simp only [Bool.and_eq_true, beq_iff_eq, Bool.not_eq_true'] at hfound
  rcases hfound with ⟨⟨⟨⟨⟨hroot, hparent⟩, hkind⟩, hitems⟩, hfree⟩, hsame⟩
  have hparsed : s.IsParsed := ⟨_, _, _, statements, hparse, hs⟩
  have hbelow : (s.stripBlanks.indent { width := 2 }).1.tree.AtOrAbove s.root 8 :=
    hroot ▸ Or.inr (Tree.above_of_parent? hparent)
  intro hall
  have hbroken := hall s { width := 2 } 8 2 7 [7] hparsed (by decide) rfl rfl hbelow hkind hitems
    hfree List.mem_cons_self
  rw [hsame] at hbroken
  cases hbroken

end Statement
end SqlLayout
