import SqlLayout.Layout.Formatter
import SqlLayout.Proofs.Layout.Courses
import SqlLayout.Proofs.Parsing

/-!
# The filters of the layout edit blanks only

Comments apart, the filters for statements put in, take out and rewrite blanks.
Any number of them, in any order and in any state, leave all other leaves of a
grouped statement as they are.
-/

namespace SqlLayout
namespace Statement

def Reblanked (s after : Statement) : Prop :=
  after.root = s.root ∧ s.tree.Reblanked after.tree

namespace Reblanked

variable {s middle after : Statement}

theorem trans (h : s.Reblanked middle) (h' : middle.Reblanked after) : s.Reblanked after :=
  ⟨h'.1.trans h.1, h.2.trans h'.2⟩

theorem isGroup_root (h : s.Reblanked after) (hroot : s.tree.isGroup s.root = true) :
    after.tree.isGroup after.root = true := by
  rw [h.1]
  exact h.2.isGroup_of_isGroup hroot

end Reblanked

section

variable {s : Statement} (hwf : s.tree.WellFormed) (hroot : s.tree.isGroup s.root = true)
include hwf hroot

theorem reblanked_spaceOperators : s.Reblanked s.spaceOperators :=
  ⟨rfl, Tree.reblanks_spaceOperatorsWithin _ s.root s.tree hwf hroot⟩

theorem reblanked_stripBlanks : s.Reblanked s.stripBlanks :=
  ⟨rfl, Tree.reblanks_stripBlanksWithin _ true s.root s.tree hwf hroot⟩

theorem reblanked_separate (endedLine : Option Bool) :
    s.Reblanked (s.separate endedLine) := by
  cases endedLine with
  | none =>
      exact ⟨rfl, Tree.Reblanked.refl hwf⟩
  | some endedLine =>
      exact ⟨rfl, Tree.reblanked_insertBlank hwf hroot 0 _⟩

theorem reblanked_indent (i : Indenter) : s.Reblanked (s.indent i).1 := by
  unfold indent
  extract_lets start done separated
  have hlaid := Indenting.relaidAt_processList (w := start) s.tree.size hwf hroot
  have hdone : s.Reblanked { s with tree := done.tree } := ⟨rfl, hlaid.reblanked⟩
  exact hdone.trans
    (reblanked_separate hdone.2.wellFormed (hdone.isGroup_root hroot) i.endedLine)

theorem reblanked_align (r : River) : s.Reblanked (s.align r).1 := by
  unfold align
  extract_lets stripped done separated
  have hstripped : s.tree.Reblanked stripped := Tree.reblanks_removeBlank 0 s.tree hwf hroot
  have hdone : s.Reblanked { s with tree := done } :=
    ⟨rfl, (River.reblanks_processList stripped.size s.root 0).after hstripped hroot⟩
  exact hdone.trans
    (reblanked_separate hdone.2.wellFormed (hdone.isGroup_root hroot) r.endedLine)

theorem reblanked_breakLines (m : Margin) : s.Reblanked (s.breakLines m).1 :=
  ⟨rfl, Margin.reblanks_writeList s.tree.size s.root (m, s.tree) hwf hroot⟩

end

/-- Layout keeps the leaves that are not blank, with their tokens; a leaf that it
adds is a blank that stands nowhere in the source; the leaves that stay keep
their order. -/
structure LaidOut (s after : Statement) : Prop where
  root_eq : after.root = s.root
  solidLeaves_eq : after.tree.solidLeaves s.root = s.tree.solidLeaves s.root
  token?_eq : forall leaf, leaf ∈ s.tree.solidLeaves s.root ->
    after.tree.token? leaf = s.tree.token? leaf
  token?_added : forall leaf, leaf ∈ after.tree.leaves s.root -> leaf ∉ s.tree.leaves s.root ->
    exists value, after.tree.token? leaf = some ⟨.whitespace, value, none⟩
  leaves_sublist :
    ((after.tree.leaves s.root).filter fun leaf => leaf ∈ s.tree.leaves s.root).Sublist
      (s.tree.leaves s.root)

theorem Reblanked.laidOut {s after : Statement} (h : s.Reblanked after)
    (hwf : s.tree.WellFormed) (hroot : s.tree.isGroup s.root = true) : s.LaidOut after := by
  have hid := Tree.lt_size_of_isGroup hroot
  -- Of the leaves after the edits the old nodes are old leaves.
  have hold : forall leaf, leaf ∈ after.tree.leaves s.root -> leaf < s.tree.size ->
      leaf ∈ s.tree.leaves s.root := by
    intro leaf hleaf hlt
    exact (h.2.leaves_sublist s.root hid).subset
      (List.mem_filter.mpr ⟨hleaf, decide_eq_true hlt⟩)
  refine ⟨h.1, h.2.solidLeaves_eq s.root hid, ?_, ?_, ?_⟩
  · intro leaf hleaf
    rcases List.mem_filter.mp hleaf with ⟨hmem, hsolid⟩
    exact h.2.token?_eq (hwf.leaf_lt_size hid hmem) (by simpa using hsolid)
  · intro leaf hleaf hnew
    have hle : s.tree.size <= leaf := Nat.le_of_not_lt fun hlt => hnew (hold leaf hleaf hlt)
    have hafter : s.root < after.tree.size := Nat.lt_of_lt_of_le hid h.2.size_le
    exact h.2.token?_new leaf hle (h.2.wellFormed.leaf_lt_size hafter hleaf)
  · have hsame : ((after.tree.leaves s.root).filter fun leaf => leaf ∈ s.tree.leaves s.root) =
        (after.tree.leaves s.root).filter fun leaf => leaf < s.tree.size := by
      apply List.filter_congr
      intro leaf hleaf
      rw [decide_eq_decide]
      exact ⟨hwf.leaf_lt_size hid, hold leaf hleaf⟩
    rw [hsame]
    exact h.2.leaves_sublist s.root hid

end Statement

namespace StatementFilter

variable {s : Statement}

theorem reblanked_run (hwf : s.tree.WellFormed) (hroot : s.tree.isGroup s.root = true)
    {filter : StatementFilter} (hfilter : filter ≠ stripComments) :
    s.Reblanked (filter.run s).1 := by
  cases filter with
  | spaceOperators =>
      exact Statement.reblanked_spaceOperators hwf hroot
  | stripComments =>
      exact absurd rfl hfilter
  | stripBlanks =>
      exact Statement.reblanked_stripBlanks hwf hroot
  | indent i =>
      exact Statement.reblanked_indent hwf hroot i
  | align r =>
      exact Statement.reblanked_align hwf hroot r
  | breakLines m =>
      exact Statement.reblanked_breakLines hwf hroot m

theorem reblanked_runAll (hwf : s.tree.WellFormed) (hroot : s.tree.isGroup s.root = true)
    {filters : List StatementFilter}
    (hfilters : forall filter, filter ∈ filters -> filter ≠ stripComments) :
    s.Reblanked (runAll filters s).1 := by
  induction filters generalizing s with
  | nil =>
      exact ⟨rfl, Tree.Reblanked.refl hwf⟩
  | cons filter rest ih =>
      have hfirst := reblanked_run hwf hroot (hfilters filter List.mem_cons_self)
      refine hfirst.trans (ih hfirst.2.wellFormed (hfirst.isGroup_root hroot) ?_)
      intro other hother
      exact hfilters other (List.mem_cons_of_mem _ hother)

end StatementFilter

/-- The filters carry their state in themselves: whatever they have seen before,
they lay out a grouped statement by edits of blanks. -/
theorem runAll_touches_blanks_only {sql : Text} {options : LexerOptions} {limit : Nat}
    {statements : List Statement} (hparse : parse sql options limit = .ok statements)
    {s : Statement} (hs : s ∈ statements) {filters : List StatementFilter}
    (hfilters : forall filter, filter ∈ filters -> filter ≠ .stripComments) :
    s.LaidOut (StatementFilter.runAll filters s).1 := by
  rcases parse_wellFormed hparse hs with ⟨hwf, hroot⟩
  exact (StatementFilter.reblanked_runAll hwf hroot hfilters).laidOut hwf hroot

/-- The second of two statements, with filters that have seen the first one: the
indenter starts it with a blank line, which the later filters keep. -/
theorem runAll_touches_blanks_only_second_statement :
    exists statements s, parse (Text.of "a;b+c") {} defaultMaxDepth = .ok statements ∧
      s ∈ statements ∧ s.text = Text.of "b+c" ∧
      s.LaidOut (StatementFilter.runAll
        [.spaceOperators, .stripBlanks, .indent { width := 2, endedLine := some false },
          .breakLines { width := 3, line := Text.of "a;" }] s).1 := by
  have htokens : tokenize ⟨.generic, Vocabulary.ofDialect .generic⟩ (Text.of "a;b+c") =
      [⟨.name, ['a'], some 0⟩, ⟨.punctuation, [';'], some 1⟩, ⟨.name, ['b'], some 2⟩,
       ⟨.operator, ['+'], some 3⟩, ⟨.name, ['c'], some 4⟩] := by
    decide +kernel
  rcases exists_parsed (p := fun s => s.text == Text.of "b+c") htokens (by decide +kernel) with
    ⟨statements, s, hparse, hs, htext⟩
  exact ⟨statements, s, hparse, hs, eq_of_beq htext,
    runAll_touches_blanks_only hparse hs (by simp)⟩

end SqlLayout
