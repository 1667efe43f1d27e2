import SqlLayout.Layout.Formatter
import SqlLayout.Proofs.Lexer.Following
import SqlLayout.Proofs.Parsing

/-!
# Strings in the final text

Without filters a text changes at its line ends only.  The serializer looks for
quotes by itself, and where it takes the inside of a string for plain text the
line ends of the string are stripped too.
-/

namespace SqlLayout

/-!
# Formatting without filters
-/

theorem Tree.modifyToken_same (tree : Tree) (id : NodeId) :
    tree.modifyToken id (fun token => token) = tree := by
  unfold modifyToken modify
  congr 1
  apply Array.ext
  · exact Array.size_modify
  · intro i hi hi'
    rw [Array.getElem_modify]
    split
    · split
      · rename_i htoken
        rw [← htoken]
      · rfl
    · rfl

theorem Statement.filterLeaves_nil (s : Statement) : s.filterLeaves [] = s := by
  unfold filterLeaves
  have hfold : forall (leaves : List NodeId) (tree : Tree),
      leaves.foldl (fun tree leaf => tree.modifyToken leaf fun token => token) tree = tree := by
    intro leaves
    induction leaves with
    | nil =>
        intro tree
        rfl
    | cons leaf rest ih =>
        intro tree
        rw [List.foldl_cons, Tree.modifyToken_same, ih]
  dsimp only [List.foldl_nil]
  rw [hfold]

theorem Formatter.writeStatements_plain {f : Formatter} (hleaf : f.options.leafFilters = [])
    (hgroup : f.options.needsGrouping = false) (statements : List Statement) :
    f.writeStatements ⟨[], none⟩ statements = .ok (statements.flatMap Statement.text) := by
  induction statements with
  | nil =>
      rfl
  | cons s rest ih =>
      have hprepare : f.prepare s = .ok s := by
        unfold prepare
        rw [hleaf, Statement.filterLeaves_nil, hgroup]
        rfl
      unfold writeStatements
      rw [hprepare]
      change (do return s.text ++ (← f.writeStatements ⟨[], none⟩ rest)) = _
      rw [ih]
      rfl

/-- Without filters the statements are put together again and the line ends are
stripped. -/
theorem format_default (sql : Text) : format sql {} = .ok (serialize sql) := by
  have hformat : format sql {} = Formatter.format ⟨{}, .default⟩ sql := rfl
  have hwrite := Formatter.writeStatements_plain (f := ⟨{}, .default⟩) rfl rfl
    (readStatements .default sql)
  rw [readStatements_text] at hwrite
  rw [hformat]
  unfold Formatter.format
  change (do return serialize (← Formatter.writeStatements ⟨{}, .default⟩ ⟨[], none⟩
    (readStatements .default sql))) = _
  rw [hwrite]
  rfl

/-!
# Strings
-/

namespace LinePart

theorem length_output_le {parts : List LinePart} (h : Regular parts) {part : LinePart}
    (hpart : part ∈ parts) : part.output.length <= part.source.length := by
  induction parts with
  | nil =>
      cases hpart
  | cons other parts ih =>
      rcases List.mem_cons.mp hpart with rfl | hpart
      · cases part with
        | kept c =>
            exact Nat.le_refl 1
        | ended blanks ending =>
            rcases h.lineEnd with ⟨hne, _, hfeed | ⟨hnone, _⟩⟩
            · rw [hfeed]
              exact List.length_pos_iff.mpr hne
            · rw [hnone]
              exact Nat.zero_le _
      · exact ih h.tail hpart

theorem length_outputs_le {parts : List LinePart}
    (h : forall part, part ∈ parts -> part.output.length <= part.source.length) :
    (outputs parts).length <= (sources parts).length := by
  induction parts with
  | nil =>
      exact Nat.le_refl 0
  | cons part parts ih =>
      rw [outputs_cons, sources_cons, List.length_append, List.length_append]
      exact Nat.add_le_add (h part List.mem_cons_self)
        (ih fun other hother => h other (List.mem_cons_of_mem _ hother))

theorem outputs_eq_iff {parts : List LinePart}
    (h : forall part, part ∈ parts -> part.output.length <= part.source.length) :
    outputs parts = sources parts <-> forall part, part ∈ parts -> part.output = part.source := by
  constructor
  · intro heq
    induction parts with
    | nil =>
        exact nofun
    | cons part parts ih =>
        have hrest : forall other, other ∈ parts -> other.output.length <= other.source.length :=
          fun other hother => h other (List.mem_cons_of_mem _ hother)
        have hshort := length_outputs_le hrest
        have hpart := h part List.mem_cons_self
        rw [outputs_cons, sources_cons] at heq
        have htotal := congrArg List.length heq
        rw [List.length_append, List.length_append] at htotal
        rcases List.append_inj heq (by omega) with ⟨hhere, hlater⟩
        intro other hother
        rcases List.mem_cons.mp hother with rfl | hother
        · exact hhere
        · exact ih hrest hlater other hother
  · exact List.flatMap_congr

end LinePart

theorem stringTexts_zip {tokens : List Token} {split : List (List LinePart)}
    (h : split.map LinePart.sources = tokens.map Token.value) :
    Token.stringTexts tokens =
      ((tokens.zip split).filter fun pair => pair.1.isString).map fun pair =>
        LinePart.sources pair.2 := by
  induction tokens generalizing split with
  | nil =>
      rfl
  | cons token tokens ih =>
      cases split with
      | nil =>
          cases h
      | cons parts split =>
          rw [List.map_cons, List.map_cons, List.cons.injEq] at h
          rw [Token.stringTexts_cons, ih h.2, List.zip_cons_cons, List.filter_cons]
          split
          · rw [← h.1]
            rfl
          · rfl

theorem stringOutputs_eq_iff {tokens : List Token} {split : List (List LinePart)}
    (hvalues : split.map LinePart.sources = tokens.map Token.value)
    (hregular : LinePart.Regular split.flatten) :
    stringOutputs (tokens.zip split) = Token.stringTexts tokens <->
      forall pair, pair ∈ tokens.zip split -> pair.1.isString = true ->
        forall part, part ∈ pair.2 -> part.output = part.source := by
  have hshort : forall pair, pair ∈ tokens.zip split -> forall part, part ∈ pair.2 ->
      part.output.length <= part.source.length := by
    intro pair hpair part hpart
    apply LinePart.length_output_le hregular
    exact List.mem_flatten.mpr ⟨pair.2, (List.of_mem_zip hpair).2, hpart⟩
  rw [stringTexts_zip hvalues, stringOutputs, List.map_inj_left]
  constructor
  · intro h pair hpair hstring
    exact (LinePart.outputs_eq_iff (hshort pair hpair)).mp
      (h pair (List.mem_filter.mpr ⟨hpair, hstring⟩))
  · intro h pair hpair
    rcases List.mem_filter.mp hpair with ⟨hpair, hstring⟩
    exact (LinePart.outputs_eq_iff (hshort pair hpair)).mpr (h pair hpair hstring)

/-- Each token takes some parts of the text.  The strings of the final text are
those of the text with their line ends stripped, in the same order, and they are
the same if and only if no line end inside of a string changes. -/
theorem format_keeps_strings_iff (sql : Text) :
    exists split : List (List LinePart), split.flatten = lineParts sql ∧
      split.map LinePart.sources = (tokenize .default sql).map Token.value ∧
      exists text, format sql {} = .ok text ∧ text = LinePart.outputs (lineParts sql) ∧
        Token.stringTexts (tokenize .default text) =
          stringOutputs ((tokenize .default sql).zip split) ∧
        (Token.stringTexts (tokenize .default text) =
            Token.stringTexts (tokenize .default sql) <->
          forall pair, pair ∈ (tokenize .default sql).zip split -> pair.1.isString = true ->
            forall part, part ∈ pair.2 -> part.output = part.source) := by
  rcases aligned_serialize sql with ⟨split, hflatten, hvalues, hstrings⟩
  refine ⟨split, hflatten, hvalues, serialize sql, format_default sql,
    (lineParts_outputs sql).symm, hstrings, ?_⟩
  rw [hstrings]
  apply stringOutputs_eq_iff hvalues
  rw [hflatten]
  exact lineParts_regular sql

/-- The quote in a comment makes the serializer take the string for the text
between two strings. -/
theorem format_strips_string :
    format (Text.of "-- it's\n'a \nb'") {} = .ok (Text.of "-- it's\n'a\nb'") ∧
      Token.stringTexts (tokenize .default (Text.of "-- it's\n'a \nb'")) = [Text.of "'a \nb'"] ∧
      Token.stringTexts (tokenize .default (Text.of "-- it's\n'a\nb'")) = [Text.of "'a\nb'"] := by
  refine ⟨?_, ?_, ?_⟩
  · rw [format_default]
    decide
  · decide
  · decide

end SqlLayout
