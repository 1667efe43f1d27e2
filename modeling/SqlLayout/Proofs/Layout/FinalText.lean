import SqlLayout.Proofs.Layout.LinePieces
import SqlLayout.Proofs.Layout.Strings
import SqlLayout.Proofs.Text.Trimming

/-!
# The final text again

The lines of the final text are the lines of the text without the blanks at their ends, so
they have nothing more to lose.  What a line loses stands in front of a line feed or at the
end of the text.  Behind a backslash this may leave a quote open that was closed, but no
quote is closed that was open, so the same line feeds stay quoted.
-/

namespace SqlLayout

namespace Lines

open Text

variable {quote : Char} {front rest line : Text} {lines : List Text}

/-!
# Lines
-/

theorem gather_ne_nil (pieces : List Text) : gather pieces ≠ [] := by
  cases pieces with
  | nil =>
      exact List.cons_ne_nil _ _
  | cons piece rest =>
      unfold gather
      split
      · exact List.cons_ne_nil _ _
      · split
        · exact List.cons_ne_nil _ _
        · exact List.cons_ne_nil _ _

theorem exists_line (text : Text) : exists line lines, splitLines text = line :: lines :=
  List.exists_cons_of_ne_nil (gather_ne_nil _)

theorem gather_cons {piece : Text} (h : isBreak piece = false) (rest : List Text) :
    gather (piece :: rest) = (gather rest).modifyHead (piece ++ ·) := by
  rw [gather, h, if_neg Bool.false_ne_true]
  rcases List.exists_cons_of_ne_nil (gather_ne_nil rest) with ⟨line, lines, hrest⟩
  rw [hrest]
  rfl

theorem Leads.splitLines_break (h : Leads front rest) (hbreak : isBreak front = true) :
    splitLines (front ++ rest) = [] :: splitLines rest := by
  unfold splitLines
  rw [h.pieces_append, gather, if_pos hbreak]

theorem Leads.splitLines_append (h : Leads front rest) (hbreak : isBreak front = false) :
    splitLines (front ++ rest) = (splitLines rest).modifyHead (front ++ ·) := by
  unfold splitLines
  rw [h.pieces_append, gather_cons hbreak]

theorem not_isBreak_of_plain (h : forall c, c ∈ front -> plainSet.has c = true) :
    isBreak front = false := by
  apply Bool.eq_false_iff.mpr
  intro hbreak
  unfold isBreak at hbreak
  simp only [Bool.or_eq_true, beq_iff_eq] at hbreak
  rcases hbreak with (rfl | rfl) | rfl
  · exact absurd (h '\r' List.mem_cons_self) (by decide)
  · exact absurd (h '\r' List.mem_cons_self) (by decide)
  · exact absurd (h '\n' List.mem_cons_self) (by decide)

theorem splitLines_plain (hplain : forall c, c ∈ front -> plainSet.has c = true)
    (hstop : forall c, rest.head? = some c -> plainSet.has c = false) :
    splitLines (front ++ rest) = (splitLines rest).modifyHead (front ++ ·) := by
  rcases eq_or_ne front [] with rfl | hne
  · rcases exists_line rest with ⟨line, lines, hrest⟩
    rw [List.nil_append, hrest]
    rfl
  · exact (Leads.plain hne hplain hstop).splitLines_append (not_isBreak_of_plain hplain)

theorem prefix_of_splitLines {text : Text} (h : splitLines text = line :: lines) :
    line <+: text := by
  induction text using induction_pieces generalizing line lines with
  | nil =>
      cases h
      exact List.prefix_refl []
  | append front rest hleads ih =>
      cases hbreak : isBreak front with
      | true =>
          rw [hleads.splitLines_break hbreak] at h
          cases h
          exact List.nil_prefix
      | false =>
          rcases exists_line rest with ⟨first, others, hrest⟩
          rw [hleads.splitLines_append hbreak, hrest] at h
          cases h
          exact (List.prefix_append_right_inj front).mpr (ih hrest)

/-!
# What is left of a piece
-/

/-- What a piece leaves in the final text if a line goes on behind it. -/
def keeps (front line : Text) : Text :=
  if (trimEnd line).isEmpty then trimEnd front else front

theorem keeps_of_empty (h : trimEnd line = []) (front : Text) :
    keeps front line = trimEnd front := by
  rw [keeps, h]
  rfl

theorem keeps_of_ne (h : trimEnd line ≠ []) (front : Text) : keeps front line = front := by
  rw [keeps, if_neg]
  rw [List.isEmpty_iff]
  exact h

theorem keeps_of_solid (h : forall c, front.getLast? = some c -> isBlank c = false)
    (line : Text) : keeps front line = front := by
  unfold keeps
  rw [trimEnd_eq_self h, ite_self]

theorem trimEnd_append_line (front line : Text) :
    trimEnd (front ++ line) = keeps front line ++ trimEnd line := by
  rcases exists_trimEnd line with ⟨blanks, hline, hblanks, hsolid⟩
  rcases eq_or_ne (trimEnd line) [] with hnil | hne
  · rw [hnil, List.nil_append] at hline
    rw [keeps_of_empty hnil, hnil, List.append_nil, hline, trimEnd_append_blanks hblanks]
  · rw [keeps_of_ne hne]
    have hlast : forall c, (front ++ trimEnd line).getLast? = some c -> isBlank c = false := by
      rw [List.getLast?_append_of_ne_nil _ hne]
      exact hsolid
    have hkeep := trimEnd_append hlast hblanks
    rw [List.append_assoc, ← hline] at hkeep
    exact hkeep

theorem serialize_of_splitLines {text : Text} (h : splitLines text = line :: lines) :
    serialize text = trimEnd line ++ (lines.map trimEnd).flatMap (['\n'] ++ ·) := by
  rw [serialize, h, List.map_cons, LinePart.join_cons]

theorem Leads.serialize_break (h : Leads front rest) (hbreak : isBreak front = true) :
    serialize (front ++ rest) = '\n' :: serialize rest := by
  rcases exists_line rest with ⟨line, lines, hrest⟩
  have hlines := h.splitLines_break hbreak
  rw [hrest] at hlines
  rw [serialize_of_splitLines hlines, serialize_of_splitLines hrest]
  rfl

theorem Leads.serialize_append (h : Leads front rest) (hbreak : isBreak front = false)
    (hrest : splitLines rest = line :: lines) :
    serialize (front ++ rest) = keeps front line ++ serialize rest := by
  have hlines := h.splitLines_append hbreak
  rw [hrest, List.modifyHead_cons] at hlines
  rw [serialize_of_splitLines hlines, serialize_of_splitLines hrest, trimEnd_append_line,
    List.append_assoc]

theorem head?_serialize_of_empty (hrest : splitLines rest = line :: lines)
    (hempty : trimEnd line = []) {c : Char} (hc : (serialize rest).head? = some c) :
    c = '\n' := by
  rw [serialize_of_splitLines hrest, hempty, List.nil_append] at hc
  cases lines with
  | nil =>
      cases hc
  | cons next lines =>
      cases hc
      rfl

theorem head?_serialize_of_ne (hrest : splitLines rest = line :: lines)
    (hne : trimEnd line ≠ []) : (serialize rest).head? = rest.head? := by
  rcases prefix_of_splitLines hrest with ⟨behind, htext⟩
  rcases exists_trimEnd line with ⟨blanks, hline, _, _⟩
  rcases List.exists_cons_of_ne_nil hne with ⟨c, more, hcons⟩
  rw [hcons] at hline
  rw [serialize_of_splitLines hrest, hcons, ← htext, hline]
  rfl

/-!
# Quotes that are not closed
-/

theorem not_isBlank_of_isQuote (hquote : isQuote quote = true) : isBlank quote = false := by
  rcases Bool.or_eq_true_iff.mp hquote with h | h
  · rw [eq_of_beq h]
    rfl
  · rw [eq_of_beq h]
    rfl

theorem ne_of_isBlank (hquote : isQuote quote = true) {c : Char} (hc : isBlank c = true) :
    c ≠ quote ∧ c ≠ '\\' := by
  constructor
  · rintro rfl
    rw [not_isBlank_of_isQuote hquote] at hc
    cases hc
  · rintro rfl
    cases hc

theorem closing?_blanks (hquote : isQuote quote = true) {blanks : Text}
    (hblanks : forall c, c ∈ blanks -> isBlank c = true) (rest : Text) :
    closing? quote false (blanks ++ rest) = none <-> closing? quote false rest = none := by
  induction blanks with
  | nil =>
      exact Iff.rfl
  | cons c blanks ih =>
      rcases ne_of_isBlank hquote (hblanks c List.mem_cons_self) with ⟨hclose, hslash⟩
      rw [List.cons_append, closing?, if_neg hclose, beq_eq_false_iff_ne.mpr hslash,
        Option.map_eq_none_iff]
      exact ih fun d hd => hblanks d (List.mem_cons_of_mem _ hd)

theorem blank_of_isBreak (h : isBreak front = true) : forall c, c ∈ front -> isBlank c = true := by
  unfold isBreak at h
  simp only [Bool.or_eq_true, beq_iff_eq] at h
  rcases h with (rfl | rfl) | rfl
  · exact List.forall_mem_cons.mpr ⟨rfl, List.forall_mem_singleton.mpr rfl⟩
  · exact List.forall_mem_singleton.mpr rfl
  · exact List.forall_mem_singleton.mpr rfl

theorem closing?_serialize (hquote : isQuote quote = true) {slashed : Bool} {text : Text}
    (h : closing? quote slashed text = none) : closing? quote slashed (serialize text) = none := by
  induction text using induction_pieces generalizing slashed with
  | nil =>
      exact h
  | append front rest hleads ih =>
      cases hbreak : isBreak front with
      | true =>
          rw [hleads.serialize_break hbreak]
          cases slashed with
          | true =>
              rfl
          | false =>
              have hfeed : forall c, c ∈ ['\n'] -> isBlank c = true :=
                List.forall_mem_singleton.mpr rfl
              have hrest := (closing?_blanks hquote (blank_of_isBreak hbreak) rest).mp h
              exact (closing?_blanks hquote hfeed _).mpr (ih hrest)
      | false =>
          rcases exists_line rest with ⟨line, lines, hrest⟩
          rw [hleads.serialize_append hbreak hrest]
          rcases eq_or_ne (trimEnd line) [] with hempty | hne
          · rcases exists_trimEnd front with ⟨blanks, hfront, hblanks, _⟩
            rw [hfront, List.append_assoc] at h
            rw [keeps_of_empty hempty]
            refine closing?_congr ?_ (trimEnd front) h
            intro slashed hnone
            cases slashed with
            | true =>
                -- what follows is a line feed or nothing
                cases hfinal : serialize rest with
                | nil =>
                    rfl
                | cons c final =>
                    have hc : c = '\n' :=
                      head?_serialize_of_empty hrest hempty (by rw [hfinal]; rfl)
                    rw [hc]
                    rfl
            | false =>
                exact ih ((closing?_blanks hquote hblanks rest).mp hnone)
          · rw [keeps_of_ne hne]
            exact closing?_congr (fun _ => ih) front h

/-!
# The lines of the final text
-/

theorem Leads.splitLines_keeps (h : Leads front rest) (hbreak : isBreak front = false)
    (hrest : splitLines rest = line :: lines) :
    splitLines (keeps front line ++ serialize rest) =
      (splitLines (serialize rest)).modifyHead (keeps front line ++ ·) := by
  cases h with
  | feed | returnFeed | carriage =>
      cases hbreak
  | plain hne hplain hstop =>
      rcases eq_or_ne (trimEnd line) [] with hempty | hfull
      · rw [keeps_of_empty hempty]
        apply splitLines_plain
        · intro c hc
          rcases exists_trimEnd front with ⟨blanks, hfront, _, _⟩
          apply hplain
          rw [hfront]
          exact List.mem_append_left _ hc
        · intro c hc
          rw [head?_serialize_of_empty hrest hempty hc]
          rfl
      · rw [keeps_of_ne hfull]
        apply splitLines_plain hplain
        rw [head?_serialize_of_ne hrest hfull]
        exact hstop
  | @quoted quote body _ hquote hclosing =>
      have hsolid : forall c, (quote :: (body ++ [quote])).getLast? = some c ->
          isBlank c = false := by
        rw [← List.cons_append, List.getLast?_concat]
        intro c hc
        cases hc
        exact not_isBlank_of_isQuote hquote
      rw [keeps_of_solid hsolid]
      exact (Leads.quoted hquote hclosing).splitLines_append hbreak
  | @lone quote _ hquote hclosing =>
      have hsolid : forall c, [quote].getLast? = some c -> isBlank c = false := by
        intro c hc
        cases hc
        exact not_isBlank_of_isQuote hquote
      rw [keeps_of_solid hsolid]
      exact (Leads.lone hquote (closing?_serialize hquote hclosing)).splitLines_append hbreak

theorem splitLines_serialize (text : Text) :
    splitLines (serialize text) = (splitLines text).map trimEnd := by
  induction text using induction_pieces with
  | nil =>
      rfl
  | append front rest hleads ih =>
      cases hbreak : isBreak front with
      | true =>
          rw [hleads.serialize_break hbreak, hleads.splitLines_break hbreak, List.map_cons, ← ih]
          exact Leads.splitLines_break .feed rfl
      | false =>
          rcases exists_line rest with ⟨line, lines, hrest⟩
          rw [hrest, List.map_cons] at ih
          rw [hleads.serialize_append hbreak hrest, hleads.splitLines_keeps hbreak hrest, ih,
            hleads.splitLines_append hbreak, hrest, List.modifyHead_cons, List.modifyHead_cons,
            List.map_cons, trimEnd_append_line]

end Lines

/-- The final text of the final text is the same, and without options formatting makes the
final text of its input, so that formatting twice is formatting once. -/
theorem serialize_idempotent :
    (forall text, serialize (serialize text) = serialize text) ∧
      forall sql, format sql {} = .ok (serialize sql) ∧
        (format sql {} >>= fun text => format text {}) = format sql {} := by
  have htwice : forall text, serialize (serialize text) = serialize text := by
    intro text
    have hlines : (splitLines (serialize text)).map Text.trimEnd =
        (splitLines text).map Text.trimEnd := by
      rw [Lines.splitLines_serialize, List.map_map]
      exact List.map_congr_left fun line _ => Text.trimEnd_trimEnd line
    exact congrArg (Text.join ['\n']) hlines
  refine ⟨htwice, fun sql => ⟨format_default sql, ?_⟩⟩
  rw [format_default]
  change format (serialize sql) {} = .ok (serialize sql)
  rw [format_default, htwice]

end SqlLayout
