import SqlLayout.Layout.Margin
import SqlLayout.Proofs.Text.Trimming

/-!
# Lines of a text

A line ends at a line feed or a carriage return.  Two texts put together have the lines
of the one and of the other, but the last line of the first goes on with the first line
of the second.
-/

namespace SqlLayout
namespace Text

def isBreak (c : Char) : Bool := c == '\n' || c == '\r'

def lines (text : Text) : List Text := text.splitOnP isBreak

variable {text line : Text}

theorem lines_ne_nil (text : Text) : lines text ≠ [] :=
  List.splitOnP_ne_nil _ _

theorem lines_cons (c : Char) (text : Text) :
    lines (c :: text) =
      if isBreak c = true then [] :: lines text else (lines text).modifyHead (c :: ·) :=
  List.splitOnP_cons_eq_if_modifyHead _ _

theorem lines_of_unbroken (h : forall c, c ∈ text -> isBreak c = false) : lines text = [text] :=
  List.splitOnP_eq_singleton h

theorem lines_append_break {c : Char} (hc : isBreak c = true) (front back : Text) :
    lines (front ++ c :: back) = lines front ++ lines back :=
  List.splitOnP_append_cons _ _ hc

theorem sublist_of_mem_lines (h : line ∈ lines text) : line.Sublist text := by
  induction text generalizing line with
  | nil =>
      rw [show lines [] = [[]] from List.splitOnP_nil, List.mem_singleton] at h
      subst h
      exact List.nil_sublist []
  | cons c rest ih =>
      rw [lines_cons] at h
      split at h
      · rcases List.mem_cons.mp h with rfl | hrest
        · exact List.nil_sublist _
        · exact (ih hrest).cons c
      · rcases List.exists_cons_of_ne_nil (lines_ne_nil rest) with ⟨first, others, hlines⟩
        rw [hlines, List.modifyHead_cons] at h
        rw [hlines] at ih
        rcases List.mem_cons.mp h with rfl | hothers
        · exact (ih List.mem_cons_self).cons_cons c
        · exact (ih (List.mem_cons_of_mem _ hothers)).cons c

theorem exists_lines_append (front back : Text) :
    exists early last first late, lines front = early ++ [last] ∧ lines back = first :: late ∧
      lines (front ++ back) = early ++ (last ++ first) :: late := by
  induction front with
  | nil =>
      rcases List.exists_cons_of_ne_nil (lines_ne_nil back) with ⟨first, late, hback⟩
      exact ⟨[], [], first, late, List.splitOnP_nil, hback, hback⟩
  | cons c rest ih =>
      rcases ih with ⟨early, last, first, late, hrest, hback, happend⟩
      rw [List.cons_append, lines_cons, lines_cons, hrest, happend]
      split
      · exact ⟨[] :: early, last, first, late, rfl, hback, rfl⟩
      · cases early with
        | nil =>
            exact ⟨[], c :: last, first, late, rfl, hback, rfl⟩
        | cons top early =>
            exact ⟨(c :: top) :: early, last, first, late, rfl, hback, rfl⟩

theorem exists_line_behind {front : Text} {early : List Text}
    (hfront : lines front = early ++ [line]) (h : forall c, c ∈ text -> isBreak c = false)
    (back : Text) : exists more, line ++ (text ++ more) ∈ lines (front ++ (text ++ back)) := by
  rcases exists_lines_append text back with ⟨_, unit, more, _, hunit, _, hinner⟩
  rcases exists_lines_append front (text ++ back) with ⟨_, last, first, _, hlast, hfirst, houter⟩
  rw [hfront] at hlast
  rw [lines_of_unbroken h] at hunit
  rcases List.append_inj' hlast rfl with ⟨_, hline⟩
  rcases List.append_inj' (show [] ++ [text] = _ ++ [unit] from hunit) rfl with ⟨hnone, hsame⟩
  rw [hinner, ← hnone, List.nil_append, List.cons.injEq] at hfirst
  rw [List.cons.injEq] at hline hsame
  refine ⟨more, ?_⟩
  rw [houter, ← hfirst.1, ← hline.1, ← hsame.1]
  exact List.mem_append_right _ List.mem_cons_self

/-!
# The last line
-/

theorem lineTail?_none (h : lineTail? text = none) : forall c, c ∈ text -> isBreak c = false := by
  induction text with
  | nil =>
      intro c hc
      cases hc
  | cons d rest ih =>
      rw [lineTail?] at h
      cases hrest : lineTail? rest with
      | some tail =>
          rw [hrest] at h
          cases h
      | none =>
          rw [hrest] at h
          have hd : isBreak d = false := by
            apply Bool.eq_false_iff.mpr
            intro hbreak
            rw [show (d == '\n' || d == '\r') = true from hbreak] at h
            cases h
          exact List.forall_mem_cons.mpr ⟨hd, ih hrest⟩

theorem lineTail?_some {tail : Text} (h : lineTail? text = some tail) :
    exists front c, text = front ++ c :: tail ∧ isBreak c = true ∧
      forall d, d ∈ tail -> isBreak d = false := by
  induction text with
  | nil =>
      cases h
  | cons c rest ih =>
      rw [lineTail?] at h
      cases hrest : lineTail? rest with
      | some other =>
          rw [hrest, Option.some.injEq] at h
          rw [h] at hrest
          rcases ih hrest with ⟨front, d, rfl, hd, htail⟩
          exact ⟨c :: front, d, rfl, hd, htail⟩
      | none =>
          rw [hrest] at h
          dsimp only at h
          split at h
          · rename_i hc
            cases h
            exact ⟨[], c, rfl, hc, lineTail?_none hrest⟩
          · cases h

theorem hasBreak_eq_false_iff :
    Margin.hasBreak text = false <-> forall c, c ∈ text -> isBreak c = false := by
  rw [Margin.hasBreak, List.any_eq_false]
  exact forall₂_congr fun _ _ => Bool.eq_false_iff.symm

theorem exists_of_hasBreak (h : Margin.hasBreak text = true) :
    exists front c, text = front ++ c :: (lineTail? text).getD [] ∧ isBreak c = true ∧
      forall d, d ∈ (lineTail? text).getD [] -> isBreak d = false := by
  cases htail : lineTail? text with
  | none =>
      rw [hasBreak_eq_false_iff.mpr (lineTail?_none htail)] at h
      cases h
  | some tail =>
      exact lineTail?_some htail

/-!
# Blank lines
-/

theorem trimEnd_of_blank (h : forall c, c ∈ text -> isBlank c = true) : trimEnd text = [] :=
  trimEnd_append_blanks h []

theorem length_trimEnd_le (text : Text) : (trimEnd text).length <= text.length := by
  unfold trimEnd
  rw [List.length_reverse]
  exact Nat.le_trans (List.dropWhile_sublist _).length_le (Nat.le_of_eq List.length_reverse)

theorem blank_of_trim_isEmpty (h : (trim text).isEmpty = true) :
    forall c, c ∈ text -> isBlank c = true := by
  rcases exists_trim text with ⟨leading, trailing, htext, hleading, htrailing, _, _⟩
  rw [List.isEmpty_iff.mp h, List.nil_append] at htext
  intro c hc
  rw [htext] at hc
  rcases List.mem_append.mp hc with hc | hc
  · exact hleading c hc
  · exact htrailing c hc

end Text
end SqlLayout
