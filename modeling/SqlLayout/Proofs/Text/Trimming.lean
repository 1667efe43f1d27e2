import Mathlib.Data.List.TakeWhile
import SqlLayout.Text.Basic

/-!
# Trimmed texts

A trimmed text is the text without the blanks at its ends, and has none there itself.
-/

namespace SqlLayout
namespace Text

variable {front blanks : Text}

theorem trimEnd_append (hsolid : forall c, front.getLast? = some c -> isBlank c = false)
    (hblanks : forall c, c ∈ blanks -> isBlank c = true) : trimEnd (front ++ blanks) = front := by
  unfold trimEnd
  rw [List.reverse_append,
    List.dropWhile_append_of_pos fun c hc => hblanks c (List.mem_reverse.mp hc)]
  have hkeep : front.reverse.dropWhile isBlank = front.reverse := by
    cases hreverse : front.reverse with
    | nil =>
        rfl
    | cons c rest =>
        have hlast : front.getLast? = some c := by
          rw [List.getLast?_eq_head?_reverse, hreverse]
          rfl
        rw [List.dropWhile_cons_of_neg]
        rw [hsolid c hlast]
        exact Bool.false_ne_true
  rw [hkeep, List.reverse_reverse]

theorem trimEnd_eq_self (hsolid : forall c, front.getLast? = some c -> isBlank c = false) :
    trimEnd front = front := by
  have hkeep : trimEnd (front ++ []) = front := trimEnd_append hsolid nofun
  rw [List.append_nil] at hkeep
  exact hkeep

theorem trimEnd_append_blanks (hblanks : forall c, c ∈ blanks -> isBlank c = true) (text : Text) :
    trimEnd (text ++ blanks) = trimEnd text := by
  unfold trimEnd
  rw [List.reverse_append,
    List.dropWhile_append_of_pos fun c hc => hblanks c (List.mem_reverse.mp hc)]

theorem trimStart_eq_self (hsolid : forall c, front.head? = some c -> isBlank c = false) :
    trimStart front = front := by
  unfold trimStart
  cases front with
  | nil =>
      rfl
  | cons c rest =>
      rw [List.dropWhile_cons_of_neg]
      rw [hsolid c rfl]
      exact Bool.false_ne_true

theorem exists_trimEnd (text : Text) :
    exists blanks, text = trimEnd text ++ blanks ∧ (forall c, c ∈ blanks -> isBlank c = true) ∧
      forall c, (trimEnd text).getLast? = some c -> isBlank c = false := by
  refine ⟨(text.reverse.takeWhile isBlank).reverse, ?_, ?_, ?_⟩
  · unfold trimEnd
    rw [← List.reverse_append, List.takeWhile_append_dropWhile, List.reverse_reverse]
  · intro c hc
    exact List.all_eq_true.mp List.all_takeWhile c (List.mem_reverse.mp hc)
  · intro c hc
    unfold trimEnd at hc
    rw [List.getLast?_reverse] at hc
    have hstops := List.head?_dropWhile_not isBlank text.reverse
    rw [hc] at hstops
    exact hstops

theorem trimEnd_trimEnd (text : Text) : trimEnd (trimEnd text) = trimEnd text := by
  rcases exists_trimEnd text with ⟨_, _, _, hsolid⟩
  exact trimEnd_eq_self hsolid

theorem exists_trim (text : Text) :
    exists leading trailing, text = leading ++ (trim text ++ trailing) ∧
      (forall c, c ∈ leading -> isBlank c = true) ∧ (forall c, c ∈ trailing -> isBlank c = true) ∧
      (forall c, (trim text).head? = some c -> isBlank c = false) ∧
      forall c, (trim text).getLast? = some c -> isBlank c = false := by
  rcases exists_trimEnd (trimStart text) with ⟨trailing, heq, htrailing, hlast⟩
  refine ⟨text.takeWhile isBlank, trailing, ?_, ?_, htrailing, ?_, hlast⟩
  · unfold trim
    rw [← heq]
    exact List.takeWhile_append_dropWhile.symm
  · exact List.all_eq_true.mp List.all_takeWhile
  · intro c hc
    have hstops := List.head?_dropWhile_not isBlank text
    have hhead : (trimStart text).head? = some c := by
      rw [heq]
      rcases List.head?_eq_some_iff.mp hc with ⟨rest, hrest⟩
      change (trim text ++ trailing).head? = some c
      rw [hrest]
      rfl
    unfold trimStart at hhead
    rw [hhead] at hstops
    exact hstops

theorem trim_eq_self {text : Text} (hhead : forall c, text.head? = some c -> isBlank c = false)
    (hlast : forall c, text.getLast? = some c -> isBlank c = false) : trim text = text := by
  unfold trim
  rw [trimStart_eq_self hhead, trimEnd_eq_self hlast]

theorem trim_trim (text : Text) : trim (trim text) = trim text := by
  rcases exists_trim text with ⟨_, _, _, _, _, hhead, hlast⟩
  exact trim_eq_self hhead hlast

end Text
end SqlLayout
