import SqlLayout.Proofs.Lexer.Pieces

/-!
# Strings in single quotes

Inside of a string a doubled quote, and a quote or a backslash behind a backslash, are
taken together; the first quote that is left over closes the string.  The match gives
back such a pair only where no quote follows it any more.
-/

namespace SqlLayout
namespace Regex

/-!
# The match
-/

def stringUnit : Regex :=
  oneOf
    [char '\'' ++ char '\'', text "\\\\", char '\\' ++ char '\'', chars (.noneOf ['\''])]

def stringRest : Regex := seq (star stringUnit) (char '\'')

/-- What is left behind the first character of a pair that ends with `last`. -/
def pairRest (last : Char) : Regex := seq (seq (char last) (star stringUnit)) (char '\'')

/-- The number of characters up to the quote that closes the string. -/
def stringLength : Text -> Option Nat
  | [] => none
  | '\'' :: '\'' :: rest => some (((stringLength rest).map (· + 2)).getD 1)
  | '\'' :: _ => some 1
  | '\\' :: '\\' :: rest => (stringLength rest).map (· + 2)
  | '\\' :: '\'' :: rest => some (((stringLength rest).map (· + 2)).getD 2)
  | _ :: rest => (stringLength rest).map (· + 1)

section Ways

variable (before after : Option Char)

def stringWays : List (CharSet × Regex) :=
  [(.oneOf ['\''], pairRest '\''), (.oneOf ['\\'], pairRest '\\'),
    (.oneOf ['\\'], pairRest '\''), (.noneOf ['\''], stringRest), (.oneOf ['\''], .empty)]

theorem cut_stringRest :
    cut ([stringRest].flatMap (heads before after)) = (stringWays, false) := rfl

theorem cut_afterQuote :
    cut ([pairRest '\'', .empty].flatMap (heads before after)) =
      ([(.oneOf ['\''], stringRest)], true) := rfl

theorem cut_afterSlash :
    cut ([pairRest '\\', pairRest '\'', stringRest].flatMap (heads before after)) =
      ((.oneOf ['\\'], stringRest) :: (.oneOf ['\''], stringRest) :: stringWays, false) := rfl

theorem cut_afterSlashes :
    cut ([stringRest, pairRest '\\', pairRest '\''].flatMap (heads before after)) =
      (stringWays ++ [(.oneOf ['\\'], stringRest), (.oneOf ['\''], stringRest)], false) := rfl

/-- Behind a backslash and a quote, which are a pair, or the quote has been read as behind
any other character. -/
theorem cut_afterPair :
    cut ([stringRest, pairRest '\'', .empty].flatMap (heads before after)) =
      (stringWays ++ [(.oneOf ['\''], stringRest)], true) := rfl

end Ways

section Runs

variable {before : Option Char} {c : Char} {rest : Text}

theorem run_congr {threads threads' : List Regex}
    (h : forall after, cut (threads.flatMap (heads before after)) =
      cut (threads'.flatMap (heads before after))) (text : Text) :
    run before threads text = run before threads' text := by
  cases text with
  | nil =>
      unfold run
      rw [h none]
  | cons c rest =>
      rw [run_cons, run_cons, h (some c)]

theorem run_stringRest_plain (hquote : c ≠ '\'') (hslash : c ≠ '\\') :
    run before [stringRest] (c :: rest) = (run (some c) [stringRest] rest).map (· + 1) := by
  have hadvance : advance c stringWays = [stringRest] := by
    simp [stringWays, advance, CharSet.has, hquote, hslash]
  rw [run_cons, cut_stringRest, hadvance, if_neg Bool.false_ne_true, Option.or_none]

theorem run_stringRest_quote :
    run before [stringRest] ('\'' :: rest) =
      (run (some '\'') [pairRest '\'', .empty] rest).map (· + 1) := by
  have hadvance : advance '\'' stringWays = [pairRest '\'', .empty] := by
    rfl
  rw [run_cons, cut_stringRest, hadvance, if_neg Bool.false_ne_true, Option.or_none]

theorem run_stringRest_slash :
    run before [stringRest] ('\\' :: rest) =
      (run (some '\\') [pairRest '\\', pairRest '\'', stringRest] rest).map (· + 1) := by
  have hadvance : advance '\\' stringWays = [pairRest '\\', pairRest '\'', stringRest] := by
    rfl
  rw [run_cons, cut_stringRest, hadvance, if_neg Bool.false_ne_true, Option.or_none]

theorem run_afterQuote_quote :
    run before [pairRest '\'', .empty] ('\'' :: rest) =
      some (((run (some '\'') [stringRest] rest).map (· + 1)).getD 0) := by
  have hadvance : advance '\'' [(CharSet.oneOf ['\''], stringRest)] = [stringRest] := by
    rfl
  rw [run_cons, cut_afterQuote, hadvance, if_pos rfl, Option.or_some]

theorem run_afterQuote (h : rest.head? ≠ some '\'') :
    run before [pairRest '\'', .empty] rest = some 0 := by
  cases rest with
  | nil =>
      rfl
  | cons c rest =>
      have hquote : c ≠ '\'' := by
        simpa using h
      have hadvance : advance c [(CharSet.oneOf ['\''], stringRest)] = [] := by
        simp [advance, CharSet.has, hquote]
      rw [run_cons, cut_afterQuote, hadvance, run_nil]
      rfl

theorem run_afterQuote_late (text : Text) :
    run before [pairRest '\'', .empty, stringRest] text =
      run before [pairRest '\'', .empty] text := by
  apply run_congr
  intro after
  rfl

theorem run_beside {threads : List Regex} {more : List (CharSet × Regex)} {isDone : Bool}
    (hcut : cut (threads.flatMap (heads before (some c))) = (stringWays ++ more, isDone))
    (hquote : advance '\'' (stringWays ++ more) = [pairRest '\'', .empty, stringRest])
    (hslash : advance '\\' (stringWays ++ more) = [pairRest '\\', pairRest '\'', stringRest])
    (hplain : c ≠ '\'' -> c ≠ '\\' -> advance c (stringWays ++ more) = [stringRest]) :
    run before threads (c :: rest) =
      (run before [stringRest] (c :: rest)).or (if isDone then some 0 else none) := by
  rw [run_cons, hcut]
  congr 1
  by_cases hc : c = '\''
  · rw [hc, hquote, run_stringRest_quote, run_afterQuote_late]
  · by_cases hc' : c = '\\'
    · rw [hc', hslash, run_stringRest_slash]
    · rw [hplain hc hc', run_stringRest_plain hc hc']

theorem run_afterSlashes (text : Text) :
    run before [stringRest, pairRest '\\', pairRest '\''] text = run before [stringRest] text := by
  cases text with
  | nil =>
      rfl
  | cons c rest =>
      refine (run_beside (cut_afterSlashes _ _) rfl rfl ?_).trans Option.or_none
      intro hquote hslash
      simp [stringWays, advance, CharSet.has, hquote, hslash]

theorem run_afterPair (text : Text) :
    run before [stringRest, pairRest '\'', .empty] text =
      some ((run before [stringRest] text).getD 0) := by
  cases text with
  | nil =>
      rfl
  | cons c rest =>
      refine (run_beside (cut_afterPair _ _) rfl rfl ?_).trans Option.or_some
      intro hquote hslash
      simp [stringWays, advance, CharSet.has, hquote, hslash]

theorem run_afterSlash_slash :
    run before [pairRest '\\', pairRest '\'', stringRest] ('\\' :: rest) =
      (run (some '\\') [stringRest] rest).map (· + 1) := by
  have hadvance : advance '\\' ((.oneOf ['\\'], stringRest) ::
      (.oneOf ['\''], stringRest) :: stringWays) =
      [stringRest, pairRest '\\', pairRest '\''] := by
    rfl
  rw [run_cons, cut_afterSlash, hadvance, run_afterSlashes, if_neg Bool.false_ne_true,
    Option.or_none]

theorem run_afterSlash_quote :
    run before [pairRest '\\', pairRest '\'', stringRest] ('\'' :: rest) =
      some ((run (some '\'') [stringRest] rest).getD 0 + 1) := by
  have hadvance : advance '\'' ((.oneOf ['\\'], stringRest) ::
      (.oneOf ['\''], stringRest) :: stringWays) = [stringRest, pairRest '\'', .empty] := by
    rfl
  rw [run_cons, cut_afterSlash, hadvance, run_afterPair, if_neg Bool.false_ne_true,
    Option.or_none]
  rfl

theorem run_afterSlash (hquote : rest.head? ≠ some '\'') (hslash : rest.head? ≠ some '\\') :
    run before [pairRest '\\', pairRest '\'', stringRest] rest =
      run before [stringRest] rest := by
  cases rest with
  | nil =>
      rfl
  | cons c rest =>
      have hquote : c ≠ '\'' := by
        simpa using hquote
      have hslash : c ≠ '\\' := by
        simpa using hslash
      have hadvance : advance c ((.oneOf ['\\'], stringRest) ::
          (.oneOf ['\''], stringRest) :: stringWays) = [stringRest] := by
        simp [stringWays, advance, CharSet.has, hquote, hslash]
      rw [run_stringRest_plain hquote hslash, run_cons, cut_afterSlash, hadvance,
        if_neg Bool.false_ne_true, Option.or_none]

end Runs

theorem run_stringRest (before : Option Char) (text : Text) :
    run before [stringRest] text = stringLength text := by
  fun_induction stringLength text generalizing before with
  | case1 =>
      rfl
  | case2 rest ih =>
      rw [run_stringRest_quote, run_afterQuote_quote, ih]
      cases stringLength rest <;> rfl
  | case3 rest hrest =>
      have hhead : rest.head? ≠ some '\'' := by
        intro hhead
        rcases List.head?_eq_some_iff.mp hhead with ⟨tail, htail⟩
        exact hrest tail htail
      rw [run_stringRest_quote, run_afterQuote hhead]
      rfl
  | case4 rest ih =>
      rw [run_stringRest_slash, run_afterSlash_slash, ih]
      cases stringLength rest <;> rfl
  | case5 rest ih =>
      rw [run_stringRest_slash, run_afterSlash_quote, ih]
      cases stringLength rest <;> rfl
  | case6 c rest _ hquote hslashes hpair ih =>
      by_cases hslash : c = '\\'
      · have hheadSlash : rest.head? ≠ some '\\' := by
          intro hhead
          rcases List.head?_eq_some_iff.mp hhead with ⟨tail, htail⟩
          exact hslashes tail hslash htail
        have hheadQuote : rest.head? ≠ some '\'' := by
          intro hhead
          rcases List.head?_eq_some_iff.mp hhead with ⟨tail, htail⟩
          exact hpair tail hslash htail
        rw [hslash, run_stringRest_slash, run_afterSlash hheadQuote hheadSlash, ih]
      · rw [run_stringRest_plain hquote hslash, ih]

theorem matchLength?_string (rest : Text) :
    (Rule.escaping '\'').matchLength? ('\'' :: rest) = (stringLength rest).map (· + 1) := by
  have hcut : cut ([Rule.escaping '\''].flatMap (heads none (some '\''))) =
      ([(.oneOf ['\''], stringRest)], false) := rfl
  have hadvance : advance '\'' [(CharSet.oneOf ['\''], stringRest)] = [stringRest] := by
    rfl
  rw [matchLength?, run_cons, hcut, hadvance, run_stringRest, if_neg Bool.false_ne_true,
    Option.or_none]

/-!
# What stands inside of a string
-/

/-- The inside of a string, taken apart: pairs, and single characters. -/
def stringUnits : Text -> List Text
  | [] => []
  | '\'' :: '\'' :: rest => ['\'', '\''] :: stringUnits rest
  | '\\' :: '\\' :: rest => ['\\', '\\'] :: stringUnits rest
  | '\\' :: '\'' :: rest => ['\\', '\''] :: stringUnits rest
  | c :: rest => [c] :: stringUnits rest

def StaysOpen (text : Text) : Prop := ['\''] ∉ stringUnits text

def Pairs (c : Char) (rest : Text) : Prop :=
  (c = '\'' ∧ rest.head? = some '\'') ∨
    (c = '\\' ∧ (rest.head? = some '\\' ∨ rest.head? = some '\''))

theorem not_pairs_of_cases {c : Char} {rest : Text}
    (hquotes : forall tail, c = '\'' -> rest = '\'' :: tail -> False)
    (hslashes : forall tail, c = '\\' -> rest = '\\' :: tail -> False)
    (hmixed : forall tail, c = '\\' -> rest = '\'' :: tail -> False) : ¬ Pairs c rest := by
  rintro (⟨hc, hhead⟩ | ⟨hc, hhead | hhead⟩)
  · rcases List.head?_eq_some_iff.mp hhead with ⟨tail, htail⟩
    exact hquotes tail hc htail
  · rcases List.head?_eq_some_iff.mp hhead with ⟨tail, htail⟩
    exact hslashes tail hc htail
  · rcases List.head?_eq_some_iff.mp hhead with ⟨tail, htail⟩
    exact hmixed tail hc htail

theorem Pairs.congr {c : Char} {rest rest' : Text} (h : Pairs c rest)
    (hhead : rest'.head? = rest.head?) : Pairs c rest' := by
  unfold Pairs at h ⊢
  rw [hhead]
  exact h

theorem stringUnits_single {c : Char} {rest : Text} (h : ¬ Pairs c rest) :
    stringUnits (c :: rest) = [c] :: stringUnits rest := by
  rw [stringUnits]
  · rintro tail rfl rfl
    exact h (Or.inl ⟨rfl, rfl⟩)
  · rintro tail rfl rfl
    exact h (Or.inr ⟨rfl, Or.inl rfl⟩)
  · rintro tail rfl rfl
    exact h (Or.inr ⟨rfl, Or.inr rfl⟩)

theorem stringLength_single {c : Char} {rest : Text} (h : ¬ Pairs c rest) (hc : c ≠ '\'') :
    stringLength (c :: rest) = (stringLength rest).map (· + 1) := by
  rw [stringLength]
  · rintro tail rfl rfl
    exact hc rfl
  · rintro rfl
    exact hc rfl
  · rintro tail rfl rfl
    exact h (Or.inr ⟨rfl, Or.inl rfl⟩)
  · rintro tail rfl rfl
    exact h (Or.inr ⟨rfl, Or.inr rfl⟩)

theorem stringLength_quote {rest : Text} (h : rest.head? ≠ some '\'') :
    stringLength ('\'' :: rest) = some 1 := by
  rw [stringLength]
  rintro tail rfl
  exact h rfl

theorem exists_inner_of_stringLength {text : Text} {n : Nat} (h : stringLength text = some n) :
    exists inner behind, text = inner ++ '\'' :: behind ∧ n = inner.length + 1 ∧
      StaysOpen inner := by
  unfold StaysOpen
  fun_induction stringLength text generalizing n with
  | case1 =>
      cases h
  | case2 rest ih =>
      cases hrest : stringLength rest with
      | none =>
          rw [hrest] at h
          cases h
          exact ⟨[], '\'' :: rest, rfl, rfl, List.not_mem_nil⟩
      | some m =>
          rw [hrest] at h
          cases h
          rcases ih hrest with ⟨inner, behind, rfl, rfl, hopen⟩
          exact ⟨'\'' :: '\'' :: inner, behind, rfl, rfl, by simpa [stringUnits] using hopen⟩
  | case3 rest _ =>
      cases h
      exact ⟨[], rest, rfl, rfl, List.not_mem_nil⟩
  | case4 rest ih =>
      rcases Option.map_eq_some_iff.mp h with ⟨m, hm, rfl⟩
      rcases ih hm with ⟨inner, behind, rfl, rfl, hopen⟩
      exact ⟨'\\' :: '\\' :: inner, behind, rfl, rfl, by simpa [stringUnits] using hopen⟩
  | case5 rest ih =>
      cases hrest : stringLength rest with
      | none =>
          -- The quote of the pair has closed the string.
          rw [hrest] at h
          cases h
          exact ⟨['\\'], rest, rfl, rfl, by decide⟩
      | some m =>
          rw [hrest] at h
          cases h
          rcases ih hrest with ⟨inner, behind, rfl, rfl, hopen⟩
          exact ⟨'\\' :: '\'' :: inner, behind, rfl, rfl, by simpa [stringUnits] using hopen⟩
  | case6 c rest hquotes hquote hslashes hmixed ih =>
      have hsingle := not_pairs_of_cases hquotes hslashes hmixed
      rcases Option.map_eq_some_iff.mp h with ⟨m, hm, rfl⟩
      rcases ih hm with ⟨inner, behind, rfl, rfl, hopen⟩
      have hinner : ¬ Pairs c inner := by
        intro hpairs
        cases inner with
        | nil =>
            simp [Pairs] at hpairs
        | cons d inner =>
            exact hsingle (hpairs.congr rfl)
      refine ⟨c :: inner, behind, rfl, rfl, ?_⟩
      rw [stringUnits_single hinner, List.mem_cons, not_or]
      exact ⟨fun heq => hquote (List.singleton_inj.mp heq).symm, hopen⟩

section Tail

variable {text tail : Text} {n : Nat}

/-- A text is read unit by unit and then its tail, if a last character does not pair with
the tail or the string is closed either way. -/
theorem stringLength_append (hlength : stringLength tail = some n)
    (hlast : forall c, c ≠ '\'' -> stringLength (c :: tail) = some (n + 1))
    (h : StaysOpen text) : stringLength (text ++ tail) = some (text.length + n) := by
  unfold StaysOpen at h
  fun_induction stringUnits text with
  | case1 =>
      simpa using hlength
  | case2 rest ih =>
      rw [List.mem_cons, not_or] at h
      rw [List.cons_append, List.cons_append, stringLength, ih h.2]
      simp +arith
  | case3 rest ih =>
      rw [List.mem_cons, not_or] at h
      rw [List.cons_append, List.cons_append, stringLength, ih h.2]
      simp +arith
  | case4 rest ih =>
      rw [List.mem_cons, not_or] at h
      rw [List.cons_append, List.cons_append, stringLength, ih h.2]
      simp +arith
  | case5 c rest hquotes hslashes hmixed ih =>
      rw [List.mem_cons, not_or] at h
      have hc : c ≠ '\'' := by
        rintro rfl
        exact h.1 rfl
      cases rest with
      | nil =>
          rw [List.singleton_append, hlast c hc, List.length_singleton, Nat.add_comm]
      | cons d rest =>
          have hsingle : ¬ Pairs c (d :: rest ++ tail) := fun hpairs =>
            not_pairs_of_cases hquotes hslashes hmixed (hpairs.congr rfl)
          rw [List.cons_append, stringLength_single hsingle hc, ih h.2]
          simp +arith

theorem not_pairs_append {c : Char} (h : ¬ Pairs c text) (hquote : tail.head? ≠ some '\'')
    (hslash : tail.head? ≠ some '\\') : ¬ Pairs c (text ++ tail) := by
  intro hpairs
  cases text with
  | nil =>
      simp [Pairs, hquote, hslash] at hpairs
  | cons d text =>
      exact h (hpairs.congr rfl)

theorem stringLength_append_of_open (hquote : tail.head? ≠ some '\'')
    (hslash : tail.head? ≠ some '\\') (hlength : stringLength tail = some n)
    (h : StaysOpen text) : stringLength (text ++ tail) = some (text.length + n) := by
  refine stringLength_append hlength (fun c hc => ?_) h
  have hsingle : ¬ Pairs c tail := by
    simp [Pairs, hquote, hslash]
  rw [stringLength_single hsingle hc, hlength]
  rfl

theorem stringLength_append_of_not_open (hquote : tail.head? ≠ some '\'')
    (hslash : tail.head? ≠ some '\\') (h : ¬ StaysOpen text) :
    exists k, k <= text.length ∧ stringLength (text ++ tail) = some k := by
  unfold StaysOpen at h
  rw [not_not] at h
  fun_induction stringUnits text with
  | case1 =>
      cases h
  | case2 rest ih =>
      rcases ih (List.mem_of_ne_of_mem (by decide) h) with ⟨k, hk, hlength⟩
      refine ⟨k + 2, Nat.add_le_add_right hk 2, ?_⟩
      rw [List.cons_append, List.cons_append, stringLength, hlength]
      rfl
  | case3 rest ih =>
      rcases ih (List.mem_of_ne_of_mem (by decide) h) with ⟨k, hk, hlength⟩
      refine ⟨k + 2, Nat.add_le_add_right hk 2, ?_⟩
      rw [List.cons_append, List.cons_append, stringLength, hlength]
      rfl
  | case4 rest ih =>
      rcases ih (List.mem_of_ne_of_mem (by decide) h) with ⟨k, hk, hlength⟩
      refine ⟨k + 2, Nat.add_le_add_right hk 2, ?_⟩
      rw [List.cons_append, List.cons_append, stringLength, hlength]
      rfl
  | case5 c rest hquotes hslashes hmixed ih =>
      have hsingle := not_pairs_append (not_pairs_of_cases hquotes hslashes hmixed) hquote hslash
      by_cases hc : c = '\''
      · subst hc
        refine ⟨1, by simp, ?_⟩
        rw [List.cons_append, stringLength_quote]
        exact fun hhead => hsingle (Or.inl ⟨rfl, hhead⟩)
      · rcases ih (List.mem_of_ne_of_mem (by simpa using Ne.symm hc) h) with ⟨k, hk, hlength⟩
        refine ⟨k + 1, Nat.add_le_add_right hk 1, ?_⟩
        rw [List.cons_append, stringLength_single hsingle hc, hlength]
        rfl

end Tail

theorem stringLength_closed {text : Text} (h : StaysOpen text) :
    stringLength (text ++ ['\'']) = some (text.length + 1) := by
  refine stringLength_append rfl (fun c hc => ?_) h
  -- A backslash at the end is read together with the quote that closes the string.
  by_cases hslash : c = '\\'
  · rw [hslash]
    rfl
  · have hsingle : ¬ Pairs c ['\''] := by
      simp [Pairs, hc, hslash]
    rw [stringLength_single hsingle hc]
    rfl

/-!
# A string that is cut
-/

/-- A cut between the two quotes of a pair. -/
def SplitsQuotes (width : Nat) (units : List Text) : Prop :=
  exists front back, units = front ++ ['\'', '\''] :: back ∧ width = front.flatten.length + 1

theorem not_splitsQuotes_nil (width : Nat) : ¬ SplitsQuotes width [] := by
  rintro ⟨front, back, heq, _⟩
  exact List.cons_ne_nil _ _ (List.append_eq_nil_iff.mp heq.symm).2

theorem splitsQuotes_cons (unit : Text) (units : List Text) (width : Nat) :
    SplitsQuotes (unit.length + width) (unit :: units) <-> SplitsQuotes width units := by
  constructor
  · rintro ⟨front, back, heq, hwidth⟩
    cases front with
    | nil =>
        cases heq
        simp only [List.length_cons, List.flatten_nil, List.length_nil] at hwidth
        omega
    | cons first front =>
        cases heq
        rw [List.flatten_cons, List.length_append, Nat.add_assoc, Nat.add_left_cancel_iff] at hwidth
        exact ⟨front, back, rfl, hwidth⟩
  · rintro ⟨front, back, rfl, rfl⟩
    refine ⟨unit :: front, back, rfl, ?_⟩
    rw [List.flatten_cons, List.length_append, Nat.add_assoc]

theorem splitsQuotes_early {unit : Text} {units : List Text} {width : Nat}
    (h : width < unit.length) :
    SplitsQuotes width (unit :: units) <-> unit = ['\'', '\''] ∧ width = 1 := by
  constructor
  · rintro ⟨front, back, heq, hwidth⟩
    cases front with
    | nil =>
        cases heq
        exact ⟨rfl, hwidth⟩
    | cons first front =>
        cases heq
        rw [List.flatten_cons, List.length_append] at hwidth
        omega
  · rintro ⟨rfl, rfl⟩
    exact ⟨[], units, rfl, rfl⟩

theorem staysOpen_take_pair {a b : Char} {rest : Text}
    (hunits : forall rest, stringUnits (a :: b :: rest) = [a, b] :: stringUnits rest)
    (hquote : a = '\'' -> b = '\'')
    (hrest : forall width,
      StaysOpen (rest.take width) <-> ¬ SplitsQuotes width (stringUnits rest)) (width : Nat) :
    StaysOpen ((a :: b :: rest).take width) <->
      ¬ SplitsQuotes width ([a, b] :: stringUnits rest) := by
  match width with
  | 0 =>
      rw [splitsQuotes_early (by simp)]
      simp [StaysOpen, stringUnits]
  | 1 =>
      have hsingle : ¬ Pairs a [] := by
        simp [Pairs]
      rw [splitsQuotes_early (by simp), StaysOpen, List.take_succ_cons, List.take_zero,
        stringUnits_single hsingle]
      simp only [stringUnits, List.mem_singleton, List.cons.injEq, and_true, not_iff_not]
      exact ⟨fun ha => ⟨ha.symm, hquote ha.symm⟩, fun hpair => hpair.1.symm⟩
  | width + 2 =>
      have hsplits := splitsQuotes_cons [a, b] (stringUnits rest) width
      rw [show [a, b].length + width = width + 2 from Nat.add_comm 2 width] at hsplits
      rw [hsplits, ← hrest width, StaysOpen, List.take_succ_cons, List.take_succ_cons, hunits,
        List.mem_cons, or_iff_right (by simp)]
      rfl

/-- Where a text stays open, a part of it from the start does so too, unless the part ends
between two quotes. -/
theorem staysOpen_take_iff {text : Text} (h : StaysOpen text) (width : Nat) :
    StaysOpen (text.take width) <-> ¬ SplitsQuotes width (stringUnits text) := by
  unfold StaysOpen at h
  fun_induction stringUnits text generalizing width with
  | case1 =>
      rw [List.take_nil]
      simpa [StaysOpen, stringUnits] using not_splitsQuotes_nil width
  | case2 rest ih =>
      exact staysOpen_take_pair (fun _ => rfl) (fun _ => rfl)
        (ih (List.not_mem_of_not_mem_cons h)) width
  | case3 rest ih =>
      exact staysOpen_take_pair (fun _ => rfl) (absurd · (by decide))
        (ih (List.not_mem_of_not_mem_cons h)) width
  | case4 rest ih =>
      exact staysOpen_take_pair (fun _ => rfl) (absurd · (by decide))
        (ih (List.not_mem_of_not_mem_cons h)) width
  | case5 c rest hquotes hslashes hmixed ih =>
      have hsingle := not_pairs_of_cases hquotes hslashes hmixed
      rw [List.mem_cons, not_or] at h
      cases width with
      | zero =>
          rw [splitsQuotes_early (by simp)]
          simp [StaysOpen, stringUnits]
      | succ width =>
          have htake : ¬ Pairs c (rest.take width) := by
            intro hpairs
            cases width with
            | zero =>
                simp [Pairs] at hpairs
            | succ width =>
                exact hsingle (hpairs.congr (by cases rest <;> rfl))
          have hsplits := splitsQuotes_cons [c] (stringUnits rest) width
          rw [show [c].length + width = width + 1 from Nat.add_comm 1 width] at hsplits
          rw [hsplits, ← ih h.2 width, StaysOpen, List.take_succ_cons, stringUnits_single htake,
            List.mem_cons, or_iff_right h.1]
          rfl

end Regex

/-!
# String tokens
-/

namespace Rule

theorem exists_string_rule (dialect : Dialect) :
    exists early late, ofDialect dialect =
        early ++ plain (escaping '\'') .singleQuoted :: late ∧
      (early ++ late).all (fun rule => rule.action != .emit .singleQuoted &&
        rule.regex.firstSets.all fun set => !set.has '\'') = true := by
  cases dialect with
  | generic =>
      exact ⟨comments ["--", "# "] ++ marks ++ quotedNames ++ dollarQuotes ++ placeholders
        ++ specialNames ++ words.take 7, words.drop 8, rfl, by rfl⟩
  | postgresql =>
      exact ⟨comments ["--"] ++ marks ++ dollarQuotes ++ placeholders ++ words.take 7,
        words.drop 8, rfl, by rfl⟩
  | mysql =>
      exact ⟨comments ["--", "#"] ++ marks ++ quotedNames ++ placeholders ++ specialNames
        ++ words.take 7, words.drop 8, rfl, by rfl⟩

theorem first?_quote (dialect : Dialect) (before : Option Char) (rest : Text) :
    first? (ofDialect dialect) before ('\'' :: rest) =
      (Regex.stringLength rest).map fun n => (.emit .singleQuoted, n + 1) := by
  rcases exists_string_rule dialect with ⟨early, late, hrules, hothers⟩
  rw [List.all_append, Bool.and_eq_true] at hothers
  have hnone : forall rules : List Rule, rules.all (fun rule =>
      rule.action != .emit .singleQuoted &&
        rule.regex.firstSets.all fun set => !set.has '\'') = true ->
      first? rules before ('\'' :: rest) = none := by
    intro rules hall
    unfold first?
    rw [List.findSome?_eq_none_iff]
    intro rule hrule
    have hsets := (Bool.and_eq_true_iff.mp (List.all_eq_true.mp hall rule hrule)).2
    rw [matchLength?_eq_none, Option.map_none]
    intro set hset
    simpa using List.all_eq_true.mp hsets set hset
  have hstring : (plain (escaping '\'') .singleQuoted).matchLength? before ('\'' :: rest) =
      (Regex.stringLength rest).map (· + 1) := by
    unfold matchLength? plain
    rw [Regex.matchLength?_string]
    cases Regex.stringLength rest <;> rfl
  have hearly := hnone early hothers.1
  have hlate := hnone late hothers.2
  unfold first? at hearly hlate ⊢
  rw [hrules, List.findSome?_append, hearly, Option.none_or, List.findSome?_cons, hstring, hlate]
  cases Regex.stringLength rest <;> rfl

theorem head?_of_first?_string {dialect : Dialect} {before : Option Char} {text : Text} {n : Nat}
    (h : first? (ofDialect dialect) before text = some (.emit .singleQuoted, n)) :
    text.head? = some '\'' := by
  rcases exists_of_first? h with ⟨rule, hrule, haction, hpos, hle, hspells⟩
  rcases exists_string_rule dialect with ⟨early, late, hrules, hothers⟩
  rw [hrules, List.mem_append, List.mem_cons] at hrule
  have hother : rule ∉ early ++ late := by
    intro hmem
    have haction' := (Bool.and_eq_true_iff.mp (List.all_eq_true.mp hothers rule hmem)).1
    rw [haction] at haction'
    cases haction'
  have hstring : rule = plain (escaping '\'') .singleQuoted := by
    rcases hrule with hearly | hstring | hlate
    · exact absurd (List.mem_append_left late hearly) hother
    · exact hstring
    · exact absurd (List.mem_append_right early hlate) hother
  cases text with
  | nil =>
      exact absurd hle (Nat.not_le_of_lt hpos)
  | cons c rest =>
      rw [hstring, ← Nat.sub_add_cancel hpos, List.take_succ_cons] at hspells
      rcases hspells.first with ⟨set, hset, hhas⟩
      have hset' : set = .oneOf ['\''] := List.mem_singleton.mp hset
      rw [hset'] at hhas
      simpa [CharSet.has] using hhas

end Rule

theorem not_singleQuoted_of_check {options : LexerOptions} {config : LexerConfig}
    (h : options.check = .ok config) (word : Text) :
    config.vocabulary.classify word ≠ .singleQuoted := by
  have hword : (config.vocabulary.classify word != .singleQuoted) = true := by
    apply Vocabulary.classify_of_all (p := fun category => category != .singleQuoted)
    · rw [dictionaries_of_check h]
      cases config.dialect with
      | generic => rfl
      | postgresql => rfl
      | mysql => rfl
    · rfl
    · rfl
  rw [bne_iff_ne] at hword
  exact hword

namespace Scan

variable {config : LexerConfig} {scan after : Scan} {token : Token}

theorem Emits.exists_place {tokens : List Token} (h : Emits config scan tokens)
    (htoken : token ∈ tokens) :
    exists place after, next? config place = some (token, after) := by
  induction h with
  | stop _ =>
      cases htoken
  | emit hnext _ ih =>
      rcases List.mem_cons.mp htoken with rfl | htail
      · exact ⟨_, _, hnext⟩
      · exact ih htail

theorem exists_inner_of_next? (hwords : forall word,
      config.vocabulary.classify word ≠ .singleQuoted)
    (hnext : scan.next? config = some (token, after)) (hstring : token.category = .singleQuoted) :
    exists inner, token.value = '\'' :: (inner ++ ['\'']) ∧ Regex.StaysOpen inner := by
  have htag := (outside_of_category hnext (by rw [hstring]; exact nofun)
    (by rw [hstring]; exact nofun)).1
  rcases next?_outcome hnext with ⟨hclass, hvalue, _, _⟩
  rw [outcome_plain_eq htag] at hclass hvalue
  dsimp only at hclass hvalue
  cases hfirst : Rule.first? (Rule.ofDialect config.dialect) scan.before scan.rest with
  | none =>
      rw [classify_of_stuck hfirst, hstring] at hclass
      cases hclass
  | some found =>
      rcases found with ⟨action, n⟩
      rw [classify_of_found hfirst] at hclass hvalue
      cases action with
      | lookUp =>
          rw [hstring] at hclass
          exact absurd hclass.symm (hwords _)
      | emit category =>
          rw [hstring] at hclass
          cases hclass
          rcases List.head?_eq_some_iff.mp (Rule.head?_of_first?_string hfirst) with ⟨rest, hrest⟩
          rw [hrest, Rule.first?_quote] at hfirst
          rcases Option.map_eq_some_iff.mp hfirst with ⟨m, hlength, hpair⟩
          cases hpair
          rcases Regex.exists_inner_of_stringLength hlength with ⟨inner, behind, rfl, rfl, hopen⟩
          refine ⟨inner, ?_, hopen⟩
          rw [hvalue, hrest, List.take_succ_cons, List.append_cons,
            List.take_left' (by simp)]

theorem classify_quote {rest : Text} (hrest : scan.rest = '\'' :: rest) {n : Nat}
    (hlength : Regex.stringLength rest = some n) :
    scan.classify config = (.singleQuoted, n + 1) := by
  have hfirst := Rule.first?_quote config.dialect scan.before rest
  rw [← hrest, hlength] at hfirst
  exact classify_of_found hfirst

/-- A text that starts with a quote is one string if and only if its end closes it. -/
theorem tokenize_quote_iff (rest : Text) :
    tokenize config ('\'' :: rest) = [⟨.singleQuoted, '\'' :: rest, some 0⟩] <->
      Regex.stringLength rest = some rest.length := by
  have hemits := emits_tokenize config ('\'' :: rest)
  constructor
  · intro htokens
    rw [htokens] at hemits
    cases hemits with
    | emit hnext _ =>
        rcases next?_outcome hnext with ⟨hclass, hvalue, _, _⟩
        rw [outcome_plain_eq rfl] at hclass hvalue
        dsimp only at hclass hvalue
        cases hlength : Regex.stringLength rest with
        | none =>
            have hfirst := Rule.first?_quote config.dialect none rest
            rw [hlength, Option.map_none] at hfirst
            rw [classify_of_stuck hfirst] at hclass
            cases hclass
        | some n =>
            rw [classify_quote rfl hlength, List.take_succ_cons, List.cons.injEq] at hvalue
            rcases Regex.exists_inner_of_stringLength hlength with ⟨inner, behind, htext, rfl, _⟩
            have hle : rest.length <= inner.length + 1 := by
              rw [hvalue.2]
              exact List.length_take_le _ _
            rw [htext, List.length_append, List.length_cons] at hle ⊢
            congr 1
            omega
  · intro hlength
    have houtcome : outcome config { rest := '\'' :: rest } =
        (.singleQuoted, rest.length + 1, none) := by
      rw [outcome_plain_eq rfl, classify_quote rfl hlength]
      rfl
    have hnext : next? config { rest := '\'' :: rest } =
        some (⟨.singleQuoted, '\'' :: rest, some 0⟩,
          { before := ('\'' :: rest).getLast?, offset := 0 + Text.byteLength ('\'' :: rest),
            dollarTag := none, rest := [] }) := by
      unfold next?
      dsimp only
      rw [houtcome, List.take_succ_cons, List.drop_succ_cons, List.take_length, List.drop_length]
    exact hemits.unique (Emits.emit hnext (Emits.stop rfl))

end Scan
end SqlLayout
