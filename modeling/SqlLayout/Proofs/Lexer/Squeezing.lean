import Mathlib.Data.List.Basic
import SqlLayout.Lexer.Rules
import SqlLayout.Proofs.Layout.LineEnds
import SqlLayout.Proofs.Regex.Derivatives

/-!
# Matches in a text and in its final form

Stripping line ends makes runs of blanks shorter, but it never takes a run away
except at the end of the text.  A lexical rule that does not look inside a run
finds the same match before and after.
-/

namespace SqlLayout
namespace LinePart

def Agree (parts : List LinePart) (a b : Option Nat) : Prop :=
  a = none ∧ b = none ∨
    exists front back, parts = front ++ back ∧ a = some (sources front).length ∧
      b = some (outputs front).length

theorem Agree.neither (parts : List LinePart) : Agree parts none none :=
  Or.inl ⟨rfl, rfl⟩

theorem Agree.zero (parts : List LinePart) : Agree parts (some 0) (some 0) :=
  Or.inr ⟨[], parts, rfl, rfl, rfl⟩

theorem Agree.cons {part : LinePart} {parts : List LinePart} {a b : Option Nat}
    (h : Agree parts a b) :
    Agree (part :: parts) (a.map (· + part.source.length)) (b.map (· + part.output.length)) := by
  rcases h with ⟨rfl, rfl⟩ | ⟨front, back, rfl, rfl, rfl⟩
  · exact Agree.neither _
  · refine Or.inr ⟨part :: front, back, rfl, ?_, ?_⟩
    · rw [Option.map_some, sources_cons, List.length_append, Nat.add_comm]
    · rw [Option.map_some, outputs_cons, List.length_append, Nat.add_comm]

theorem Agree.orStop {parts : List LinePart} {a b : Option Nat} (h : Agree parts a b)
    (isDone : Bool) :
    Agree parts (a.or (if isDone then some 0 else none))
      (b.or (if isDone then some 0 else none)) := by
  have hstop := h
  rcases h with ⟨rfl, rfl⟩ | ⟨front, back, rfl, rfl, rfl⟩
  · cases isDone with
    | false =>
        exact hstop
    | true =>
        exact Agree.zero _
  · exact hstop

theorem blank_of_break {ending : Text} (h : Lines.isBreak ending = true) {c : Char}
    (hc : c ∈ ending) : Text.isBlank c = true := by
  unfold Lines.isBreak at h
  simp only [Bool.or_eq_true, beq_iff_eq] at h
  rcases h with (rfl | rfl) | rfl
  · rcases List.mem_cons.mp hc with rfl | hc
    · rfl
    · rw [List.mem_singleton.mp hc]
      rfl
  · rw [List.mem_singleton.mp hc]
    rfl
  · rw [List.mem_singleton.mp hc]
    rfl

theorem blank_of_lineEnd {blanks ending : Text} (hblanks : Trailing blanks)
    (hbreak : Lines.isBreak ending = true) {c : Char} (hc : c ∈ blanks ++ ending) :
    Text.isBlank c = true := by
  rcases List.mem_append.mp hc with hblank | hending
  · exact (hblanks c hblank).1
  · exact blank_of_break hbreak hending

theorem blank_of_output {blanks ending : Text} {c : Char}
    (hc : c ∈ (LinePart.ended blanks ending).output) : Text.isBlank c = true := by
  cases ending with
  | nil =>
      cases hc
  | cons d ending =>
      rw [List.mem_singleton.mp hc]
      rfl

theorem lineEnd_ne_nil (blanks : Text) {ending : Text} (hbreak : Lines.isBreak ending = true) :
    blanks ++ ending ≠ [] := by
  intro hnil
  rw [(List.append_eq_nil_iff.mp hnil).2] at hbreak
  cases hbreak

/-- A line end is a run of blanks, and a line feed is left of it unless it is at
the end of the text. -/
theorem Regular.lineEnd {blanks ending : Text} {rest : List LinePart}
    (h : Regular (LinePart.ended blanks ending :: rest)) :
    (LinePart.ended blanks ending).source ≠ [] ∧
      (forall c, c ∈ (LinePart.ended blanks ending).source -> Text.isBlank c = true) ∧
      ((LinePart.ended blanks ending).output = ['\n'] ∨
        (LinePart.ended blanks ending).output = [] ∧ rest = []) := by
  cases h with
  | ended hblanks hbreak _ _ =>
      exact ⟨lineEnd_ne_nil blanks hbreak, fun c => blank_of_lineEnd hblanks hbreak,
        Or.inl (output_break hbreak)⟩
  | last hne hblanks =>
      rw [source, List.append_nil]
      exact ⟨hne, fun c hc => (hblanks c hc).1, Or.inr ⟨rfl, rfl⟩⟩

theorem blank_head {parts : List LinePart} (h : Regular parts) (hstarts : startsKept parts = false)
    {c : Char} (hhead : (sources parts).head? = some c) : Text.isBlank c = true := by
  cases parts with
  | nil =>
      cases hhead
  | cons part rest =>
      cases part with
      | kept d =>
          cases hstarts
      | ended blanks ending =>
          rcases h.lineEnd with ⟨hne, hblank, _⟩
          rw [sources_cons, List.head?_append_of_ne_nil _ hne] at hhead
          exact hblank c (List.mem_of_mem_head? hhead)

end LinePart

namespace Regex

open LinePart

/-!
# Expressions that squeeze blanks
-/

section

variable {r : Regex} (hr : squeezes r = true) {threads : List Regex}
  (hthreads : forall thread, thread ∈ threads -> thread ∈ r :: tails r)
include hr hthreads

theorem endless_of_squeezes {thread : Regex} (h : thread ∈ threads) : endless thread = true :=
  (Bool.and_eq_true_iff.mp (List.all_eq_true.mp hr thread (hthreads thread h))).1

theorem ways_of_squeezes {thread : Regex} (h : thread ∈ threads) {way : CharSet × Regex}
    (hway : way ∈ ways thread) :
    way.1.skipsBlanks = true ∨ way.1.takesBlanks = true ∧ settles way.2 = true := by
  have hall := (Bool.and_eq_true_iff.mp (List.all_eq_true.mp hr thread (hthreads thread h))).2
  have hone := List.all_eq_true.mp hall way hway
  rw [Bool.or_eq_true, Bool.and_eq_true] at hone
  exact hone

omit hr hthreads in
theorem exists_way_of_cut {before after : Option Char} {way : CharSet × Regex}
    (h : way ∈ (cut (threads.flatMap (heads before after))).1) :
    exists thread, thread ∈ threads ∧ way ∈ ways thread := by
  rcases List.mem_flatMap.mp (mem_of_cut h) with ⟨thread, hthread, hhead⟩
  exact ⟨thread, hthread, mem_ways_of_heads hhead⟩

theorem advance_tails (before after : Option Char) (c : Char) :
    forall next, next ∈ advance c (cut (threads.flatMap (heads before after))).1 ->
      next ∈ r :: tails r := by
  intro next h
  rcases mem_of_advance h with ⟨set, hway, _⟩
  rcases exists_way_of_cut hway with ⟨thread, hthread, hways⟩
  rcases List.mem_cons.mp (hthreads thread hthread) with rfl | htail
  · exact List.mem_cons_of_mem _ (mem_tails_of_ways hways)
  · exact List.mem_cons_of_mem _ (tails_closed htail hways)

theorem advance_settles_of_blank (before after : Option Char) {c : Char}
    (hc : Text.isBlank c = true) :
    forall next, next ∈ advance c (cut (threads.flatMap (heads before after))).1 ->
      settles next = true := by
  intro next h
  rcases mem_of_advance h with ⟨set, hway, hset⟩
  rcases exists_way_of_cut hway with ⟨thread, hthread, hways⟩
  rcases ways_of_squeezes hr hthreads hthread hways with hskips | ⟨_, hsettles⟩
  · rw [CharSet.not_has_of_skipsBlanks hskips hc] at hset
    cases hset
  · exact hsettles

end

theorem run_settled_nil {threads : List Regex} (before : Option Char)
    (h : forall thread, thread ∈ threads -> settles thread = true) :
    run before threads [] = none := by
  unfold run
  cases hdone : (cut (threads.flatMap (heads before none))).2 with
  | false =>
      rfl
  | true =>
      rcases List.mem_flatMap.mp (done_mem_of_cut hdone) with ⟨thread, hthread, hmem⟩
      exact absurd hmem (not_done_of_settles (h thread hthread))

theorem run_lineEnd {r : Regex} (hr : squeezes r = true) {threads : List Regex}
    (hthreads : forall thread, thread ∈ threads -> thread ∈ r :: tails r) {before : Option Char}
    {c : Char} {blanks : Text} (hblanks : forall d, d ∈ c :: blanks -> Text.isBlank d = true)
    (text : Text) :
    run before threads (c :: blanks ++ text) =
      ((run (some ' ') (advance '\n' (cut (threads.flatMap (heads before (some '\n')))).1)
          text).map (· + (c :: blanks).length)).or
        (if (cut (threads.flatMap (heads before (some '\n')))).2 then some 0 else none) := by
  have hc := hblanks c List.mem_cons_self
  have hheads : threads.flatMap (heads before (some c)) =
      threads.flatMap (heads before (some '\n')) := by
    refine List.flatMap_congr fun thread hthread => heads_congr rfl ?_ (Or.inr rfl)
    rw [not_isWordAt_blank hc, not_isWordAt_blank rfl]
  have hadvance : advance c (cut (threads.flatMap (heads before (some '\n')))).1 =
      advance '\n' (cut (threads.flatMap (heads before (some '\n')))).1 := by
    refine advance_blank ?_ hc rfl
    intro way hway
    rcases exists_way_of_cut hway with ⟨thread, hthread, hways⟩
    exact (ways_of_squeezes hr hthreads hthread hways).imp_right And.left
  have hnext := advance_tails hr hthreads before (some '\n') '\n'
  have hfeed : Text.isBlank '\n' = true := rfl
  have hrun := run_blanks (b := c)
    (advance_settles_of_blank hr hthreads before (some '\n') hfeed)
    (fun next hmem way hway => (ways_of_squeezes hr hnext hmem hway).imp_right And.left)
    (nodup_advance _ _) hc (fun d hd => hblanks d (List.mem_cons_of_mem _ hd)) text
  rw [List.cons_append, run_cons, hheads, hadvance, hrun, Option.map_map]
  rfl

theorem run_agrees {r : Regex} (hr : squeezes r = true) {parts : List LinePart}
    (hparts : Regular parts) {threads : List Regex}
    (hthreads : forall thread, thread ∈ threads -> thread ∈ r :: tails r)
    {before before' : Option Char} (hbefore : isWordAt before = isWordAt before') :
    Agree parts (run before threads (sources parts)) (run before' threads (outputs parts)) := by
  induction hparts generalizing threads before before' with
  | nil =>
      rw [run_congr_before hbefore]
      exact (Agree.neither []).orStop _
  | @kept c parts _ _ ih =>
      have hheads : threads.flatMap (heads before (some c)) =
          threads.flatMap (heads before' (some c)) :=
        List.flatMap_congr fun thread _ => heads_congr hbefore rfl (Or.inr rfl)
      change Agree _ (run before threads (c :: sources parts))
        (run before' threads (c :: outputs parts))
      rw [run_cons, run_cons, hheads]
      have hnext := ih (advance_tails hr hthreads before' (some c) c) (Eq.refl (isWordAt (some c)))
      have hlonger : Agree (LinePart.kept c :: parts) _ _ := hnext.cons
      exact hlonger.orStop _
  | @ended blanks ending parts hblanks hbreak _ _ ih =>
      have hheads : threads.flatMap (heads before (some '\n')) =
          threads.flatMap (heads before' (some '\n')) :=
        List.flatMap_congr fun thread _ => heads_congr hbefore rfl (Or.inr rfl)
      have hsame : isWordAt (some ' ') = isWordAt (some '\n') := by
        rw [not_isWordAt_blank rfl, not_isWordAt_blank rfl]
      have hall : forall d, d ∈ blanks ++ ending -> Text.isBlank d = true :=
        fun d => blank_of_lineEnd hblanks hbreak
      rcases List.exists_cons_of_ne_nil (lineEnd_ne_nil blanks hbreak) with ⟨c, rest, hcons⟩
      rw [hcons] at hall
      have hnext := ih (advance_tails hr hthreads before' (some '\n') '\n') hsame
      have hlonger : Agree (LinePart.ended blanks ending :: parts) _ _ := hnext.cons
      rw [sources_cons, outputs_cons, output_break hbreak, source, hcons]
      rw [run_lineEnd hr hthreads hall, List.singleton_append, run_cons, hheads]
      rw [output_break hbreak, source, hcons] at hlonger
      exact hlonger.orStop _
  | @last blanks hne hblanks =>
      have hheads : threads.flatMap (heads before (some '\n')) =
          threads.flatMap (heads before' none) := by
        refine List.flatMap_congr fun thread hthread => heads_congr hbefore ?_ (Or.inl ?_)
        · rw [not_isWordAt_blank rfl]
          rfl
        · exact endless_of_squeezes hr hthreads hthread
      have hall : forall d, d ∈ blanks -> Text.isBlank d = true := fun d hd => (hblanks d hd).1
      rcases List.exists_cons_of_ne_nil hne with ⟨c, rest, rfl⟩
      have hfeed : Text.isBlank '\n' = true := rfl
      have hstuck := run_settled_nil (some ' ')
        (advance_settles_of_blank hr hthreads before (some '\n') hfeed)
      change Agree _ (run before threads (c :: rest ++ [] ++ [])) (run before' threads [])
      rw [List.append_assoc, run_lineEnd hr hthreads hall, List.append_nil, hstuck, hheads]
      exact (Agree.neither _).orStop _

theorem matchLength?_agrees {r : Regex} (hr : squeezes r = true) {parts : List LinePart}
    (hparts : Regular parts) :
    Agree parts (r.matchLength? (sources parts)) (r.matchLength? (outputs parts)) := by
  refine run_agrees hr hparts ?_ rfl
  intro thread hthread
  rw [List.mem_singleton.mp hthread]
  exact List.mem_cons_self

end Regex
end SqlLayout
