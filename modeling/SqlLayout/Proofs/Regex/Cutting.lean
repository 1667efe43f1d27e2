import Mathlib.Data.List.Basic
import SqlLayout.Proofs.Regex.Derivatives

/-!
# Matches in a text that is cut off

A text is cut off at some place.  A match in front of the cut is found again,
unless an expression looks over the cut: for the end of the text, or for a boundary
of words right there.  What a match ends with, and what it holds at all, is told by
the sets of the expression.
-/

namespace SqlLayout
namespace Regex

variable {before : Option Char} {r : Regex} {c : Char} {u : Text}

/-!
# Characters of a match
-/

def lastSets : Regex -> List CharSet
  | .empty => []
  | .chars set => [set]
  | .seq a b => lastSets b ++ if mayBeEmpty b then lastSets a else []
  | .alt a b => lastSets a ++ lastSets b
  | .star a => lastSets a
  | .lazyStar a => lastSets a
  | .wordBoundary => []
  | .textEnd => []

def sets : Regex -> List CharSet
  | .empty => []
  | .chars set => [set]
  | .seq a b => sets a ++ sets b
  | .alt a b => sets a ++ sets b
  | .star a => sets a
  | .lazyStar a => sets a
  | .wordBoundary => []
  | .textEnd => []

def lacks (c : Char) (r : Regex) : Bool :=
  r.sets.all fun set => !set.has c

def endsSolid (r : Regex) : Bool :=
  r.lastSets.all CharSet.skipsBlanks

theorem last_append {u v : Text} (h : (u ++ v).getLast? = some c) :
    v.getLast? = some c ∨ v = [] ∧ u.getLast? = some c := by
  rw [List.getLast?_append] at h
  cases hv : v.getLast? with
  | some d =>
      rw [hv] at h
      exact Or.inl h
  | none =>
      rw [hv] at h
      exact Or.inr ⟨List.getLast?_eq_none_iff.mp hv, h⟩

theorem Spells.last (h : Spells r u) (hlast : u.getLast? = some c) :
    exists set, set ∈ r.lastSets ∧ set.has c = true := by
  induction h with
  | @chars set _ hset =>
      cases hlast
      exact ⟨set, List.mem_singleton_self set, hset⟩
  | seq _ hb iha ihb =>
      unfold lastSets
      rcases last_append hlast with hv | ⟨rfl, hu⟩
      · rcases ihb hv with ⟨set, hmem, hset⟩
        exact ⟨set, List.mem_append_left _ hmem, hset⟩
      · rcases iha hu with ⟨set, hmem, hset⟩
        rw [if_pos hb.mayBeEmpty]
        exact ⟨set, List.mem_append_right _ hmem, hset⟩
  | left _ ih =>
      rcases ih hlast with ⟨set, hmem, hset⟩
      exact ⟨set, List.mem_append_left _ hmem, hset⟩
  | right _ ih =>
      rcases ih hlast with ⟨set, hmem, hset⟩
      exact ⟨set, List.mem_append_right _ hmem, hset⟩
  | starCons _ _ iha ihb =>
      rcases last_append hlast with hv | ⟨_, hu⟩
      · exact ihb hv
      · exact iha hu
  | lazyCons _ _ iha ihb =>
      rcases last_append hlast with hv | ⟨_, hu⟩
      · exact ihb hv
      · exact iha hu
  | empty => cases hlast
  | starNil => cases hlast
  | lazyNil => cases hlast
  | wordBoundary => cases hlast
  | textEnd => cases hlast

theorem Spells.exists_set (h : Spells r u) (hc : c ∈ u) :
    exists set, set ∈ r.sets ∧ set.has c = true := by
  induction h with
  | @chars set _ hset =>
      rw [List.mem_singleton.mp hc]
      exact ⟨set, List.mem_singleton_self set, hset⟩
  | seq _ _ iha ihb =>
      rcases List.mem_append.mp hc with hleft | hright
      · rcases iha hleft with ⟨set, hmem, hset⟩
        exact ⟨set, List.mem_append_left _ hmem, hset⟩
      · rcases ihb hright with ⟨set, hmem, hset⟩
        exact ⟨set, List.mem_append_right _ hmem, hset⟩
  | left _ ih =>
      rcases ih hc with ⟨set, hmem, hset⟩
      exact ⟨set, List.mem_append_left _ hmem, hset⟩
  | right _ ih =>
      rcases ih hc with ⟨set, hmem, hset⟩
      exact ⟨set, List.mem_append_right _ hmem, hset⟩
  | starCons _ _ iha ihb =>
      exact (List.mem_append.mp hc).elim iha ihb
  | lazyCons _ _ iha ihb =>
      exact (List.mem_append.mp hc).elim iha ihb
  | empty => cases hc
  | starNil => cases hc
  | lazyNil => cases hc
  | wordBoundary => cases hc
  | textEnd => cases hc

theorem Spells.not_mem (h : Spells r u) (hr : r.lacks c = true) : c ∉ u := by
  intro hc
  rcases h.exists_set hc with ⟨set, hmem, hset⟩
  have hnot := List.all_eq_true.mp hr set hmem
  rw [hset] at hnot
  cases hnot

theorem Spells.last_solid (h : Spells r u) (hr : r.endsSolid = true)
    (hlast : u.getLast? = some c) : Text.isBlank c = false := by
  rcases h.last hlast with ⟨set, hmem, hset⟩
  rw [← Bool.not_eq_true]
  intro hblank
  rw [CharSet.not_has_of_skipsBlanks (List.all_eq_true.mp hr set hmem) hblank] at hset
  cases hset

/-!
# Looking over a cut
-/

def steady : Regex -> Bool
  | .empty => true
  | .chars _ => true
  | .seq a b => steady a && (!mayBeEmpty a || steady b)
  | .alt a b => steady a && steady b
  | .star a => steady a
  | .lazyStar a => steady a
  | .wordBoundary => false
  | .textEnd => false

theorem heads_of_steady (h : steady r = true) (after after' : Option Char) :
    heads before after r = heads before after' r := by
  induction r with
  | empty => rfl
  | chars set => rfl
  | seq a b iha ihb =>
      rcases Bool.and_eq_true_iff.mp h with ⟨ha, hb⟩
      unfold heads
      rw [iha ha]
      apply List.flatMap_congr
      intro head hhead
      cases head with
      | read set rest =>
          rfl
      | done =>
          rw [(spells_of_done hhead).mayBeEmpty, Bool.not_true, Bool.false_or] at hb
          exact ihb hb
  | alt a b iha ihb =>
      rcases Bool.and_eq_true_iff.mp h with ⟨ha, hb⟩
      unfold heads
      rw [iha ha, ihb hb]
  | star a iha =>
      unfold heads
      rw [iha h]
  | lazyStar a iha =>
      unfold heads
      rw [iha h]
  | wordBoundary => cases h
  | textEnd => cases h

/-- An expression that does not ask for the end of the text, nor for a boundary
behind a semicolon. -/
def cuttable (r : Regex) : Bool :=
  (r :: tails r).all fun rest =>
    endless rest && (ways rest).all fun way => !way.1.has ';' || steady way.2

def UpTo (limit : Nat) (whole part : Option Nat) : Prop :=
  whole = none ∧ part = none ∨ exists n, whole = some n ∧ (n <= limit -> part = some n)

theorem UpTo.succ {limit : Nat} {whole part : Option Nat} (h : UpTo limit whole part) :
    UpTo (limit + 1) (whole.map (· + 1)) (part.map (· + 1)) := by
  rcases h with ⟨rfl, rfl⟩ | ⟨n, rfl, hpart⟩
  · exact Or.inl ⟨rfl, rfl⟩
  · refine Or.inr ⟨n + 1, rfl, ?_⟩
    intro hle
    rw [hpart (Nat.le_of_succ_le_succ hle)]
    rfl

theorem UpTo.orStop {limit : Nat} {whole part : Option Nat} (h : UpTo limit whole part)
    (isDone : Bool) :
    UpTo limit (whole.or (if isDone then some 0 else none))
      (part.or (if isDone then some 0 else none)) := by
  rcases h with ⟨rfl, rfl⟩ | ⟨n, rfl, hpart⟩
  · cases isDone with
    | false =>
        exact Or.inl ⟨rfl, rfl⟩
    | true =>
        exact Or.inr ⟨0, rfl, fun _ => rfl⟩
  · refine Or.inr ⟨n, rfl, ?_⟩
    intro hle
    rw [hpart hle]
    rfl

theorem run_at_cut {threads : List Regex} {behind : Text}
    (h : threads.flatMap (heads before behind.head?) = threads.flatMap (heads before none)) :
    UpTo 0 (run before threads behind) (run before threads []) := by
  cases behind with
  | nil =>
      cases hrun : run before threads [] with
      | none =>
          exact Or.inl ⟨rfl, rfl⟩
      | some n =>
          exact Or.inr ⟨n, rfl, fun _ => rfl⟩
  | cons c rest =>
      rw [List.head?_cons] at h
      have hpart : run before threads [] =
          if (cut (threads.flatMap (heads before (some c)))).2 then some 0 else none := by
        rw [h]
        rfl
      rw [run_cons, hpart]
      cases run (some c) (advance c (cut (threads.flatMap (heads before (some c)))).1) rest with
      | none =>
          cases (cut (threads.flatMap (heads before (some c)))).2 with
          | false =>
              exact Or.inl ⟨rfl, rfl⟩
          | true =>
              exact Or.inr ⟨0, rfl, fun _ => rfl⟩
      | some n =>
          exact Or.inr ⟨n + 1, rfl, fun hle => absurd hle (Nat.not_succ_le_zero n)⟩

theorem mem_tails_of_advance {threads : List Regex} {after : Option Char} {rest : Regex}
    (hthreads : forall thread, thread ∈ threads -> thread ∈ r :: tails r)
    (h : rest ∈ advance c (cut (threads.flatMap (heads before after))).1) :
    rest ∈ tails r ∧
      exists thread set, thread ∈ r :: tails r ∧ (set, rest) ∈ ways thread ∧ set.has c = true := by
  rcases mem_of_advance h with ⟨set, hway, hset⟩
  rcases List.mem_flatMap.mp (mem_of_cut hway) with ⟨thread, hthread, hhead⟩
  have hmem := hthreads thread hthread
  have hways := mem_ways_of_heads hhead
  refine ⟨?_, thread, set, hmem, hways, hset⟩
  rcases List.mem_cons.mp hmem with rfl | htail
  · exact mem_tails_of_ways hways
  · exact tails_closed htail hways

/-- A match in front of a cut is found in the text that ends there.  No word may
start behind the cut, unless a semicolon stands before it. -/
theorem run_cut (hr : cuttable r = true) {threads : List Regex} {front behind : Text}
    (hthreads : forall thread, thread ∈ threads -> thread ∈ r :: tails r)
    (hside : isWordAt behind.head? = false ∨ front.getLast? = some ';' ∨
      front = [] ∧ forall thread, thread ∈ threads -> steady thread = true) :
    UpTo front.length (run before threads (front ++ behind)) (run before threads front) := by
  induction front generalizing before threads with
  | nil =>
      apply run_at_cut
      apply List.flatMap_congr
      intro thread hthread
      rcases hside with hside | hlast | ⟨_, hsteady⟩
      · have hendless := List.all_eq_true.mp hr thread (hthreads thread hthread)
        exact heads_congr rfl hside (Or.inl (Bool.and_eq_true_iff.mp hendless).1)
      · cases hlast
      · exact heads_of_steady (hsteady thread hthread) _ _
  | cons c front ih =>
      rw [List.cons_append, run_cons, run_cons]
      refine UpTo.orStop (UpTo.succ (ih ?_ ?_)) _
      · intro rest hrest
        exact List.mem_cons_of_mem _ (mem_tails_of_advance hthreads hrest).1
      · rcases hside with hside | hlast | ⟨hnil, _⟩
        · exact Or.inl hside
        · cases front with
          | cons d front =>
              rw [List.getLast?_cons_cons] at hlast
              exact Or.inr (Or.inl hlast)
          | nil =>
              have hc : c = ';' := Option.some.inj hlast
              subst hc
              refine Or.inr (Or.inr ⟨rfl, ?_⟩)
              intro rest hrest
              rcases (mem_tails_of_advance hthreads hrest).2 with ⟨thread, set, hthread, hway, hset⟩
              have hways := (Bool.and_eq_true_iff.mp (List.all_eq_true.mp hr thread hthread)).2
              have hsteady := List.all_eq_true.mp hways _ hway
              rw [hset, Bool.not_true, Bool.false_or] at hsteady
              exact hsteady
        · cases hnil

theorem matchLength?_cut (hr : cuttable r = true) {front behind : Text}
    (hside : isWordAt behind.head? = false ∨ front.getLast? = some ';') :
    UpTo front.length (r.matchLength? (front ++ behind)) (r.matchLength? front) := by
  apply run_cut hr
  · intro thread hthread
    rw [List.mem_singleton.mp hthread]
    exact List.mem_cons_self
  · rcases hside with hside | hlast
    · exact Or.inl hside
    · exact Or.inr (Or.inl hlast)

/-!
# Texts at the start
-/

theorem Spells.exists_of_oneOf {rs : List Regex} (h : Spells (oneOf rs) u) :
    exists r, r ∈ rs ∧ Spells r u := by
  induction rs with
  | nil =>
      rcases spells_chars h with ⟨_, _, hset⟩
      cases hset
  | cons first rest ih =>
      cases rest with
      | nil =>
          exact ⟨first, List.mem_singleton_self first, h⟩
      | cons second rest =>
          rcases spells_alt h with hfirst | hrest
          · exact ⟨first, List.mem_cons_self, hfirst⟩
          · rcases ih hrest with ⟨r, hmem, hspells⟩
            exact ⟨r, List.mem_cons_of_mem _ hmem, hspells⟩

theorem Spells.eq_char (h : Spells (char c) u) (hc : c.isAlpha = false) : u = [c] := by
  unfold char at h
  rw [if_neg (ne_true_of_eq_false hc)] at h
  rcases spells_chars h with ⟨d, rfl, hset⟩
  have hd : d = c := by
    simpa [CharSet.has] using hset
  rw [hd]

theorem Spells.eq_chars {cs : Text} (h : Spells (sequence (cs.map char)) u)
    (hcs : (cs.all fun c => !c.isAlpha) = true) : u = cs := by
  induction cs generalizing u with
  | nil =>
      cases h
      rfl
  | cons c cs ih =>
      rcases Bool.and_eq_true_iff.mp hcs with ⟨hc, hrest⟩
      rw [Bool.not_eq_true'] at hc
      cases cs with
      | nil =>
          exact h.eq_char hc
      | cons d cs =>
          cases h with
          | seq hfirst hsecond =>
              rw [hfirst.eq_char hc, ih hsecond hrest]
              rfl

def follow (before : Option Char) (threads : List Regex) : Text -> Option (List Regex)
  | [] => some threads
  | c :: rest =>
      let (ways, isDone) := cut (threads.flatMap (heads before (some c)))
      if isDone then none else follow (some c) (advance c ways) rest

/-- If the threads that are left find a match whatever stands before, it is the
match of the threads at the start. -/
theorem run_of_follow {threads next : List Regex} {front behind : Text} {n : Nat}
    (h : follow before threads front = some next)
    (hnext : forall last, run last next behind = some n) :
    run before threads (front ++ behind) = some (front.length + n) := by
  induction front generalizing before threads with
  | nil =>
      cases h
      rw [List.nil_append, hnext before, List.length_nil, Nat.zero_add]
  | cons c front ih =>
      unfold follow at h
      dsimp only at h
      split at h
      · cases h
      · rw [List.cons_append, run_cons, ih h, List.length_cons, Nat.add_right_comm]
        rfl

end Regex
end SqlLayout
