import SqlLayout.Proofs.Lexer.Squeezing

/-!
# Line comments in a text and in its final form

A line comment goes up to the first break.  It is the only kind of token for
which the blanks before a break count, and it takes them all.
-/

namespace SqlLayout
namespace Rule

open Regex LinePart

def lineRest : Regex :=
  seq (lazyStar (chars (.noneOf ['\n'])))
    (oneOf [text "\r\n", text "\r", text "\n", textEnd])

def lineWays : List (CharSet × Regex) :=
  [(.oneOf ['\r'], chars (.oneOf ['\n'])), (.oneOf ['\r'], .empty), (.oneOf ['\n'], .empty),
   (.noneOf ['\n'], lineRest)]

/-- The number of characters up to the end of the line, the break included. -/
def lineLength : Text -> Nat
  | [] => 0
  | c :: rest =>
      if c = '\n' then 1
      else if c = '\r' then if rest.head? = some '\n' then 2 else 1
      else lineLength rest + 1

theorem cut_lineRest (before : Option Char) (c : Char) :
    cut ([lineRest].flatMap (heads before (some c))) = (lineWays, false) := rfl

theorem run_afterReturn (line : Text) :
    run (some '\r') [chars (.oneOf ['\n']), .empty, lineRest] line =
      some (if line.head? = some '\n' then 1 else 0) := by
  cases line with
  | nil =>
      rfl
  | cons c rest =>
      have hcut : cut ([chars (.oneOf ['\n']), .empty, lineRest].flatMap
          (heads (some '\r') (some c))) = ([(.oneOf ['\n'], .empty)], true) := rfl
      rw [run_cons, hcut, List.head?_cons]
      by_cases hfeed : c = '\n'
      · have hadvance : advance c [(CharSet.oneOf ['\n'], Regex.empty)] = [.empty] := by
          rw [hfeed]
          rfl
        rw [hadvance, run_empty, hfeed]
        rfl
      · have hadvance : advance c [(CharSet.oneOf ['\n'], Regex.empty)] = [] := by
          simp [advance, CharSet.has, hfeed]
        rw [hadvance, run_nil, if_neg fun heq => hfeed (Option.some.inj heq)]
        rfl

theorem run_lineRest (before : Option Char) (line : Text) :
    run before [lineRest] line = some (lineLength line) := by
  induction line generalizing before with
  | nil =>
      rfl
  | cons c rest ih =>
      rw [run_cons, cut_lineRest]
      unfold lineLength
      by_cases hfeed : c = '\n'
      · have hadvance : advance c lineWays = [.empty] := by
          rw [hfeed]
          decide
        rw [if_pos hfeed, hadvance, run_empty]
        rfl
      · rw [if_neg hfeed]
        by_cases hreturn : c = '\r'
        · have hadvance : advance c lineWays = [chars (.oneOf ['\n']), .empty, lineRest] := by
            rw [hreturn]
            decide
          rw [if_pos hreturn, hadvance, hreturn, run_afterReturn]
          split
          · rfl
          · rfl
        · have hadvance : advance c lineWays = [lineRest] := by
            simp [lineWays, advance, CharSet.has, hfeed, hreturn]
          rw [if_neg hreturn, hadvance, ih]
          rfl

/-!
# Agreement
-/

theorem lineLength_append {blanks : Text} (h : Trailing blanks) (rest : Text) :
    lineLength (blanks ++ rest) = blanks.length + lineLength rest := by
  induction blanks with
  | nil =>
      rw [List.nil_append, List.length_nil, Nat.zero_add]
  | cons c blanks ih =>
      have hinner := (h c List.mem_cons_self).2
      unfold Lines.isInner at hinner
      rw [Bool.and_eq_true, bne_iff_ne, bne_iff_ne] at hinner
      rw [List.cons_append, lineLength, if_neg hinner.2, if_neg hinner.1,
        ih fun d hd => h d (List.mem_cons_of_mem _ hd), List.length_cons]
      omega

theorem lineLength_break {ending rest : Text} (h : Lines.isBreak ending = true)
    (hreturn : ending = ['\r'] -> rest.head? ≠ some '\n') :
    lineLength (ending ++ rest) = ending.length := by
  unfold Lines.isBreak at h
  simp only [Bool.or_eq_true, beq_iff_eq] at h
  rcases h with (rfl | rfl) | rfl
  · rfl
  · rw [List.singleton_append, lineLength, if_neg (by decide), if_pos rfl, if_neg (hreturn rfl)]
    rfl
  · rfl

theorem lineLength_agrees {parts : List LinePart} (h : Regular parts) :
    Agree parts (some (lineLength (sources parts))) (some (lineLength (outputs parts))) := by
  induction h with
  | nil =>
      exact Agree.zero []
  | @kept c parts hkept _ ih =>
      change Agree _ (some (lineLength (c :: sources parts)))
        (some (lineLength (c :: outputs parts)))
      unfold lineLength
      by_cases hfeed : c = '\n'
      · rw [if_pos hfeed, if_pos hfeed]
        exact Or.inr ⟨[kept c], parts, rfl, rfl, rfl⟩
      · rw [if_neg hfeed, if_neg hfeed]
        by_cases hreturn : c = '\r'
        · rw [if_pos hreturn, if_pos hreturn]
          rcases exists_of_startsKept (hkept hreturn) with ⟨d, rest, rfl⟩
          change Agree _ (some (if some d = some '\n' then 2 else 1))
            (some (if some d = some '\n' then 2 else 1))
          split
          · exact Or.inr ⟨[kept c, kept d], rest, rfl, rfl, rfl⟩
          · exact Or.inr ⟨[kept c], kept d :: rest, rfl, rfl, rfl⟩
        · rw [if_neg hreturn, if_neg hreturn]
          exact ih.cons
  | @ended blanks ending parts hblanks hbreak hreturn _ _ =>
      refine Or.inr ⟨[ended blanks ending], parts, rfl, ?_, ?_⟩
      · rw [sources_cons, source, List.append_assoc, lineLength_append hblanks,
          lineLength_break hbreak hreturn]
        simp [source]
      · rw [outputs_cons, output_break hbreak]
        simp [output_break hbreak, lineLength]
  | @last blanks _ hblanks =>
      refine Or.inr ⟨[ended blanks []], [], rfl, ?_, rfl⟩
      rw [sources_cons, source, List.append_assoc, lineLength_append hblanks]
      simp [lineLength]

/-- An expression that goes on in one way only, which reads a character. -/
def Reads (r : Regex) (set : CharSet) (next : Regex) : Prop :=
  forall before after, heads before after r = [.read set next]

theorem Reads.run_nil {r next : Regex} {set : CharSet} (h : Reads r set next)
    (before : Option Char) : run before [r] [] = none := by
  unfold run
  rw [List.flatMap_singleton, h before none]
  rfl

theorem Reads.run_cons {r next : Regex} {set : CharSet} (h : Reads r set next)
    (before : Option Char) (c : Char) (rest : Text) :
    run before [r] (c :: rest) =
      if set.has c then (run (some c) [next] rest).map (· + 1) else none := by
  have hcut : cut ([r].flatMap (heads before (some c))) = ([(set, next)], false) := by
    rw [List.flatMap_singleton, h before (some c)]
    rfl
  rw [Regex.run_cons, hcut]
  cases hset : set.has c with
  | true =>
      have hadvance : advance c [(set, next)] = [next] := by
        simp [advance, hset]
      rw [hadvance, if_pos rfl]
      exact Option.or_none
  | false =>
      have hadvance : advance c [(set, next)] = [] := by
        simp [advance, hset]
      rw [hadvance, Regex.run_nil]
      rfl

def Follows (r : Regex) : Prop :=
  forall parts, Regular parts -> forall before before',
    Agree parts (run before [r] (sources parts)) (run before' [r] (outputs parts))

theorem lineRest_follows : Follows lineRest := by
  intro parts hparts before before'
  rw [run_lineRest, run_lineRest]
  exact lineLength_agrees hparts

theorem Reads.agrees {r next : Regex} {set : CharSet} (h : Reads r set next)
    (hnext : Follows next) (hfeed : set.has '\n' = false) {parts : List LinePart}
    (hparts : Regular parts)
    (hended : forall c, startsKept parts = false -> (sources parts).head? = some c ->
      set.has c = false)
    (before before' : Option Char) :
    Agree parts (run before [r] (sources parts)) (run before' [r] (outputs parts)) := by
  have hnone : startsKept parts = false -> run before [r] (sources parts) = none := by
    intro hstarts
    cases hsources : sources parts with
    | nil =>
        exact h.run_nil before
    | cons c rest =>
        rw [h.run_cons, hended c hstarts (by rw [hsources]; rfl)]
        rfl
  cases hparts with
  | nil =>
      rw [sources_nil, outputs_nil, h.run_nil, h.run_nil]
      exact Agree.neither []
  | @kept c parts _ hrest =>
      change Agree _ (run before [r] (c :: sources parts)) (run before' [r] (c :: outputs parts))
      rw [h.run_cons, h.run_cons]
      split
      · exact (hnext parts hrest (some c) (some c)).cons
      · exact Agree.neither _
  | @ended blanks ending parts _ hbreak _ _ =>
      rw [hnone rfl, outputs_cons, output_break hbreak, List.singleton_append, h.run_cons, hfeed]
      exact Agree.neither _
  | last _ _ =>
      rw [hnone rfl]
      change Agree _ none (run before' [r] [])
      rw [h.run_nil]
      exact Agree.neither _

theorem Reads.follows {r next : Regex} {set : CharSet} (h : Reads r set next)
    (hnext : Follows next) (hskips : set.skipsBlanks = true) : Follows r := by
  intro parts hparts before before'
  refine h.agrees hnext (CharSet.not_has_of_skipsBlanks hskips rfl) hparts ?_ before before'
  intro c hstarts hhead
  exact CharSet.not_has_of_skipsBlanks hskips (blank_head hparts hstarts hhead)

/-!
# Openings

The opening `# ` ends with a blank.  Where that blank belongs to a line end, the
comment is gone in the final text; it held nothing but blanks.
-/

def EmptyComment (parts : List LinePart) : Prop :=
  exists blanks ending rest, parts = kept '#' :: ended (' ' :: blanks) ending :: rest

theorem exists_of_space_head {parts : List LinePart} (h : Regular parts)
    (hstarts : startsKept parts = false) (hhead : (sources parts).head? = some ' ') :
    exists blanks ending rest, parts = ended (' ' :: blanks) ending :: rest := by
  cases h with
  | nil =>
      cases hhead
  | kept _ _ =>
      cases hstarts
  | @ended blanks ending parts _ hbreak _ _ =>
      cases blanks with
      | nil =>
          unfold Lines.isBreak at hbreak
          simp only [Bool.or_eq_true, beq_iff_eq] at hbreak
          rcases hbreak with (rfl | rfl) | rfl
          · cases hhead
          · cases hhead
          · cases hhead
      | cons c blanks =>
          cases hhead
          exact ⟨blanks, ending, parts, rfl⟩
  | @last blanks hne _ =>
      cases blanks with
      | nil =>
          exact absurd rfl hne
      | cons c blanks =>
          cases hhead
          exact ⟨blanks, [], [], rfl⟩

/-- The ways on at the opening of a line comment. -/
structure Opens (r next : Regex) where
  dash : Regex
  hash : Regex
  cut_eq : forall c, cut ([r].flatMap (heads none (some c))) =
    ([(.oneOf ['-'], dash), (.oneOf ['#'], hash)], false)
  dash_reads : Reads dash (.oneOf ['-']) next
  hash_reads : Reads hash (.oneOf [' ']) next

def lineOpening : Regex := oneOfTexts ["--", "# "]

def opens_comment : Opens (lineFrom lineOpening) lineRest where
  dash := seq (chars (.oneOf ['-'])) lineRest
  hash := seq (chars (.oneOf [' '])) lineRest
  cut_eq := fun _ => rfl
  dash_reads := fun _ _ => rfl
  hash_reads := fun _ _ => rfl

def opens_hint :
    Opens (lineFrom (lineOpening ++ text "+")) (seq (chars (.oneOf ['+'])) lineRest) where
  dash := seq (seq (chars (.oneOf ['-'])) (chars (.oneOf ['+']))) lineRest
  hash := seq (seq (chars (.oneOf [' '])) (chars (.oneOf ['+']))) lineRest
  cut_eq := fun _ => rfl
  dash_reads := fun _ _ => rfl
  hash_reads := fun _ _ => rfl

theorem hint_follows : Follows (seq (chars (.oneOf ['+'])) lineRest) := by
  have hreads : Reads (seq (chars (.oneOf ['+'])) lineRest) (.oneOf ['+']) lineRest :=
    fun _ _ => rfl
  exact hreads.follows lineRest_follows rfl

theorem Opens.agrees {r next : Regex} (h : Opens r next) (hnext : Follows next) {c : Char}
    {parts : List LinePart} (hparts : Regular (kept c :: parts))
    (hcomment : ¬ EmptyComment (kept c :: parts)) :
    Agree (kept c :: parts) (r.matchLength? (sources (kept c :: parts)))
      (r.matchLength? (outputs (kept c :: parts))) := by
  cases hparts with
  | kept _ hparts =>
      change Agree _ (run none [r] (c :: sources parts)) (run none [r] (c :: outputs parts))
      rw [Regex.run_cons, Regex.run_cons, h.cut_eq]
      refine Agree.orStop ?_ false
      by_cases hdash : c = '-'
      · have hadvance : advance c [(CharSet.oneOf ['-'], h.dash), (.oneOf ['#'], h.hash)] =
            [h.dash] := by
          rw [hdash]
          rfl
        rw [hadvance]
        exact (h.dash_reads.follows hnext rfl parts hparts (some c) (some c)).cons
      · by_cases hhash : c = '#'
        · have hadvance : advance c [(CharSet.oneOf ['-'], h.dash), (.oneOf ['#'], h.hash)] =
              [h.hash] := by
            rw [hhash]
            rfl
          have hended : forall d, startsKept parts = false -> (sources parts).head? = some d ->
              (CharSet.oneOf [' ']).has d = false := by
            intro d hstarts hhead
            cases hspace : (CharSet.oneOf [' ']).has d with
            | false =>
                rfl
            | true =>
                have heq : d = ' ' := by
                  simpa [CharSet.has] using hspace
                rw [heq] at hhead
                rcases exists_of_space_head hparts hstarts hhead with ⟨blanks, ending, rest, rfl⟩
                exact absurd ⟨blanks, ending, rest, by rw [hhash]⟩ hcomment
          rw [hadvance]
          exact (h.hash_reads.agrees hnext rfl hparts hended (some c) (some c)).cons
        · have hadvance : advance c [(CharSet.oneOf ['-'], h.dash), (.oneOf ['#'], h.hash)] =
              [] := by
            simp [advance, CharSet.has, hdash, hhash]
          rw [hadvance, Regex.run_nil, Regex.run_nil]
          exact Agree.neither _

theorem lineLength_ended {c : Char} {blanks ending : Text} {rest : List LinePart}
    (h : Regular (ended (c :: blanks) ending :: rest)) :
    lineLength (blanks ++ (ending ++ sources rest)) = (blanks ++ ending).length := by
  cases h with
  | ended hblanks hbreak hreturn _ =>
      have htail : Trailing blanks := fun d hd => hblanks d (List.mem_cons_of_mem _ hd)
      rw [lineLength_append htail, lineLength_break hbreak hreturn, List.length_append]
  | last _ hblanks =>
      have htail : Trailing blanks := fun d hd => hblanks d (List.mem_cons_of_mem _ hd)
      rw [lineLength_append htail, List.length_append]
      rfl

theorem comment_of_emptyComment {blanks ending : Text} {rest : List LinePart}
    (h : Regular (ended (' ' :: blanks) ending :: rest)) :
    (lineFrom lineOpening).matchLength?
        (sources (kept '#' :: ended (' ' :: blanks) ending :: rest)) =
      some ((blanks ++ ending).length + 2) := by
  have hadvance : advance '#' [(CharSet.oneOf ['-'], opens_comment.dash),
      (.oneOf ['#'], opens_comment.hash)] = [opens_comment.hash] := rfl
  change run none [lineFrom lineOpening] ('#' :: ' ' :: ((blanks ++ ending) ++ sources rest)) = _
  rw [Regex.run_cons, opens_comment.cut_eq, hadvance, opens_comment.hash_reads.run_cons,
    run_lineRest, List.append_assoc, lineLength_ended h]
  rfl

theorem hint_of_emptyComment {blanks ending : Text} {rest : List LinePart}
    (h : Regular (ended (' ' :: blanks) ending :: rest)) :
    (lineFrom (lineOpening ++ text "+")).matchLength?
      (sources (kept '#' :: ended (' ' :: blanks) ending :: rest)) = none := by
  have hadvance : advance '#' [(CharSet.oneOf ['-'], opens_hint.dash),
      (.oneOf ['#'], opens_hint.hash)] = [opens_hint.hash] := rfl
  have hplus : Reads (seq (chars (.oneOf ['+'])) lineRest) (.oneOf ['+']) lineRest :=
    fun _ _ => rfl
  have hskips : (CharSet.oneOf ['+']).skipsBlanks = true := rfl
  have hnone : run (some ' ') [seq (chars (.oneOf ['+'])) lineRest]
      ((blanks ++ ending) ++ sources rest) = none := by
    cases hline : (blanks ++ ending) ++ sources rest with
    | nil =>
        exact hplus.run_nil (some ' ')
    | cons c line =>
        have hc : Text.isBlank c = true := by
          have hhead : ((blanks ++ ending) ++ sources rest).head? = some c := by
            rw [hline]
            rfl
          cases h with
          | ended hblanks hbreak _ _ =>
              have htail : Trailing blanks := fun d hd => hblanks d (List.mem_cons_of_mem _ hd)
              rw [List.head?_append_of_ne_nil _ (lineEnd_ne_nil blanks hbreak)] at hhead
              exact blank_of_lineEnd htail hbreak (List.mem_of_mem_head? hhead)
          | last _ hblanks =>
              rw [List.append_nil, sources_nil, List.append_nil] at hhead
              exact (hblanks c (List.mem_cons_of_mem _ (List.mem_of_mem_head? hhead))).1
        rw [hplus.run_cons, CharSet.not_has_of_skipsBlanks hskips hc]
        rfl
  change run none [lineFrom (lineOpening ++ text "+")]
    ('#' :: ' ' :: ((blanks ++ ending) ++ sources rest)) = none
  rw [Regex.run_cons, opens_hint.cut_eq, hadvance, opens_hint.hash_reads.run_cons, hnone]
  rfl

end Rule
end SqlLayout
