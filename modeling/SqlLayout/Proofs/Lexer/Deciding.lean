import SqlLayout.Proofs.Lexer.Cutting

/-!
# The rule that decides on a piece

The first rule that applies to a text is the first one that applies to a piece of it,
with the same match as long as it ends in the piece.  A match that goes beyond it, over
blanks, is a comment of a line and taken up to the end of the piece, unless the cut
went through the opening `# `.
-/

namespace SqlLayout
namespace Rule

open Regex Surroundings

section

variable {dialect : Dialect} {rules : List Rule} {before before' : Option Char}
  {front behind : Text} {n : Nat}

/-!
# The first rule on a piece
-/

/-- The rule that decides on a text, and on a piece of it as well if it finds a match
there. -/
structure Decides (rules : List Rule) (before before' : Option Char) (front behind : Text)
    (rule : Rule) (n : Nat) : Prop where
  mem : rule ∈ rules
  whole : rule.matchLength? before (front ++ behind) = some n
  first : first? rules before (front ++ behind) = some (rule.action, n)
  later : forall m, rule.matchLength? before' front = some m ->
    first? rules before' front = some (rule.action, m)
  within : n <= front.length -> rule.matchLength? before' front = some n

theorem first?_upTo
    (h : forall rule, rule ∈ rules ->
      UpTo front.length (rule.matchLength? before (front ++ behind))
        (rule.matchLength? before' front)) :
    first? rules before (front ++ behind) = none ∧ first? rules before' front = none ∨
      exists rule n, Decides rules before before' front behind rule n := by
  induction rules with
  | nil =>
      exact Or.inl ⟨rfl, rfl⟩
  | cons rule rules ih =>
      have hstep : forall {start : Option Char} {text : Text},
          rule.matchLength? start text = none ->
            first? (rule :: rules) start text = first? rules start text := by
        intro start text hnone
        unfold first?
        rw [List.findSome?_cons, hnone]
        rfl
      have hstop : forall {start : Option Char} {text : Text} {m : Nat},
          rule.matchLength? start text = some m ->
            first? (rule :: rules) start text = some (rule.action, m) := by
        intro start text m hsome
        unfold first?
        rw [List.findSome?_cons, hsome]
        rfl
      rcases h rule List.mem_cons_self with ⟨hwhole, hpart⟩ | ⟨n, hwhole, hpart⟩
      · rcases ih fun other hother => h other (List.mem_cons_of_mem _ hother) with
          ⟨hnone, hnone'⟩ | ⟨other, n, hdecides⟩
        · exact Or.inl ⟨by rw [hstep hwhole, hnone], by rw [hstep hpart, hnone']⟩
        · refine Or.inr ⟨other, n, List.mem_cons_of_mem _ hdecides.mem, hdecides.whole, ?_, ?_,
            hdecides.within⟩
          · rw [hstep hwhole, hdecides.first]
          · intro m hm
            rw [hstep hpart, hdecides.later m hm]
      · exact Or.inr ⟨rule, n, List.mem_cons_self, hwhole, hstop hwhole, fun m => hstop, hpart⟩

/-- The rules up to the marks have no conditions, and no later rule emits blanks or
line comments. -/
theorem exists_unguarded (dialect : Dialect) :
    exists early late, ofDialect dialect = early ++ late ∧
      (forall rule, rule ∈ early -> Blind rule.guard) ∧
      forall rule, rule ∈ late ->
        rule.action ≠ .emit .whitespace ∧ rule.action ≠ .emit .lineComment := by
  have hearly : forall openings, forall rule, rule ∈ comments openings ++ marks ->
      Blind rule.guard := by
    intro openings rule hrule
    simp only [comments, marks, plain, List.cons_append, List.nil_append, List.mem_cons,
      List.not_mem_nil, or_false] at hrule
    rcases hrule with rfl | rfl | rfl | rfl | rfl | rfl | rfl | rfl
    all_goals exact fun _ _ _ _ _ => rfl
  have hlate : forall {late : List Rule},
      (late.all fun rule =>
        rule.action != .emit .whitespace && rule.action != .emit .lineComment) = true ->
      forall rule, rule ∈ late ->
        rule.action ≠ .emit .whitespace ∧ rule.action ≠ .emit .lineComment := by
    intro late hall rule hrule
    have hactions := List.all_eq_true.mp hall rule hrule
    rw [Bool.and_eq_true, bne_iff_ne, bne_iff_ne] at hactions
    exact hactions
  cases dialect with
  | generic =>
      refine ⟨comments ["--", "# "] ++ marks,
        quotedNames ++ dollarQuotes ++ placeholders ++ specialNames ++ words, ?_, hearly _,
        hlate (by decide)⟩
      simp only [ofDialect, List.append_assoc]
  | postgresql =>
      refine ⟨comments ["--"] ++ marks, dollarQuotes ++ placeholders ++ words, ?_, hearly _,
        hlate (by decide)⟩
      simp only [ofDialect, List.append_assoc]
  | mysql =>
      refine ⟨comments ["--", "#"] ++ marks,
        quotedNames ++ placeholders ++ specialNames ++ words, ?_, hearly _,
        hlate (by decide)⟩
      simp only [ofDialect, List.append_assoc]

theorem first?_append_of_some {early late : List Rule} {text : Text} {found : Action × Nat}
    (h : first? early before text = some found) :
    first? (early ++ late) before text = some found := by
  unfold first? at h ⊢
  rw [List.findSome?_append, h, Option.some_or]

/-- One rule decides on a text and on the piece.  What stands behind the piece is not
looked at, or blanks or a line comment are read. -/
theorem first?_cut (hcut : CutOff front behind) (hbeside : Beside before before')
    (hseen : Unseen front behind ∨ exists category n,
      (category = .whitespace ∨ category = .lineComment) ∧
        first? (ofDialect dialect) before (front ++ behind) = some (.emit category, n)) :
    first? (ofDialect dialect) before (front ++ behind) = none ∧
        first? (ofDialect dialect) before' front = none ∨
      exists rule n, Decides (ofDialect dialect) before before' front behind rule n := by
  rcases hseen with hunseen | ⟨category, n, hcategory, hfirst⟩
  · exact first?_upTo fun rule hrule => matchLength?_upTo hrule hcut hbeside (Or.inr hunseen)
  · rcases exists_unguarded dialect with ⟨early, late, hrules, hblind, hlate⟩
    have hearly : first? early before (front ++ behind) = none ∧ first? early before' front = none ∨
        exists rule n, Decides early before before' front behind rule n := by
      apply first?_upTo
      intro rule hrule
      have hmem : rule ∈ ofDialect dialect := by
        rw [hrules]
        exact List.mem_append_left _ hrule
      exact matchLength?_upTo hmem hcut hbeside (Or.inl (hblind rule hrule))
    rcases hearly with ⟨hnone, _⟩ | ⟨rule, m, hdecides⟩
    · -- The rule that emits blanks or comments is not among the later ones.
      unfold first? at hfirst hnone
      rw [hrules, List.findSome?_append, hnone, Option.none_or] at hfirst
      rcases exists_of_first? hfirst with ⟨rule, hrule, haction, _⟩
      rcases hlate rule hrule with ⟨hwhitespace, hcomment⟩
      rcases hcategory with rfl | rfl
      · exact absurd haction hwhitespace
      · exact absurd haction hcomment
    · right
      rw [hrules]
      exact ⟨rule, m, List.mem_append_left _ hdecides.mem, hdecides.whole,
        first?_append_of_some hdecides.first,
        fun m hm => first?_append_of_some (hdecides.later m hm), hdecides.within⟩

/-!
# Matches that go beyond a piece
-/

theorem excess_ne_nil (hn : front.length < n) (hlength : n <= (front ++ behind).length) :
    behind.take (n - front.length) ≠ [] := by
  intro hnil
  have hshort := congrArg List.length hnil
  rw [List.length_append] at hlength
  rw [List.length_take, List.length_nil] at hshort
  omega

/-- A match that ends with no blank, or that has only blanks, stays within a piece
that only blanks are behind. -/
theorem within_of_endsSolid {regex : Regex} (hcut : CutOff front behind)
    (hends : regex.endsSolid = true ∨ regex = Regex.gap)
    (hspells : regex.Spells ((front ++ behind).take n)) (hlength : n <= (front ++ behind).length)
    (hblank : forall c, c ∈ behind.take (n - front.length) -> Text.isBlank c = true) :
    n <= front.length := by
  rw [← Nat.not_lt]
  intro hn
  have hexcess := excess_ne_nil hn hlength
  rw [List.take_append, List.take_of_length_le (Nat.le_of_lt hn)] at hspells
  rcases hends with hsolid | hgap
  · have hlast : (front ++ behind.take (n - front.length)).getLast? =
        some ((behind.take (n - front.length)).getLast hexcess) := by
      rw [List.getLast?_append, List.getLast?_eq_some_getLast hexcess, Option.some_or]
    have hcontra := hspells.last_solid hsolid hlast
    rw [hblank _ (List.getLast_mem hexcess)] at hcontra
    cases hcontra
  · rcases hcut.exists_last with ⟨c, _, hmem, hsolid⟩
    rw [hgap] at hspells
    have hcontra : Text.isBlank c = true :=
      hspells.all_plus_chars c (List.mem_append_left _ hmem)
    rw [hsolid] at hcontra
    cases hcontra

theorem exists_excess {opening : Text} (hstarts : opening <+: front ++ behind)
    (hlong : front.length < opening.length) (hle : opening.length <= n)
    (hblank : forall c, c ∈ behind.take (n - front.length) -> Text.isBlank c = true) :
    exists excess c, opening = front ++ excess ∧ excess.getLast? = some c ∧
      Text.isBlank c = true := by
  have hopening := List.prefix_iff_eq_take.mp hstarts
  rw [List.take_append, List.take_of_length_le (Nat.le_of_lt hlong)] at hopening
  have hexcess := excess_ne_nil hlong hstarts.length_le
  refine ⟨_, _, hopening, List.getLast?_eq_some_getLast hexcess, hblank _ ?_⟩
  exact (List.take_prefix_take_left (by omega)).subset (List.getLast_mem hexcess)

theorem opening_with_blank {opening : Text} {c : Char} (h : opening ∈ dialect.lineOpenings)
    (hlast : opening.getLast? = some c) (hc : Text.isBlank c = true) :
    dialect = .generic ∧ opening = ['#', ' '] := by
  have hopenings : dialect.lineOpenings.all (fun opening =>
      opening.getLast?.all (fun c => !Text.isBlank c) ||
        dialect == .generic && opening == ['#', ' ']) = true := by
    cases dialect with
    | generic => decide
    | postgresql => decide
    | mysql => decide
  have hopening := List.all_eq_true.mp hopenings opening h
  rw [hlast, Option.all_some, hc, Bool.not_true, Bool.false_or, Bool.and_eq_true, beq_iff_eq,
    beq_iff_eq] at hopening
  exact hopening

/-- A match that goes beyond the piece over blanks is a comment of a line.  It is found
in the piece up to its end, unless only the number sign of `# ` is left. -/
theorem Decides.beyond {rule : Rule}
    (h : Decides (ofDialect dialect) before before' front behind rule n)
    (hcut : CutOff front behind) (hbeside : Beside before before') (hn : front.length < n)
    (hblank : forall c, c ∈ behind.take (n - front.length) -> Text.isBlank c = true) :
    (rule.action = .emit .lineComment ∨ rule.action = .emit .lineHint) ∧
        first? (ofDialect dialect) before' front = some (rule.action, front.length) ∨
      dialect = .generic ∧ front = ['#'] ∧ rule.action = .emit .lineComment := by
  rcases spells_of_matchLength? h.whole with ⟨_, hlength, hspells⟩
  have hregex := regex_of_matchLength? h.whole
  have hpos := List.length_pos_iff.mpr hcut.ne_nil
  have hfound : rule.regex.matchLength? front = some (min n front.length) ->
      first? (ofDialect dialect) before' front = some (rule.action, front.length) := by
    intro hpart
    rw [Nat.min_eq_right (Nat.le_of_lt hn)] at hpart
    exact h.later _ (matchLength?_beyond h.mem hcut hbeside h.whole hn hpart hpos)
  rcases cuttable_cases h.mem with ⟨_, hends⟩ | ⟨hcomment, haction⟩ | ⟨hhint, haction⟩
  · exact absurd (within_of_endsSolid hcut hends hspells hlength hblank) (Nat.not_le_of_lt hn)
  · rw [hcomment] at hregex
    rcases (takesLine_comment dialect).cut hregex with hpart |
      ⟨opening, hopening, hstarts, hlong, hle⟩
    · rw [← hcomment] at hpart
      exact Or.inl ⟨Or.inl haction, hfound hpart⟩
    · right
      rcases exists_excess hstarts hlong hle hblank with ⟨excess, c, heq, hlast, hc⟩
      have hends : opening.getLast? = some c := by
        rw [heq, List.getLast?_append, hlast, Option.some_or]
      rcases opening_with_blank hopening hends hc with ⟨hgeneric, hhash⟩
      refine ⟨hgeneric, ?_, haction⟩
      rw [hhash] at heq hlong
      cases front with
      | nil =>
          exact absurd rfl hcut.ne_nil
      | cons d front =>
          rw [List.cons_append, List.cons.injEq] at heq
          have hlength : front.length < 1 := Nat.lt_of_succ_lt_succ hlong
          rw [List.eq_nil_of_length_eq_zero (Nat.lt_one_iff.mp hlength), heq.1]
  · rw [hhint] at hregex
    rcases (takesLine_hint dialect).cut hregex with hpart | ⟨opening, hopening, hstarts, hlong, hle⟩
    · rw [← hhint] at hpart
      exact Or.inl ⟨Or.inr haction, hfound hpart⟩
    · rcases exists_excess hstarts hlong hle hblank with ⟨excess, c, heq, hlast, hc⟩
      rcases List.mem_map.mp hopening with ⟨start, _, hstart⟩
      have hplus : opening.getLast? = some '+' := by
        rw [← hstart, List.getLast?_append]
        rfl
      rw [heq, List.getLast?_append, hlast, Option.some_or, Option.some.injEq] at hplus
      rw [hplus] at hc
      cases hc

theorem first?_hash (before : Option Char) :
    first? (ofDialect .generic) before ['#'] = some (.emit .operator, 1) := by
  rfl

end

end Rule

end SqlLayout
