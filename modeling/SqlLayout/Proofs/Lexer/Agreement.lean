import SqlLayout.Proofs.Lexer.LineComments
import SqlLayout.Proofs.Lexer.Marks

/-!
# The next token in a text and in its final form

At a character that is not a blank the lexer reads the same token from a text
and from its final form, up to the line ends inside of the token.
-/

namespace SqlLayout

open LinePart

/-!
# Neighbours
-/

def Bare (side : Option Char) : Prop :=
  forall c, side = some c -> Text.isBlank c = true

def SameSide (a b : Option Char) : Prop :=
  a = b ∨ Bare a ∧ Bare b

theorem SameSide.any_eq {a b : Option Char} (h : SameSide a b) {p : Char -> Bool}
    (hp : forall c, Text.isBlank c = true -> p c = false) : a.any p = b.any p := by
  rcases h with rfl | ⟨ha, hb⟩
  · rfl
  · have hbare : forall {side : Option Char}, Bare side -> side.any p = false := by
      intro side hside
      cases side with
      | none =>
          rfl
      | some c =>
          exact hp c (hside c rfl)
    rw [hbare ha, hbare hb]

theorem beq_some_eq_any (side : Option Char) (d : Char) :
    (side == some d) = side.any (· == d) := by
  cases side with
  | none =>
      rfl
  | some c =>
      rfl

theorem beq_false_of_blank {c d : Char} (hc : Text.isBlank c = true)
    (hd : Text.isBlank d = false) : (c == d) = false := by
  rw [beq_eq_false_iff_ne]
  rintro rfl
  rw [hc] at hd
  cases hd

theorem SameSide.beq_some {a b : Option Char} (h : SameSide a b) {d : Char}
    (hd : Text.isBlank d = false) : (a == some d) = (b == some d) := by
  rw [beq_some_eq_any, beq_some_eq_any]
  exact h.any_eq fun c hc => beq_false_of_blank hc hd

namespace Surroundings

/-- Surroundings of a match in a text and in its final form. -/
structure Alike (s t : Surroundings) : Prop where
  before : SameSide s.before t.before
  first : s.matched.head? = t.matched.head?
  after : SameSide s.after.head? t.after.head?
  later : s.after.trimStart.head? = t.after.trimStart.head?

def Respects (guard : Surroundings -> Bool) : Prop :=
  forall s t, Alike s t -> guard s = guard t

theorem beforeHas_eq (s : Surroundings) (p : Char -> Bool) : s.beforeHas p = s.before.any p := by
  unfold beforeHas
  cases s.before with
  | none =>
      rfl
  | some c =>
      rfl

theorem not_isNameChar_of_blank {c : Char} (hc : Text.isBlank c = true) :
    Text.isNameChar c = false := by
  unfold Text.isNameChar
  rw [Text.not_isLetter_of_blank hc]
  apply false_of_blank (p := fun d => if d.toNat < 128 then d.isAlphanum || d == '_'
    else false || Text.isNumeral d) _ hc
  decide

theorem not_endsOperand_of_blank {c d e : Char} (hc : Text.isBlank c = true)
    (hd : Text.isBlank d = false) (he : Text.isBlank e = false) :
    (Text.isNameChar c || c == d || c == e) = false := by
  rw [not_isNameChar_of_blank hc, beq_false_of_blank hc hd, beq_false_of_blank hc he]
  rfl

theorem not_runsOn_of_blank {c : Char} (hc : Text.isBlank c = true) :
    (Text.isLetter c || c == '_') = false := by
  rw [Text.not_isLetter_of_blank hc, beq_false_of_blank hc rfl]
  rfl

theorem respects_true : Respects fun _ => true :=
  fun _ _ _ => rfl

theorem respects_notAfterName : Respects notAfterName := by
  intro s t h
  unfold notAfterName
  rw [beforeHas_eq, beforeHas_eq, h.before.any_eq fun c => not_isNameChar_of_blank]

theorem respects_beforePeriod : Respects beforePeriod := by
  intro s t h
  unfold beforePeriod
  rw [h.later]

theorem respects_afterPeriod : Respects afterPeriod := by
  intro s t h
  exact h.before.beq_some rfl

theorem respects_beforeParenthesis : Respects beforeParenthesis := by
  intro s t h
  exact h.after.beq_some rfl

theorem respects_notIndexing : Respects notIndexing := by
  intro s t h
  unfold notIndexing
  rw [beforeHas_eq, beforeHas_eq, h.before.any_eq fun c hc => not_endsOperand_of_blank hc rfl rfl]

theorem numberStandsAlone_eq (s : Surroundings) :
    s.numberStandsAlone =
      (!(s.after.head?.any fun c => Text.isLetter c || c == '_') &&
        !(s.matched.head? == some '-' &&
          s.before.any fun c => Text.isNameChar c || c == ')' || c == ']')) := by
  unfold numberStandsAlone
  rw [beforeHas_eq]
  cases s.after.head? with
  | none =>
      rfl
  | some c =>
      rfl

theorem respects_numberStandsAlone : Respects numberStandsAlone := by
  intro s t h
  have hrunsOn : s.after.head?.any (fun c => Text.isLetter c || c == '_') =
      t.after.head?.any fun c => Text.isLetter c || c == '_' :=
    h.after.any_eq fun c => not_runsOn_of_blank
  have hsign : s.before.any (fun c => Text.isNameChar c || c == ')' || c == ']') =
      t.before.any fun c => Text.isNameChar c || c == ')' || c == ']' :=
    h.before.any_eq fun c hc => not_endsOperand_of_blank hc rfl rfl
  rw [numberStandsAlone_eq, numberStandsAlone_eq, hrunsOn, hsign, h.first]

end Surroundings

namespace Rule

open Surroundings

theorem guards_respect : forall rule, rule ∈ ofDialect .generic -> Respects rule.guard := by
  simp [ofDialect, comments, marks, quotedNames, dollarQuotes, placeholders, specialNames, words,
    numbers, strings, phrases, plain, guarded, respects_true, respects_notAfterName,
    respects_beforePeriod, respects_afterPeriod, respects_beforeParenthesis,
    respects_notIndexing, respects_numberStandsAlone]

theorem rules_squeeze :
    (ofDialect .generic).all (fun rule =>
      rule.regex.squeezes || rule.regex == Regex.gap || rule.regex == lineFrom lineOpening ||
        rule.regex == lineFrom (lineOpening ++ Regex.text "+")) = true := by
  decide +kernel

end Rule

namespace LinePart

theorem Regular.tail {part : LinePart} {parts : List LinePart} (h : Regular (part :: parts)) :
    Regular parts := by
  cases h with
  | kept _ hrest =>
      exact hrest
  | ended _ _ _ hrest =>
      exact hrest
  | last _ _ =>
      exact Regular.nil

theorem Regular.of_append {front back : List LinePart} (h : Regular (front ++ back)) :
    Regular back := by
  induction front with
  | nil =>
      exact h
  | cons part front ih =>
      exact ih h.tail

theorem bare_heads {parts : List LinePart} (h : Regular parts)
    (hstarts : startsKept parts = false) :
    Bare (sources parts).head? ∧ Bare (outputs parts).head? := by
  refine ⟨fun c hc => blank_head h hstarts hc, ?_⟩
  intro c hc
  cases parts with
  | nil =>
      cases hc
  | cons part rest =>
      cases part with
      | kept d =>
          cases hstarts
      | ended blanks ending =>
          rcases h.lineEnd with ⟨_, _, hfeed | ⟨hnone, rfl⟩⟩
          · rw [outputs_cons, hfeed] at hc
            cases hc
            rfl
          · rw [outputs_cons, hnone] at hc
            cases hc

theorem sameSide_heads {parts : List LinePart} (h : Regular parts) :
    SameSide (sources parts).head? (outputs parts).head? := by
  cases hstarts : startsKept parts with
  | true =>
      rcases exists_of_startsKept hstarts with ⟨c, rest, rfl⟩
      exact Or.inl rfl
  | false =>
      exact Or.inr (bare_heads h hstarts)

theorem trimStart_append {blanks : Text} (h : forall c, c ∈ blanks -> Text.isBlank c = true)
    (text : Text) : (blanks ++ text).trimStart = text.trimStart :=
  List.dropWhile_append_of_pos h

theorem trimStart_head {parts : List LinePart} (h : Regular parts) :
    (sources parts).trimStart.head? = (outputs parts).trimStart.head? := by
  induction h with
  | nil =>
      rfl
  | @kept c parts _ _ ih =>
      change (Text.trimStart (c :: sources parts)).head? =
        (Text.trimStart (c :: outputs parts)).head?
      unfold Text.trimStart
      cases hc : Text.isBlank c with
      | true =>
          rw [List.dropWhile_cons_of_pos hc, List.dropWhile_cons_of_pos hc]
          exact ih
      | false =>
          have hsolid : ¬ Text.isBlank c = true := by
            rw [hc]
            exact Bool.false_ne_true
          rw [List.dropWhile_cons_of_neg hsolid, List.dropWhile_cons_of_neg hsolid]
          rfl
  | @ended blanks ending parts hblanks hbreak _ _ ih =>
      rw [sources_cons, outputs_cons, source,
        trimStart_append fun c => blank_of_lineEnd hblanks hbreak,
        trimStart_append fun c => blank_of_output]
      exact ih
  | @last blanks _ hblanks =>
      rw [sources_cons, source, List.append_nil, trimStart_append fun c hc => (hblanks c hc).1]
      rfl

end LinePart

/-!
# Rules
-/

namespace Rule

open Surroundings

theorem matchLength?_none {rule : Rule} {text : Text} (h : rule.regex.matchLength? text = none)
    (before : Option Char) : rule.matchLength? before text = none := by
  unfold matchLength?
  rw [h]

theorem matchLength?_zero {rule : Rule} {text : Text} (h : rule.regex.matchLength? text = some 0)
    (before : Option Char) : rule.matchLength? before text = none := by
  unfold matchLength?
  rw [h]
  rfl

theorem matchLength?_some {rule : Rule} {matched after : Text}
    (h : rule.regex.matchLength? (matched ++ after) = some matched.length) (hne : matched ≠ [])
    (before : Option Char) :
    rule.matchLength? before (matched ++ after) =
      if rule.guard ⟨before, matched, after⟩ then some matched.length else none := by
  unfold matchLength?
  rw [h]
  cases hlength : matched.length with
  | zero =>
      exact absurd (List.eq_nil_of_length_eq_zero hlength) hne
  | succ n =>
      change (if rule.guard ⟨before, (matched ++ after).take (n + 1),
        (matched ++ after).drop (n + 1)⟩ then _ else _) = _
      rw [← hlength, List.take_left, List.drop_left]

section

variable {c : Char} {parts : List LinePart} (hc : Text.isBlank c = false)
  (hparts : Regular (kept c :: parts)) (hcomment : ¬ EmptyComment (kept c :: parts))
include hc hparts hcomment

theorem regex_agrees {rule : Rule} (hrule : rule ∈ ofDialect .generic) :
    Agree (kept c :: parts) (rule.regex.matchLength? (sources (kept c :: parts)))
      (rule.regex.matchLength? (outputs (kept c :: parts))) := by
  have hsqueeze := List.all_eq_true.mp rules_squeeze rule hrule
  simp only [Bool.or_eq_true, beq_iff_eq] at hsqueeze
  rcases hsqueeze with ((hsqueeze | hgap) | hline) | hhint
  · exact Regex.matchLength?_agrees hsqueeze hparts
  · have hreads : Reads Regex.gap .blank (.star (.chars .blank)) := fun _ _ => rfl
    have hnone : forall rest, Regex.gap.matchLength? (c :: rest) = none := by
      intro rest
      rw [Regex.matchLength?, hreads.run_cons]
      exact if_neg (by rw [show CharSet.blank.has c = false from hc]; exact Bool.false_ne_true)
    rw [hgap]
    change Agree _ (Regex.gap.matchLength? (c :: sources parts))
      (Regex.gap.matchLength? (c :: outputs parts))
    rw [hnone, hnone]
    exact Agree.neither _
  · rw [hline]
    exact opens_comment.agrees lineRest_follows hparts hcomment
  · rw [hhint]
    exact opens_hint.agrees hint_follows hparts hcomment

theorem matchLength?_agrees {rule : Rule} (hrule : rule ∈ ofDialect .generic)
    {before before' : Option Char} (hside : SameSide before before') :
    Agree (kept c :: parts) (rule.matchLength? before (sources (kept c :: parts)))
      (rule.matchLength? before' (outputs (kept c :: parts))) := by
  rcases regex_agrees hc hparts hcomment hrule with
    ⟨hnone, hnone'⟩ | ⟨front, back, heq, hsome, hsome'⟩
  · rw [matchLength?_none hnone, matchLength?_none hnone']
    exact Agree.neither _
  · cases front with
    | nil =>
        rw [matchLength?_zero hsome, matchLength?_zero hsome']
        exact Agree.neither _
    | cons part front =>
        rw [List.cons_append, List.cons.injEq] at heq
        rcases heq with ⟨rfl, rfl⟩
        have hback : Regular back := hparts.tail.of_append
        rw [← List.cons_append] at hsome hsome' ⊢
        rw [sources_append] at hsome ⊢
        rw [outputs_append] at hsome' ⊢
        rw [matchLength?_some hsome (List.cons_ne_nil _ _),
          matchLength?_some hsome' (List.cons_ne_nil _ _)]
        have hguard := guards_respect rule hrule
          ⟨before, sources (kept c :: front), sources back⟩
          ⟨before', outputs (kept c :: front), outputs back⟩
          ⟨hside, rfl, sameSide_heads hback, trimStart_head hback⟩
        rw [hguard]
        split
        · exact Or.inr ⟨kept c :: front, back, rfl, rfl, rfl⟩
        · exact Agree.neither _

theorem first?_agrees {rules : List Rule}
    (hrules : forall rule, rule ∈ rules -> rule ∈ ofDialect .generic)
    {before before' : Option Char} (hside : SameSide before before') :
    (first? rules before (sources (kept c :: parts)) = none ∧
      first? rules before' (outputs (kept c :: parts)) = none) ∨
    exists action front back, kept c :: parts = front ++ back ∧
      first? rules before (sources (kept c :: parts)) =
        some (action, (sources front).length) ∧
      first? rules before' (outputs (kept c :: parts)) =
        some (action, (outputs front).length) := by
  induction rules with
  | nil =>
      exact Or.inl ⟨rfl, rfl⟩
  | cons rule rules ih =>
      have hrest := ih fun other hother => hrules other (List.mem_cons_of_mem _ hother)
      have hfirst := matchLength?_agrees hc hparts hcomment (hrules rule List.mem_cons_self) hside
      unfold first? at hrest ⊢
      rw [List.findSome?_cons, List.findSome?_cons]
      rcases hfirst with ⟨hnone, hnone'⟩ | ⟨front, back, heq, hsome, hsome'⟩
      · rw [hnone, hnone']
        exact hrest
      · rw [hsome, hsome']
        exact Or.inr ⟨rule.action, front, back, heq, rfl, rfl⟩

end

theorem solid_rules :
    (ofDialect .generic).all (fun rule =>
      rule.action != .lookUp && !(rule.regex.firstSets.any fun set => set.has '$') ||
        rule.regex.blankless) = true := by
  decide

end Rule

theorem LinePart.outputs_eq_sources {front back : List LinePart} (h : Regular (front ++ back))
    (hsolid : forall c, c ∈ sources front -> Text.isBlank c = false) :
    outputs front = sources front := by
  induction front with
  | nil =>
      rfl
  | cons part front ih =>
      have hfront := ih h.tail fun c hc => hsolid c (List.mem_append_right _ hc)
      cases part with
      | kept c =>
          rw [outputs_cons, sources_cons, hfront]
          rfl
      | ended blanks ending =>
          rcases h.lineEnd with ⟨hne, hblank, _⟩
          rcases List.exists_mem_of_ne_nil _ hne with ⟨c, hc⟩
          have hcontra := hsolid c (List.mem_append_left _ hc)
          rw [hblank c hc] at hcontra
          cases hcontra

namespace Scan

variable {scan scan' : Scan} {c : Char} {parts : List LinePart}

theorem classify_of_none (h : Rule.first? (Rule.ofDialect .generic) scan.before scan.rest = none) :
    scan.classify .default = (.error, 1) :=
  classify_of_stuck h

theorem classify_of_emit {category : Category} {n : Nat}
    (h : Rule.first? (Rule.ofDialect .generic) scan.before scan.rest =
      some (.emit category, n)) :
    scan.classify .default = (category, n) := by
  have hfirst : Rule.first? (Rule.ofDialect LexerConfig.default.dialect) scan.before scan.rest =
      some (.emit category, n) := h
  exact classify_of_found hfirst

theorem classify_of_lookUp {n : Nat}
    (h : Rule.first? (Rule.ofDialect .generic) scan.before scan.rest = some (.lookUp, n)) :
    scan.classify .default =
      ((Vocabulary.ofDialect .generic).classify (scan.rest.take n), n) := by
  have hfirst : Rule.first? (Rule.ofDialect LexerConfig.default.dialect) scan.before scan.rest =
      some (.lookUp, n) := h
  exact classify_of_found hfirst

theorem classify_agrees (hc : Text.isBlank c = false) (hparts : Regular (kept c :: parts))
    (hcomment : ¬ Rule.EmptyComment (kept c :: parts))
    (hrest : scan.rest = sources (kept c :: parts))
    (hrest' : scan'.rest = outputs (kept c :: parts)) (hside : SameSide scan.before scan'.before) :
    exists category front back, parts = front ++ back ∧
      scan.classify .default = (category, (sources (kept c :: front)).length) ∧
      scan'.classify .default = (category, (outputs (kept c :: front)).length) ∧
      (c = '$' -> forall d, d ∈ sources (kept c :: front) -> Text.isBlank d = false) := by
  have hfirst := Rule.first?_agrees hc hparts hcomment (fun rule hrule => hrule) hside
  rw [← hrest, ← hrest'] at hfirst
  rcases hfirst with ⟨hnone, hnone'⟩ | ⟨action, front, back, heq, hsome, hsome'⟩
  · refine ⟨.error, [], parts, rfl, classify_of_none hnone, classify_of_none hnone', ?_⟩
    intro _ d hd
    rw [List.mem_singleton.mp hd]
    exact hc
  · rcases Rule.exists_of_first? hsome with ⟨rule, hrule, rfl, hpos, _, hspells⟩
    cases front with
    | nil =>
        cases hpos
    | cons part front =>
        rw [List.cons_append, List.cons.injEq] at heq
        rcases heq with ⟨rfl, rfl⟩
        have htake : scan.rest.take (sources (kept c :: front)).length =
            sources (kept c :: front) := by
          rw [hrest, ← List.cons_append, sources_append, List.take_left]
        have htake' : scan'.rest.take (outputs (kept c :: front)).length =
            outputs (kept c :: front) := by
          rw [hrest', ← List.cons_append, outputs_append, List.take_left]
        rw [htake] at hspells
        have hsolid : rule.action = .lookUp ∨ c = '$' ->
            forall d, d ∈ sources (kept c :: front) -> Text.isBlank d = false := by
          intro hkind
          refine hspells.solid ?_
          have hrules := List.all_eq_true.mp Rule.solid_rules rule hrule
          rw [Bool.or_eq_true, Bool.and_eq_true, bne_iff_ne] at hrules
          rcases hrules with ⟨haction, hdollar⟩ | hblankless
          · rcases hkind with hlookUp | rfl
            · exact absurd hlookUp haction
            · rcases hspells.first with ⟨set, hset, hhas⟩
              rw [List.any_eq_true.mpr ⟨set, hset, hhas⟩] at hdollar
              cases hdollar
          · exact hblankless
        cases haction : rule.action with
        | emit category =>
            rw [haction] at hsome hsome'
            exact ⟨category, front, back, rfl, classify_of_emit hsome, classify_of_emit hsome',
              fun hdollar => hsolid (Or.inr hdollar)⟩
        | lookUp =>
            rw [haction] at hsome hsome'
            have hregular : Regular (kept c :: front ++ back) := hparts
            have hsame := outputs_eq_sources hregular (hsolid (Or.inl haction))
            refine ⟨_, front, back, rfl, classify_of_lookUp hsome, ?_,
              fun hdollar => hsolid (Or.inr hdollar)⟩
            rw [classify_of_lookUp hsome', htake, htake', hsame]

end Scan

/-!
# Comments that are lost
-/

namespace Rule

open Regex

theorem first?_emptyComment {blanks ending : Text} {rest : List LinePart}
    (h : Regular (ended (' ' :: blanks) ending :: rest)) (before : Option Char) :
    first? (ofDialect .generic) before
        (sources (kept '#' :: ended (' ' :: blanks) ending :: rest)) =
      some (.emit .lineComment, (blanks ++ ending).length + 2) := by
  have hhint : (plain (lineFrom (lineOpening ++ Regex.text "+")) .lineHint).matchLength? before
      (sources (kept '#' :: ended (' ' :: blanks) ending :: rest)) = none :=
    matchLength?_none (hint_of_emptyComment h) before
  have hblock : (plain (blockFrom "/*+") .blockHint).matchLength? before
      (sources (kept '#' :: ended (' ' :: blanks) ending :: rest)) = none := by
    apply matchLength?_eq_none
    decide
  have hcomment : (plain (lineFrom lineOpening) .lineComment).matchLength? before
      (sources (kept '#' :: ended (' ' :: blanks) ending :: rest)) =
        some ((blanks ++ ending).length + 2) := by
    unfold matchLength?
    rw [show (plain (lineFrom lineOpening) .lineComment).regex.matchLength? _ = _ from
      comment_of_emptyComment h]
    rfl
  change List.findSome? _ (plain (lineFrom (lineOpening ++ Regex.text "+")) .lineHint ::
    plain (blockFrom "/*+") .blockHint :: plain (lineFrom lineOpening) .lineComment :: _) = _
  rw [List.findSome?_cons, hhint, Option.map_none]
  dsimp only
  rw [List.findSome?_cons, hblock, Option.map_none]
  dsimp only
  rw [List.findSome?_cons, hcomment]
  rfl

theorem hash_rules :
    (ofDialect .generic).all (fun rule =>
      advance '\n' (cut ((advance '#' (cut ([rule.regex].flatMap
        (heads none (some '#')))).1).flatMap (heads (some '#') (some '\n')))).1 == [] &&
      (!(rule.regex.firstSets.any fun set => set.has '#') ||
        match rule.action with
        | .emit category => category != .singleQuoted && category != .doubleQuoted
        | .lookUp => false)) = true := by
  decide

theorem matchLength?_le_one {r : Regex} {c : Char} {tail : Text}
    (hstuck : advance '\n' (cut ((advance c (cut ([r].flatMap (heads none (some c)))).1).flatMap
      (heads (some c) (some '\n')))).1 = [])
    (htail : tail = [] ∨ exists rest, tail = '\n' :: rest) {n : Nat}
    (h : r.matchLength? (c :: tail) = some n) : n <= 1 := by
  rw [Regex.matchLength?, run_cons] at h
  generalize advance c (cut ([r].flatMap (heads none (some c)))).1 = threads at hstuck h
  have hend : forall m, run (some c) threads tail = some m -> m = 0 := by
    intro m hm
    rcases htail with rfl | ⟨rest, rfl⟩
    · unfold run at hm
      split at hm
      · exact (Option.some.inj hm).symm
      · cases hm
    · rw [run_cons, hstuck, run_nil, Option.map_none, Option.none_or] at hm
      split at hm
      · exact (Option.some.inj hm).symm
      · cases hm
  cases hrun : run (some c) threads tail with
  | none =>
      rw [hrun, Option.map_none, Option.none_or] at h
      split at h
      · cases h
        exact Nat.zero_le 1
      · cases h
  | some m =>
      rw [hrun, hend m hrun] at h
      cases h
      exact Nat.le_refl 1

theorem regex_of_matchLength? {rule : Rule} {before : Option Char} {text : Text} {n : Nat}
    (h : rule.matchLength? before text = some n) : rule.regex.matchLength? text = some n := by
  unfold matchLength? at h
  split at h
  · cases h
  · cases h
  · rename_i hmatch
    split at h
    · cases h
      exact hmatch
    · cases h

end Rule

namespace Scan

theorem classify_hash {scan : Scan} {tail : Text} (hrest : scan.rest = '#' :: tail)
    (htail : tail = [] ∨ exists rest, tail = '\n' :: rest) :
    exists category, scan.classify .default = (category, 1) ∧
      category ≠ .singleQuoted ∧ category ≠ .doubleQuoted := by
  cases hfirst : Rule.first? (Rule.ofDialect .generic) scan.before scan.rest with
  | none =>
      exact ⟨.error, classify_of_none hfirst, nofun, nofun⟩
  | some found =>
      rcases found with ⟨action, n⟩
      rcases List.exists_of_findSome?_eq_some hfirst with ⟨rule, hrule, hmatch⟩
      rcases Option.map_eq_some_iff.mp hmatch with ⟨m, hm, hpair⟩
      cases hpair
      rcases Rule.spells_of_matchLength? hm with ⟨hpos, _, hspells⟩
      have hrules := List.all_eq_true.mp Rule.hash_rules rule hrule
      rw [Bool.and_eq_true, beq_iff_eq] at hrules
      rcases hrules with ⟨hstuck, hkind⟩
      rw [hrest] at hm hspells
      have hone : n = 1 :=
        Nat.le_antisymm (Rule.matchLength?_le_one hstuck htail (Rule.regex_of_matchLength? hm)) hpos
      subst hone
      rw [List.take_succ_cons] at hspells
      rcases hspells.first with ⟨set, hset, hhas⟩
      rw [List.any_eq_true.mpr ⟨set, hset, hhas⟩, Bool.not_true, Bool.false_or] at hkind
      cases haction : rule.action with
      | emit category =>
          rw [haction] at hfirst hkind
          refine ⟨category, classify_of_emit hfirst, ?_, ?_⟩
          · rintro rfl
            cases hkind
          · rintro rfl
            cases hkind
      | lookUp =>
          rw [haction] at hkind
          cases hkind

end Scan
end SqlLayout
