import SqlLayout.Proofs.Layout.MarginBounds

/-!
# Where the margin breaks

The line that the margin remembers begins behind the last break that stands in a blank.
Breaks inside of comments and strings do not end it.  No break comes in if and only if
each unit fits behind that line or is the first on it.
-/

namespace SqlLayout

open Text

namespace Token

/-- The open line behind a token: a break in a blank ends the line before. -/
def extendLine (line : Text) (t : Token) : Text :=
  if (t.isWhitespace && Margin.hasBreak t.value) = true then (lineTail? t.value).getD []
  else line ++ t.value

/-- What stands behind the last break in a blank. -/
def openLine (tokens : List Token) : Text := tokens.foldl extendLine []

theorem foldl_extendLine {tokens : List Token}
    (h : forall t, t ∈ tokens -> t.isWhitespace = true -> Margin.hasBreak t.value = false)
    (line : Text) : tokens.foldl extendLine line = line ++ tokens.flatMap Token.value := by
  induction tokens generalizing line with
  | nil =>
      exact (List.append_nil line).symm
  | cons t rest ih =>
      have hfirst : extendLine line t = line ++ t.value := by
        rw [extendLine, if_neg]
        intro hbreak
        rw [Bool.and_eq_true] at hbreak
        rw [h t List.mem_cons_self hbreak.1] at hbreak
        exact Bool.false_ne_true hbreak.2
      rw [List.foldl_cons, ih fun other hother => h other (List.mem_cons_of_mem _ hother), hfirst,
        List.flatMap_cons, List.append_assoc]

end Token

/-- A piece as the margin gets it: its blanks are blank, and no blank that is written as a
part of a unit breaks the line. -/
structure Piece.IsProper (piece : Piece) : Prop where
  blanks : forall t, t ∈ piece.blanks -> t.isWhitespace = true ∧
    forall c, c ∈ t.value -> Text.isBlank c = true
  body : forall space body, piece = .unit space body -> forall t, t ∈ body ->
    t.isWhitespace = true -> Margin.hasBreak t.value = false

namespace Margin

variable {m : Margin} {piece : Piece} {front back pieces : List Piece}

def takes (m : Margin) : Piece -> Bool
  | .blank _ => true
  | .unit space body => !(m.passSpace space).overflows (body.flatMap Token.value)

def TakesAll : Margin -> List Piece -> Prop
  | _, [] => True
  | m, piece :: rest => m.takes piece = true ∧ (m.writePiece piece).2.TakesAll rest

theorem takesAll_append : m.TakesAll (front ++ back) <->
    m.TakesAll front ∧ (m.write front).2.TakesAll back := by
  induction front generalizing m with
  | nil =>
      exact (and_iff_right trivial).symm
  | cons piece rest ih =>
      rw [List.cons_append, TakesAll, ih, TakesAll, and_assoc]
      rfl

theorem line_passBlank (m : Margin) {t : Token} (ht : t.isWhitespace = true) :
    (m.passBlank t.value).line = t.extendLine m.line := by
  rw [Token.extendLine, ht, Bool.true_and, passBlank]
  split <;> rfl

theorem line_passSpace (m : Margin) {space : Option Token}
    (h : forall t, t ∈ space.toList -> t.isWhitespace = true) :
    (m.passSpace space).line = space.toList.foldl Token.extendLine m.line := by
  cases space with
  | none =>
      rfl
  | some t =>
      exact line_passBlank m (h t (List.mem_singleton.mpr rfl))

theorem writePiece_of_takes (hproper : piece.IsProper) (h : m.takes piece = true) :
    (m.writePiece piece).1 = piece.tokens ∧
      (m.writePiece piece).2.line = piece.tokens.foldl Token.extendLine m.line := by
  cases piece with
  | blank t =>
      exact ⟨rfl, line_passBlank m (hproper.blanks t (List.mem_singleton.mpr rfl)).1⟩
  | unit space body =>
      rw [takes, Bool.not_eq_true'] at h
      rw [writePiece, h, if_neg Bool.false_ne_true]
      refine ⟨rfl, ?_⟩
      rw [Piece.tokens, List.foldl_append, Token.foldl_extendLine (hproper.body space body rfl),
        line_passSpace m fun t ht => (hproper.blanks t ht).1]

theorem write_of_takesAll (hproper : forall piece, piece ∈ pieces -> piece.IsProper)
    (h : m.TakesAll pieces) :
    (m.write pieces).1 = pieces.flatMap Piece.tokens ∧
      (m.write pieces).2.line = (pieces.flatMap Piece.tokens).foldl Token.extendLine m.line := by
  induction pieces generalizing m with
  | nil =>
      exact ⟨rfl, rfl⟩
  | cons piece rest ih =>
      rcases writePiece_of_takes (hproper piece List.mem_cons_self) h.1 with ⟨htokens, hline⟩
      rcases ih (fun other hother => hproper other (List.mem_cons_of_mem _ hother)) h.2 with
        ⟨htokens', hline'⟩
      rw [write, List.flatMap_cons, List.foldl_append, ← hline]
      exact ⟨by rw [htokens, htokens'], hline'⟩

/-!
# The breaks are counted
-/

theorem count_of_unbroken {text : Text} (h : hasBreak text = false) : text.count '\n' = 0 := by
  rw [List.count_eq_zero]
  intro hmem
  cases hasBreak_eq_false_iff.mp h '\n' hmem

/-- A blank that gives its place to a break has none itself, since behind a break there are
blanks only. -/
theorem unbroken_of_overflows {space : Option Token} {value : Text}
    (hblanks : forall t, t ∈ space.toList -> forall c, c ∈ t.value -> isBlank c = true)
    (h : (m.passSpace space).overflows value = true) :
    forall t, t ∈ space.toList -> hasBreak t.value = false := by
  cases space with
  | none =>
      intro t ht
      cases ht
  | some t =>
      intro other hother
      rw [List.mem_singleton.mp hother]
      apply Bool.eq_false_iff.mpr
      intro hbreak
      rcases exists_of_hasBreak hbreak with ⟨front, c, hvalue, _, _⟩
      rw [passSpace, passBlank, if_pos hbreak, overflows, Bool.and_eq_true, Bool.not_eq_true'] at h
      have hblank : ((lineTail? t.value).getD []).trim = [] := by
        have htail : forall d, d ∈ (lineTail? t.value).getD [] -> isBlank d = true := by
          intro d hd
          apply hblanks t (List.mem_singleton.mpr rfl)
          rw [hvalue]
          exact List.mem_append_right _ (List.mem_cons_of_mem _ hd)
        exact trimEnd_of_blank fun d hd => htail d ((List.dropWhile_sublist _).subset hd)
      rw [hblank] at h
      cases h.2

theorem count_writePiece (hproper : piece.IsProper) :
    (piece.tokens.flatMap Token.value).count '\n' <=
        ((m.writePiece piece).1.flatMap Token.value).count '\n' ∧
      (m.takes piece = false ->
        (piece.tokens.flatMap Token.value).count '\n' <
          ((m.writePiece piece).1.flatMap Token.value).count '\n') := by
  cases htakes : m.takes piece with
  | true =>
      rw [(writePiece_of_takes hproper htakes).1]
      exact ⟨Nat.le_refl _, fun hfalse => absurd hfalse.symm Bool.false_ne_true⟩
  | false =>
      suffices hless : (piece.tokens.flatMap Token.value).count '\n' <
          ((m.writePiece piece).1.flatMap Token.value).count '\n' from
        ⟨Nat.le_of_lt hless, fun _ => hless⟩
      cases piece with
      | blank t =>
          cases htakes
      | unit space body =>
          rw [takes, Bool.not_eq_false'] at htakes
          have hspace : (space.toList.flatMap Token.value).count '\n' = 0 := by
            have hnone := unbroken_of_overflows (fun t ht => (hproper.blanks t ht).2) htakes
            cases space with
            | none =>
                rfl
            | some t =>
                rw [Option.toList_some, List.flatMap_singleton]
                exact count_of_unbroken (hnone t (List.mem_singleton.mpr rfl))
          rw [writePiece, if_pos htakes, Piece.tokens, List.flatMap_append, List.count_append,
            hspace, List.flatMap_cons, value_breakToken, List.cons_append, List.count_cons_self,
            List.count_append]
          omega

theorem count_write (hproper : forall piece, piece ∈ pieces -> piece.IsProper) :
    ((pieces.flatMap Piece.tokens).flatMap Token.value).count '\n' <=
        ((m.write pieces).1.flatMap Token.value).count '\n' ∧
      (¬ m.TakesAll pieces ->
        ((pieces.flatMap Piece.tokens).flatMap Token.value).count '\n' <
          ((m.write pieces).1.flatMap Token.value).count '\n') := by
  induction pieces generalizing m with
  | nil =>
      exact ⟨Nat.le_refl _, fun h => absurd trivial h⟩
  | cons piece rest ih =>
      rcases count_writePiece (m := m) (hproper piece List.mem_cons_self) with ⟨hle, hlt⟩
      rcases ih (m := (m.writePiece piece).2) fun other hother =>
        hproper other (List.mem_cons_of_mem _ hother) with ⟨hle', hlt'⟩
      rw [write, List.flatMap_cons, List.flatMap_append, List.flatMap_append, List.count_append,
        List.count_append]
      refine ⟨Nat.add_le_add hle hle', fun hnot => ?_⟩
      cases htakes : m.takes piece with
      | true =>
          exact Nat.add_lt_add_of_le_of_lt hle (hlt' fun hrest => hnot ⟨htakes, hrest⟩)
      | false =>
          exact Nat.add_lt_add_of_lt_of_le (hlt htakes) hle'

/-!
# Units that fit
-/

/-- A text has room on a line, or the line is blank. -/
def Fits (width : Nat) (line value : Text) : Prop :=
  line.length + value.length <= width ∨ line.trim = []

theorem overflows_eq_false_iff {value : Text} :
    m.overflows value = false <-> Fits m.width m.line value := by
  rw [overflows, Bool.and_eq_false_iff, decide_eq_false_iff_not, Bool.not_eq_false',
    List.isEmpty_iff, Nat.not_lt]
  rfl

theorem takes_unit_iff {space : Option Token} {body : List Token} :
    m.takes (.unit space body) = true <->
      Fits m.width (m.passSpace space).line (body.flatMap Token.value) := by
  rw [takes, Bool.not_eq_true', overflows_eq_false_iff, width_passSpace]

theorem width_write (m : Margin) (pieces : List Piece) : (m.write pieces).2.width = m.width := by
  induction pieces generalizing m with
  | nil =>
      rfl
  | cons piece rest ih =>
      rw [write, ih, width_writePiece]

theorem takesAll_iff (hproper : forall piece, piece ∈ pieces -> piece.IsProper) :
    m.TakesAll pieces <-> forall front space body back,
      pieces = front ++ .unit space body :: back ->
      Fits m.width ((front.flatMap Piece.tokens ++ space.toList).foldl Token.extendLine m.line)
        (body.flatMap Token.value) := by
  constructor
  · rintro htakes front space body back rfl
    rcases takesAll_append.mp htakes with ⟨hfront, hunit, _⟩
    have hspace := hproper (.unit space body) (by simp)
    rw [takes_unit_iff, width_write, line_passSpace _ fun t ht => (hspace.blanks t ht).1,
      (write_of_takesAll (fun piece hpiece => hproper piece (List.mem_append_left _ hpiece))
        hfront).2] at hunit
    rw [List.foldl_append]
    exact hunit
  · intro h
    induction pieces generalizing m with
    | nil =>
        trivial
    | cons piece rest ih =>
        have hpiece := hproper piece List.mem_cons_self
        have htakes : m.takes piece = true := by
          cases piece with
          | blank t =>
              rfl
          | unit space body =>
              rw [takes_unit_iff, line_passSpace m fun t ht => (hpiece.blanks t ht).1]
              exact h [] space body rest rfl
        refine ⟨htakes, ih (fun other hother => hproper other (List.mem_cons_of_mem _ hother)) ?_⟩
        rintro front space body back rfl
        have hlater := h (piece :: front) space body back rfl
        rw [List.flatMap_cons, List.append_assoc, List.foldl_append,
          ← (writePiece_of_takes hpiece htakes).2] at hlater
        rw [width_writePiece]
        exact hlater

end Margin

/-!
# Parsed statements
-/

namespace Statement

theorem IsParsed.isProper {s : Statement} (h : s.IsParsed) {piece : Piece}
    (hpiece : piece ∈ s.pieces) : piece.IsProper := by
  refine ⟨h.blanks_of_mem_pieces hpiece, ?_⟩
  rintro space body rfl t ht hblank
  rcases h.wellFormed with ⟨hwf, hroot⟩
  rcases exists_children hwf hroot with ⟨kind, hrose⟩
  rw [pieces, hrose, Rose.pieces] at hpiece
  rcases Rose.bodies_piecesOf none _ space body hpiece with ⟨whole, _, hwhole, rfl⟩
  cases whole with
  | token other =>
      rw [Rose.isWhole, Bool.not_eq_true'] at hwhole
      rw [List.mem_singleton.mp ht, hwhole] at hblank
      cases hblank
  | group kind children =>
      rw [Rose.isWhole, Rose.keepsWhole, Bool.and_eq_true, Bool.not_eq_true'] at hwhole
      apply hasBreak_eq_false_iff.mpr
      intro c hc
      exact hasBreak_eq_false_iff.mp hwhole.2 c (List.mem_flatMap.mpr ⟨t, ht, hc⟩)

variable {statements : List Statement} {m : Margin}

theorem isProper_of_parsed (h : forall s, s ∈ statements -> s.IsParsed) :
    forall piece, piece ∈ statements.flatMap pieces -> piece.IsProper := by
  intro piece hpiece
  rcases List.mem_flatMap.mp hpiece with ⟨s, hs, hmem⟩
  exact (h s hs).isProper hmem

theorem tokens_flatMap_pieces (h : forall s, s ∈ statements -> s.IsParsed) :
    (statements.flatMap pieces).flatMap Piece.tokens = statements.flatMap tokens := by
  rw [List.flatMap_assoc]
  exact List.flatMap_congr fun s hs =>
    tokens_pieces (h s hs).wellFormed.1 (h s hs).wellFormed.2

theorem tokens_runEach_of_takesAll (h : forall s, s ∈ statements -> s.IsParsed)
    (htakes : m.TakesAll (statements.flatMap pieces)) :
    (StatementFilter.runEach (.breakLines m) statements).map tokens = statements.map tokens := by
  induction statements generalizing m with
  | nil =>
      rfl
  | cons s rest ih =>
      have hparsed := h s List.mem_cons_self
      rcases hparsed.wellFormed with ⟨hwf, hroot⟩
      rcases breakLines_writes hwf hroot m with ⟨htokens, hmargin⟩
      rw [List.flatMap_cons, Margin.takesAll_append] at htakes
      have hsame := (Margin.write_of_takesAll (fun piece => hparsed.isProper) htakes.1).1
      rw [tokens_pieces hwf hroot] at hsame
      have hrun : StatementFilter.runEach (.breakLines m) (s :: rest) =
          (s.breakLines m).1 :: StatementFilter.runEach (.breakLines (s.breakLines m).2) rest :=
        rfl
      rw [hrun, List.map_cons, List.map_cons, htokens, hsame, hmargin,
        ih (fun other hother => h other (List.mem_cons_of_mem _ hother)) htakes.2]

theorem texts_runEach_of_takesAll (h : forall s, s ∈ statements -> s.IsParsed)
    (htakes : m.TakesAll (statements.flatMap pieces)) :
    (StatementFilter.runEach (.breakLines m) statements).map text = statements.map text := by
  have hvalues := congrArg (List.map fun tokens => tokens.flatMap Token.value)
    (tokens_runEach_of_takesAll h htakes)
  rw [List.map_map, List.map_map] at hvalues
  exact hvalues

end Statement

/-- The texts stay as they are if and only if each unit fits behind the last break that
stands in a blank, or nothing but blanks stands there. -/
theorem breakLines_keeps_iff {statements : List Statement}
    (hparsed : forall s, s ∈ statements -> s.IsParsed) (width : Nat) :
    (StatementFilter.runEach (.breakLines { width := width }) statements).map Statement.text =
        statements.map Statement.text <->
      forall front space body back,
        statements.flatMap Statement.pieces = front ++ .unit space body :: back ->
        Margin.Fits width (Token.openLine (front.flatMap Piece.tokens ++ space.toList))
          (body.flatMap Token.value) := by
  have hproper := Statement.isProper_of_parsed hparsed
  have htext : Statement.text = fun s : Statement => s.tokens.flatMap Token.value := rfl
  refine Iff.trans ?_ (Margin.takesAll_iff (m := { width := width }) hproper)
  constructor
  · intro hsame
    by_contra hnot
    -- A break is one more line feed.
    have hless := (Margin.count_write (m := { width := width }) hproper).2 hnot
    have hflat := congrArg List.flatten hsame
    rw [← List.flatMap_def, ← List.flatMap_def, htext, ← List.flatMap_assoc, ← List.flatMap_assoc,
      Statement.runEach_breakLines fun s hs => (hparsed s hs).wellFormed] at hflat
    rw [Statement.tokens_flatMap_pieces hparsed, hflat] at hless
    exact Nat.lt_irrefl _ hless
  · exact Statement.texts_runEach_of_takesAll hparsed

theorem tokenize_comment_line :
    tokenize ⟨.generic, Vocabulary.ofDialect .generic⟩ (Text.of "-- abc\nselect") =
      [⟨.lineComment, Text.of "-- abc\n", some 0⟩, ⟨.dml, Text.of "select", some 7⟩] := by
  decide +kernel

/-- A line break that belongs to a comment does not end the line, and a second break comes
in behind it. -/
theorem exists_comment_line :
    exists s, Statement.IsParsed s ∧ s.text = Text.of "-- abc\nselect" ∧
      (StatementFilter.runEach (.breakLines { width := 10 }) [s]).map Statement.text =
        [Text.of "-- abc\n\nselect"] := by
  rcases exists_parsed (p := fun s => s.text == Text.of "-- abc\nselect" &&
      (StatementFilter.runEach (.breakLines { width := 10 }) [s]).map Statement.text ==
        [Text.of "-- abc\n\nselect"])
    tokenize_comment_line (by decide) with ⟨statements, s, hparse, hs, hfound⟩
  rw [Bool.and_eq_true, beq_iff_eq, beq_iff_eq] at hfound
  exact ⟨s, ⟨_, _, _, statements, hparse, hs⟩, hfound.1, hfound.2⟩

/-- What comes in behind the comment is what the equivalence says. -/
theorem breakLines_keeps_iff_comment_line :
    exists s, Statement.IsParsed s ∧ s.text = Text.of "-- abc\nselect" ∧
      (StatementFilter.runEach (.breakLines { width := 10 }) [s]).map Statement.text =
        [Text.of "-- abc\n\nselect"] ∧
      ((StatementFilter.runEach (.breakLines { width := 10 }) [s]).map Statement.text =
          [s].map Statement.text <->
        forall front space body back,
          [s].flatMap Statement.pieces = front ++ .unit space body :: back ->
          Margin.Fits 10 (Token.openLine (front.flatMap Piece.tokens ++ space.toList))
            (body.flatMap Token.value)) := by
  rcases exists_comment_line with ⟨s, hparsed, htext, hbroken⟩
  exact ⟨s, hparsed, htext, hbroken,
    breakLines_keeps_iff (List.forall_mem_singleton.mpr hparsed) 10⟩

/-- Lines that are short enough may be broken all the same. -/
theorem breakLines_breaks_short_lines :
    ¬ forall (statements : List Statement) (width : Nat),
      (forall s, s ∈ statements -> s.IsParsed) ->
      (forall line, line ∈ lines (statements.flatMap Statement.text) -> line.length <= width) ->
      (StatementFilter.runEach (.breakLines { width := width }) statements).map Statement.text =
        statements.map Statement.text := by
  rcases exists_comment_line with ⟨s, hparsed, htext, hbroken⟩
  intro hall
  have hshort : forall line, line ∈ lines ([s].flatMap Statement.text) -> line.length <= 10 := by
    rw [List.flatMap_singleton, htext]
    decide +kernel
  have hsame := hall [s] 10 (List.forall_mem_singleton.mpr hparsed) hshort
  rw [hbroken, List.map_singleton, htext] at hsame
  revert hsame
  decide +kernel

/-!
# Breaks in blanks only
-/

theorem Token.exists_lines_openLine {tokens : List Token}
    (h : forall t, t ∈ tokens -> t.isWhitespace = false -> Margin.hasBreak t.value = false) :
    exists early, lines (tokens.flatMap Token.value) = early ++ [openLine tokens] := by
  suffices hgeneral : forall (line text : Text), (exists early, lines text = early ++ [line]) ->
      exists early, lines (text ++ tokens.flatMap Token.value) =
        early ++ [tokens.foldl extendLine line] from
    hgeneral [] [] ⟨[], List.splitOnP_nil⟩
  induction tokens with
  | nil =>
      rintro line text hlines
      rw [List.flatMap_nil, List.append_nil]
      exact hlines
  | cons t rest ih =>
      rintro line text ⟨early, hlines⟩
      rw [List.flatMap_cons, ← List.append_assoc, List.foldl_cons]
      apply ih fun other hother => h other (List.mem_cons_of_mem _ hother)
      rw [extendLine]
      split
      · rename_i hbreak
        rw [Bool.and_eq_true] at hbreak
        rcases exists_of_hasBreak hbreak.2 with ⟨front, c, hvalue, hc, htail⟩
        refine ⟨lines (text ++ front), ?_⟩
        conv_lhs => rw [hvalue]
        rw [← List.append_assoc, lines_append_break hc, lines_of_unbroken htail]
      · rename_i hkeeps
        have hunbroken : Margin.hasBreak t.value = false := by
          cases hblank : t.isWhitespace with
          | false =>
              exact h t List.mem_cons_self hblank
          | true =>
              rw [hblank, Bool.true_and] at hkeeps
              exact Bool.eq_false_iff.mpr hkeeps
        rcases exists_lines_append text t.value with
          ⟨others, last, first, late, hfront, hback, happend⟩
        rw [lines_of_unbroken (hasBreak_eq_false_iff.mp hunbroken), List.cons.injEq] at hback
        rw [hlines] at hfront
        rcases List.append_inj' hfront rfl with ⟨_, hlast⟩
        rw [List.cons.injEq] at hlast
        exact ⟨others, by rw [happend, ← hback.1, ← hback.2, ← hlast.1]⟩

/-- If only blanks break lines, a text without a line that is too long stays as it is. -/
theorem breakLines_keeps_short_lines {statements : List Statement}
    (hparsed : forall s, s ∈ statements -> s.IsParsed)
    (hsolid : forall s, s ∈ statements -> forall t, t ∈ s.tokens -> t.isWhitespace = false ->
      Margin.hasBreak t.value = false) {width : Nat}
    (hshort : forall line, line ∈ lines (statements.flatMap Statement.text) ->
      line.length <= width) :
    (StatementFilter.runEach (.breakLines { width := width }) statements).map Statement.text =
      statements.map Statement.text := by
  have hproper := Statement.isProper_of_parsed hparsed
  apply Statement.texts_runEach_of_takesAll hparsed
  rw [Margin.takesAll_iff hproper]
  intro front space body back hpieces
  refine Or.inl ?_
  have htokens := Statement.tokens_flatMap_pieces hparsed
  rw [hpieces, List.flatMap_append, List.flatMap_cons, Piece.tokens] at htokens
  have hall : forall t, t ∈ statements.flatMap Statement.tokens -> t.isWhitespace = false ->
      Margin.hasBreak t.value = false := by
    intro t ht
    rcases List.mem_flatMap.mp ht with ⟨s, hs, hmem⟩
    exact hsolid s hs t hmem
  rw [← htokens] at hall
  have hbefore : forall t, t ∈ front.flatMap Piece.tokens ++ space.toList ->
      t.isWhitespace = false -> Margin.hasBreak t.value = false := by
    intro t ht
    apply hall
    simp only [List.mem_append] at ht ⊢
    rcases ht with ht | ht
    · exact Or.inl ht
    · exact Or.inr (Or.inl (Or.inl ht))
  have hbody : forall c, c ∈ body.flatMap Token.value -> isBreak c = false := by
    intro c hc
    rcases List.mem_flatMap.mp hc with ⟨t, ht, hc⟩
    refine hasBreak_eq_false_iff.mp ?_ c hc
    cases hblank : t.isWhitespace with
    | false =>
        apply hall t _ hblank
        simp only [List.mem_append]
        exact Or.inr (Or.inl (Or.inr ht))
    | true =>
        exact (hproper (.unit space body) (by rw [hpieces]; simp)).body space body rfl t ht hblank
  -- The open line and the unit are the beginning of a line.
  have htext : statements.flatMap Statement.text =
      (front.flatMap Piece.tokens ++ space.toList).flatMap Token.value ++
        (body.flatMap Token.value ++ (back.flatMap Piece.tokens).flatMap Token.value) := by
    have hvalues : statements.flatMap Statement.text =
        (statements.flatMap Statement.tokens).flatMap Token.value := List.flatMap_assoc.symm
    rw [hvalues, ← htokens]
    simp only [List.flatMap_append, List.append_assoc]
  rcases Token.exists_lines_openLine hbefore with ⟨early, hopen⟩
  rcases exists_line_behind hopen hbody ((back.flatMap Piece.tokens).flatMap Token.value) with
    ⟨more, hmem⟩
  rw [← htext] at hmem
  have hline := hshort _ hmem
  rw [List.length_append, List.length_append, Token.openLine] at hline
  exact Nat.le_trans (Nat.add_le_add_left (Nat.le_add_right _ _) _) hline

end SqlLayout
