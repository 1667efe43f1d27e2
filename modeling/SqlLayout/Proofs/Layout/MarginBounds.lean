import SqlLayout.Proofs.Layout.BlankTokens
import SqlLayout.Proofs.Layout.MarginPieces
import SqlLayout.Proofs.Text.Lines

/-!
# Lines within the margin

The line that the margin remembers is a tail of the text written so far, and a break
stands before it.  A unit is put behind that line if it fits there; else the line is
blank, or a new one begins that holds the same blanks.  So a line is too long only if it
begins with too many blanks.
-/

namespace SqlLayout

open Text

/-- The line ends within the width, blanks at its end not counted, or it begins with too
many blanks. -/
def Text.EndsWithin (width lead : Nat) (line : Text) : Prop :=
  line.trimEnd.length <= width ∨ lead < (line.takeWhile isBlank).length

namespace Text

variable {width lead : Nat} {line value blanks : Text}

theorem EndsWithin.of_length (h : line.length <= width) : line.EndsWithin width lead :=
  Or.inl (Nat.le_trans (length_trimEnd_le line) h)

theorem EndsWithin.of_blank (h : forall c, c ∈ line -> isBlank c = true) :
    line.EndsWithin width lead := by
  refine Or.inl ?_
  rw [trimEnd_of_blank h]
  exact Nat.zero_le _

theorem EndsWithin.append_blanks (h : line.EndsWithin width lead)
    (hblanks : forall c, c ∈ blanks -> isBlank c = true) :
    (line ++ blanks).EndsWithin width lead := by
  rcases h with hwidth | hlead
  · refine Or.inl ?_
    rw [trimEnd_append_blanks hblanks]
    exact hwidth
  · refine Or.inr (Nat.lt_of_lt_of_le hlead ?_)
    rw [List.takeWhile_append]
    split
    · rename_i hall
      rw [hall, List.length_append]
      exact Nat.le_add_right _ _
    · exact Nat.le_refl _

theorem EndsWithin.blanks_append (hblanks : forall c, c ∈ blanks -> isBlank c = true)
    (hroom : lead + value.length <= width) : (blanks ++ value).EndsWithin width lead := by
  rcases Nat.lt_or_ge lead blanks.length with hlong | hshort
  · refine Or.inr ?_
    rw [List.takeWhile_append_of_pos hblanks, List.length_append]
    exact Nat.lt_of_lt_of_le hlong (Nat.le_add_right _ _)
  · refine EndsWithin.of_length ?_
    rw [List.length_append]
    omega

theorem blank_of_mem_lines (hblanks : forall c, c ∈ blanks -> isBlank c = true)
    (h : line ∈ lines blanks) : forall c, c ∈ line -> isBlank c = true :=
  fun c hc => hblanks c ((sublist_of_mem_lines h).subset hc)

theorem length_of_mem_lines (h : line ∈ lines value) : line.length <= value.length :=
  (sublist_of_mem_lines h).length_le

end Text

/-- A text of which the margin remembers a tail, and before that a break: all lines end
within the width or begin with too many blanks. -/
structure Margin.Tracks (width lead : Nat) (line text : Text) : Prop where
  line_eq : text = line ∨ exists front c, text = front ++ c :: line ∧ isBreak c = true
  within : forall row, row ∈ lines text -> row.EndsWithin width lead

namespace Margin

variable {m : Margin} {width lead : Nat} {line text value : Text}

namespace Tracks

theorem start (width lead : Nat) : Tracks width lead [] [] := by
  refine ⟨Or.inl rfl, fun row hrow => ?_⟩
  exact EndsWithin.of_length (Nat.le_trans (length_of_mem_lines hrow) (Nat.zero_le _))

theorem append (h : Tracks width lead line text)
    (hline : forall row, row ∈ lines (line ++ value) -> row.EndsWithin width lead) :
    Tracks width lead (line ++ value) (text ++ value) := by
  rcases h.line_eq with heq | ⟨front, c, heq, hc⟩
  · rw [heq]
    exact ⟨Or.inl rfl, hline⟩
  · refine ⟨Or.inr ⟨front, c, by rw [heq, List.append_assoc, List.cons_append], hc⟩, ?_⟩
    have hwithin := h.within
    rw [heq, lines_append_break hc] at hwithin
    rw [heq, List.append_assoc, List.cons_append, lines_append_break hc]
    intro row hrow
    rcases List.mem_append.mp hrow with hfront | hback
    · exact hwithin row (List.mem_append_left _ hfront)
    · exact hline row hback

theorem append_short (h : Tracks width lead line text)
    (hfits : line.length + value.length <= width) :
    Tracks width lead (line ++ value) (text ++ value) := by
  apply h.append
  intro row hrow
  have hlength := length_of_mem_lines hrow
  rw [List.length_append] at hlength
  exact EndsWithin.of_length (Nat.le_trans hlength hfits)

theorem append_behind_blanks (h : Tracks width lead line text)
    (hblanks : forall c, c ∈ line -> isBlank c = true) (hroom : lead + value.length <= width) :
    Tracks width lead (line ++ value) (text ++ value) := by
  apply h.append
  rcases exists_lines_append line value with
    ⟨early, last, first, late, hfront, hback, happend⟩
  intro row hrow
  rw [happend, List.mem_append, List.mem_cons] at hrow
  rcases hrow with hearly | rfl | hlate
  · refine EndsWithin.of_blank (blank_of_mem_lines hblanks ?_)
    rw [hfront]
    exact List.mem_append_left _ hearly
  · have hfirst : first.length <= value.length := by
      apply length_of_mem_lines
      rw [hback]
      exact List.mem_cons_self
    refine EndsWithin.blanks_append (blank_of_mem_lines hblanks ?_) (by omega)
    rw [hfront]
    exact List.mem_append_right _ (List.mem_singleton.mpr rfl)
  · have hlength : row.length <= value.length := by
      apply length_of_mem_lines
      rw [hback]
      exact List.mem_cons_of_mem _ hlate
    exact EndsWithin.of_length (by omega)

theorem newLine (h : Tracks width lead line text) {indent : Text}
    (hblanks : forall c, c ∈ indent -> isBlank c = true) :
    Tracks width lead indent (text ++ '\n' :: indent) := by
  refine ⟨Or.inr ⟨text, '\n', rfl, rfl⟩, fun row hrow => ?_⟩
  rw [lines_append_break rfl] at hrow
  rcases List.mem_append.mp hrow with hfront | hback
  · exact h.within row hfront
  · exact EndsWithin.of_blank (blank_of_mem_lines hblanks hback)

theorem passBlank (h : Tracks width lead m.line text)
    (hblanks : forall c, c ∈ value -> isBlank c = true) :
    Tracks width lead (m.passBlank value).line (text ++ value) := by
  have hwithin : forall row, row ∈ lines (text ++ value) -> row.EndsWithin width lead := by
    rcases exists_lines_append text value with ⟨early, last, first, late, hfront, hback, happend⟩
    have hblank := fun row (hrow : row ∈ lines value) => blank_of_mem_lines hblanks hrow
    rw [hback] at hblank
    have hlines := h.within
    rw [hfront] at hlines
    intro row hrow
    rw [happend, List.mem_append, List.mem_cons] at hrow
    rcases hrow with hearly | rfl | hlate
    · exact hlines row (List.mem_append_left _ hearly)
    · exact (hlines last (List.mem_append_right _ (List.mem_singleton.mpr rfl))).append_blanks
        (hblank first List.mem_cons_self)
    · exact EndsWithin.of_blank (hblank row (List.mem_cons_of_mem _ hlate))
  unfold Margin.passBlank
  split
  · rename_i hbreak
    rcases exists_of_hasBreak hbreak with ⟨front, c, hvalue, hc, _⟩
    refine ⟨Or.inr ⟨text ++ front, c, ?_, hc⟩, hwithin⟩
    rw [List.append_assoc, ← hvalue]
  · refine ⟨?_, hwithin⟩
    rcases h.line_eq with heq | ⟨front, c, heq, hc⟩
    · exact Or.inl (by rw [heq])
    · exact Or.inr ⟨front, c, by rw [heq, List.append_assoc, List.cons_append], hc⟩

theorem passSpace (h : Tracks width lead m.line text) {space : Option Token}
    (hblanks : forall t, t ∈ space.toList -> forall c, c ∈ t.value -> isBlank c = true) :
    Tracks width lead (m.passSpace space).line (text ++ space.toList.flatMap Token.value) := by
  cases space with
  | none =>
      rw [Option.toList_none, List.flatMap_nil, List.append_nil]
      exact h
  | some t =>
      rw [Option.toList_some, List.flatMap_singleton]
      exact h.passBlank (hblanks t (List.mem_singleton.mpr rfl))

end Tracks

/-!
# A row of pieces
-/

theorem blank_lineIndent (m : Margin) : forall c, c ∈ m.lineIndent -> isBlank c = true :=
  List.all_eq_true.mp List.all_takeWhile

theorem value_breakToken (m : Margin) (space : Option Token) :
    (m.breakToken space).value = '\n' :: m.lineIndent := by
  cases space <;> rfl

@[simp] theorem width_passBlank (m : Margin) (value : Text) :
    (m.passBlank value).width = m.width := by
  unfold passBlank
  split <;> rfl

@[simp] theorem width_passSpace (m : Margin) (space : Option Token) :
    (m.passSpace space).width = m.width := by
  cases space with
  | none =>
      rfl
  | some t =>
      exact width_passBlank m t.value

@[simp] theorem width_writePiece (m : Margin) (piece : Piece) :
    (m.writePiece piece).2.width = m.width := by
  cases piece with
  | blank t =>
      exact width_passBlank m t.value
  | unit space body =>
      unfold writePiece
      dsimp only
      split
      · exact width_passSpace m space
      · exact width_passSpace m space

theorem fits_of_not_overflows (h : m.overflows value = false) :
    m.line.length + value.length <= m.width ∨ forall c, c ∈ m.line -> isBlank c = true := by
  rw [overflows, Bool.and_eq_false_iff, decide_eq_false_iff_not, Bool.not_eq_false'] at h
  rcases h with hfits | hblank
  · exact Or.inl (Nat.le_of_not_lt hfits)
  · exact Or.inr (blank_of_trim_isEmpty hblank)

theorem Tracks.writePiece (h : Tracks m.width lead m.line text) {piece : Piece}
    (hblanks : forall t, t ∈ piece.blanks -> forall c, c ∈ t.value -> isBlank c = true)
    (hroom : forall space body, piece = .unit space body ->
      lead + (body.flatMap Token.value).length <= m.width) :
    Tracks m.width lead (m.writePiece piece).2.line
      (text ++ (m.writePiece piece).1.flatMap Token.value) := by
  cases piece with
  | blank t =>
      rw [Margin.writePiece, List.flatMap_singleton]
      exact h.passBlank (hblanks t (List.mem_singleton.mpr rfl))
  | unit space body =>
      have hroom := hroom space body rfl
      unfold Margin.writePiece
      dsimp only
      split
      · -- The break stands in the place of the blank.
        have hindent := blank_lineIndent (m.passSpace space)
        have hline := (h.newLine hindent).append_behind_blanks hindent hroom
        rw [List.flatMap_cons, value_breakToken, ← List.append_assoc]
        exact hline
      · rename_i hfits
        have hspace : Tracks m.width lead (m.passSpace space).line
            (text ++ space.toList.flatMap Token.value) := h.passSpace hblanks
        rw [List.flatMap_append, ← List.append_assoc]
        rcases fits_of_not_overflows (Bool.eq_false_iff.mpr hfits) with hshort | hblank
        · rw [width_passSpace] at hshort
          exact hspace.append_short hshort
        · exact hspace.append_behind_blanks hblank hroom

/-- A row of pieces keeps the lines within the margin. -/
theorem Tracks.write {pieces : List Piece} (h : Tracks m.width lead m.line text)
    (hblanks : forall piece, piece ∈ pieces -> forall t, t ∈ piece.blanks ->
      forall c, c ∈ t.value -> isBlank c = true)
    (hroom : forall space body, Piece.unit space body ∈ pieces ->
      lead + (body.flatMap Token.value).length <= m.width) :
    Tracks m.width lead (m.write pieces).2.line
      (text ++ (m.write pieces).1.flatMap Token.value) := by
  induction pieces generalizing m text with
  | nil =>
      rw [Margin.write, List.flatMap_nil, List.append_nil]
      exact h
  | cons piece rest ih =>
      have hfirst := h.writePiece (hblanks piece List.mem_cons_self) fun space body heq =>
        hroom space body (by rw [heq]; exact List.mem_cons_self)
      rw [← width_writePiece m piece] at hfirst hroom ⊢
      have hrest := ih hfirst (fun other hother => hblanks other (List.mem_cons_of_mem _ hother))
        fun space body hmem => hroom space body (List.mem_cons_of_mem _ hmem)
      rw [List.append_assoc, ← List.flatMap_append] at hrest
      exact hrest

end Margin

/-!
# Parsed statements
-/

/-- A statement that comes from parsing a text. -/
def Statement.IsParsed (s : Statement) : Prop :=
  exists sql options limit statements, parse sql options limit = .ok statements ∧ s ∈ statements

/-- A leaf, or a group that the margin does not break. -/
def Tree.isUnit (tree : Tree) (id : NodeId) : Bool :=
  !tree.isGroup id || Margin.keepsTogether tree id

namespace Statement

variable {s : Statement} {piece : Piece}

theorem IsParsed.wellFormed (h : s.IsParsed) :
    s.tree.WellFormed ∧ s.tree.isGroup s.root = true := by
  rcases h with ⟨_, _, _, _, hparse, hs⟩
  exact parse_wellFormed hparse hs

theorem IsParsed.blanks_of_mem_pieces (h : s.IsParsed) (hpiece : piece ∈ s.pieces) :
    forall t, t ∈ piece.blanks -> t.isWhitespace = true ∧
      forall c, c ∈ t.value -> Text.isBlank c = true := by
  rcases h.wellFormed with ⟨hwf, hroot⟩
  rcases exists_children hwf hroot with ⟨kind, hrose⟩
  intro t ht
  have hmem : t ∈ s.tokens := by
    rw [← tokens_pieces hwf hroot]
    refine List.mem_flatMap.mpr ⟨piece, hpiece, ?_⟩
    cases piece with
    | blank other =>
        exact ht
    | unit space body =>
        exact List.mem_append_left _ ht
  rw [pieces, hrose, Rose.pieces] at hpiece
  have hnone : forall token, (none : Option Token) = some token -> token.isWhitespace = true := by
    intro token hnone
    cases hnone
  have hblank := Rose.blanks_piecesOf none _ hnone piece hpiece t ht
  rcases h with ⟨_, _, _, _, hparse, hs⟩
  exact ⟨hblank, blanks_of_parse hparse hs t hmem hblank⟩

/-- What the margin writes whole is the text of a leaf or of a group that it does not
break. -/
theorem IsParsed.exists_unit (h : s.IsParsed) {space : Option Token} {body : List Token}
    (hpiece : Piece.unit space body ∈ s.pieces) :
    exists id, id ∈ s.tree.descendants s.root ∧ s.tree.isUnit id = true ∧
      s.tree.value id = body.flatMap Token.value := by
  rcases h.wellFormed with ⟨hwf, hroot⟩
  have hid := Tree.lt_size_of_isGroup hroot
  rcases exists_children hwf hroot with ⟨kind, hrose⟩
  rw [pieces, hrose, Rose.pieces] at hpiece
  rcases Rose.bodies_piecesOf none _ space body hpiece with ⟨whole, hmem, hwhole, rfl⟩
  have hroses := hwf.roses_descendants hid
  rw [hrose, Rose.inner] at hroses
  rw [← hroses] at hmem
  rcases List.mem_map.mp hmem with ⟨low, hlow, rfl⟩
  have hlt := hwf.descendant_lt_size hid hlow
  refine ⟨low, hlow, ?_, hwf.value_rose hlt⟩
  rw [Tree.isUnit, ← Bool.not_not (Margin.keepsTogether s.tree low), ← Bool.not_and,
    Margin.broken_of_isWhole hwf hlt hwhole]
  rfl

end Statement

/-- If the longest unit fits behind the blanks that any line of the result begins with,
all lines of the result end within the width, but for blanks at their ends. -/
theorem breakLines_within {statements : List Statement}
    (hparsed : forall s, s ∈ statements -> s.IsParsed) {width unit lead : Nat}
    (hunit : forall s, s ∈ statements -> forall id, id ∈ s.tree.descendants s.root ->
      s.tree.isUnit id = true -> (s.tree.value id).length <= unit)
    (hlead : forall line,
      line ∈ lines ((StatementFilter.runEach (.breakLines { width := width })
        statements).flatMap Statement.text) -> (line.takeWhile isBlank).length <= lead)
    (hroom : lead + unit <= width) :
    forall line,
      line ∈ lines ((StatementFilter.runEach (.breakLines { width := width })
        statements).flatMap Statement.text) -> line.trimEnd.length <= width := by
  have htext : (StatementFilter.runEach (.breakLines { width := width })
      statements).flatMap Statement.text =
        (Margin.write { width := width } (statements.flatMap Statement.pieces)).1.flatMap
          Token.value := by
    rw [← Statement.runEach_breakLines fun s hs => (hparsed s hs).wellFormed, List.flatMap_assoc]
    rfl
  have hblanks : forall piece, piece ∈ statements.flatMap Statement.pieces ->
      forall t, t ∈ piece.blanks -> forall c, c ∈ t.value -> isBlank c = true := by
    intro piece hpiece t ht
    rcases List.mem_flatMap.mp hpiece with ⟨s, hs, hmem⟩
    exact ((hparsed s hs).blanks_of_mem_pieces hmem t ht).2
  have hfits : forall space body, Piece.unit space body ∈ statements.flatMap Statement.pieces ->
      lead + (body.flatMap Token.value).length <= width := by
    intro space body hpiece
    rcases List.mem_flatMap.mp hpiece with ⟨s, hs, hmem⟩
    rcases (hparsed s hs).exists_unit hmem with ⟨id, hid, hisUnit, hvalue⟩
    have hlength := hunit s hs id hid hisUnit
    rw [hvalue] at hlength
    exact Nat.le_trans (Nat.add_le_add_left hlength lead) hroom
  have htracks := (Margin.Tracks.start width lead).write (m := { width := width }) hblanks hfits
  rw [List.nil_append, ← htext] at htracks
  intro line hline
  rcases htracks.within line hline with hwidth | hlong
  · exact hwidth
  · exact absurd hlong (Nat.not_lt_of_le (hlead line hline))

/-- A list of names that is broken at a margin of fourteen. -/
theorem breakLines_within_names :
    exists s, Statement.IsParsed s ∧ s.text = Text.of "select alpha, beta" ∧
      (StatementFilter.runEach (.breakLines { width := 14 }) [s]).flatMap Statement.text =
        Text.of "select alpha,\nbeta" ∧
      forall line,
        line ∈ lines ((StatementFilter.runEach (.breakLines { width := 14 })
          [s]).flatMap Statement.text) -> line.trimEnd.length <= 14 := by
  have htokens : tokenize ⟨.generic, Vocabulary.ofDialect .generic⟩
      (Text.of "select alpha, beta") =
      [⟨.dml, Text.of "select", some 0⟩, ⟨.whitespace, [' '], some 6⟩,
       ⟨.name, Text.of "alpha", some 7⟩, ⟨.punctuation, [','], some 12⟩,
       ⟨.whitespace, [' '], some 13⟩, ⟨.name, Text.of "beta", some 14⟩] := by
    decide +kernel
  rcases exists_parsed (p := fun s => s.text == Text.of "select alpha, beta" &&
      (StatementFilter.runEach (.breakLines { width := 14 }) [s]).flatMap Statement.text ==
        Text.of "select alpha,\nbeta" &&
      (s.tree.descendants s.root).all fun id =>
        !s.tree.isUnit id || decide ((s.tree.value id).length <= 6))
    htokens (by decide +kernel) with ⟨statements, s, hparse, hs, hfound⟩
  rw [Bool.and_eq_true, Bool.and_eq_true, beq_iff_eq, beq_iff_eq, List.all_eq_true] at hfound
  rcases hfound with ⟨⟨htext, hbroken⟩, hunits⟩
  have hparsed : s.IsParsed := ⟨_, _, _, statements, hparse, hs⟩
  have hunit : forall other, other ∈ [s] -> forall id, id ∈ other.tree.descendants other.root ->
      other.tree.isUnit id = true -> (other.tree.value id).length <= 6 := by
    intro other hother id hid hunit
    rw [List.mem_singleton.mp hother] at hid hunit ⊢
    have hlength := hunits id hid
    rw [hunit, Bool.not_true, Bool.false_or, decide_eq_true_eq] at hlength
    exact hlength
  have hlead : forall line,
      line ∈ lines ((StatementFilter.runEach (.breakLines { width := 14 })
        [s]).flatMap Statement.text) -> (line.takeWhile isBlank).length <= 0 := by
    rw [hbroken]
    decide +kernel
  exact ⟨s, hparsed, htext, hbroken,
    breakLines_within (List.forall_mem_singleton.mpr hparsed) hunit hlead (by decide)⟩

end SqlLayout
