import SqlLayout.Proofs.Layout.MarginBreaks
import SqlLayout.Proofs.Splitting.DollarBodies

/-!
# Dollar bodies at the margin

A dollar mark, the body and the mark again are three tokens, and the margin knows
nothing of what they belong to.  It may put a break behind the opening mark and one
before the closing mark, and puts nothing else between them.
-/

namespace SqlLayout

/-- Tokens with line breaks put between them. -/
inductive Token.Broken : List Token -> List Token -> Prop where
  | nil : Broken [] []
  | keep {t : Token} {tokens written : List Token} :
      Broken tokens written -> Broken (t :: tokens) (t :: written)
  | newline {indent : Text} {tokens written : List Token} :
      (forall c, c ∈ indent -> Text.isBlank c = true) -> Broken tokens written ->
      Broken tokens (.blank ('\n' :: indent) :: written)

namespace Token.Broken

variable {tokens written : List Token}

theorem refl (tokens : List Token) : Broken tokens tokens := by
  induction tokens with
  | nil =>
      exact nil
  | cons t rest ih =>
      exact keep ih

theorem append_left (front : List Token) (h : Broken tokens written) :
    Broken (front ++ tokens) (front ++ written) := by
  induction front with
  | nil =>
      exact h
  | cons t rest ih =>
      exact keep ih

theorem length_le (h : Broken tokens written) : tokens.length <= written.length := by
  induction h with
  | nil =>
      exact Nat.le_refl _
  | keep _ ih =>
      exact Nat.succ_le_succ ih
  | newline _ _ ih =>
      exact Nat.le_succ_of_le ih

theorem length_text (h : Broken tokens written) :
    written = tokens ∨
      (tokens.flatMap Token.value).length < (written.flatMap Token.value).length := by
  induction h with
  | nil =>
      exact Or.inl rfl
  | keep _ ih =>
      rcases ih with rfl | hless
      · exact Or.inl rfl
      · refine Or.inr ?_
        rw [List.flatMap_cons, List.flatMap_cons, List.length_append, List.length_append]
        exact Nat.add_lt_add_left hless _
  | newline _ _ ih =>
      refine Or.inr ?_
      rw [List.flatMap_cons, List.length_append, blank, List.length_cons]
      rcases ih with rfl | hless
      · omega
      · omega

theorem text_eq_iff (h : Broken tokens written) :
    written.flatMap Token.value = tokens.flatMap Token.value <-> written = tokens := by
  constructor
  · intro htext
    rcases h.length_text with heq | hless
    · exact heq
    · rw [htext] at hless
      exact absurd hless (Nat.lt_irrefl _)
  · exact congrArg _

end Token.Broken

theorem Piece.unit_of_solid {piece : Piece} {first : Token} {behind rest : List Token}
    (hblanks : forall t, t ∈ piece.blanks -> t.isWhitespace = true)
    (hfirst : first.isWhitespace = false) (htokens : piece.tokens ++ behind = first :: rest) :
    exists body, piece = .unit none body := by
  have hne : forall t, t ∈ piece.blanks -> t ≠ first := by
    rintro t ht rfl
    rw [hblanks t ht] at hfirst
    cases hfirst
  cases piece with
  | blank t =>
      rw [tokens, List.cons_append, List.cons.injEq] at htokens
      exact absurd htokens.1 (hne t (List.mem_singleton.mpr rfl))
  | unit space body =>
      cases space with
      | none =>
          exact ⟨body, rfl⟩
      | some t =>
          rw [tokens, Option.toList_some, List.cons_append, List.cons_append,
            List.cons.injEq] at htokens
          exact absurd htokens.1 (hne t (List.mem_singleton.mpr rfl))

namespace Margin

open Token

variable {m : Margin} {pieces : List Piece} {front inside rest : List Token} {opening : Token}

/-- The pieces that begin between two places take no break before them. -/
def TakesBetween (m : Margin) (pieces : List Piece) (start stop : Nat) : Prop :=
  forall before piece after, pieces = before ++ piece :: after ->
    start <= (before.flatMap Piece.tokens).length ->
    (before.flatMap Piece.tokens).length < stop -> (m.write before).2.takes piece = true

theorem takesBetween_cons {piece : Piece} {start stop : Nat} :
    m.TakesBetween (piece :: pieces) start stop <->
      (start = 0 -> 0 < stop -> m.takes piece = true) ∧
        (m.writePiece piece).2.TakesBetween pieces (start - piece.tokens.length)
          (stop - piece.tokens.length) := by
  constructor
  · intro h
    refine ⟨fun hstart hstop => h [] piece pieces rfl (Nat.le_of_eq hstart) hstop, ?_⟩
    rintro before other after rfl hstart hstop
    refine h (piece :: before) other after rfl ?_ ?_
    · rw [List.flatMap_cons, List.length_append]
      omega
    · rw [List.flatMap_cons, List.length_append]
      omega
  · rintro ⟨hfirst, hrest⟩ before other after hsplit hstart hstop
    cases before with
    | nil =>
        cases hsplit
        exact hfirst (Nat.le_zero.mp hstart) hstop
    | cons first before =>
        cases hsplit
        rw [List.flatMap_cons, List.length_append] at hstart hstop
        exact hrest before other after rfl (by omega) (by omega)

theorem writePiece_unit (m : Margin) (body : List Token) :
    (m.writePiece (.unit none body)).1 =
      (if m.takes (.unit none body) = true then []
        else [.blank ('\n' :: m.lineIndent)]) ++ body := by
  rw [writePiece, takes, passSpace]
  cases m.overflows (body.flatMap Token.value) <;> rfl

theorem broken_unit {tokens written : List Token} (h : Broken tokens written) (body : List Token)
    {later : Prop} (hiff : written = tokens <-> later) :
    Broken tokens ((if m.takes (.unit none body) = true then [] else
        [.blank ('\n' :: m.lineIndent)]) ++ written) ∧
      ((if m.takes (.unit none body) = true then [] else
        [.blank ('\n' :: m.lineIndent)]) ++ written = tokens <->
          m.takes (.unit none body) = true ∧ later) := by
  cases m.takes (.unit none body) with
  | true =>
      exact ⟨h, hiff.trans (and_iff_right rfl).symm⟩
  | false =>
      refine ⟨Broken.newline (blank_lineIndent m) h, fun heq => ?_, fun hboth => ?_⟩
      · have hlength := h.length_le
        rw [← heq] at hlength
        exact absurd hlength (Nat.not_succ_le_self _)
      · cases hboth.1

theorem write_solid (hsolid : forall t, t ∈ inside -> t.isWhitespace = false)
    (hblanks : forall piece, piece ∈ pieces -> forall t, t ∈ piece.blanks ->
      t.isWhitespace = true)
    (htokens : pieces.flatMap Piece.tokens = inside ++ rest) :
    exists written back, (m.write pieces).1 = written ++ back ∧ Broken inside written ∧
      (written = inside <-> m.TakesBetween pieces 0 inside.length) := by
  induction pieces generalizing m inside with
  | nil =>
      have hnil := (List.append_eq_nil_iff.mp htokens.symm).1
      refine ⟨[], [], rfl, by rw [hnil]; exact Broken.nil, fun _ => ?_, fun _ => hnil.symm⟩
      intro before piece after hsplit
      exact absurd hsplit.symm (List.append_ne_nil_of_right_ne_nil _ (List.cons_ne_nil _ _))
  | cons piece others ih =>
      by_cases hempty : inside = []
      · rw [hempty]
        exact ⟨[], (m.write (piece :: others)).1, rfl, Broken.nil,
          fun _ _ _ _ _ _ hstop => absurd hstop (Nat.not_lt_zero _), fun _ => rfl⟩
      · -- The piece is a unit, with no blank before it.
        have hunit : exists body, piece = .unit none body := by
          rcases List.exists_cons_of_ne_nil hempty with ⟨first, more, rfl⟩
          exact Piece.unit_of_solid (hblanks piece List.mem_cons_self)
            (hsolid first List.mem_cons_self) htokens
        rcases hunit with ⟨body, rfl⟩
        have hbody : Piece.tokens (.unit none body) = body := rfl
        rw [List.flatMap_cons, hbody] at htokens
        have hbefore : m.TakesBetween (.unit none body :: others) 0 inside.length <->
            m.takes (.unit none body) = true ∧
              (m.writePiece (.unit none body)).2.TakesBetween others 0
                (inside.length - body.length) := by
          rw [takesBetween_cons, Nat.zero_sub, hbody]
          exact and_congr_left' ⟨fun h => h rfl (List.length_pos_of_ne_nil hempty),
            fun h _ _ => h⟩
        rw [write, writePiece_unit, hbefore]
        rcases List.append_eq_append_iff.mp htokens with
          ⟨more, rfl, hmore⟩ | ⟨missing, rfl, hrest⟩
        · -- Some of the tokens stand in later pieces.
          have hlater : forall t, t ∈ more -> t.isWhitespace = false := fun t ht =>
            hsolid t (List.mem_append_right _ ht)
          rcases ih (m := (m.writePiece (.unit none body)).2) hlater
            (fun other hother => hblanks other (List.mem_cons_of_mem _ hother)) hmore with
            ⟨written, back, hwrite, hbroken, hiff⟩
          rw [List.length_append, Nat.add_sub_cancel_left]
          rcases broken_unit (m := m) (hbroken.append_left body) body
            ((List.append_right_inj body).trans hiff) with ⟨hall, hallIff⟩
          refine ⟨_, back, ?_, hall, hallIff⟩
          rw [hwrite]
          simp only [List.append_assoc]
        · have hnone : inside = inside <->
              (m.writePiece (.unit none (inside ++ missing))).2.TakesBetween others 0
                (inside.length - (inside ++ missing).length) := by
            refine ⟨fun _ _ _ _ _ _ hstop => ?_, fun _ => rfl⟩
            rw [List.length_append] at hstop
            omega
          rcases broken_unit (m := m) (Broken.refl inside) (inside ++ missing) hnone with
            ⟨hall, hallIff⟩
          refine ⟨_, missing ++ ((m.writePiece (.unit none (inside ++ missing))).2.write others).1,
            ?_, hall, hallIff⟩
          simp only [List.append_assoc]

theorem writePiece_behind {piece : Piece} (hopening : opening.isWhitespace = false)
    (hblanks : forall t, t ∈ piece.blanks -> t.isWhitespace = true)
    (htokens : piece.tokens = front ++ opening :: rest) :
    exists front', (m.writePiece piece).1 = front' ++ opening :: rest := by
  have hne : forall t, t ∈ piece.blanks -> t ≠ opening := by
    rintro t ht rfl
    rw [hblanks t ht] at hopening
    cases hopening
  cases piece with
  | blank t =>
      exact ⟨front, htokens⟩
  | unit space body =>
      have hbody : exists middle, body = middle ++ opening :: rest := by
        rcases append_eq_append_cons htokens with ⟨more, _, hbody⟩ | ⟨more, hspace, _⟩
        · exact ⟨more, hbody⟩
        · have hmem : opening ∈ space.toList := by
            rw [hspace]
            simp
          exact absurd rfl (hne opening hmem)
      rcases hbody with ⟨middle, hbody⟩
      rw [writePiece]
      split
      · exact ⟨(m.passSpace space).breakToken space :: middle, by rw [hbody]; rfl⟩
      · exact ⟨space.toList ++ middle, by rw [hbody, List.append_assoc]⟩

/-- What is written behind a token that is not blank, up to the last of the tokens that
follow and are not blank either. -/
theorem write_behind (hopening : opening.isWhitespace = false)
    (hsolid : forall t, t ∈ inside -> t.isWhitespace = false)
    (hblanks : forall piece, piece ∈ pieces -> forall t, t ∈ piece.blanks ->
      t.isWhitespace = true)
    (htokens : pieces.flatMap Piece.tokens = front ++ opening :: (inside ++ rest)) :
    exists front' written back, (m.write pieces).1 = front' ++ opening :: (written ++ back) ∧
      Broken inside written ∧
      (written = inside <->
        m.TakesBetween pieces (front.length + 1) (front.length + 1 + inside.length)) := by
  induction pieces generalizing m front with
  | nil =>
      exact absurd htokens.symm (List.append_ne_nil_of_right_ne_nil _ (List.cons_ne_nil _ _))
  | cons piece others ih =>
      have hothers := fun other (hother : other ∈ others) =>
        hblanks other (List.mem_cons_of_mem _ hother)
      rw [List.flatMap_cons] at htokens
      rcases append_eq_append_cons htokens with ⟨more, rfl, hmore⟩ | ⟨more, hpiece, hmore⟩
      · -- The token stands behind the piece.
        rcases ih (m := (m.writePiece piece).2) hothers hmore with
          ⟨front', written, back, hwrite, hbroken, hiff⟩
        refine ⟨(m.writePiece piece).1 ++ front', written, back, ?_, hbroken, hiff.trans ?_⟩
        · rw [write, hwrite, List.append_assoc]
        · rw [takesBetween_cons, List.length_append,
            show piece.tokens.length + more.length + 1 - piece.tokens.length =
              more.length + 1 by omega,
            show piece.tokens.length + more.length + 1 + inside.length - piece.tokens.length =
              more.length + 1 + inside.length by omega]
          exact (and_iff_right fun hzero => absurd hzero (Nat.succ_ne_zero _)).symm
      · -- It stands in the piece, and so do some of the others.
        rcases writePiece_behind (m := m) hopening (hblanks piece List.mem_cons_self) hpiece with
          ⟨front', hwritten⟩
        have hlength : piece.tokens.length = front.length + 1 + more.length := by
          rw [hpiece, List.length_append, List.length_cons]
          omega
        rw [takesBetween_cons, and_iff_right fun hzero => absurd hzero (Nat.succ_ne_zero _),
          hlength, write, hwritten]
        rcases List.append_eq_append_iff.mp hmore with ⟨others', rfl, hrest⟩ | ⟨later, rfl, hrest⟩
        · refine ⟨front', inside,
            others' ++ ((m.writePiece piece).2.write others).1, ?_, Broken.refl inside,
            fun _ _ _ _ _ _ hstop => ?_, fun _ => rfl⟩
          · simp only [List.append_assoc, List.cons_append]
          · rw [List.length_append] at hstop
            omega
        · rcases write_solid (m := (m.writePiece piece).2)
            (fun t ht => hsolid t (List.mem_append_right _ ht)) hothers hrest with
            ⟨written, back, hwrite, hbroken, hiff⟩
          refine ⟨front', more ++ written, back, ?_, hbroken.append_left more, ?_⟩
          · rw [hwrite]
            simp only [List.append_assoc, List.cons_append]
          · rw [List.append_right_inj, hiff, List.length_append,
              show front.length + 1 - (front.length + 1 + more.length) = 0 by omega,
              show front.length + 1 + (more.length + later.length) -
                (front.length + 1 + more.length) = later.length by omega]

end Margin

/-!
# Parsed statements
-/

namespace Token

variable {tag : Option Text} {tokens after front back : List Token}

theorem Kept.isDollarQuote_eq {t other : Token} (h : t.Kept other) :
    other.isDollarQuote = t.isDollarQuote := by
  unfold isDollarQuote
  rw [h.value_eq]
  rcases h.category_eq with hsame | ⟨hwild, hoperator⟩
  · rw [hsame]
  · rw [hwild, hoperator]
    rfl

theorem Kept.isMark_eq {mark : Text} {t other : Token} (h : t.Kept other) :
    other.isMark mark = t.isMark mark := by
  rw [isMark, isMark, h.isDollarQuote_eq, h.value_eq]

theorem Kept.markAfter_eq {t other : Token} (h : t.Kept other) :
    markAfter tag other = markAfter tag t := by
  cases tag with
  | none =>
      rw [markAfter, markAfter, h.isDollarQuote_eq, h.value_eq]
  | some mark =>
      rw [markAfter, markAfter, h.isMark_eq]

theorem Enclosed.kept (h : Enclosed tag tokens) (hkept : List.Forall₂ Kept tokens after) :
    Enclosed tag after := by
  induction hkept generalizing tag with
  | nil =>
      exact h
  | @cons t other rest others hsame hrest ih =>
      cases tag with
      | none =>
          rw [Enclosed, hsame.markAfter_eq]
          exact ih h.tail
      | some mark =>
          rw [Enclosed, hsame.markAfter_eq, hsame.isMark_eq, hsame.value_eq]
          refine ⟨?_, ih h.tail⟩
          rcases h.1 with hclosing | ⟨hstring, hfree, hnext⟩
          · exact Or.inl hclosing
          · refine Or.inr ⟨?_, hfree, ?_⟩
            · rcases hsame.category_eq with heq | ⟨hwild, _⟩
              · rw [heq]
                exact hstring
              · rw [hstring] at hwild
                cases hwild
            · intro next hhead
              cases hrest with
              | nil =>
                  cases hhead
              | cons hfirst _ =>
                  cases hhead
                  rw [hfirst.isMark_eq]
                  exact hnext _ rfl

theorem Enclosed.append_left (h : Enclosed tag (front ++ back)) : Enclosed tag front := by
  induction front generalizing tag with
  | nil =>
      exact trivial
  | cons t rest ih =>
      cases tag with
      | none =>
          exact ih h.tail
      | some mark =>
          refine ⟨h.1.imp_right fun hbody => ⟨hbody.1, hbody.2.1, fun next hnext => ?_⟩,
            ih h.tail⟩
          have hhead : (rest ++ back).head? = some next := by
            rw [List.head?_append, hnext]
            rfl
          exact hbody.2.2 next hhead

theorem DollarBody.solid {mark : Text} (h : DollarBody mark tokens back) :
    forall t, t ∈ tokens -> t.isWhitespace = false := by
  have hstring : forall {t : Token}, t.category = .string -> t.isWhitespace = false := by
    intro t ht
    rw [isWhitespace, ht]
    rfl
  have hmark : forall {t : Token}, t.isMark mark = true -> t.isWhitespace = false := by
    intro t ht
    rw [isWhitespace, category_of_isDollarQuote (Bool.and_eq_true_iff.mp ht).1]
    rfl
  cases h with
  | cut =>
      exact List.forall_mem_nil _
  | empty hclosing =>
      exact List.forall_mem_singleton.mpr (hmark hclosing)
  | unclosed hbody _ =>
      exact List.forall_mem_singleton.mpr (hstring hbody)
  | closed hbody _ hclosing =>
      exact List.forall_mem_cons.mpr ⟨hstring hbody, List.forall_mem_singleton.mpr (hmark hclosing)⟩

end Token

open Token

theorem Statement.IsParsed.enclosed {s : Statement} (h : s.IsParsed) : Enclosed none s.tokens := by
  rcases h with ⟨sql, options, limit, statements, hparse, hs⟩
  rcases parse_ok hparse with ⟨config, _, hgroups⟩
  rcases exists_of_mem_forall₂ hgroups hs with ⟨flat, hflat, hgroup⟩
  rcases List.mem_map.mp hflat with ⟨part, hpart, rfl⟩
  rcases List.append_of_mem hpart with ⟨earlier, later, hsplit⟩
  have henclosed := enclosed_tokenize config sql
  have hbefore := foldl_markAfter_of_splitTokens henclosed hsplit (List.cons_ne_nil _ _)
  have hall := splitTokens_flatten (tokenize config sql)
  rw [← hall, hsplit, List.flatten_append, List.flatten_cons] at henclosed
  have hright := henclosed.append_right
  rw [hbefore] at hright
  exact hright.append_left.kept (Statement.kept_of_group hgroup)

/-- Behind an opening dollar mark the margin puts nothing but line breaks, each before a
token, up to the closing mark.  It puts none, and the text stays as it is, if and only if
all pieces that begin there fit on their lines. -/
theorem breakLines_in_dollar_body {s : Statement} (hparsed : s.IsParsed) (m : Margin)
    {front unread : List Token} {opening : Token} (htokens : s.tokens = front ++ opening :: unread)
    (hopening : opening.isDollarQuote = true) (houtside : front.foldl markAfter none = none) :
    exists inside rest, unread = inside ++ rest ∧ DollarBody opening.value inside rest ∧
      exists front' written back,
        (s.breakLines m).1.tokens = front' ++ opening :: (written ++ back) ∧
        Broken inside written ∧
        (written.flatMap Token.value = inside.flatMap Token.value <->
          m.TakesBetween s.pieces (front.length + 1) (front.length + 1 + inside.length)) := by
  rcases hparsed.wellFormed with ⟨hwf, hroot⟩
  have henclosed := hparsed.enclosed
  rw [htokens] at henclosed
  have hbehind := henclosed.append_right.tail
  rw [houtside, markAfter_opening hopening] at hbehind
  rcases hbehind.exists_body with ⟨inside, rest, rfl, hbody⟩
  have hsolid : opening.isWhitespace = false := by
    rw [isWhitespace, category_of_isDollarQuote hopening]
    rfl
  have hpieces := Statement.tokens_pieces hwf hroot
  rw [htokens] at hpieces
  rcases Margin.write_behind (m := m) hsolid hbody.solid
    (fun piece hpiece t ht => (hparsed.blanks_of_mem_pieces hpiece t ht).1) hpieces with
    ⟨front', written, back, hwrite, hbroken, hiff⟩
  refine ⟨inside, rest, rfl, hbody, front', written, back, ?_, hbroken,
    hbroken.text_eq_iff.trans hiff⟩
  rw [(Statement.breakLines_writes hwf hroot m).1, hwrite]

theorem tokenize_dollar_body :
    tokenize ⟨.generic, Vocabulary.ofDialect .generic⟩ (Text.of "$$abcdefgh$$") =
      [⟨.builtin, ['$', '$'], some 0⟩, ⟨.string, Text.of "abcdefgh", some 2⟩,
       ⟨.builtin, ['$', '$'], some 10⟩] := by
  decide

theorem exists_dollar_body :
    exists statements s, parse (Text.of "$$abcdefgh$$") {} defaultMaxDepth = .ok statements ∧
      s ∈ statements ∧
      s.tokens = [] ++ ⟨.builtin, ['$', '$'], some 0⟩ ::
        [⟨.string, Text.of "abcdefgh", some 2⟩, ⟨.builtin, ['$', '$'], some 10⟩] ∧
      (s.breakLines { width := 10 }).1.tokens =
        [⟨.builtin, ['$', '$'], some 0⟩, ⟨.string, Text.of "abcdefgh", some 2⟩,
         .blank ['\n'], ⟨.builtin, ['$', '$'], some 10⟩] := by
  rcases exists_parsed (p := fun s => s.tokens ==
        [⟨.builtin, ['$', '$'], some 0⟩, ⟨.string, Text.of "abcdefgh", some 2⟩,
         ⟨.builtin, ['$', '$'], some 10⟩] &&
      (s.breakLines { width := 10 }).1.tokens ==
        [⟨.builtin, ['$', '$'], some 0⟩, ⟨.string, Text.of "abcdefgh", some 2⟩,
         .blank ['\n'], ⟨.builtin, ['$', '$'], some 10⟩])
    tokenize_dollar_body (by decide) with ⟨statements, s, hparse, hs, hfound⟩
  rw [Bool.and_eq_true, beq_iff_eq, beq_iff_eq] at hfound
  exact ⟨statements, s, hparse, hs, hfound⟩

/-- The break before the closing mark is what the equivalence says. -/
theorem breakLines_in_dollar_body_closing :
    exists s, Statement.IsParsed s ∧
      s.tokens = [] ++ ⟨.builtin, ['$', '$'], some 0⟩ ::
        [⟨.string, Text.of "abcdefgh", some 2⟩, ⟨.builtin, ['$', '$'], some 10⟩] ∧
      (s.breakLines { width := 10 }).1.text = Text.of "$$abcdefgh\n$$" ∧
      exists inside rest,
        [⟨.string, Text.of "abcdefgh", some 2⟩, ⟨.builtin, ['$', '$'], some 10⟩] =
          inside ++ rest ∧ DollarBody ['$', '$'] inside rest ∧
        exists front' written back,
          (s.breakLines { width := 10 }).1.tokens =
            front' ++ ⟨.builtin, ['$', '$'], some 0⟩ :: (written ++ back) ∧
          Broken inside written ∧
          (written.flatMap Token.value = inside.flatMap Token.value <->
            Margin.TakesBetween { width := 10 } s.pieces 1 (1 + inside.length)) := by
  rcases exists_dollar_body with ⟨statements, s, hparse, hs, htokens, hbroken⟩
  have hparsed : s.IsParsed := ⟨_, _, _, statements, hparse, hs⟩
  refine ⟨s, hparsed, htokens, ?_,
    breakLines_in_dollar_body hparsed { width := 10 } htokens (by decide) rfl⟩
  rw [Statement.text, Tree.value, ← Statement.tokens, hbroken]
  decide

/-- A break before the closing mark becomes a part of the body. -/
theorem breakLines_changes_dollar_body :
    ¬ forall (sql : Text) (width : Nat) (statements : List Statement) (s : Statement)
      (front body back : List Token) (opening closing : Token),
      10 <= width -> parse sql {} defaultMaxDepth = .ok statements -> s ∈ statements ->
      s.tokens = front ++ opening :: (body ++ closing :: back) ->
      opening.isDollarQuote = true -> front.foldl markAfter none = none ->
      DollarBody opening.value (body ++ [closing]) back ->
      exists front' between back',
        (s.breakLines { width := width }).1.tokens =
          front' ++ opening :: (between ++ closing :: back') ∧
        between.flatMap Token.value = body.flatMap Token.value := by
  rcases exists_dollar_body with ⟨statements, s, hparse, hs, htokens, hbroken⟩
  intro hall
  rcases hall _ 10 statements s [] [⟨.string, Text.of "abcdefgh", some 2⟩] []
    ⟨.builtin, ['$', '$'], some 0⟩ ⟨.builtin, ['$', '$'], some 10⟩ (Nat.le_refl _) hparse hs
    htokens (by decide) rfl (.closed rfl (by decide) (by decide)) with
    ⟨front', between, back', hafter, htext⟩
  rw [hbroken] at hafter
  -- Each mark stands at one place only.
  have hopen : [] ++ ⟨.builtin, ['$', '$'], some 0⟩ ::
      [⟨.string, Text.of "abcdefgh", some 2⟩, Token.blank ['\n'],
        ⟨.builtin, ['$', '$'], some 10⟩] =
      front' ++ ⟨.builtin, ['$', '$'], some 0⟩ ::
        (between ++ ⟨.builtin, ['$', '$'], some 10⟩ :: back') := hafter
  have hbehind := ((List.append_cons_inj_of_notMem (by decide) (by decide)).mp hopen).2.2
  have hclose : [⟨.string, Text.of "abcdefgh", some 2⟩, Token.blank ['\n']] ++
      ⟨.builtin, ['$', '$'], some 10⟩ :: [] =
      between ++ ⟨.builtin, ['$', '$'], some 10⟩ :: back' := hbehind
  have hbetween := ((List.append_cons_inj_of_notMem (by decide) (by decide)).mp hclose).1
  rw [← hbetween] at htext
  revert htext
  decide

end SqlLayout
