import SqlLayout.Proofs.Lexer.Pieces
import SqlLayout.Proofs.Splitting.Boundaries
import SqlLayout.Proofs.Text.Trimming

/-!
# The tokens of a statement read by itself

A statement is cut out of its text and trimmed.  Its tokens are read again from what is
left, those behind the cut aside, and shorter tokens do not change how the statement is
read.  Only a line comment of which nothing but a number sign is left is read as an
operator.
-/

namespace SqlLayout

open BlockState

/-!
# Shorter tokens
-/

namespace Token.CutTo

variable {token token' : Token}

theorem plain_or_value (h : token.CutTo token') :
    token'.value = token.value ∨
      (forall other : Token, other.category = token.category ->
        other.isKeyword = false ∧ other.isDollarQuote = false ∧ other.isSemicolon = false) := by
  have hplain : token.category = .lineComment ∨ token.category = .lineHint ∨
      token.category = .string ->
      forall other : Token, other.category = token.category ->
        other.isKeyword = false ∧ other.isDollarQuote = false ∧ other.isSemicolon = false := by
    intro hkind other hsame
    unfold Token.isKeyword Token.isDollarQuote Token.isSemicolon Token.isPunctuationIn Token.hits
    rw [hsame]
    rcases hkind with hkind | hkind | hkind
    · rw [hkind]
      exact ⟨rfl, rfl, rfl⟩
    · rw [hkind]
      exact ⟨rfl, rfl, rfl⟩
    · rw [hkind]
      exact ⟨rfl, rfl, rfl⟩
  exact h.value.imp_right hplain

theorem trails_eq (h : token.CutTo token') : token'.trails = token.trails := by
  unfold Token.trails
  rw [h.category]

theorem isSemicolon_eq (h : token.CutTo token') : token'.isSemicolon = token.isSemicolon := by
  rcases h.plain_or_value with hvalue | hplain
  · unfold Token.isSemicolon Token.isPunctuationIn Token.hits Token.normalized Token.isKeyword
    rw [h.category, hvalue]
  · rw [(hplain token' h.category).2.2, (hplain token rfl).2.2]

theorem step_eq (h : token.CutTo token') (s : BlockState) : s.step token' = s.step token := by
  rcases h.plain_or_value with hvalue | hplain
  · unfold BlockState.step Token.normalized Token.isKeyword
    rw [h.category, hvalue]
  · rcases hplain token' h.category with ⟨hword', hmark', _⟩
    rcases hplain token rfl with ⟨hword, hmark, _⟩
    rw [step_plain hword' hmark', step_plain hword hmark]

theorem isEnd_eq (h : token.CutTo token') (s : BlockState) : s.isEnd token' = s.isEnd token :=
  congrArg (decide (s.level <= 0) && ·) h.isSemicolon_eq

end Token.CutTo

open Token (CutTo)

variable {s t : BlockState} {tokens tokens' : List Token}

theorem exists_of_cutTo_append {front back : List Token}
    (h : List.Forall₂ CutTo (front ++ back) tokens') :
    exists front' back', tokens' = front' ++ back' ∧ List.Forall₂ CutTo front front' ∧
      List.Forall₂ CutTo back back' := by
  refine ⟨tokens'.take front.length, tokens'.drop front.length, ?_, ?_, ?_⟩
  · rw [List.take_append_drop]
  · exact (List.forall₂_take_append tokens' front back h.flip).flip
  · exact (List.forall₂_drop_append tokens' front back h.flip).flip

theorem reads_of_cutTo (h : Reads s tokens t) (hcut : List.Forall₂ CutTo tokens tokens') :
    Reads s tokens' t := by
  induction h generalizing tokens' with
  | nil =>
      cases hcut
      exact Reads.nil
  | cons hend _ ih =>
      cases hcut with
      | cons hfirst hrest =>
          rw [← hfirst.isEnd_eq, ← hfirst.step_eq] at hend
          refine Reads.cons hend ?_
          rw [hfirst.step_eq]
          exact ih hrest

theorem trails_of_cutTo (hcut : List.Forall₂ CutTo tokens tokens')
    (h : forall token, token ∈ tokens -> token.trails = true) :
    forall token, token ∈ tokens' -> token.trails = true := by
  induction hcut with
  | nil =>
      exact h
  | cons hfirst _ ih =>
      rw [List.forall_mem_cons] at h ⊢
      exact ⟨hfirst.trails_eq.trans h.1, ih h.2⟩

/-!
# Statements that are over
-/

def Ended (s : BlockState) (tokens : List Token) : Prop :=
  exists read semicolon trailing, tokens = read ++ semicolon :: trailing ∧
    Reads s read (s.after read) ∧ semicolon.isSemicolon = true ∧ (s.after read).level <= 0 ∧
    forall token, token ∈ trailing -> token.trails = true

theorem firstStatement_of_ended (h : Ended s tokens) (rest : List Token) :
    firstStatement s (tokens ++ rest) =
      (tokens ++ rest.takeWhile Token.trails, rest.dropWhile Token.trails) := by
  rcases h with ⟨read, semicolon, trailing, rfl, hreads, hsemicolon, hlevel, htrailing⟩
  rw [List.append_assoc, List.cons_append, firstStatement_of_semicolon hreads hsemicolon hlevel,
    List.takeWhile_append_of_pos htrailing, List.dropWhile_append_of_pos htrailing,
    List.append_assoc, List.cons_append]

theorem reads_or_ended (h : firstStatement s tokens = (tokens, [])) :
    Reads s tokens (s.after tokens) ∨ Ended s tokens := by
  rcases firstStatement_cases s tokens with ⟨hreads, _⟩ |
    ⟨read, semicolon, rest, rfl, hreads, hsemicolon, hlevel⟩
  · exact Or.inl hreads
  · rw [firstStatement_of_semicolon hreads hsemicolon hlevel, Prod.mk.injEq,
      List.dropWhile_eq_nil_iff] at h
    exact Or.inr ⟨read, semicolon, rest, rfl, hreads, hsemicolon, hlevel, h.2⟩

theorem Ended.of_cutTo (h : Ended s tokens) (hcut : List.Forall₂ CutTo tokens tokens') :
    Ended s tokens' := by
  rcases h with ⟨read, semicolon, trailing, rfl, hreads, hsemicolon, hlevel, htrailing⟩
  rcases exists_of_cutTo_append hcut with ⟨read', rest', rfl, hread, hrest⟩
  cases hrest with
  | @cons _ semicolon' _ trailing' hfirst htrail =>
      have hreads' := reads_of_cutTo hreads hread
      refine ⟨read', semicolon', trailing', rfl, ?_, hfirst.isSemicolon_eq.trans hsemicolon, ?_,
        trails_of_cutTo htrail htrailing⟩
      · rw [hreads'.after_eq]
        exact hreads'
      · rw [hreads'.after_eq]
        exact hlevel

theorem firstStatement_of_cutTo (h : firstStatement s tokens = (tokens, []))
    (hcut : List.Forall₂ CutTo tokens tokens') : firstStatement s tokens' = (tokens', []) := by
  rcases reads_or_ended h with hreads | hended
  · have hfirst := firstStatement_of_reads (reads_of_cutTo hreads hcut) []
    rw [List.append_nil] at hfirst
    rw [hfirst]
    exact Prod.ext (List.append_nil _) rfl
  · have hfirst := firstStatement_of_ended (hended.of_cutTo hcut) []
    rw [List.append_nil] at hfirst
    rw [hfirst]
    exact Prod.ext (List.append_nil _) rfl

/-!
# Two readings of a statement
-/

def EndsInEmptyComment (front tokens : List Token) : Prop :=
  exists comment blanks, tokens = front ++ comment :: blanks ∧ comment.category = .lineComment ∧
    comment.value.trimEnd = ['#'] ∧
    forall c, c ∈ blanks.flatMap Token.value -> Text.isBlank c = true

theorem EndsInEmptyComment.hash_mem {front tokens : List Token}
    (h : EndsInEmptyComment front tokens) :
    '#' ∈ tokens.flatMap Token.value := by
  rcases h with ⟨comment, blanks, rfl, _, hvalue, _⟩
  rcases Text.exists_trimEnd comment.value with ⟨rest, hrest, _, _⟩
  rw [hvalue] at hrest
  rw [List.flatMap_append, List.flatMap_cons, hrest]
  exact List.mem_append_right _ (List.mem_append_left _ (List.mem_append_left _
    (List.mem_singleton_self '#')))

def Closes (behind : Text) (tokens : List Token) : Prop :=
  (forall c, c ∈ behind -> Text.isBlank c = true) ∨ EndsAtSemicolon tokens ∨
    forall token, token ∈ tokens -> token.trails = true

theorem Closes.tail {behind : Text} {token : Token} {tokens : List Token}
    (h : Closes behind (token :: tokens)) : Closes behind tokens := by
  refine h.imp_right fun hends => ?_
  rcases hends with ⟨read, semicolon, trailing, heq, hsemicolon, htrailing⟩ | htrailing
  · cases read with
    | nil =>
        rw [List.nil_append, List.cons.injEq] at heq
        rw [heq.2]
        exact Or.inr htrailing
    | cons first read =>
        rw [List.cons_append, List.cons.injEq] at heq
        exact Or.inl ⟨read, semicolon, trailing, heq.2, hsemicolon, htrailing⟩
  · exact Or.inr fun other hother => htrailing other (List.mem_cons_of_mem _ hother)

theorem value_of_isSemicolon {token : Token} (h : token.isSemicolon = true) :
    token.value = [';'] := by
  have hword := Token.isKeyword_of_isSemicolon h
  unfold Token.isSemicolon Token.isPunctuationIn Token.hits at h
  rw [hword] at h
  have hboth : token.category = .punctuation ∧ token.value = [';'] := by
    simpa using h
  exact hboth.2

theorem category_of_trails {token : Token} (h : token.trails = true) :
    token.category = .whitespace ∨ token.category = .lineComment := by
  unfold Token.trails at h
  rw [Bool.or_eq_true, beq_iff_eq, beq_iff_eq] at h
  exact h

/-- The tokens that are left of a statement, at two places: where they were read, and
where what is left of the trimmed statement is read by itself. -/
structure Portion (scan scan' : Scan) (tokens : List Token) (front behind trailing : Text) :
    Prop where
  parted : Scan.Parted scan scan' front behind
  cut : CutOff front behind
  text : tokens.flatMap Token.value = front ++ trailing
  blank : forall c, c ∈ trailing -> Text.isBlank c = true
  closes : Closes behind tokens

namespace Portion

variable {config : LexerConfig} {scan scan' after : Scan} {token : Token} {later : List Token}
  {front behind trailing : Text}

theorem unseen (h : Portion scan scan' (token :: tokens) front behind trailing) :
    Rule.Unseen front behind ∨ token.category = .whitespace ∨ token.category = .lineComment := by
  rcases h.closes with hblank | ⟨read, semicolon, trail, heq, hsemicolon, _⟩ | htrailing
  · exact Or.inl (Or.inl hblank)
  · left
    right
    have hmem : ';' ∈ front ++ trailing := by
      rw [← h.text, heq, List.flatMap_append, List.flatMap_cons, value_of_isSemicolon hsemicolon]
      exact List.mem_append_right _ (List.mem_append_left _ (List.mem_singleton_self ';'))
    rcases List.mem_append.mp hmem with hfront | htrail
    · exact hfront
    · exact absurd (h.blank ';' htrail) (by decide)
  · exact Or.inr (category_of_trails (htrailing token List.mem_cons_self))

theorem next? (h : Portion scan scan' (token :: tokens) front behind trailing)
    (hwordy : config.vocabulary.Wordy) (hnext : scan.next? config = some (token, after))
    (hkept : ¬ (config.dialect = .generic ∧ front = ['#'] ∧ token.category = .lineComment)) :
    exists token' after', scan'.next? config = some (token', after') ∧ token.CutTo token' ∧
      ((exists rest, Portion after after' tokens rest behind trailing) ∨
        after'.rest = [] ∧ forall c, c ∈ tokens.flatMap Token.value -> Text.isBlank c = true) := by
  have htext := h.text
  rw [List.flatMap_cons] at htext
  have hexcess : forall c, c ∈ token.value.drop front.length -> Text.isBlank c = true := by
    rcases List.append_eq_append_iff.mp htext with ⟨inner, hfront, _⟩ | ⟨beyond, hvalue, htrailing⟩
    · rw [hfront, List.length_append, List.drop_eq_nil_of_le (Nat.le_add_right _ _)]
      exact nofun
    · rw [hvalue, List.drop_left]
      intro c hc
      apply h.blank
      rw [htrailing]
      exact List.mem_append_left _ hc
  rcases h.parted.next?_cut h.cut hwordy hnext h.unseen hexcess hkept with
    ⟨token', after', hnext', hcut, ⟨rest, hfront, hparted⟩ | ⟨⟨beyond, hvalue⟩, hdone⟩⟩
  · refine ⟨token', after', hnext', hcut, ?_⟩
    rw [hfront, List.append_assoc, List.append_cancel_left_eq] at htext
    rcases eq_or_ne rest [] with rfl | hne
    · refine Or.inr ⟨hparted.part, ?_⟩
      rw [htext]
      exact h.blank
    · have hcutOff := h.cut
      rw [hfront] at hcutOff
      exact Or.inl ⟨rest, hparted, hcutOff.tail hne, htext, h.blank, h.closes.tail⟩
  · refine ⟨token', after', hnext', hcut, Or.inr ⟨hdone, ?_⟩⟩
    rw [← hvalue, List.append_assoc, List.append_cancel_left_eq] at htext
    intro c hc
    apply h.blank
    rw [← htext]
    exact List.mem_append_right _ hc

theorem front_of_emptyComment (h : Portion scan scan' tokens front behind trailing)
    (hempty : EndsInEmptyComment [] tokens) : front = ['#'] := by
  rcases hempty with ⟨comment, blanks, rfl, _, hvalue, hblanks⟩
  have htrim := congrArg Text.trimEnd h.text
  rw [List.nil_append, List.flatMap_cons, Text.trimEnd_append_blanks hblanks, hvalue,
    Text.trimEnd_append h.cut.solid h.blank] at htrim
  exact htrim.symm

theorem emptyComment_of_front (h : Portion scan scan' (token :: tokens) ['#'] behind trailing)
    (hvalue : token.value ≠ []) (hcategory : token.category = .lineComment) :
    EndsInEmptyComment [] (token :: tokens) := by
  have htext := h.text
  rcases List.exists_cons_of_ne_nil hvalue with ⟨c, rest, hrest⟩
  rw [List.flatMap_cons, hrest, List.cons_append, List.singleton_append, List.cons.injEq] at htext
  rcases htext with ⟨rfl, htext⟩
  have hblank := h.blank
  rw [← htext] at hblank
  refine ⟨token, tokens, rfl, hcategory, ?_, fun c hc => hblank c (List.mem_append_right _ hc)⟩
  rw [hrest, ← List.singleton_append]
  apply Text.trimEnd_append
  · intro c hc
    cases hc
    rfl
  · exact fun c hc => hblank c (List.mem_append_left _ hc)

/-- Up to the cut the statement is read by itself as it was, unless it ends in an empty
comment. -/
theorem emits (h : Portion scan scan' tokens front behind trailing)
    (hwordy : config.vocabulary.Wordy) (hready : scan.Ready)
    (hemits : Scan.Emits config scan (tokens ++ later))
    (hkept : config.dialect = .generic -> forall early, ¬ EndsInEmptyComment early tokens) :
    exists kept rest read, tokens = kept ++ rest ∧ Scan.Emits config scan' read ∧
      List.Forall₂ CutTo kept read := by
  induction tokens generalizing scan scan' front with
  | nil =>
      have hnil := h.text
      rw [List.flatMap_nil, eq_comm, List.append_eq_nil_iff] at hnil
      exact absurd hnil.1 h.cut.ne_nil
  | cons token tokens ih =>
      cases hemits with
      | @emit _ after _ _ hnext htail =>
          rcases Scan.next?_spec hready hnext with ⟨hvalue, _, _, _, hafter⟩
          have hnot : ¬ (config.dialect = .generic ∧ front = ['#'] ∧
              token.category = .lineComment) := by
            rintro ⟨hgeneric, rfl, hcategory⟩
            exact hkept hgeneric [] (h.emptyComment_of_front hvalue hcategory)
          rcases h.next? hwordy hnext hnot with
            ⟨token', after', hnext', hcut, ⟨rest, hrest⟩ | ⟨hdone, _⟩⟩
          · have hkept' : config.dialect = .generic ->
                forall early, ¬ EndsInEmptyComment early tokens := by
              rintro hgeneric early ⟨comment, blanks, rfl, hcomment⟩
              exact hkept hgeneric (token :: early) ⟨comment, blanks, rfl, hcomment⟩
            rcases ih hrest hafter htail hkept' with ⟨kept, unread, read, heq, hread, hcuts⟩
            exact ⟨token :: kept, unread, token' :: read, by rw [heq, List.cons_append],
              Scan.Emits.emit hnext' hread, List.Forall₂.cons hcut hcuts⟩
          · exact ⟨[token], tokens, [token'], rfl,
              Scan.Emits.emit hnext' (Scan.Emits.stop (Scan.next?_eq_none_iff.mpr hdone)),
              List.Forall₂.cons hcut List.Forall₂.nil⟩

theorem emits_hash {early : List Token} (h : Portion scan scan' tokens front behind trailing)
    (hwordy : config.vocabulary.Wordy) (hdialect : config.dialect = .generic) (hready : scan.Ready)
    (hemits : Scan.Emits config scan (tokens ++ later)) (hempty : EndsInEmptyComment early tokens) :
    exists read operator, Scan.Emits config scan' (read ++ [operator]) ∧
      List.Forall₂ CutTo early read ∧ operator.category = .operator ∧ operator.value = ['#'] := by
  induction early generalizing scan scan' front tokens with
  | nil =>
      have hfront := h.front_of_emptyComment hempty
      rcases hempty with ⟨comment, blanks, rfl, hcategory, _, _⟩
      subst hfront
      cases hemits with
      | emit hnext _ =>
          rcases h.parted.next?_hash hdialect hnext hcategory with
            ⟨operator, after', hnext', hoperator, hvalue, hdone⟩
          exact ⟨[], operator,
            Scan.Emits.emit hnext' (Scan.Emits.stop (Scan.next?_eq_none_iff.mpr hdone)),
            List.Forall₂.nil, hoperator, hvalue⟩
  | cons token early ih =>
      rcases hempty with ⟨comment, blanks, rfl, hcomment⟩
      have hrest : EndsInEmptyComment early (early ++ comment :: blanks) :=
        ⟨comment, blanks, rfl, hcomment⟩
      cases hemits with
      | @emit _ after _ _ hnext htail =>
          rcases Scan.next?_spec hready hnext with ⟨hvalue, _, _, _, hafter⟩
          have hnot : ¬ (config.dialect = .generic ∧ front = ['#'] ∧
              token.category = .lineComment) := by
            -- The number sign of the comment stands behind the token.
            rintro ⟨_, rfl, hcategory⟩
            rcases h.emptyComment_of_front hvalue hcategory with ⟨_, others, heq, _, _, hblank⟩
            cases heq
            exact absurd (hblank '#' hrest.hash_mem) (by decide)
          rcases h.next? hwordy hnext hnot with
            ⟨token', after', hnext', hcut, ⟨rest, hportion⟩ | ⟨_, hblank⟩⟩
          · rcases ih hportion hafter htail hrest with ⟨read, operator, hread, hcuts, hoperator⟩
            exact ⟨token' :: read, operator, Scan.Emits.emit hnext' hread,
              List.Forall₂.cons hcut hcuts, hoperator⟩
          · exact absurd (hblank '#' hrest.hash_mem) (by decide)

end Portion
end SqlLayout
