import Mathlib.Data.List.Chain
import SqlLayout.Proofs.Layout.Comments
import SqlLayout.Proofs.Lexer.Pieces

/-!
# The blanks of a parsed statement

A token for blanks has blank characters only, and it takes all of them that stand in a
row, so no two such tokens come one after the other.
-/

namespace SqlLayout

def Token.BlanksApart (tokens : List Token) : Prop :=
  tokens.IsChain fun token next => token.isWhitespace = true -> next.isWhitespace = false

theorem Token.BlanksApart.kept {tokens after : List Token} (h : BlanksApart tokens)
    (hkept : List.Forall₂ Kept tokens after) : BlanksApart after := by
  induction hkept with
  | nil =>
      exact List.IsChain.nil
  | @cons token after tokens others hsame hrest ih =>
      rw [BlanksApart, List.isChain_cons] at h ⊢
      refine ⟨?_, ih h.2⟩
      intro next hnext hblank
      cases hrest with
      | nil =>
          cases hnext
      | cons hother _ =>
          cases hnext
          rw [hother.isWhitespace_eq]
          exact h.1 _ rfl (hsame.isWhitespace_eq.symm.trans hblank)

namespace Scan

variable {config : LexerConfig} {scan after : Scan} {token : Token} {tokens : List Token}

theorem Emits.blanks (hwordy : config.vocabulary.Wordy) (h : Emits config scan tokens) :
    forall token, token ∈ tokens -> token.isWhitespace = true ->
      forall c, c ∈ token.value -> Text.isBlank c = true := by
  induction h with
  | stop _ =>
      intro token hmem
      cases hmem
  | emit hnext _ ih =>
      intro token hmem
      cases hmem with
      | head =>
          intro hspace c hc
          exact blank_of_next? hwordy hnext (Token.category_of_isWhitespace hspace) hc
      | tail _ htail =>
          exact ih token htail

theorem first_of_blank (hwordy : config.vocabulary.Wordy)
    (hnext : scan.next? config = some (token, after)) (hblank : token.isWhitespace = true) :
    exists c rest, scan.rest = c :: rest ∧ Text.isBlank c = true := by
  have hcategory := Token.category_of_isWhitespace hblank
  rcases exists_rule_of_next? hwordy hnext (Or.inl hcategory) with
    ⟨rule, n, _, _, hmatch, hvalue, _⟩
  rcases next?_outcome hnext with ⟨_, _, _, c, rest, hrest⟩
  refine ⟨c, rest, hrest, blank_of_next? hwordy hnext hcategory ?_⟩
  rw [hvalue, hrest]
  cases n with
  | zero =>
      exact absurd (Rule.matchLength?_pos hmatch) (Nat.lt_irrefl 0)
  | succ n =>
      exact List.mem_cons_self

theorem rest_of_blank (hwordy : config.vocabulary.Wordy)
    (hnext : scan.next? config = some (token, after)) (hblank : token.isWhitespace = true) :
    after.rest = scan.rest.dropWhile Text.isBlank := by
  rcases first_of_blank hwordy hnext hblank with ⟨c, rest, hrest, hc⟩
  have hcategory := Token.category_of_isWhitespace hblank
  have htag := (outside_of_category hnext (by rw [hcategory]; exact nofun)
    (by rw [hcategory]; exact nofun)).1
  refine (next?_blanks htag (List.takeWhile_append_dropWhile).symm ?_ ?_ ?_ hnext).2.2.1
  · rw [hrest, List.takeWhile_cons_of_pos hc]
    exact List.cons_ne_nil _ _
  · exact fun c hc => List.mem_takeWhile_imp hc
  · intro d hd
    have hnot := List.head?_dropWhile_not Text.isBlank scan.rest
    rw [hd] at hnot
    exact hnot

theorem Emits.blanksApart (hwordy : config.vocabulary.Wordy) (h : Emits config scan tokens) :
    Token.BlanksApart tokens := by
  induction h with
  | stop _ =>
      exact List.IsChain.nil
  | @emit scan after token tokens hnext hrest ih =>
      rw [Token.BlanksApart, List.isChain_cons]
      refine ⟨?_, ih⟩
      intro next hhead hblank
      cases hrest with
      | stop _ =>
          cases hhead
      | emit hlater _ =>
          cases hhead
          apply Bool.eq_false_iff.mpr
          intro hother
          rcases first_of_blank hwordy hlater hother with ⟨c, rest, hstart, hc⟩
          have hnot := List.head?_dropWhile_not Text.isBlank scan.rest
          rw [← rest_of_blank hwordy hnext hblank, hstart] at hnot
          rw [show Text.isBlank c = false from hnot] at hc
          cases hc

end Scan

/-!
# Parsed statements
-/

/-- The tokens of a parsed statement are read from the text in a row.  Grouping may make
operators of wildcards. -/
theorem exists_tokens_of_parse {sql : Text} {options : LexerOptions} {limit : Nat}
    {statements : List Statement} (h : parse sql options limit = .ok statements)
    {s : Statement} (hs : s ∈ statements) :
    exists config tokens, options.check = .ok config ∧ tokens <:+: tokenize config sql ∧
      List.Forall₂ Token.Kept tokens s.tokens := by
  rcases parse_ok h with ⟨config, hcheck, hgroups⟩
  rcases exists_of_mem_forall₂ hgroups hs with ⟨flat, hflat, hgroup⟩
  rcases exists_of_mem_splitStatements hflat with ⟨part, _, rfl⟩
  have hpart := within_of_mem_splitStatements hflat
  rw [Statement.tokens_ofTokens] at hpart
  exact ⟨config, part, hcheck, hpart, Statement.kept_of_group hgroup⟩

theorem blanks_of_parse {sql : Text} {options : LexerOptions} {limit : Nat}
    {statements : List Statement} (h : parse sql options limit = .ok statements)
    {s : Statement} (hs : s ∈ statements) :
    forall token, token ∈ s.tokens -> token.isWhitespace = true ->
      forall c, c ∈ token.value -> Text.isBlank c = true := by
  rcases exists_tokens_of_parse h hs with ⟨config, tokens, hcheck, hpart, hkept⟩
  intro token htoken hspace
  rcases exists_of_mem_forall₂ hkept htoken with ⟨old, hold, hsame⟩
  rw [hsame.value_eq]
  rw [hsame.isWhitespace_eq] at hspace
  exact (emits_tokenize config sql).blanks (wordy_of_check hcheck) old
    (hpart.subset hold) hspace

theorem blanksApart_of_parse {sql : Text} {options : LexerOptions} {limit : Nat}
    {statements : List Statement} (h : parse sql options limit = .ok statements)
    {s : Statement} (hs : s ∈ statements) : Token.BlanksApart s.tokens := by
  rcases exists_tokens_of_parse h hs with ⟨config, tokens, hcheck, hpart, hkept⟩
  have hread := List.IsChain.infix
    ((emits_tokenize config sql).blanksApart (wordy_of_check hcheck)) hpart
  exact Token.BlanksApart.kept hread hkept

end SqlLayout
