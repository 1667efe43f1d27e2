import SqlLayout.Splitting
import SqlLayout.Proofs.Grouping.Leaves
import SqlLayout.Proofs.Lexer.Coverage
import SqlLayout.Proofs.Splitting

/-!
# Reading a text loses nothing

The texts of the statements, grouped or not, are the text that they were read
from.
-/

namespace SqlLayout

theorem readStatements_text (config : LexerConfig) (sql : Text) :
    (readStatements config sql).flatMap Statement.text = sql := by
  unfold readStatements
  have htext : Statement.text = fun s : Statement => s.tokens.flatMap Token.value := rfl
  rw [htext, ← List.flatMap_assoc, splitStatements_tokens, tokenize_spells]

theorem Statement.text_of_group {tokens : List Token} {after : Statement} {limit : Nat}
    (h : (ofTokens tokens).group limit = .ok after) : after.text = (ofTokens tokens).text := by
  have htext := text_groupInPlace (wellFormed_ofTokens tokens) (root_lt_size tokens)
    (parent?_root tokens) limit
  rw [group_ok_iff.mp h] at htext
  exact htext

theorem forall₂_of_mapM_ok {alpha beta error : Type} {f : alpha -> Except error beta}
    {items : List alpha} {results : List beta} (h : items.mapM f = .ok results) :
    List.Forall₂ (fun a b => f a = .ok b) items results := by
  induction items generalizing results with
  | nil =>
      cases h
      exact List.Forall₂.nil
  | cons a rest ih =>
      rw [List.mapM_cons] at h
      cases ha : f a with
      | error e =>
          rw [ha] at h
          cases h
      | ok b =>
          rw [ha] at h
          cases hrest : rest.mapM f with
          | error e =>
              rw [hrest] at h
              cases h
          | ok others =>
              rw [hrest] at h
              cases h
              exact List.Forall₂.cons ha (ih hrest)

theorem exists_of_mem_forall₂ {alpha beta : Type} {related : alpha -> beta -> Prop}
    {items : List alpha} {results : List beta} (h : List.Forall₂ related items results)
    {b : beta} (hb : b ∈ results) : exists a, a ∈ items ∧ related a b := by
  induction h with
  | nil =>
      cases hb
  | cons hrel _ ih =>
      cases hb with
      | head =>
          exact ⟨_, List.mem_cons_self, hrel⟩
      | tail _ htail =>
          rcases ih htail with ⟨a, ha, hab⟩
          exact ⟨a, List.mem_cons_of_mem _ ha, hab⟩

theorem parse_ok {sql : Text} {options : LexerOptions} {limit : Nat}
    {statements : List Statement} (h : parse sql options limit = .ok statements) :
    exists config, options.check = .ok config ∧
      List.Forall₂ (fun s after => s.group limit = .ok after) (readStatements config sql)
        statements := by
  unfold parse at h
  cases hcheck : options.check with
  | error e =>
      rw [hcheck] at h
      cases h
  | ok config =>
      rw [hcheck] at h
      exact ⟨config, rfl, forall₂_of_mapM_ok h⟩

theorem Statement.wellFormed_of_group {tokens : List Token} {after : Statement} {limit : Nat}
    (h : (ofTokens tokens).group limit = .ok after) :
    after.tree.WellFormed ∧ after.tree.isGroup after.root = true := by
  have hwf := wellFormed_ofTokens tokens
  have hsteps := (groupInPlace_steps hwf limit).steps
  have hroot := root_groupInPlace (ofTokens tokens) limit
  rw [group_ok_iff.mp h] at hsteps hroot
  refine ⟨Tree.groupStep_keepsWellFormed.run hwf hsteps, ?_⟩
  rw [hroot]
  exact Tree.isGroup_of_steps hsteps (isGroup_root tokens)

theorem parse_wellFormed {sql : Text} {options : LexerOptions} {limit : Nat}
    {statements : List Statement} (h : parse sql options limit = .ok statements)
    {s : Statement} (hs : s ∈ statements) :
    s.tree.WellFormed ∧ s.tree.isGroup s.root = true := by
  rcases parse_ok h with ⟨config, _, hgroups⟩
  rcases exists_of_mem_forall₂ hgroups hs with ⟨flat, hflat, hgroup⟩
  rcases exists_of_mem_splitStatements hflat with ⟨tokens, _, rfl⟩
  exact Statement.wellFormed_of_group hgroup

theorem exists_parsed {sql : Text} {tokens : List Token} {p : Statement -> Bool}
    (htokens : tokenize ⟨.generic, Vocabulary.ofDialect .generic⟩ sql = tokens)
    (h : ((splitStatements tokens).mapM
      fun (s : Statement) => s.group defaultMaxDepth).toOption.any
        (fun statements => statements.any p) = true) :
    exists statements s, parse sql {} defaultMaxDepth = .ok statements ∧ s ∈ statements ∧
      p s = true := by
  have hparse : parse sql {} defaultMaxDepth =
      (splitStatements tokens).mapM fun s => s.group defaultMaxDepth := by
    rw [← htokens]
    rfl
  rw [← hparse] at h
  cases hresult : parse sql {} defaultMaxDepth with
  | error e =>
      rw [hresult] at h
      cases h
  | ok statements =>
      rw [hresult] at h
      rcases List.any_eq_true.mp h with ⟨s, hs, hp⟩
      exact ⟨statements, s, rfl, hs, hp⟩

theorem texts_of_group {limit : Nat} {flat grouped : List Statement}
    (hflat : forall s, s ∈ flat -> exists tokens, s = Statement.ofTokens tokens)
    (h : List.Forall₂ (fun s after => s.group limit = .ok after) flat grouped) :
    grouped.map Statement.text = flat.map Statement.text := by
  induction h with
  | nil =>
      rfl
  | @cons s after flat grouped hgroup _ ih =>
      rcases hflat s (by simp) with ⟨tokens, rfl⟩
      rw [List.map_cons, List.map_cons, Statement.text_of_group hgroup,
        ih fun s hs => hflat s (by simp [hs])]

theorem parse_texts {sql : Text} {options : LexerOptions} {limit : Nat}
    {statements : List Statement} (h : parse sql options limit = .ok statements) :
    exists config, options.check = .ok config ∧
      statements.map Statement.text = (readStatements config sql).map Statement.text := by
  rcases parse_ok h with ⟨config, hcheck, hgroups⟩
  refine ⟨config, hcheck, texts_of_group ?_ hgroups⟩
  intro s hs
  rcases exists_of_mem_splitStatements hs with ⟨tokens, _, heq⟩
  exact ⟨tokens, heq⟩

/-- The statements of a stream are not empty and have its tokens in order.  Hence
the texts of the grouped statements together are the text they were read from,
and trimmed and without the empty ones they are what splitting gives. -/
theorem splitting_lossless :
    (forall tokens : List Token,
      (splitStatements tokens).flatMap Statement.tokens = tokens ∧
        forall s, s ∈ splitStatements tokens -> s.tokens ≠ []) ∧
    (forall (sql : Text) (options : LexerOptions) (limit : Nat) (statements : List Statement),
      parse sql options limit = .ok statements ->
        statements.flatMap Statement.text = sql ∧
          split sql options =
            .ok ((statements.map fun s => s.text.trim).filter fun text => !text.isEmpty)) := by
  constructor
  · intro tokens
    refine ⟨splitStatements_tokens tokens, ?_⟩
    intro s hs
    rcases exists_of_mem_splitStatements hs with ⟨part, hpart, rfl⟩
    rw [Statement.tokens_ofTokens]
    exact hpart
  · intro sql options limit statements h
    rcases parse_texts h with ⟨config, hcheck, htexts⟩
    constructor
    · rw [List.flatMap_def, htexts, ← List.flatMap_def, readStatements_text]
    · have htrimmed : statements.map (fun s => s.text.trim) =
          (readStatements config sql).map fun s => s.text.trim := by
        have hmap := congrArg (List.map Text.trim) htexts
        rw [List.map_map, List.map_map] at hmap
        exact hmap
      unfold split
      rw [hcheck, htrimmed]
      rfl

theorem tokenize_two_statements :
    tokenize ⟨.generic, Vocabulary.ofDialect .generic⟩ (Text.of "a; b") =
      [⟨.name, ['a'], some 0⟩, ⟨.punctuation, [';'], some 1⟩, ⟨.whitespace, [' '], some 2⟩,
       ⟨.name, ['b'], some 3⟩] := by
  decide

theorem splitting_lossless_two_statements :
    exists statements, parse (Text.of "a; b") {} defaultMaxDepth = .ok statements ∧
      statements.flatMap Statement.text = Text.of "a; b" ∧
      split (Text.of "a; b") {} =
        .ok ((statements.map fun s => s.text.trim).filter fun text => !text.isEmpty) := by
  have hparse : (parse (Text.of "a; b") {} defaultMaxDepth).isOk = true := by
    have hcheck :
        ({} : LexerOptions).check = .ok ⟨.generic, Vocabulary.ofDialect .generic⟩ := rfl
    unfold parse readStatements
    rw [hcheck]
    dsimp only [bind, Except.bind]
    rw [tokenize_two_statements]
    decide
  cases hresult : parse (Text.of "a; b") {} defaultMaxDepth with
  | error e =>
      rw [hresult] at hparse
      cases hparse
  | ok statements =>
      exact ⟨statements, rfl, splitting_lossless.2 _ _ _ statements hresult⟩

end SqlLayout
