import SqlLayout.Proofs.Statement
import SqlLayout.Splitting

/-!
# Splitting is a partition

The statements of a stream of tokens have its tokens in order, each token once,
and no statement is empty.
-/

namespace SqlLayout

/-!
# The first statement
-/

theorem firstStatement_append (s : BlockState) (tokens : List Token) :
    (firstStatement s tokens).1 ++ (firstStatement s tokens).2 = tokens := by
  induction tokens generalizing s with
  | nil =>
      rfl
  | cons token rest ih =>
      unfold firstStatement
      dsimp only
      split
      · exact congrArg (List.cons token) List.takeWhile_append_dropWhile
      · exact congrArg (List.cons token) (ih (s.step token))

theorem firstStatement_ne_nil (s : BlockState) (token : Token) (rest : List Token) :
    (firstStatement s (token :: rest)).1 ≠ [] := by
  unfold firstStatement
  dsimp only
  split
  · exact List.cons_ne_nil _ _
  · exact List.cons_ne_nil _ _

theorem firstStatement_shortens (s : BlockState) (token : Token) (rest : List Token) :
    (firstStatement s (token :: rest)).2.length <= rest.length := by
  have hlength := congrArg List.length (firstStatement_append s (token :: rest))
  have hpos := List.length_pos_iff.mpr (firstStatement_ne_nil s token rest)
  rw [List.length_append, List.length_cons] at hlength
  omega

/-!
# All statements
-/

theorem splitWithin_flatten {budget : Nat} {tokens : List Token}
    (h : tokens.length <= budget) : (splitWithin budget tokens).flatten = tokens := by
  induction budget generalizing tokens with
  | zero =>
      rw [List.eq_nil_of_length_eq_zero (Nat.le_zero.mp h)]
      rfl
  | succ budget ih =>
      cases tokens with
      | nil =>
          rfl
      | cons token rest =>
          have hrest := firstStatement_shortens {} token rest
          have hbudget : rest.length <= budget := Nat.le_of_succ_le_succ h
          change (firstStatement {} (token :: rest)).1 ++
            (splitWithin budget (firstStatement {} (token :: rest)).2).flatten = token :: rest
          rw [ih (Nat.le_trans hrest hbudget), firstStatement_append]

theorem splitWithin_ne_nil {budget : Nat} {tokens part : List Token}
    (h : part ∈ splitWithin budget tokens) : part ≠ [] := by
  induction budget generalizing tokens with
  | zero =>
      cases h
  | succ budget ih =>
      cases tokens with
      | nil =>
          cases h
      | cons token rest =>
          cases h with
          | head =>
              exact firstStatement_ne_nil {} token rest
          | tail _ htail =>
              exact ih htail

theorem splitStatements_tokens (tokens : List Token) :
    (splitStatements tokens).flatMap Statement.tokens = tokens := by
  unfold splitStatements
  rw [List.flatMap_map, funext Statement.tokens_ofTokens, List.flatMap_id']
  exact splitWithin_flatten (Nat.le_refl _)

theorem within_of_mem_splitStatements {tokens : List Token} {s : Statement}
    (h : s ∈ splitStatements tokens) : s.tokens <:+: tokens := by
  rcases List.append_of_mem h with ⟨front, back, hsplit⟩
  have htokens := splitStatements_tokens tokens
  rw [hsplit, List.flatMap_append, List.flatMap_cons, ← List.append_assoc] at htokens
  exact ⟨_, _, htokens⟩

theorem exists_of_mem_splitStatements {tokens : List Token} {s : Statement}
    (h : s ∈ splitStatements tokens) :
    exists part, part ≠ [] ∧ s = Statement.ofTokens part := by
  rcases List.mem_map.mp h with ⟨part, hpart, heq⟩
  exact ⟨part, splitWithin_ne_nil hpart, heq.symm⟩

end SqlLayout
