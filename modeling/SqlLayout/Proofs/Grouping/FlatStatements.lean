import SqlLayout.Proofs.Grouping.Layering
import SqlLayout.Proofs.Grouping.Operations
import SqlLayout.Proofs.Grouping.Sums

/-!
# Statements in which nothing is nested

A statement without brackets and blocks is nested only by its operators: each of
them puts its left operand one level deeper.  Where the runs of operators are
short, all passes succeed, however long the statement is.
-/

namespace SqlLayout

open Grouping Tree

/-!
# Tokens that open groups
-/

namespace Token

/-- A bracket, or the keyword of a block or a clause. -/
def opensGroup (t : Token) : Bool :=
  t.isPunctuationIn [Text.of "(", Text.of ")", Text.of "[", Text.of "]"]
    || t.isKeywordIn
      [Text.of "CASE", Text.of "BEGIN", Text.of "IF", Text.of "FOR", Text.of "FOREACH",
        Text.of "WHERE"]

theorem hits_mono {t : Token} {category : Category} {value : Text} {few many : List Text}
    (h : t.hits ⟨category, value :: few⟩ = true) (hsub : value :: few ⊆ many) :
    t.hits ⟨category, many⟩ = true := by
  rcases Bool.and_eq_true_iff.mp h with ⟨hcategory, hvalue⟩
  refine Bool.and_eq_true_iff.mpr ⟨hcategory, Bool.or_eq_true_iff.mpr (Or.inr ?_)⟩
  dsimp only [List.isEmpty_cons] at hvalue
  rw [Bool.false_or] at hvalue
  split at hvalue
  · rename_i hkeyword
    rw [if_pos hkeyword]
    rcases List.any_eq_true.mp hvalue with ⟨word, hmem, hword⟩
    exact List.any_eq_true.mpr ⟨word, hsub hmem, hword⟩
  · rename_i hkeyword
    rw [if_neg hkeyword]
    exact List.elem_iff.mpr (hsub (List.elem_iff.mp hvalue))

theorem opensNone_of_opensGroup {t : Token} (h : t.opensGroup = false) : t.OpensNone := by
  intro kind
  rcases Bool.or_eq_false_iff.mp h with ⟨hmark, hword⟩
  apply Bool.eq_false_iff.mpr
  intro hopens
  have hpunctuation : forall value, value ∈ [Text.of "(", Text.of ")", Text.of "[", Text.of "]"] ->
      t.hits ⟨.punctuation, [value]⟩ = true -> False := by
    intro value hmem hhits
    have hmany := hits_mono hhits (List.cons_subset.mpr ⟨hmem, List.nil_subset _⟩)
    unfold isPunctuationIn at hmark
    rw [hmany] at hmark
    cases hmark
  have hkeyword : forall value few, value :: few ⊆ [Text.of "CASE", Text.of "BEGIN", Text.of "IF",
      Text.of "FOR", Text.of "FOREACH", Text.of "WHERE"] ->
      t.hits ⟨.keyword, value :: few⟩ = true -> False := by
    intro value few hsub hhits
    have hmany := hits_mono hhits hsub
    unfold isKeywordIn at hword
    rw [hmany] at hword
    cases hword
  cases kind with
  | parenthesis =>
      exact hpunctuation _ (by simp) hopens
  | squareBrackets =>
      exact hpunctuation _ (by simp) hopens
  | caseBlock =>
      exact hkeyword _ _ (by simp) hopens
  | beginBlock =>
      exact hkeyword _ _ (by simp) hopens
  | ifBlock =>
      exact hkeyword _ _ (by simp) hopens
  | forBlock =>
      exact hkeyword _ _ (by simp) hopens
  | whereClause =>
      exact hkeyword _ _ (by simp) hopens
  | _ =>
      cases hopens

theorem opensNone_of_operator {t : Token} (h : t.category = .operator) : t.OpensNone := by
  intro kind
  have hopening : (kind.opening?.any fun p => p.category == .operator) = false := by
    cases kind <;> rfl
  cases hsome : kind.opening? with
  | none =>
      rfl
  | some p =>
      rw [hsome] at hopening
      apply hits_eq_false_of_ne
      rw [h]
      exact fun heq => beq_eq_false_iff_ne.mp hopening heq.symm

/-!
# Tokens that grouping keeps
-/

namespace Kept

variable {token after : Token} (h : token.Kept after)
include h

theorem eq_or : after = token ∨ token.category = .wildcard ∧ after.category = .operator := by
  rcases h.category_eq with hcategory | hretagged
  · left
    rcases token with ⟨category, value, position⟩
    rcases after with ⟨category', value', position'⟩
    cases hcategory
    cases h.value_eq
    cases h.position_eq
    rfl
  · exact Or.inr hretagged

theorem operates_eq : after.operates = token.operates := by
  rcases h.eq_or with rfl | ⟨hwildcard, hoperator⟩
  · rfl
  · unfold operates
    rw [hwildcard, hoperator]
    rfl

theorem joins_of (hjoins : after.joins = true) : token.joins = true := by
  rcases h.eq_or with rfl | ⟨hwildcard, _⟩
  · exact hjoins
  · unfold joins isSimple operates
    rw [hwildcard]
    simp

theorem opensNone (hopens : token.OpensNone) : after.OpensNone := by
  rcases h.eq_or with rfl | ⟨_, hoperator⟩
  · exact hopens
  · exact opensNone_of_operator hoperator

end Kept
end Token

/-- The tokens below the root are the ones of the statement up to wildcards that
became operators. -/
theorem Statement.tokens_of_steps {tokens : List Token} {after : Tree}
    (h : Relation.ReflTransGen GroupStep (ofTokens tokens).tree after) :
    List.Forall₂ Token.Kept tokens (after.rose (ofTokens tokens).root).tokens := by
  have hwf := wellFormed_ofTokens tokens
  rcases root_of_steps hwf h (root_lt_size tokens) (parent?_root tokens) with ⟨hlt, _, hleaves⟩
  rw [(groupStep_keepsWellFormed.run hwf h).tokens_rose hlt, Tree.tokens, hleaves]
  have hkept := (tokensKept_of_steps h).forall₂
    ((ofTokens tokens).tree.leaves (ofTokens tokens).root)
  have hsame := tokens_ofTokens tokens
  unfold Statement.tokens Tree.tokens at hsame
  rw [hsame] at hkept
  exact hkept

theorem Statement.tokens_eq_of_steps {tokens : List Token} {after : Tree}
    (h : Relation.ReflTransGen GroupStep (ofTokens tokens).tree after)
    (hnone : forall t, t ∈ tokens -> t.category ≠ .wildcard) :
    (after.rose (ofTokens tokens).root).tokens = tokens := by
  have hkept := tokens_of_steps h
  have hsame : forall {left right : List Token}, List.Forall₂ Token.Kept left right ->
      (forall t, t ∈ left -> t.category ≠ .wildcard) -> right = left := by
    intro left right hkept hnone
    induction hkept with
    | nil =>
        rfl
    | cons hfirst _ ih =>
        rw [List.forall_mem_cons] at hnone
        rw [ih hnone.2, hfirst.eq_or.resolve_right fun h => hnone.1 h.1]
  exact hsame hkept hnone

/-!
# Runs of operators
-/

/-- No run of tokens that may stand in one operation has more than so many
operators. -/
def ShortChains (n : Nat) (tokens : List Token) : Prop :=
  forall run, run <:+: tokens -> (forall t, t ∈ run -> t.joins = true) ->
    run.countP Token.operates <= n

theorem shortChains_of_countP {n : Nat} {tokens : List Token}
    (h : tokens.countP Token.operates <= n) : ShortChains n tokens :=
  fun _ hrun _ => Nat.le_trans (hrun.sublist.countP_le) h

theorem Token.Kept.countP_operates_eq {tokens others : List Token}
    (h : List.Forall₂ Kept tokens others) : others.countP operates = tokens.countP operates := by
  induction h with
  | nil =>
      rfl
  | cons hkept _ ih =>
      rw [List.countP_cons, List.countP_cons, ih, hkept.operates_eq]

theorem ShortChains.of_kept {n : Nat} {tokens others : List Token} (h : ShortChains n tokens)
    (hkept : List.Forall₂ Token.Kept tokens others) : ShortChains n others := by
  rintro run ⟨front, back, rfl⟩ hjoins
  have hrun := List.forall₂_drop_append _ _ _ (List.forall₂_take_append _ _ _ hkept)
  rw [Token.Kept.countP_operates_eq hrun]
  apply h _ _ (forall_of_forall₂ (fun _ _ hjoins hkept => hkept.joins_of hjoins) hrun.flip hjoins)
  exact (List.drop_suffix _ _).isInfix.trans (List.take_prefix _ _).isInfix

/-!
# Operands of a short chain
-/

namespace Rose

theorem infix_tokensOf {children : List Rose} {rose : Rose} (h : rose ∈ children) :
    rose.tokens <:+: tokensOf children := by
  rcases List.append_of_mem h with ⟨front, back, rfl⟩
  rw [tokensOf_append, tokensOf, ← List.append_assoc]
  exact List.infix_append _ _ _

theorem Item.nests_of_shortChains {n : Nat} {rose : Rose}
    (h : Item (fun _ => True) Operand rose) (hshort : ShortChains n rose.tokens) :
    Nests (fun _ => false) (n + 1) rose := by
  cases h with
  | token _ =>
      exact Nests.token
  | comment hcomment =>
      exact hcomment.nests.mono (Nat.le_add_left 1 n)
  | operand hoperand =>
      apply hoperand.nests.mono
      exact Nat.succ_le_succ (hshort rose.tokens (List.infix_refl _) hoperand.joins)

theorem lacks_of_tokens {trigger : Trigger} (hkind : forall kind, trigger.kind kind = false) :
    forall rose : Rose, (forall t, t ∈ rose.tokens -> trigger.token t = false) ->
      rose.Lacks trigger
  | .token t, h => Lacks.token (h t (List.mem_singleton_self t))
  | .group kind children, h => by
      apply Lacks.group (hkind kind)
      intro child hchild
      apply lacks_of_tokens hkind child
      intro t ht
      exact h t ((infix_tokensOf hchild).subset ht)

end Rose

/-!
# All passes
-/

namespace Pass

theorem blocks_arrange {p : List Rose -> Prop} {limit room : Nat}
    (hopens : forall roses, p roses -> forall rose, rose ∈ roses -> forall t, t ∈ rose.tokens ->
      t.OpensNone)
    (hnests : forall roses, p roses -> forall rose, rose ∈ roses ->
      Rose.Nests (fun _ => false) room rose)
    (hroom : room < limit) : Arranges limit p p (Pass.all.drop 19) := by
  have hidle : forall kind, (Survey.ofPairs kind, Survey.openingTrigger kind) ∈ Survey.triggers ->
      Arranges limit p p [Pass.pairs kind] := by
    intro kind hmem
    refine arranges_of_lacks hnests hroom _ hmem ?_
    intro roses hroses rose hrose
    apply Rose.lacks_of_tokens (fun _ => rfl)
    exact fun t ht => hopens roses hroses rose hrose t ht kind
  exact arranges_append (hidle .ifBlock (List.mem_of_getElem? (i := 19) rfl)) <|
    arranges_append (hidle .forBlock (List.mem_of_getElem? (i := 20) rfl)) <|
    hidle .beginBlock (List.mem_of_getElem? (i := 21) rfl)

theorem blocks_lead {p : Rose -> Prop} {limit room : Nat}
    (hopens : forall rose, p rose -> forall t, t ∈ rose.tokens -> t.OpensNone)
    (hnests : forall rose, p rose -> Rose.Nests (fun _ => false) room rose) (hroom : room < limit) :
    Lead limit p p (Pass.all.drop 19) :=
  lead_iff_arranges.mpr <|
    blocks_arrange (fun _ hall rose hrose => hopens rose (hall rose hrose))
      (fun _ hall rose hrose => hnests rose (hall rose hrose)) hroom

end Pass

namespace Statement

open Rose

variable {tokens : List Token} {limit n : Nat}

theorem stands_ofTokens {allowed : Token -> Prop} (h : forall t, t ∈ tokens -> allowed t) :
    (ofTokens tokens).tree.Stands (fun rose => exists t, rose = .token t ∧ allowed t)
      (ofTokens tokens).root := by
  have hwf := wellFormed_ofTokens tokens
  refine ⟨kind?_root_ofTokens tokens, ?_⟩
  have hrose := rose_ofTokens tokens
  rw [hwf.rose_of_kind? (kind?_root_ofTokens tokens), Rose.group.injEq] at hrose
  rw [hrose.2]
  intro rose hmem
  rcases List.mem_map.mp hmem with ⟨t, ht, rfl⟩
  exact ⟨t, rfl, h t ht⟩

theorem infix_tokens_root {after : Tree}
    (hsteps : Relation.ReflTransGen GroupStep (ofTokens tokens).tree after) {p : Rose -> Prop}
    (hstands : after.Stands p (ofTokens tokens).root) {rose : Rose}
    (hrose : rose ∈ (after.children (ofTokens tokens).root).map after.rose) :
    rose.tokens <:+: (after.rose (ofTokens tokens).root).tokens := by
  have hwf := groupStep_keepsWellFormed.run (wellFormed_ofTokens tokens) hsteps
  rw [hwf.rose_of_kind? hstands.1, Rose.tokens]
  exact infix_tokensOf hrose

/-- Grouping succeeds if the chains leave room for the 32 groups that may stand
around them, with the one of the statement. -/
theorem exists_group_of_shortChains (hn : 1 <= n) (hlimit : n + 33 <= limit)
    (hopens : forall t, t ∈ tokens -> t.opensGroup = false) (hshort : ShortChains n tokens) :
    exists after, (ofTokens tokens).group limit = .ok after := by
  have hwf := wellFormed_ofTokens tokens
  have hnone : forall t, t ∈ tokens -> t.OpensNone :=
    fun t ht => Token.opensNone_of_opensGroup (hopens t ht)
  -- Up to the operations: the chains bound how deep they are.
  rcases Pass.operations_lead (by omega : 1 < limit) _ _ hwf (stands_ofTokens hnone) with
    ⟨first, hfirst, hchanges, hitems⟩
  have hsettled : first.Stands (Layered (Settled (n + 1)) (· == .identifier) 0)
      (ofTokens tokens).root := by
    refine ⟨hitems.1, ?_⟩
    intro rose hrose
    apply (hitems.2 rose hrose).layered
    apply (hitems.2 rose hrose).nests_of_shortChains
    intro run hrun
    apply hshort.of_kept (tokens_of_steps hchanges.steps)
    exact hrun.trans (infix_tokens_root hchanges.steps hitems hrose)
  -- Up to the lists: they put at most 31 groups around an operation.
  have hwf' := hchanges.wellFormed hwf
  rcases Pass.lists_lead (by omega : 2 <= n + 1) (by omega : 15 + (n + 1) < limit) first _ hwf'
      hsettled with
    ⟨second, hsecond, hchanges', hlayers⟩
  have hsteps := hchanges.steps.trans hchanges'.steps
  have hwf'' := hchanges'.wellFormed hwf'
  have hplain : second.Stands (fun rose => Layered (Hosted (n + 1)) (· != .comment) 31 rose ∧
      forall t, t ∈ rose.tokens -> t.OpensNone) (ofTokens tokens).root := by
    refine ⟨hlayers.1, fun rose hrose => ⟨hlayers.2 rose hrose, ?_⟩⟩
    intro t ht
    have hall := forall_of_forall₂ (fun _ _ hopens hkept => hkept.opensNone hopens)
      (tokens_of_steps hsteps) hnone
    exact hall t ((infix_tokens_root hsteps hlayers hrose).subset ht)
  -- The passes behind the lists find no block.
  rcases Pass.blocks_lead (fun _ h => h.2) (fun _ h => h.1.nests fun _ h => h.nests)
      (by omega : 31 + (n + 1) < limit) second _ hwf'' hplain with ⟨last, hlast, _⟩
  refine ⟨{ ofTokens tokens with tree := last }, group_ok_iff_exec.mpr ⟨?_, rfl⟩⟩
  change exec ((Pass.all.take 11 ++ ((Pass.all.drop 11).take 8 ++ Pass.all.drop 19)).forM
    fun pass => pass.run limit limit (ofTokens tokens).root) _ = _
  rw [exec_forM_append, exec_bind, hfirst]
  dsimp only
  rw [exec_forM_append, exec_bind, hsecond]
  exact hlast

theorem opensGroup_of_mem_sumTokens {t : Token} (h : t ∈ sumTokens n) : t.opensGroup = false := by
  rcases eq_of_mem_sumTokens h with rfl | rfl
  · decide
  · decide

theorem countP_sumTokens (n : Nat) : (sumTokens n).countP Token.operates = n := by
  have hone : Token.one.operates = false := by
    decide
  have hplus : Token.plus.operates = true := by
    decide
  induction n with
  | zero =>
      decide
  | succ n ih =>
      unfold sumTokens at ih
      rw [sumTokens, addends, List.countP_cons_of_neg (by rw [hone]; exact Bool.false_ne_true),
        List.countP_cons_of_pos hplus, ih]

/-!
# The default limit
-/

/-- Nothing else in a statement without brackets and blocks can be too deep. -/
theorem group_ok_of_shortChains (hopens : forall t, t ∈ tokens -> t.opensGroup = false)
    (hshort : ShortChains 223 tokens) : exists after, (ofTokens tokens).group = .ok after :=
  exists_group_of_shortChains (by decide) (by decide) hopens hshort

theorem group_ok_of_shortChains_sum :
    (forall t, t ∈ sumTokens 223 -> t.opensGroup = false) ∧ ShortChains 223 (sumTokens 223) ∧
      exists after, (ofTokens (sumTokens 223)).group = .ok after := by
  have hopens : forall t, t ∈ sumTokens 223 -> t.opensGroup = false :=
    fun _ => opensGroup_of_mem_sumTokens
  have hshort : ShortChains 223 (sumTokens 223) :=
    shortChains_of_countP (Nat.le_of_eq (countP_sumTokens 223))
  exact ⟨hopens, hshort, group_ok_of_shortChains hopens hshort⟩

/-- A sum that is long enough is rejected, although nothing is nested in it. -/
theorem long_sum_rejected :
    ¬ forall tokens, (forall t, t ∈ tokens -> t.opensGroup = false) ->
      exists after, (ofTokens tokens).group = .ok after := by
  intro h
  rcases h (sumTokens defaultMaxDepth) fun _ => opensGroup_of_mem_sumTokens with ⟨after, hgroup⟩
  rw [group_sumTokens (by decide) (Nat.le_refl _)] at hgroup
  cases hgroup

end Statement
end SqlLayout
