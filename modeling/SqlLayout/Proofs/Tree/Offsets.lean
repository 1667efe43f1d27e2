import SqlLayout.Proofs.Layout.Comments

/-!
# Leaves at byte offsets

A leaf is looked up by adding up the lengths of the leaves before it.  The tokens of a
statement stand in the source without a gap, and grouping keeps their places, so the leaf
that is found is the one whose token covers the same place of the source.
-/

namespace SqlLayout

/-!
# Tokens in a row
-/

namespace Token

theorem covers_iff {token : Token} {offset : Nat} :
    token.covers offset = true <-> exists position, token.position = some position ∧
      position <= offset ∧ offset < position + token.byteLength := by
  unfold covers
  cases token.position with
  | none =>
      exact ⟨nofun, nofun⟩
  | some position =>
      simp only [Bool.and_eq_true, decide_eq_true_iff, Option.some.injEq, exists_eq_left']

namespace Contiguous

variable {start : Nat} {tokens part : List Token}

theorem of_append {front back : List Token} (h : Contiguous start (front ++ back)) :
    Contiguous start front ∧ exists later, Contiguous later back := by
  induction front generalizing start with
  | nil =>
      exact ⟨trivial, start, h⟩
  | cons token rest ih =>
      rcases ih h.2 with ⟨hrest, hback⟩
      exact ⟨⟨h.1, hrest⟩, hback⟩

theorem within (h : Contiguous start tokens) (hpart : part <:+: tokens) :
    exists later, Contiguous later part := by
  rcases hpart with ⟨front, back, rfl⟩
  exact (h.of_append.1).of_append.2

theorem kept {after : List Token} (h : Contiguous start tokens)
    (hkept : List.Forall₂ Kept tokens after) : Contiguous start after := by
  induction hkept generalizing start with
  | nil =>
      exact trivial
  | cons hsame _ ih =>
      refine ⟨hsame.position_eq.trans h.1, ?_⟩
      rw [byteLength, hsame.value_eq]
      exact ih h.2

end Contiguous
end Token

/-!
# Looking up leaves
-/

namespace Tree

variable {tree : Tree} {start : Nat} {leaves : List NodeId}

theorem leafAtOffset?_cons_of_token? {first : NodeId} {token : Token}
    (h : tree.token? first = some token) (offset : Nat) (rest : List NodeId) :
    tree.leafAtOffset? offset (first :: rest) =
      if offset < token.byteLength then some first
      else tree.leafAtOffset? (offset - token.byteLength) rest := by
  rw [leafAtOffset?, h]
  rfl

theorem leafAtOffset?_cons_of_none {first : NodeId} (h : tree.token? first = none) (offset : Nat)
    (rest : List NodeId) :
    tree.leafAtOffset? offset (first :: rest) = tree.leafAtOffset? offset rest := by
  rw [leafAtOffset?, h]
  rfl

theorem leafAtOffset?_isSome_iff (leaves : List NodeId) (offset : Nat) :
    (tree.leafAtOffset? offset leaves).isSome = true <->
      offset < Text.byteLength ((leaves.filterMap tree.token?).flatMap Token.value) := by
  induction leaves generalizing offset with
  | nil =>
      exact ⟨nofun, fun h => absurd h (Nat.not_lt_zero offset)⟩
  | cons first rest ih =>
      cases htoken : tree.token? first with
      | none =>
          rw [leafAtOffset?_cons_of_none htoken, List.filterMap_cons_none htoken]
          exact ih offset
      | some token =>
          rw [leafAtOffset?_cons_of_token? htoken, List.filterMap_cons_some htoken,
            List.flatMap_cons, Text.byteLength_append, ← Token.byteLength]
          split
          next hlt =>
            exact ⟨fun _ => Nat.lt_add_right _ hlt, fun _ => rfl⟩
          next hge =>
            rw [ih, Nat.sub_lt_iff_lt_add' (Nat.le_of_not_lt hge)]

theorem leafAtOffset?_eq_some_iff
    (h : Token.Contiguous start (leaves.filterMap tree.token?)) (offset : Nat) (leaf : NodeId) :
    tree.leafAtOffset? offset leaves = some leaf <->
      leaf ∈ leaves ∧ tree.tokenHas leaf (fun token => token.covers (start + offset)) = true := by
  induction leaves generalizing start offset with
  | nil =>
      exact ⟨nofun, nofun⟩
  | cons first rest ih =>
      cases htoken : tree.token? first with
      | none =>
          rw [List.filterMap_cons_none htoken] at h
          rw [leafAtOffset?_cons_of_none htoken, ih h, List.mem_cons]
          refine ⟨fun hleaf => ⟨Or.inr hleaf.1, hleaf.2⟩, ?_⟩
          rintro ⟨rfl | hmem, hcovers⟩
          · rcases tokenHas_iff.mp hcovers with ⟨token, hsome, _⟩
            rw [htoken] at hsome
            cases hsome
          · exact ⟨hmem, hcovers⟩
      | some token =>
          rw [List.filterMap_cons_some htoken] at h
          rw [leafAtOffset?_cons_of_token? htoken, List.mem_cons]
          have hfirst : tree.tokenHas first (fun token => token.covers (start + offset)) = true <->
              offset < token.byteLength := by
            rw [tokenHas, htoken]
            dsimp only
            rw [Token.covers_iff, h.1]
            simp only [Option.some.injEq, exists_eq_left', Nat.le_add_right, true_and,
              Nat.add_lt_add_iff_left]
          split
          next hlt =>
            constructor
            · intro hleaf
              cases hleaf
              exact ⟨Or.inl rfl, hfirst.mpr hlt⟩
            · rintro ⟨rfl | hmem, hcovers⟩
              · rfl
              · -- the tokens of the later leaves start behind the first one
                rcases tokenHas_iff.mp hcovers with ⟨other, hother, hinside⟩
                rcases Token.covers_iff.mp hinside with ⟨position, hposition, hle, _⟩
                have hbehind := h.2.le_position (List.mem_filterMap.mpr ⟨leaf, hmem, hother⟩)
                  hposition
                omega
          next hge =>
            have hplace : start + token.byteLength + (offset - token.byteLength) =
                start + offset := by omega
            rw [ih h.2, hplace]
            refine ⟨fun hleaf => ⟨Or.inr hleaf.1, hleaf.2⟩, ?_⟩
            rintro ⟨rfl | hmem, hcovers⟩
            · exact absurd (hfirst.mp hcovers) hge
            · exact ⟨hmem, hcovers⟩

theorem position?_of_contiguous {id : NodeId} (hne : tree.tokens id ≠ [])
    (h : Token.Contiguous start (tree.tokens id)) : tree.position? id = some start := by
  unfold position?
  cases htokens : tree.tokens id with
  | nil =>
      exact absurd htokens hne
  | cons token rest =>
      rw [htokens] at h
      rw [List.findSome?_cons, h.1]

end Tree

/-!
# Statements
-/

namespace Statement

/-- The tokens of the statement stand in the source in a row, the first one at a byte offset,
and all nodes with tokens are leaves of the root. -/
structure Placed (s : Statement) (start : Nat) : Prop where
  nonempty : s.tokens ≠ []
  contiguous : Token.Contiguous start s.tokens
  leaves : forall leaf token, s.tree.token? leaf = some token -> leaf ∈ s.tree.leaves s.root

variable {tokens part : List Token} {s after : Statement} {limit start : Nat}

theorem placed_ofTokens (hne : tokens ≠ []) (h : Token.Contiguous start tokens) :
    (ofTokens tokens).Placed start := by
  constructor
  · rw [tokens_ofTokens]
    exact hne
  · rw [tokens_ofTokens]
    exact h
  · intro leaf token htoken
    rw [token?_ofTokens] at htoken
    rw [leaves_ofTokens, List.mem_range]
    exact (List.getElem?_eq_some_iff.mp htoken).1

theorem Placed.group (h : (ofTokens tokens).Placed start)
    (hgroup : (ofTokens tokens).group limit = .ok after) : after.Placed start := by
  have hkept := kept_of_group hgroup
  have hcontiguous := h.contiguous
  rw [tokens_ofTokens] at hcontiguous
  rcases groupInPlace_keeps_leaves tokens limit with
    ⟨result, same, hresult, _, _, hleaves, _, htokens, _⟩
  rw [group_ok_iff.mp hgroup] at hresult
  cases hresult
  constructor
  · intro hnil
    rw [hnil, List.forall₂_nil_right_iff] at hkept
    exact h.nonempty ((tokens_ofTokens tokens).trans hkept)
  · exact hcontiguous.kept hkept
  · intro leaf token htoken
    rw [hleaves]
    rcases htokens leaf with ⟨hsame, hrel⟩
    rw [htoken] at hrel
    cases hold : tokens[leaf]? with
    | none =>
        rw [hold] at hrel
        cases hrel
    | some old =>
        exact h.leaves leaf old (hsame.trans hold)

theorem exists_placed {config : LexerConfig} {sql : Text} (h : s ∈ readStatements config sql) :
    exists start, s.Placed start := by
  rcases exists_of_mem_splitStatements h with ⟨part, hne, rfl⟩
  have hpart := within_of_mem_splitStatements h
  rw [tokens_ofTokens] at hpart
  rcases (tokenize_covers config sql).2.2.1.within hpart with ⟨start, hstart⟩
  exact ⟨start, placed_ofTokens hne hstart⟩

theorem exists_placed_of_group {config : LexerConfig} {sql : Text}
    (h : s ∈ readStatements config sql) (hgroup : s.group limit = .ok after) :
    exists start, after.Placed start := by
  rcases exists_of_mem_splitStatements h with ⟨part, _, rfl⟩
  rcases exists_placed h with ⟨start, hplaced⟩
  exact ⟨start, hplaced.group hgroup⟩

/-- In a statement of a text, flat or grouped, a byte offset has a leaf just if it is less
than the length of the statement, and the leaf is the only node whose token covers as many
bytes behind the position of the statement. -/
theorem tokenAtOffset_agrees {config : LexerConfig} {sql : Text} {flat s : Statement}
    (hflat : flat ∈ readStatements config sql)
    (hs : s = flat ∨ exists limit, flat.group limit = .ok s) :
    exists start, s.tree.position? s.root = some start ∧ forall offset,
      ((s.tree.tokenAtOffset? s.root offset).isSome = true <-> offset < s.text.byteLength) ∧
      forall leaf, (s.tree.tokenAtOffset? s.root offset = some leaf <->
          s.tree.tokenHas leaf (fun token => token.covers (start + offset)) = true) ∧
        (s.tree.tokenAtOffset? s.root offset = some leaf -> leaf ∈ s.tree.leaves s.root) := by
  have hplaced : exists start, s.Placed start := by
    rcases hs with rfl | ⟨limit, hgroup⟩
    · exact exists_placed hflat
    · exact exists_placed_of_group hflat hgroup
  rcases hplaced with ⟨start, hplaced⟩
  refine ⟨start, Tree.position?_of_contiguous hplaced.nonempty hplaced.contiguous, ?_⟩
  intro offset
  refine ⟨Tree.leafAtOffset?_isSome_iff _ offset, ?_⟩
  intro leaf
  have hfound : s.tree.tokenAtOffset? s.root offset = some leaf <-> _ :=
    Tree.leafAtOffset?_eq_some_iff hplaced.contiguous offset leaf
  refine ⟨⟨fun hleaf => (hfound.mp hleaf).2, ?_⟩, fun hleaf => (hfound.mp hleaf).1⟩
  intro hcovers
  rcases Tree.tokenHas_iff.mp hcovers with ⟨token, htoken, _⟩
  exact hfound.mpr ⟨hplaced.leaves leaf token htoken, hcovers⟩

/-- The second statement of a text, which stands behind three bytes. -/
theorem tokenAtOffset_agrees_second :
    exists flat s, flat ∈ readStatements .default (Text.of "é;b.c") ∧
      flat.group defaultMaxDepth = .ok s ∧
      exists start, s.tree.position? s.root = some start ∧ forall offset,
        ((s.tree.tokenAtOffset? s.root offset).isSome = true <-> offset < s.text.byteLength) ∧
        forall leaf, (s.tree.tokenAtOffset? s.root offset = some leaf <->
            s.tree.tokenHas leaf (fun token => token.covers (start + offset)) = true) ∧
          (s.tree.tokenAtOffset? s.root offset = some leaf -> leaf ∈ s.tree.leaves s.root) := by
  have htokens : tokenize .default (Text.of "é;b.c") =
      [⟨.name, ['é'], some 0⟩, ⟨.punctuation, [';'], some 2⟩, ⟨.name, ['b'], some 3⟩,
       ⟨.punctuation, ['.'], some 4⟩, ⟨.name, ['c'], some 5⟩] := by
    decide +kernel
  have hflat : ofTokens [⟨.name, ['b'], some 3⟩, ⟨.punctuation, ['.'], some 4⟩,
      ⟨.name, ['c'], some 5⟩] ∈ readStatements .default (Text.of "é;b.c") := by
    rw [readStatements, htokens]
    exact List.mem_cons_of_mem _ List.mem_cons_self
  have hsome : ((ofTokens [⟨.name, ['b'], some 3⟩, ⟨.punctuation, ['.'], some 4⟩,
      ⟨.name, ['c'], some 5⟩]).group defaultMaxDepth).toOption.any (fun _ => true) = true := by
    decide +kernel
  rcases exists_of_group hsome with ⟨s, hgroup, _⟩
  exact ⟨_, s, hflat, hgroup, tokenAtOffset_agrees hflat (Or.inr ⟨_, hgroup⟩)⟩

end Statement
end SqlLayout
