import SqlLayout.Lexer.Basic

/-!
# The tokens cover the text

Reading a text token by token comes to an end, and the tokens it gives are the
text cut into pieces: no piece is empty, each starts at the byte where the one
before it ends, and together they spell the text.
-/

namespace SqlLayout

/-!
# Byte lengths
-/

namespace Text

theorem byteLength_append (a b : Text) :
    byteLength (a ++ b) = byteLength a + byteLength b := by
  induction a with
  | nil =>
      simp [byteLength]
  | cons c rest ih =>
      simp [byteLength, ih, Nat.add_assoc]

theorem byteLength_eq_utf8ByteSize (text : Text) :
    byteLength text = (String.ofList text).utf8ByteSize := by
  induction text with
  | nil =>
      rfl
  | cons c rest ih =>
      have hcons : String.ofList (c :: rest) = String.singleton c ++ String.ofList rest := by
        rw [← String.toList_inj]
        simp
      rw [byteLength, ih, hcons, String.utf8ByteSize_append, String.utf8ByteSize_singleton]

end Text

/-!
# Pieces of a text
-/

namespace Token

/-- Tokens that follow one another without a gap, the first at a byte offset. -/
def Contiguous : Nat -> List Token -> Prop
  | _, [] => True
  | offset, token :: rest =>
      token.position = some offset ∧ Contiguous (offset + token.byteLength) rest

/-- A token that is a piece of a text: its value stands in the text, and its
position is the number of bytes before it. -/
def IsPieceOf (text : Text) (token : Token) : Prop :=
  exists before after : Text,
    text = before ++ token.value ++ after ∧
      token.position = some (String.ofList before).utf8ByteSize

theorem Contiguous.isPieceOf {tokens : List Token} {start : Text}
    (h : Contiguous start.byteLength tokens) {token : Token} (hmem : token ∈ tokens) :
    token.IsPieceOf (start ++ tokens.flatMap Token.value) := by
  induction tokens generalizing start with
  | nil =>
      cases hmem
  | cons first rest ih =>
      rcases h with ⟨hposition, hrest⟩
      cases hmem with
      | head =>
          refine ⟨start, rest.flatMap Token.value, ?_, ?_⟩
          · simp
          · rw [hposition, Text.byteLength_eq_utf8ByteSize]
      | tail _ htail =>
          rw [Token.byteLength, ← Text.byteLength_append] at hrest
          have hpiece := ih hrest htail
          simpa using hpiece

end Token

/-!
# One token

Every way to the next token takes at least one character: a rule with an empty
match does not apply, the fallback takes one character, and an open dollar mark
is not the empty text.
-/

namespace Rule

theorem matchLength?_pos {rule : Rule} {before : Option Char} {text : Text} {n : Nat}
    (h : rule.matchLength? before text = some n) : 0 < n := by
  unfold matchLength? at h
  split at h
  · cases h
  · cases h
  · rename_i m hm _
    split at h
    · cases h
      exact Nat.pos_of_ne_zero hm
    · cases h

theorem first?_pos {rules : List Rule} {before : Option Char} {text : Text}
    {action : Action} {n : Nat} (h : first? rules before text = some (action, n)) :
    0 < n := by
  rcases List.exists_of_findSome?_eq_some h with ⟨rule, _hrule, hmatch⟩
  rcases Option.map_eq_some_iff.mp hmatch with ⟨m, hm, hpair⟩
  cases hpair
  exact matchLength?_pos hm

end Rule

namespace Scan

variable {config : LexerConfig}

def Ready (scan : Scan) : Prop :=
  scan.dollarTag ≠ some []

theorem classify_pos (scan : Scan) : 0 < (scan.classify config).2 := by
  unfold classify
  split
  · rename_i hfirst
    exact Rule.first?_pos hfirst
  · rename_i hfirst
    exact Rule.first?_pos hfirst
  · exact Nat.one_pos

theorem outcome_pos {scan : Scan} (hready : scan.Ready) (hrest : scan.rest ≠ []) :
    0 < (scan.outcome config).2.1 := by
  unfold outcome
  split
  · rename_i tag htag
    split
    · apply List.length_pos_iff.mpr
      intro hempty
      exact hready (by rw [htag, hempty])
    · rename_i n hn _
      exact Nat.pos_of_ne_zero hn
    · exact List.length_pos_iff.mpr hrest
  · exact classify_pos scan

theorem outcome_ready {scan : Scan} (hready : scan.Ready) :
    (scan.outcome config).2.2 ≠ some [] := by
  unfold outcome
  split
  · rename_i tag htag
    have htag' : some tag ≠ some [] := by
      rw [← htag]
      exact hready
    split
    · simp
    · exact htag'
    · exact htag'
  · dsimp only
    split
    · rename_i hmark
      intro hempty
      rw [Option.some.injEq] at hempty
      simp [hempty, Token.isDollarMark] at hmark
    · simp

theorem next?_eq_none_iff {scan : Scan} : scan.next? config = none <-> scan.rest = [] := by
  unfold next?
  cases hrest : scan.rest with
  | nil =>
      simp
  | cons c rest =>
      simp

/-- What one step of the lexer does: it cuts a piece off the rest. -/
theorem next?_spec {scan after : Scan} {token : Token} (hready : scan.Ready)
    (h : scan.next? config = some (token, after)) :
    token.value ≠ [] ∧ token.position = some scan.offset ∧
      scan.rest = token.value ++ after.rest ∧
      after.offset = scan.offset + token.byteLength ∧ after.Ready := by
  have hrest : scan.rest ≠ [] := by
    intro hempty
    rw [next?_eq_none_iff.mpr hempty] at h
    cases h
  have hpos : 0 < (scan.outcome config).2.1 := outcome_pos hready hrest
  unfold next? at h
  split at h
  · cases h
  · cases h
    refine ⟨?_, rfl, ?_, rfl, outcome_ready hready⟩
    · intro hempty
      rcases List.take_eq_nil_iff.mp hempty with hzero | hnil
      · exact absurd hzero (Nat.ne_of_gt hpos)
      · exact hrest hnil
    · exact (List.take_append_drop _ _).symm

theorem next?_shortens {scan after : Scan} {token : Token} (hready : scan.Ready)
    (h : scan.next? config = some (token, after)) :
    after.rest.length < scan.rest.length := by
  rcases next?_spec hready h with ⟨hvalue, _, hrest, _, _⟩
  have hpos := List.length_pos_iff.mpr hvalue
  rw [hrest, List.length_append]
  omega

/-!
# All tokens
-/

/-- The tokens that are read from a place on until there is no next one. -/
inductive Emits (config : LexerConfig) : Scan -> List Token -> Prop where
  | stop {scan : Scan} : scan.next? config = none -> Emits config scan []
  | emit {scan after : Scan} {token : Token} {tokens : List Token} :
      scan.next? config = some (token, after) ->
      Emits config after tokens ->
      Emits config scan (token :: tokens)

theorem Emits.unique {scan : Scan} {a b : List Token} (ha : Emits config scan a)
    (hb : Emits config scan b) : a = b := by
  induction ha generalizing b with
  | stop hnone =>
      cases hb with
      | stop _ =>
          rfl
      | emit hsome _ =>
          rw [hnone] at hsome
          cases hsome
  | emit hsome _ ih =>
      cases hb with
      | stop hnone =>
          rw [hnone] at hsome
          cases hsome
      | emit hsome' htail =>
          rw [hsome] at hsome'
          cases hsome'
          rw [ih htail]

/-- A budget of one token for each character left is enough to come to the
end. -/
theorem emits_tokens {budget : Nat} {scan : Scan} (hready : scan.Ready)
    (hbudget : scan.rest.length <= budget) :
    Emits config scan (tokens config budget scan) := by
  induction budget generalizing scan with
  | zero =>
      apply Emits.stop
      exact next?_eq_none_iff.mpr (List.eq_nil_of_length_eq_zero (by omega))
  | succ budget ih =>
      unfold tokens
      cases hnext : scan.next? config with
      | none =>
          exact Emits.stop hnext
      | some result =>
          rcases result with ⟨token, after⟩
          have hshorter := next?_shortens hready hnext
          rcases next?_spec hready hnext with ⟨_, _, _, _, hafter⟩
          exact Emits.emit hnext (ih hafter (by omega))

theorem Emits.nonempty {scan : Scan} {tokens : List Token} (h : Emits config scan tokens)
    (hready : scan.Ready) : forall token, token ∈ tokens -> token.value ≠ [] := by
  induction h with
  | stop _ =>
      intro token hmem
      cases hmem
  | emit hnext _ ih =>
      rcases next?_spec hready hnext with ⟨hvalue, _, _, _, hafter⟩
      intro token hmem
      cases hmem with
      | head =>
          exact hvalue
      | tail _ htail =>
          exact ih hafter token htail

theorem Emits.spells {scan : Scan} {tokens : List Token} (h : Emits config scan tokens)
    (hready : scan.Ready) : tokens.flatMap Token.value = scan.rest := by
  induction h with
  | stop hnone =>
      rw [next?_eq_none_iff.mp hnone, List.flatMap_nil]
  | emit hnext _ ih =>
      rcases next?_spec hready hnext with ⟨_, _, hrest, _, hafter⟩
      rw [List.flatMap_cons, ih hafter, hrest]

theorem Emits.contiguous {scan : Scan} {tokens : List Token} (h : Emits config scan tokens)
    (hready : scan.Ready) : Token.Contiguous scan.offset tokens := by
  induction h with
  | stop _ =>
      trivial
  | emit hnext _ ih =>
      rcases next?_spec hready hnext with ⟨_, hposition, _, hoffset, hafter⟩
      refine ⟨hposition, ?_⟩
      rw [← hoffset]
      exact ih hafter

end Scan

/-!
# The tokens of a text
-/

theorem ready_start (text : Text) : Scan.Ready { rest := text } := by
  intro h
  cases h

theorem emits_tokenize (config : LexerConfig) (text : Text) :
    Scan.Emits config { rest := text } (tokenize config text) :=
  Scan.emits_tokens (ready_start text) (Nat.le_refl text.length)

theorem tokenize_spells (config : LexerConfig) (text : Text) :
    (tokenize config text).flatMap Token.value = text :=
  (emits_tokenize config text).spells (ready_start text)

/-- Whatever the dialect and the vocabulary, reading a text ends with the one
list of tokens that `tokenize` gives.  Each token is a piece of the text with at
least one character, the pieces follow one another from the first byte on, and
together they are the text. -/
theorem tokenize_covers (config : LexerConfig) (text : Text) :
    (forall tokens,
        Scan.Emits config { rest := text } tokens <-> tokens = tokenize config text) ∧
      (forall token, token ∈ tokenize config text ->
        token.value ≠ [] ∧ token.IsPieceOf text) ∧
      Token.Contiguous 0 (tokenize config text) ∧
      (tokenize config text).flatMap Token.value = text := by
  have hemits := emits_tokenize config text
  have hready := ready_start text
  have hspells := tokenize_spells config text
  have hcontiguous : Token.Contiguous 0 (tokenize config text) := hemits.contiguous hready
  refine ⟨?_, ?_, hcontiguous, hspells⟩
  · intro tokens
    constructor
    · intro h
      exact h.unique hemits
    · intro h
      rw [h]
      exact hemits
  · intro token hmem
    refine ⟨hemits.nonempty hready token hmem, ?_⟩
    have hstart : Token.Contiguous (Text.byteLength []) (tokenize config text) := hcontiguous
    have hpiece := hstart.isPieceOf hmem
    rw [List.nil_append, hspells] at hpiece
    exact hpiece

end SqlLayout
