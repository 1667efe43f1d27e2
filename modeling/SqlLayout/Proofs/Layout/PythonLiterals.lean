import Mathlib.Data.List.Chain
import SqlLayout.Layout.Output

/-!
# Python literals read back

The writer puts a backslash before a quote and leaves all else as it is; the reader
takes a backslash before a quote or another backslash for the start of an escape.  So a
backslash of the statement is read back if and only if neither of them follows it, and
a line break if and only if it became a seam between two literals.
-/

namespace SqlLayout

/-!
# Reading an assignment
-/

/-- Where a reader stands in a value: inside of a literal, behind a backslash there,
between two literals, or behind the parenthesis that closes their list. -/
inductive LiteralPlace where
  | inside
  | escaped
  | between
  | closed
deriving DecidableEq, Repr

namespace LiteralPlace

def endsLine (c : Char) : Bool := c == '\n' || c == '\r'

/-- The place behind a character and what the character adds to the value. -/
def step? (joined : Bool) (c : Char) : LiteralPlace -> Option (LiteralPlace × Text)
  | inside =>
      if c == '\'' then some (between, [])
      else if c == '\\' then some (escaped, [])
      else if endsLine c then none
      else some (inside, [c])
  | escaped =>
      if c == '\'' || c == '\\' then some (inside, [c])
      else if endsLine c then none
      else some (inside, ['\\', c])
  | between =>
      if !joined then none
      else if c == '\'' then some (inside, [])
      else if c == ')' then some (closed, [])
      else if Text.isBlank c then some (between, [])
      else none
  | closed => none

/-- A single literal ends the value; a list of literals does so with its parenthesis. -/
def isEnd (joined : Bool) : LiteralPlace -> Bool
  | between => !joined
  | closed => joined
  | _ => false

end LiteralPlace

open LiteralPlace

def readValue? (joined : Bool) : LiteralPlace -> Text -> Option Text
  | place, [] => if place.isEnd joined then some [] else none
  | place, c :: rest =>
      (place.step? joined c).bind fun after =>
        (readValue? joined after.1 rest).map fun value => after.2 ++ value

/-- The variable and the value of an assignment of one literal, or of a list of
literals in parentheses. -/
def readAssignment? (text : Text) : Option (Text × Text) :=
  let line := text.dropWhile (· == '\n')
  let name := line.takeWhile Char.isAlphanum
  if name.isEmpty then none
  else
    match line.drop name.length with
    | ' ' :: '=' :: ' ' :: '\'' :: rest => (readValue? false inside rest).map fun v => (name, v)
    | ' ' :: '=' :: ' ' :: '(' :: '\'' :: rest =>
        (readValue? true inside rest).map fun v => (name, v)
    | _ => none

/-!
# What is written
-/

def Token.nextLine? (token : Token) : Option Text :=
  if token.isWhitespace then HostWrapper.afterLineFeed? token.value else none

/-- A token as it should be read back: a blank with a line feed is a space and what
stands behind the line feed. -/
def Token.onOneLine (token : Token) : Text :=
  match token.nextLine? with
  | some after => ' ' :: after
  | none => token.value

/-- The text that should be read back, without the blanks at its start. -/
def Statement.hostText (s : Statement) : Text :=
  (s.tokens.dropWhile Token.isWhitespace).flatMap Token.onOneLine

/-- The characters of a token as it is read back, and the seam that a line feed
becomes. -/
def Token.withSeam (token : Token) : List (Option Char) :=
  match token.nextLine? with
  | some after => none :: after.map some
  | none => token.value.map some

def readAs (symbol : Option Char) : Char := symbol.getD ' '

def writtenAs (seam : Text) : Option Char -> Text
  | none => seam
  | some c => if c == '\'' then ['\\', '\''] else [c]

theorem map_readAs_some (text : Text) : (text.map some).map readAs = text := by
  rw [List.map_map]
  exact List.map_id text

theorem flatMap_writtenAs_some (seam text : Text) :
    (text.map some).flatMap (writtenAs seam) = Text.replace '\'' ['\\', '\''] text := by
  rw [List.flatMap_map]
  rfl

theorem Token.map_withSeam (token : Token) : token.withSeam.map readAs = token.onOneLine := by
  unfold withSeam onOneLine
  cases token.nextLine? with
  | some after =>
      dsimp only
      rw [List.map_cons, map_readAs_some]
      rfl
  | none =>
      exact map_readAs_some token.value

def Statement.hostSymbols (s : Statement) : List (Option Char) :=
  (s.tokens.dropWhile Token.isWhitespace).flatMap Token.withSeam

theorem hostText_eq (s : Statement) : s.hostText = s.hostSymbols.map readAs := by
  unfold Statement.hostText Statement.hostSymbols
  rw [List.map_flatMap, funext Token.map_withSeam]

theorem afterLineFeed?_suffix {text after : Text}
    (h : HostWrapper.afterLineFeed? text = some after) : after <:+ text := by
  induction text with
  | nil =>
      cases h
  | cons c rest ih =>
      unfold HostWrapper.afterLineFeed? at h
      split at h
      · cases h
        exact List.suffix_cons c after
      · exact (ih h).trans (List.suffix_cons c rest)

theorem Token.nextLine?_eq_some {token : Token} {after : Text}
    (h : token.nextLine? = some after) : token.isWhitespace = true ∧ after <:+ token.value := by
  unfold nextLine? at h
  split at h
  · rename_i hspace
    exact ⟨hspace, afterLineFeed?_suffix h⟩
  · cases h

theorem replace_quote_eq_self {text : Text} (h : '\'' ∉ text) :
    Text.replace '\'' ['\\', '\''] text = text := by
  unfold Text.replace
  rw [List.flatMap_congr (g := fun c => [c])]
  · exact List.flatMap_singleton' text
  · intro c hc
    rw [if_neg]
    rw [beq_iff_eq]
    rintro rfl
    exact h hc

/-- Nothing in a blank has to be escaped, so a statement is written character by
character. -/
theorem writeTokens_eq (seam : Text) {tokens : List Token}
    (hblank : forall token, token ∈ tokens -> token.isWhitespace = true ->
      forall c, c ∈ token.value -> Text.isBlank c = true) :
    HostWrapper.writeTokens seam (Text.replace '\'' ['\\', '\'']) tokens =
      (tokens.flatMap Token.withSeam).flatMap (writtenAs seam) := by
  unfold HostWrapper.writeTokens
  rw [List.flatMap_assoc]
  apply List.flatMap_congr
  intro token htoken
  change (match token.nextLine? with | some after => _ | none => _) = _
  unfold Token.withSeam
  cases hnext : token.nextLine? with
  | some after =>
      dsimp only
      rcases Token.nextLine?_eq_some hnext with ⟨hspace, hafter⟩
      rw [List.flatMap_cons, flatMap_writtenAs_some, replace_quote_eq_self]
      · rfl
      · intro hquote
        cases hblank token htoken hspace _ (hafter.subset hquote)
  | none =>
      exact (flatMap_writtenAs_some seam token.value).symm

/-!
# What is read back
-/

def pythonSeam (indent : Nat) : Text :=
  [' ', '\'', '\n'] ++ Text.fill ' ' indent ++ ['\'']

def pythonEnd (joined : Bool) : Text :=
  if joined then ['\'', ')'] else ['\'']

def pythonValue (joined : Bool) (indent : Nat) (symbols : List (Option Char)) : Text :=
  symbols.flatMap (writtenAs (pythonSeam indent)) ++ pythonEnd joined

def KeptApart (c d : Char) : Prop := c = '\\' -> d ≠ '\'' ∧ d ≠ '\\'

def backslash (held : Bool) : Text := if held then ['\\'] else []

def placeAfter (held : Bool) : LiteralPlace := if held then escaped else inside

/-- What can be read back behind a backslash that is or is not held. -/
structure ReadBack (joined held : Bool) (symbols : List (Option Char)) : Prop where
  lines : forall c, c ∈ symbols.map readAs -> endsLine c = false
  escapes : (backslash held ++ symbols.map readAs ++ ['\'']).IsChain KeptApart
  seams : none ∈ symbols -> joined = true

def ReadOr (joined held : Bool) (symbols : List (Option Char)) (result : Option Text) : Prop :=
  ReadBack joined held symbols ∧ result = some (backslash held ++ symbols.map readAs) ∨
    ¬ ReadBack joined held symbols ∧
      forall value, result = some value -> value.length < (backslash held).length + symbols.length

section

variable {joined held : Bool} {indent : Nat} {symbol : Option Char}
  {symbols : List (Option Char)}

theorem readBack_cons (hline : endsLine (readAs symbol) = false)
    (hbackslash : readAs symbol ≠ '\\') (hquote : held = true -> readAs symbol ≠ '\'')
    (hseam : symbol = none -> joined = true) :
    ReadBack joined held (symbol :: symbols) <-> ReadBack joined false symbols := by
  have hchain : (backslash held ++ (symbol :: symbols).map readAs ++ ['\'']).IsChain KeptApart <->
      (symbols.map readAs ++ ['\'']).IsChain KeptApart := by
    have hfirst : (readAs symbol :: (symbols.map readAs ++ ['\''])).IsChain KeptApart <->
        (symbols.map readAs ++ ['\'']).IsChain KeptApart := by
      rw [List.isChain_cons]
      exact and_iff_right fun _ _ heq => absurd heq hbackslash
    cases held with
    | false =>
        exact hfirst
    | true =>
        rw [<- hfirst]
        change ('\\' :: readAs symbol :: (symbols.map readAs ++ ['\''])).IsChain KeptApart <-> _
        rw [List.isChain_cons_cons]
        exact and_iff_right fun _ => ⟨hquote rfl, hbackslash⟩
  constructor
  · intro h
    exact ⟨fun c hc => h.lines c (List.mem_cons_of_mem _ hc), hchain.mp h.escapes,
      fun hnone => h.seams (List.mem_cons_of_mem _ hnone)⟩
  · intro h
    refine ⟨?_, hchain.mpr h.escapes, ?_⟩
    · intro c hc
      rcases List.mem_cons.mp hc with rfl | hc
      · exact hline
      · exact h.lines c hc
    · intro hnone
      rcases List.mem_cons.mp hnone with hnone | hnone
      · exact hseam hnone.symm
      · exact h.seams hnone

theorem ReadOr.cons {result : Option Text} (h : ReadOr joined false symbols result)
    (hline : endsLine (readAs symbol) = false)
    (hbackslash : readAs symbol ≠ '\\') (hquote : held = true -> readAs symbol ≠ '\'')
    (hseam : symbol = none -> joined = true) :
    ReadOr joined held (symbol :: symbols)
      (result.map fun value => backslash held ++ [readAs symbol] ++ value) := by
  have hiff : ReadBack joined held (symbol :: symbols) <-> ReadBack joined false symbols :=
    readBack_cons hline hbackslash hquote hseam
  rcases h with ⟨hread, rfl⟩ | ⟨hread, hshort⟩
  · refine Or.inl ⟨hiff.mpr hread, ?_⟩
    rw [Option.map_some, List.append_assoc]
    rfl
  · refine Or.inr ⟨fun hread' => hread (hiff.mp hread'), ?_⟩
    intro value hvalue
    rcases Option.map_eq_some_iff.mp hvalue with ⟨rest, hrest, rfl⟩
    have hlt : rest.length < symbols.length := by
      simpa [backslash] using hshort rest hrest
    rw [List.append_assoc, List.length_append, List.singleton_append, List.length_cons,
      List.length_cons]
    exact Nat.add_lt_add_left (Nat.succ_lt_succ hlt) _

theorem ReadOr.nothing (h : ¬ ReadBack joined held symbols) : ReadOr joined held symbols none :=
  Or.inr ⟨h, nofun⟩

theorem readValue?_step {place next : LiteralPlace} {c : Char} {read : Text} (rest : Text)
    (h : place.step? joined c = some (next, read)) :
    readValue? joined place (c :: rest) =
      (readValue? joined next rest).map fun value => read ++ value := by
  rw [readValue?, h]
  rfl

theorem readValue?_silent {place next : LiteralPlace} {c : Char} (rest : Text)
    (h : place.step? joined c = some (next, [])) :
    readValue? joined place (c :: rest) = readValue? joined next rest :=
  (readValue?_step rest h).trans Option.map_id'

theorem readValue?_stuck {place : LiteralPlace} {c : Char} (rest : Text)
    (h : place.step? joined c = none) : readValue? joined place (c :: rest) = none := by
  rw [readValue?, h]
  rfl

theorem readValue?_fill (n : Nat) (rest : Text) :
    readValue? true between (Text.fill ' ' n ++ rest) = readValue? true between rest := by
  induction n with
  | zero =>
      rfl
  | succ n ih =>
      rw [← ih]
      exact readValue?_silent (Text.fill ' ' n ++ rest) rfl

theorem readValue?_seam (rest : Text) :
    readValue? true (placeAfter held) (pythonSeam indent ++ rest) =
      (readValue? true inside rest).map fun value => backslash held ++ [' '] ++ value := by
  have hbreak : readValue? true inside ('\'' :: '\n' :: (Text.fill ' ' indent ++ '\'' :: rest)) =
      readValue? true inside rest := by
    rw [readValue?_silent _ rfl, readValue?_silent _ rfl, readValue?_fill, readValue?_silent _ rfl]
  have hseam : pythonSeam indent ++ rest =
      ' ' :: '\'' :: '\n' :: (Text.fill ' ' indent ++ '\'' :: rest) := by
    unfold pythonSeam
    simp
  rw [hseam, ← hbreak]
  cases held with
  | false =>
      rfl
  | true =>
      rfl

theorem pythonValue_cons (symbol : Option Char) (symbols : List (Option Char)) :
    pythonValue joined indent (symbol :: symbols) =
      writtenAs (pythonSeam indent) symbol ++ pythonValue joined indent symbols := by
  unfold pythonValue
  rw [List.flatMap_cons, List.append_assoc]

theorem pythonValue_ne_nil (joined : Bool) (indent : Nat) (symbols : List (Option Char)) :
    pythonValue joined indent symbols ≠ [] := by
  unfold pythonValue pythonEnd
  cases joined with
  | false => simp
  | true => simp

theorem writtenAs_of_ne {c : Char} (h : c ≠ '\'') (seam : Text) :
    writtenAs seam (some c) = [c] := by
  unfold writtenAs
  dsimp only
  rw [if_neg]
  rw [beq_iff_eq]
  exact h

theorem readValue?_between :
    readValue? joined between (pythonValue joined indent symbols) = none := by
  cases joined with
  | false =>
      rcases List.exists_cons_of_ne_nil (pythonValue_ne_nil false indent symbols)
        with ⟨c, rest, heq⟩
      rw [heq]
      rfl
  | true =>
      induction symbols with
      | nil =>
          rfl
      | cons symbol symbols ih =>
          rw [pythonValue_cons]
          cases symbol with
          | none =>
              rfl
          | some c =>
              by_cases hquote : c = '\''
              · rw [hquote]
                rfl
              · rw [writtenAs_of_ne hquote, List.singleton_append, readValue?, step?,
                  if_neg (by decide), if_neg (by simpa using hquote)]
                split
                · -- Nothing may stand behind the parenthesis.
                  rcases List.exists_cons_of_ne_nil (pythonValue_ne_nil true indent symbols)
                    with ⟨d, rest, heq⟩
                  rw [heq]
                  rfl
                · split
                  · rw [Option.bind_some, ih]
                    rfl
                  · rfl

theorem readBack_backslash :
    ReadBack joined false (some '\\' :: symbols) <-> ReadBack joined true symbols := by
  constructor
  · intro h
    exact ⟨fun c hc => h.lines c (List.mem_cons_of_mem _ hc), h.escapes,
      fun hnone => h.seams (List.mem_cons_of_mem _ hnone)⟩
  · intro h
    refine ⟨?_, h.escapes, ?_⟩
    · intro c hc
      rcases List.mem_cons.mp hc with rfl | hc
      · rfl
      · exact h.lines c hc
    · intro hnone
      rcases List.mem_cons.mp hnone with hnone | hnone
      · cases hnone
      · exact h.seams hnone

theorem ReadOr.backslash {result : Option Text} (h : ReadOr joined true symbols result) :
    ReadOr joined false (some '\\' :: symbols) result := by
  rcases h with ⟨hread, rfl⟩ | ⟨hread, hshort⟩
  · exact Or.inl ⟨readBack_backslash.mpr hread, rfl⟩
  · refine Or.inr ⟨fun hread' => hread (readBack_backslash.mp hread'), ?_⟩
    intro value hvalue
    have hlt := hshort value hvalue
    rw [Nat.add_comm] at hlt
    exact Nat.lt_of_lt_of_eq hlt (Nat.zero_add _).symm

theorem not_readBack_escape {c : Char} (h : c = '\'' ∨ c = '\\') :
    ¬ ReadBack joined true (some c :: symbols) := by
  intro hread
  have hapart := (List.isChain_cons_cons.mp hread.escapes).1 rfl
  rcases h with rfl | rfl
  · exact hapart.1 rfl
  · exact hapart.2 rfl

theorem ReadOr.length_le {result : Option Text} (h : ReadOr joined false symbols result)
    {value : Text} (hvalue : result = some value) : value.length <= symbols.length := by
  rcases h with ⟨_, heq⟩ | ⟨_, hshort⟩
  · rw [heq, Option.some.injEq] at hvalue
    rw [← hvalue]
    exact Nat.le_of_eq (List.length_map _)
  · have hlt := hshort value hvalue
    exact Nat.le_of_lt (Nat.lt_of_lt_of_eq hlt (Nat.zero_add _))

theorem step?_line {c : Char} (hquote : c ≠ '\'') (hbackslash : c ≠ '\\')
    (hline : endsLine c = true) : (placeAfter held).step? joined c = none := by
  cases held with
  | false => simp [placeAfter, step?, hquote, hbackslash, hline]
  | true => simp [placeAfter, step?, hquote, hbackslash, hline]

theorem step?_plain {c : Char} (hquote : c ≠ '\'') (hbackslash : c ≠ '\\')
    (hline : endsLine c = false) :
    (placeAfter held).step? joined c = some (inside, backslash held ++ [c]) := by
  cases held with
  | false => simp [placeAfter, backslash, step?, hquote, hbackslash, hline]
  | true => simp [placeAfter, backslash, step?, hquote, hbackslash, hline]

theorem readOr_end (joined : Bool) (indent : Nat) (held : Bool) :
    ReadOr joined held [] (readValue? joined (placeAfter held) (pythonValue joined indent [])) := by
  cases held with
  | false =>
      left
      refine ⟨⟨nofun, List.IsChain.singleton _, nofun⟩, ?_⟩
      cases joined with
      | false => rfl
      | true => rfl
  | true =>
      -- The backslash takes the quote at the end.
      have hread : readValue? joined escaped (pythonValue joined indent []) = none := by
        cases joined with
        | false => rfl
        | true => rfl
      change ReadOr _ _ _ (readValue? joined escaped _)
      rw [hread]
      apply ReadOr.nothing
      intro h
      exact ((List.isChain_cons_cons.mp h.escapes).1 rfl).1 rfl

section

variable (h : forall held, ReadOr joined held symbols
  (readValue? joined (placeAfter held) (pythonValue joined indent symbols)))
include h

theorem readOr_seam (held : Bool) :
    ReadOr joined held (none :: symbols) (readValue? joined (placeAfter held)
      (pythonSeam indent ++ pythonValue joined indent symbols)) := by
  cases joined with
  | false =>
      have hread : readValue? false (placeAfter held)
          (pythonSeam indent ++ pythonValue false indent symbols) = none := by
        cases held with
        | false => rfl
        | true => rfl
      rw [hread]
      apply ReadOr.nothing
      intro hread
      exact Bool.false_ne_true (hread.seams List.mem_cons_self)
  | true =>
      rw [readValue?_seam]
      exact (h false).cons rfl (by decide) (fun _ => by decide) (fun _ => rfl)

theorem readOr_quote (held : Bool) :
    ReadOr joined held (some '\'' :: symbols) (readValue? joined (placeAfter held)
      ('\\' :: '\'' :: pythonValue joined indent symbols)) := by
  cases held with
  | false =>
      change ReadOr _ _ _ (readValue? joined inside _)
      rw [readValue?_silent _ rfl, readValue?_step _ rfl]
      exact (h false).cons rfl (by decide) nofun nofun
  | true =>
      -- The backslash takes the one that is written before the quote.
      change ReadOr _ _ _ (readValue? joined escaped _)
      rw [readValue?_step _ rfl, readValue?_silent _ rfl, readValue?_between]
      exact ReadOr.nothing (not_readBack_escape (Or.inl rfl))

theorem readOr_backslash (held : Bool) :
    ReadOr joined held (some '\\' :: symbols) (readValue? joined (placeAfter held)
      ('\\' :: pythonValue joined indent symbols)) := by
  cases held with
  | false =>
      change ReadOr _ _ _ (readValue? joined inside _)
      rw [readValue?_silent _ rfl]
      exact (h true).backslash
  | true =>
      change ReadOr _ _ _ (readValue? joined escaped _)
      refine Or.inr ⟨not_readBack_escape (Or.inr rfl), ?_⟩
      intro value hvalue
      rw [readValue?_step _ rfl] at hvalue
      rcases Option.map_eq_some_iff.mp hvalue with ⟨rest, hrest, rfl⟩
      have hle := (h false).length_le hrest
      rw [List.length_append, List.length_cons]
      exact Nat.add_lt_add_left (Nat.lt_succ_of_le hle) 1

theorem readOr_other {c : Char} (hquote : c ≠ '\'') (hbackslash : c ≠ '\\') (held : Bool) :
    ReadOr joined held (some c :: symbols) (readValue? joined (placeAfter held)
      (c :: pythonValue joined indent symbols)) := by
  cases hline : endsLine c with
  | true =>
      rw [readValue?_stuck _ (step?_line hquote hbackslash hline)]
      apply ReadOr.nothing
      intro hread
      have hkept := hread.lines c List.mem_cons_self
      rw [hline] at hkept
      cases hkept
  | false =>
      rw [readValue?_step _ (step?_plain hquote hbackslash hline)]
      exact (h false).cons hline hbackslash (fun _ => hquote) nofun

end

/-- By induction on the value that is written: it is read back, or a shorter one, with a
backslash that is held in front. -/
theorem readOr_pythonValue (joined : Bool) (indent : Nat) (symbols : List (Option Char))
    (held : Bool) :
    ReadOr joined held symbols
      (readValue? joined (placeAfter held) (pythonValue joined indent symbols)) := by
  induction symbols generalizing held with
  | nil =>
      exact readOr_end joined indent held
  | cons symbol symbols ih =>
      rw [pythonValue_cons]
      cases symbol with
      | none =>
          exact readOr_seam ih held
      | some c =>
          by_cases hquote : c = '\''
          · subst hquote
            exact readOr_quote ih held
          rw [writtenAs_of_ne hquote, List.singleton_append]
          by_cases hbackslash : c = '\\'
          · subst hbackslash
            exact readOr_backslash ih held
          · exact readOr_other ih hquote hbackslash held

end

/-- A value is read back if and only if nothing in it stands in the way. -/
theorem readValue?_eq_some_iff (joined : Bool) (indent : Nat) (symbols : List (Option Char)) :
    readValue? joined inside (pythonValue joined indent symbols) = some (symbols.map readAs) <->
      ReadBack joined false symbols := by
  rcases readOr_pythonValue joined indent symbols false with ⟨hread, heq⟩ | ⟨hread, hshort⟩
  · exact iff_of_true heq hread
  · refine iff_of_false ?_ hread
    intro heq
    have hlt := hshort _ heq
    rw [List.length_map] at hlt
    exact absurd hlt (by simp [backslash])

theorem eq_or_length_lt_of_readValue? {joined : Bool} {indent : Nat}
    {symbols : List (Option Char)} {value : Text}
    (h : readValue? joined inside (pythonValue joined indent symbols) = some value) :
    value = symbols.map readAs ∨ value.length < symbols.length := by
  rcases readOr_pythonValue joined indent symbols false with ⟨_, heq⟩ | ⟨_, hshort⟩
  · exact Or.inl (Option.some.inj (h.symm.trans heq))
  · exact Or.inr (Nat.lt_of_lt_of_eq (hshort value h) (Nat.zero_add _))

end SqlLayout
