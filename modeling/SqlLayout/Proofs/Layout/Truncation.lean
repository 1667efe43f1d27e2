import SqlLayout.Layout.Formatter
import SqlLayout.Proofs.Lexer.QuotedStrings

/-!
# Strings that are cut short

A string that is too long keeps its first characters, with a mark behind them.  Where the
cut goes between the two quotes of a pair, one of them is left and closes the string.  A
string that begins with such a pair is taken for a string in doubled quotes, and what is
made of it is no string at all.
-/

namespace SqlLayout

theorem Text.length_le_byteLength (text : Text) : text.length <= text.byteLength := by
  induction text with
  | nil =>
      exact Nat.le_refl 0
  | cons c rest ih =>
      have hpos := c.utf8Size_pos
      rw [List.length_cons, byteLength]
      omega

namespace LeafFilter

variable {width : Nat} {inner marker : Text}

/-!
# The text that is kept
-/

theorem stripStart?_append (start rest : Text) : stripStart? (start ++ rest) start = some rest := by
  unfold stripStart?
  rw [if_pos (List.isPrefixOf_iff_prefix.mpr (List.prefix_append start rest)), List.drop_left]

theorem stripEnd?_append (front tail : Text) : stripEnd? (front ++ tail) tail = some front := by
  unfold stripEnd?
  rw [List.reverse_append, stripStart?_append, Option.map_some, List.reverse_reverse]

theorem stripEnd?_eq_none {text tail : Text} (h : ¬ tail <:+ text) :
    stripEnd? text tail = none := by
  unfold stripEnd? stripStart?
  rw [if_neg, Option.map_none]
  rw [List.isPrefixOf_iff_prefix, List.reverse_prefix]
  exact h

theorem truncateValue_plain (h : inner.head? ≠ some '\'') :
    truncateValue width marker ('\'' :: (inner ++ ['\''])) =
      if width < inner.length then '\'' :: (inner.take width ++ marker ++ ['\''])
      else '\'' :: (inner ++ ['\'']) := by
  have hquote : quoteOf ('\'' :: (inner ++ ['\''])) = ['\''] := by
    unfold quoteOf
    rw [if_neg]
    cases inner with
    | nil =>
        decide
    | cons c inner =>
        have hc : '\'' ≠ c := by
          simpa using Ne.symm h
        simp [List.isPrefixOf, hc]
  have hstrip : (stripStart? ('\'' :: (inner ++ ['\''])) ['\'']).bind (stripEnd? · ['\'']) =
      some inner := by
    have hstart := stripStart?_append ['\''] (inner ++ ['\''])
    rw [List.singleton_append] at hstart
    rw [hstart, Option.bind_some, stripEnd?_append]
  unfold truncateValue
  dsimp only
  rw [hquote, hstrip]
  simp only [List.cons_append, List.nil_append]

theorem quoteOf_doubled {rest : Text} (h : 2 <= rest.length) :
    quoteOf ('\'' :: '\'' :: rest) = ['\'', '\''] := by
  have hbytes := Text.length_le_byteLength ('\'' :: '\'' :: rest)
  rw [List.length_cons, List.length_cons] at hbytes
  unfold quoteOf
  rw [if_pos]
  rw [Bool.and_eq_true, decide_eq_true_eq]
  exact ⟨by simp [List.isPrefixOf], by omega⟩

theorem truncateValue_enclosed (middle : Text) :
    truncateValue width marker ('\'' :: ('\'' :: (middle ++ ['\'']) ++ ['\''])) =
      if width < middle.length then
        '\'' :: '\'' :: (middle.take width ++ marker ++ ['\'', '\''])
      else '\'' :: ('\'' :: (middle ++ ['\'']) ++ ['\'']) := by
  have hquote : quoteOf ('\'' :: ('\'' :: (middle ++ ['\'']) ++ ['\''])) = ['\'', '\''] :=
    quoteOf_doubled (by simp)
  have hstrip : (stripStart? ('\'' :: ('\'' :: (middle ++ ['\'']) ++ ['\'']))
      ['\'', '\'']).bind (stripEnd? · ['\'', '\'']) = some middle := by
    have htext : '\'' :: ('\'' :: (middle ++ ['\'']) ++ ['\'']) =
        ['\'', '\''] ++ (middle ++ ['\'', '\'']) := by
      simp
    rw [htext, stripStart?_append, Option.bind_some, stripEnd?_append]
  unfold truncateValue
  dsimp only
  rw [hquote, hstrip]
  simp only [List.cons_append, List.nil_append]

theorem truncateValue_begun {c : Char} (hc : c ≠ '\'') (middle : Text) :
    truncateValue width marker ('\'' :: ('\'' :: (middle ++ [c]) ++ ['\''])) =
      '\'' :: ('\'' :: (middle ++ [c]) ++ ['\'']) := by
  have hquote : quoteOf ('\'' :: ('\'' :: (middle ++ [c]) ++ ['\''])) = ['\'', '\''] :=
    quoteOf_doubled (by simp)
  have hstrip : (stripStart? ('\'' :: ('\'' :: (middle ++ [c]) ++ ['\'']))
      ['\'', '\'']).bind (stripEnd? · ['\'', '\'']) = none := by
    have htext : '\'' :: ('\'' :: (middle ++ [c]) ++ ['\'']) =
        ['\'', '\''] ++ (middle ++ [c, '\'']) := by
      simp
    rw [htext, stripStart?_append, Option.bind_some, stripEnd?_eq_none]
    intro hsuffix
    have hpair := List.suffix_of_suffix_length_le hsuffix
      (List.suffix_append middle [c, '\'']) (Nat.le_refl 2)
    have heq := List.IsSuffix.eq_of_length hpair rfl
    rw [List.cons.injEq] at heq
    exact hc heq.1.symm
  unfold truncateValue
  dsimp only
  rw [hquote, hstrip]

/-!
# Reading the text again
-/

/-- The mark behind a text that was cut, unless the caller asks for another one. -/
def defaultMarker : Text := ({} : LayoutOptions).truncateMarker

/-- The lexer reads a text as one string. -/
def IsOneString (config : LexerConfig) (text : Text) : Prop :=
  tokenize config text = [⟨.singleQuoted, text, some 0⟩]

variable {config : LexerConfig}

theorem isOneString_whole (h : Regex.StaysOpen inner) :
    IsOneString config ('\'' :: (inner ++ ['\''])) := by
  unfold IsOneString
  rw [Scan.tokenize_quote_iff, Regex.stringLength_closed h, List.length_append]
  rfl

/-- Behind the first characters of a string a text is read to the end if they leave the
string open and nothing in the text closes it early. -/
theorem isOneString_append_iff {kept tail : Text} {n : Nat} (hquote : tail.head? ≠ some '\'')
    (hslash : tail.head? ≠ some '\\') (hlength : Regex.stringLength tail = some n)
    (hpos : 0 < tail.length) :
    IsOneString config ('\'' :: (kept ++ tail)) <-> Regex.StaysOpen kept ∧ n = tail.length := by
  unfold IsOneString
  rw [Scan.tokenize_quote_iff, List.length_append]
  by_cases hopen : Regex.StaysOpen kept
  · rw [Regex.stringLength_append_of_open hquote hslash hlength hopen, Option.some.injEq,
      Nat.add_left_cancel_iff]
    exact (and_iff_right hopen).symm
  · rcases Regex.stringLength_append_of_not_open hquote hslash hopen with ⟨k, hk, hclosed⟩
    rw [hclosed, Option.some.injEq]
    exact iff_of_false (by omega) (fun h => hopen h.1)

theorem isOneString_marked_iff (kept : Text) :
    IsOneString config ('\'' :: (kept ++ defaultMarker ++ ['\''])) <->
      Regex.StaysOpen kept := by
  rw [List.append_assoc,
    isOneString_append_iff (n := 6) (by decide) (by decide) (by decide) (by decide)]
  exact and_iff_left (by decide)

theorem not_isOneString_enclosed (kept : Text) :
    ¬ IsOneString config ('\'' :: '\'' :: (kept ++ defaultMarker ++ ['\'', '\''])) := by
  intro h
  rw [List.append_assoc, ← List.cons_append,
    isOneString_append_iff (n := 6) (by decide) (by decide) (by decide) (by decide)] at h
  exact absurd h.2 (by decide)

/-!
# Strings of the lexer
-/

theorem exists_ends_of_head (h : Regex.StaysOpen inner) (hhead : inner.head? = some '\'') :
    exists middle c, inner = '\'' :: (middle ++ [c]) := by
  rcases List.head?_eq_some_iff.mp hhead with ⟨rest, rfl⟩
  rcases List.eq_nil_or_concat rest with rfl | ⟨middle, c, rfl⟩
  · exact absurd (List.mem_singleton_self _) h
  · exact ⟨middle, c, by rw [List.concat_eq_append]⟩

theorem isOneString_truncateValue_iff (h : Regex.StaysOpen inner) :
    IsOneString config (truncateValue width defaultMarker ('\'' :: (inner ++ ['\'']))) <->
      if inner.head? = some '\'' then
        inner.getLast? = some '\'' -> inner.length <= width + 2
      else ¬ Regex.SplitsQuotes width (Regex.stringUnits inner) := by
  by_cases hhead : inner.head? = some '\''
  · rw [if_pos hhead]
    rcases exists_ends_of_head h hhead with ⟨middle, c, rfl⟩
    have hlast : ('\'' :: (middle ++ [c])).getLast? = some c := by
      rw [← List.cons_append, List.getLast?_append, List.getLast?_singleton, Option.some_or]
    have hlength : ('\'' :: (middle ++ [c])).length = middle.length + 2 := by
      simp
    rw [hlast, hlength, Nat.add_le_add_iff_right, Option.some.injEq]
    by_cases hc : c = '\''
    · subst hc
      rw [truncateValue_enclosed]
      by_cases hwidth : width < middle.length
      · rw [if_pos hwidth]
        exact iff_of_false (not_isOneString_enclosed _)
          (fun hle => Nat.not_le_of_lt hwidth (hle rfl))
      · rw [if_neg hwidth]
        exact iff_of_true (isOneString_whole h) (fun _ => Nat.le_of_not_lt hwidth)
    · rw [truncateValue_begun hc]
      exact iff_of_true (isOneString_whole h) (fun heq => absurd heq hc)
  · rw [if_neg hhead, truncateValue_plain hhead, ← Regex.staysOpen_take_iff h]
    by_cases hwidth : width < inner.length
    · rw [if_pos hwidth, isOneString_marked_iff]
    · rw [if_neg hwidth, List.take_of_length_le (Nat.le_of_not_lt hwidth)]
      exact iff_of_true (isOneString_whole h) h

/-- A string that is too long is cut behind the first characters of its inner text, unless
that text begins with a pair of quotes. -/
theorem truncateValue_kept_iff (h : Regex.StaysOpen inner) (hwidth : width < inner.length) :
    truncateValue width defaultMarker ('\'' :: (inner ++ ['\''])) =
        '\'' :: (inner.take width ++ defaultMarker ++ ['\'']) <->
      inner.head? = some '\'' -> inner = inner.take width ++ defaultMarker := by
  by_cases hhead : inner.head? = some '\''
  · rw [forall_prop_of_true hhead]
    have hwhole : '\'' :: (inner ++ ['\'']) =
        '\'' :: (inner.take width ++ defaultMarker ++ ['\'']) <->
          inner = inner.take width ++ defaultMarker := by
      rw [List.cons_inj_right, List.append_left_inj]
    rcases exists_ends_of_head h hhead with ⟨middle, c, rfl⟩
    by_cases hc : c = '\''
    · subst hc
      rw [truncateValue_enclosed]
      by_cases hmiddle : width < middle.length
      · rw [if_pos hmiddle]
        refine iff_of_false (fun heq => ?_) (fun heq => ?_)
        · have hlengths := congrArg List.length heq
          simp only [List.length_cons, List.length_append, List.length_take, List.length_nil]
            at hlengths hwidth
          omega
        · have hlasts := congrArg List.getLast? heq
          have hmarker : defaultMarker.getLast? = some ']' := by
            decide
          rw [← List.cons_append, List.getLast?_append, List.getLast?_append, hmarker,
            List.getLast?_singleton, Option.some_or, Option.some_or] at hlasts
          exact absurd hlasts (by decide)
      · rw [if_neg hmiddle, hwhole]
    · rw [truncateValue_begun hc, hwhole]
  · rw [truncateValue_plain hhead, if_pos hwidth]
    exact iff_of_true rfl (fun heq => absurd heq hhead)

theorem apply_truncate {token : Token} (h : token.category = .singleQuoted) :
    ((truncate width marker).apply token).value = truncateValue width marker token.value := by
  unfold apply
  dsimp only
  rw [if_pos (beq_iff_eq.mpr h)]

/-- A string of the lexer that is cut is read back as one string unless the cut goes between
two quotes or the string begins and ends with a pair of them; where it begins with a pair,
it does not keep just its first characters. -/
theorem truncated_strings_read_back_iff {options : LexerOptions} {config : LexerConfig}
    (hcheck : options.check = .ok config) {sql : Text} {token : Token}
    (htoken : token ∈ tokenize config sql) (hstring : token.category = .singleQuoted)
    (own : LexerConfig) (width : Nat) :
    exists inner, token.value = '\'' :: (inner ++ ['\'']) ∧
      (IsOneString own ((truncate width defaultMarker).apply token).value <->
        if inner.head? = some '\'' then
          inner.getLast? = some '\'' -> inner.length <= width + 2
        else ¬ Regex.SplitsQuotes width (Regex.stringUnits inner)) ∧
      (width < inner.length ->
        (((truncate width defaultMarker).apply token).value =
            '\'' :: (inner.take width ++ defaultMarker ++ ['\'']) <->
          inner.head? = some '\'' -> inner = inner.take width ++ defaultMarker)) := by
  rcases (emits_tokenize config sql).exists_place htoken with ⟨place, after, hnext⟩
  rcases Scan.exists_inner_of_next? (not_singleQuoted_of_check hcheck) hnext hstring with
    ⟨inner, hvalue, hopen⟩
  refine ⟨inner, hvalue, ?_, fun hwidth => ?_⟩
  · rw [apply_truncate hstring, hvalue]
    exact isOneString_truncateValue_iff hopen
  · rw [apply_truncate hstring, hvalue]
    exact truncateValue_kept_iff hopen hwidth

theorem mem_tokenize_of_isOneString {text : Text} (h : IsOneString config text) :
    ⟨.singleQuoted, text, some 0⟩ ∈ tokenize config text := by
  rw [h]
  exact List.mem_singleton_self _

/-- Two letters with a quote between them, cut behind the first quote of the pair. -/
theorem truncated_pair_read_back_iff :
    ({} : LexerOptions).check = .ok .default ∧
      (⟨.singleQuoted, Text.of "'a''b'", some 0⟩ : Token) ∈
        tokenize .default (Text.of "'a''b'") ∧
      exists inner, Text.of "'a''b'" = '\'' :: (inner ++ ['\'']) ∧
        (IsOneString .default
            ((truncate 2 defaultMarker).apply ⟨.singleQuoted, Text.of "'a''b'", some 0⟩).value <->
          if inner.head? = some '\'' then
            inner.getLast? = some '\'' -> inner.length <= 2 + 2
          else ¬ Regex.SplitsQuotes 2 (Regex.stringUnits inner)) := by
  have hcheck : ({} : LexerOptions).check = .ok .default := rfl
  have hone : IsOneString .default (Text.of "'a''b'") :=
    (Scan.tokenize_quote_iff (Text.of "a''b'")).mpr (by decide)
  have htoken := mem_tokenize_of_isOneString hone
  rcases truncated_strings_read_back_iff hcheck htoken rfl .default 2 with ⟨inner, hvalue, hread, _⟩
  exact ⟨hcheck, htoken, inner, hvalue, hread⟩

/-- A word between two pairs of quotes, cut to two characters. -/
theorem enclosed_string_not_read_back :
    ¬ forall (options : LexerOptions) (config : LexerConfig) (sql : Text) (token : Token)
      (width : Nat), options.check = .ok config -> token ∈ tokenize config sql ->
        token.category = .singleQuoted -> 1 <= width ->
        IsOneString config ((truncate width defaultMarker).apply token).value ∧
        forall inner, token.value = '\'' :: (inner ++ ['\'']) -> width < inner.length ->
          ((truncate width defaultMarker).apply token).value =
            '\'' :: (inner.take width ++ defaultMarker ++ ['\'']) := by
  intro hall
  have hwhole : IsOneString .default (Text.of "'''abc'''") :=
    (Scan.tokenize_quote_iff (Text.of "''abc'''")).mpr (by decide)
  have htoken := mem_tokenize_of_isOneString hwhole
  have hone := (hall {} .default _ _ 2 rfl htoken rfl (by decide)).1
  exact not_isOneString_enclosed (Text.of "'a") hone

end LeafFilter
end SqlLayout
