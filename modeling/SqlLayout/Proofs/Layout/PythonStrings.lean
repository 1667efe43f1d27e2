import SqlLayout.Proofs.Layout.BlankTokens
import SqlLayout.Proofs.Layout.PythonLiterals

/-!
# Statements read back from Python

A statement that is written as a Python string should be read back as it was.  The
value is written between quotes, in parentheses where a line break of the trimmed text
makes it several literals.  What is read back of it decides what is read back of the
assignment.
-/

namespace SqlLayout

open LiteralPlace

/-!
# The assignment
-/

theorem isAlphanum_variableName {n : Nat} {c : Char}
    (h : c ∈ HostWrapper.variableName .python n) : c.isAlphanum = true := by
  have hbase : (Text.of "sql").all Char.isAlphanum = true := by
    decide
  unfold HostWrapper.variableName at h
  dsimp only at h
  split at h
  · exact List.all_eq_true.mp hbase c h
  · rcases List.mem_append.mp h with hword | hdigit
    · exact List.all_eq_true.mp hbase c hword
    · unfold Text.ofNat at hdigit
      rw [Nat.toList_repr] at hdigit
      have hdigit' := Nat.isDigit_of_mem_toDigits (by decide) (by decide) hdigit
      rw [Char.isAlphanum, hdigit', Bool.or_true]

theorem variableName_cons (n : Nat) :
    exists rest, HostWrapper.variableName .python n = 's' :: rest := by
  unfold HostWrapper.variableName
  dsimp only
  split
  · exact ⟨Text.of "ql", rfl⟩
  · exact ⟨Text.of "ql" ++ Text.ofNat n, rfl⟩

theorem readAssignment?_append {front name : Text}
    (hfront : forall c, c ∈ front -> (c == '\n') = true) (hne : name ≠ [])
    (hname : forall c, c ∈ name -> c.isAlphanum = true) (joined : Bool) (value : Text) :
    readAssignment?
        (front ++
          (name ++ ' ' :: '=' :: ' ' :: ((if joined then ['('] else []) ++ '\'' :: value))) =
      (readValue? joined inside value).map fun v => (name, v) := by
  have hline : forall rest : Text,
      (front ++ (name ++ rest)).dropWhile (· == '\n') = name ++ rest := by
    intro rest
    rw [List.dropWhile_append_of_pos hfront]
    cases name with
    | nil =>
        exact absurd rfl hne
    | cons c letters =>
        rw [List.cons_append, List.dropWhile_cons_of_neg]
        rw [beq_iff_eq]
        rintro rfl
        cases hname '\n' List.mem_cons_self
  have hletters : forall rest : Text, (name ++ ' ' :: rest).takeWhile Char.isAlphanum = name := by
    intro rest
    rw [List.takeWhile_append_of_pos hname]
    exact List.append_nil name
  unfold readAssignment?
  dsimp only
  rw [hline, hletters, if_neg (by simpa using hne), List.drop_left]
  cases joined with
  | false => rfl
  | true => rfl

theorem wrap_python (count : Nat) {s : Statement}
    (hblank : forall token, token ∈ s.tokens -> token.isWhitespace = true ->
      forall c, c ∈ token.value -> Text.isBlank c = true) :
    (HostWrapper.wrap ⟨.python, count⟩ s).1 =
      (if 1 < count + 1 then ['\n'] else []) ++
        (HostWrapper.variableName .python (count + 1) ++ ' ' :: '=' :: ' ' ::
          ((if s.text.trim.elem '\n' then ['('] else []) ++ '\'' ::
            pythonValue (s.text.trim.elem '\n')
              ((HostWrapper.variableName .python (count + 1)).length + 4)
              s.hostSymbols)) := by
  unfold HostWrapper.wrap HostWrapper.writePython pythonValue pythonEnd Statement.hostSymbols
  dsimp only
  rw [writeTokens_eq]
  · have hsign : Text.of " = " = [' ', '=', ' '] := rfl
    rw [hsign]
    cases s.text.trim.elem '\n' with
    | false => simp [pythonSeam]
    | true => simp [pythonSeam]
  · intro token htoken
    exact hblank token ((List.dropWhile_suffix _).subset htoken)

/-!
# Parsed statements
-/

theorem afterLineFeed?_isSome {text : Text} :
    (HostWrapper.afterLineFeed? text).isSome = true <-> '\n' ∈ text := by
  induction text with
  | nil =>
      exact iff_of_false nofun nofun
  | cons c rest ih =>
      unfold HostWrapper.afterLineFeed?
      rw [List.mem_cons]
      split
      · rename_i hfeed
        exact iff_of_true rfl (Or.inl (eq_of_beq hfeed).symm)
      · rename_i hfeed
        rw [ih]
        refine (or_iff_right ?_).symm
        rintro rfl
        exact hfeed rfl

theorem none_mem_withSeam {token : Token} :
    none ∈ token.withSeam <-> token.isWhitespace = true ∧ '\n' ∈ token.value := by
  have hsome : forall text : Text, none ∉ text.map some := by
    intro text hnone
    rcases List.mem_map.mp hnone with ⟨c, _, hc⟩
    cases hc
  unfold Token.withSeam Token.nextLine?
  cases token.isWhitespace with
  | false =>
      exact iff_of_false (hsome token.value) (fun h => Bool.false_ne_true h.1)
  | true =>
      rw [if_pos rfl, ← afterLineFeed?_isSome]
      cases HostWrapper.afterLineFeed? token.value with
      | none =>
          exact iff_of_false (hsome token.value) (fun h => Bool.false_ne_true h.2)
      | some after =>
          exact iff_of_true List.mem_cons_self ⟨rfl, rfl⟩

theorem endsLine_eq_false {c : Char} : endsLine c = false <-> c ≠ '\n' ∧ c ≠ '\r' := by
  simp [endsLine]

theorem readBack_hostSymbols {s : Statement} {joined : Bool} :
    ReadBack joined false s.hostSymbols <->
      (forall c, c ∈ s.hostText -> c ≠ '\n' ∧ c ≠ '\r') ∧
        (s.hostText ++ ['\'']).IsChain KeptApart ∧
        ((exists token, token ∈ s.tokens.dropWhile Token.isWhitespace ∧
            token.isWhitespace = true ∧ '\n' ∈ token.value) -> joined = true) := by
  have hseams : none ∈ s.hostSymbols <->
      exists token, token ∈ s.tokens.dropWhile Token.isWhitespace ∧
        token.isWhitespace = true ∧ '\n' ∈ token.value := by
    unfold Statement.hostSymbols
    rw [List.mem_flatMap]
    exact exists_congr fun token => and_congr_right fun _ => none_mem_withSeam
  rw [← hseams, hostText_eq]
  constructor
  · intro h
    exact ⟨fun c hc => endsLine_eq_false.mp (h.lines c hc), h.escapes, h.seams⟩
  · rintro ⟨hlines, hescapes, hjoined⟩
    exact ⟨fun c hc => endsLine_eq_false.mpr (hlines c hc), hescapes, hjoined⟩

theorem readAssignment?_wrap {s : Statement}
    (hblank : forall token, token ∈ s.tokens -> token.isWhitespace = true ->
      forall c, c ∈ token.value -> Text.isBlank c = true) (count : Nat) :
    exists indent, readAssignment? (HostWrapper.wrap ⟨.python, count⟩ s).1 =
      (readValue? (s.text.trim.elem '\n') inside
        (pythonValue (s.text.trim.elem '\n') indent s.hostSymbols)).map
          fun value => (HostWrapper.variableName .python (count + 1), value) := by
  refine ⟨(HostWrapper.variableName .python (count + 1)).length + 4, ?_⟩
  rw [wrap_python count hblank, readAssignment?_append]
  · intro c hc
    split at hc
    · rw [List.mem_singleton.mp hc]
      rfl
    · cases hc
  · rcases variableName_cons (count + 1) with ⟨letters, hname⟩
    rw [hname]
    exact nofun
  · intro c hc
    exact isAlphanum_variableName hc

/-- A parsed statement that is written for Python is read back, or something shorter, or
nothing at all.  It is read back if and only if the text has no line break, each
backslash of it stands before another character that is neither a quote nor a backslash,
and the parentheses are there where a line feed became a seam. -/
theorem python_reads_back_iff {sql : Text} {options : LexerOptions} {limit : Nat}
    {statements : List Statement} (h : parse sql options limit = .ok statements)
    {s : Statement} (hs : s ∈ statements) (count : Nat) :
    (readAssignment? (HostWrapper.wrap ⟨.python, count⟩ s).1 =
        some (HostWrapper.variableName .python (count + 1), s.hostText) <->
      (forall c, c ∈ s.hostText -> c ≠ '\n' ∧ c ≠ '\r') ∧
        (s.hostText ++ ['\'']).IsChain (fun c d => c = '\\' -> d ≠ '\'' ∧ d ≠ '\\') ∧
        ((exists token, token ∈ s.tokens.dropWhile Token.isWhitespace ∧
            token.isWhitespace = true ∧ '\n' ∈ token.value) -> '\n' ∈ s.text.trim)) ∧
      forall name value,
        readAssignment? (HostWrapper.wrap ⟨.python, count⟩ s).1 = some (name, value) ->
          name = HostWrapper.variableName .python (count + 1) ∧
            (value = s.hostText ∨ value.length < s.hostText.length) := by
  rcases readAssignment?_wrap (blanks_of_parse h hs) count with ⟨indent, hread⟩
  rw [hread]
  constructor
  · have hvalue := readValue?_eq_some_iff (s.text.trim.elem '\n') indent s.hostSymbols
    rw [← hostText_eq, readBack_hostSymbols, List.elem_iff] at hvalue
    refine Iff.trans ?_ hvalue
    rw [Option.map_eq_some_iff]
    constructor
    · rintro ⟨value, hread, heq⟩
      rw [hread, (Prod.mk.inj heq).2]
    · intro hread
      exact ⟨s.hostText, hread, rfl⟩
  · intro name value hnamed
    rcases Option.map_eq_some_iff.mp hnamed with ⟨value', hvalue, heq⟩
    cases heq
    rw [hostText_eq, List.length_map]
    exact ⟨rfl, eq_or_length_lt_of_readValue? hvalue⟩

theorem python_reads_back_iff_two_lines :
    exists statements s,
      parse (Text.of "select 'x'\nfrom a") {} defaultMaxDepth = .ok statements ∧ s ∈ statements ∧
      readAssignment? (HostWrapper.wrap ⟨.python, 0⟩ s).1 =
        some (HostWrapper.variableName .python 1, s.hostText) ∧
      (s.hostText ++ ['\'']).IsChain (fun c d => c = '\\' -> d ≠ '\'' ∧ d ≠ '\\') := by
  have htokens : tokenize ⟨.generic, Vocabulary.ofDialect .generic⟩ (Text.of "select 'x'\nfrom a") =
      [⟨.dml, Text.of "select", some 0⟩, ⟨.whitespace, [' '], some 6⟩,
       ⟨.singleQuoted, Text.of "'x'", some 7⟩, ⟨.whitespace, ['\n'], some 10⟩,
       ⟨.keyword, Text.of "from", some 11⟩, ⟨.whitespace, [' '], some 15⟩,
       ⟨.name, ['a'], some 16⟩] := by
    decide +kernel
  rcases exists_parsed
    (p := fun s => readAssignment? (HostWrapper.wrap ⟨.python, 0⟩ s).1 ==
      some (HostWrapper.variableName .python 1, s.hostText))
    htokens (by decide +kernel) with ⟨statements, s, hparse, hs, hread⟩
  rw [beq_iff_eq] at hread
  exact ⟨statements, s, hparse, hs, hread,
    ((python_reads_back_iff hparse hs 0).1.mp hread).2.1⟩

/-- A string with an escaped quote: the backslash is not escaped, so the literal ends
before the quote. -/
theorem python_escaped_quote_lost :
    exists statements s,
      parse (Text.of "select '\\''") {} defaultMaxDepth = .ok statements ∧ s ∈ statements ∧
      s.hostText = Text.of "select '\\''" ∧
      (HostWrapper.wrap ⟨.python, 0⟩ s).1 = Text.of "sql = 'select \\'\\\\'\\''" ∧
      readAssignment? (HostWrapper.wrap ⟨.python, 0⟩ s).1 = none := by
  have htokens : tokenize ⟨.generic, Vocabulary.ofDialect .generic⟩ (Text.of "select '\\''") =
      [⟨.dml, Text.of "select", some 0⟩, ⟨.whitespace, [' '], some 6⟩,
       ⟨.singleQuoted, Text.of "'\\''", some 7⟩] := by
    decide +kernel
  rcases exists_parsed
    (p := fun s => s.hostText == Text.of "select '\\''" &&
      (HostWrapper.wrap ⟨.python, 0⟩ s).1 == Text.of "sql = 'select \\'\\\\'\\''")
    htokens (by decide +kernel) with ⟨statements, s, hparse, hs, hboth⟩
  rw [Bool.and_eq_true, beq_iff_eq, beq_iff_eq] at hboth
  refine ⟨statements, s, hparse, hs, hboth.1, hboth.2, ?_⟩
  rw [hboth.2]
  rfl

end SqlLayout
