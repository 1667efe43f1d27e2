import SqlLayout.Proofs.Parsing
import SqlLayout.Proofs.Splitting.Portions

/-!
# Splitting the parts again

A part is a statement trimmed.  Split by itself it stays one part, whatever stood
around it in the text that it was cut from.  The one exception is a statement of the
generic dialect with an empty comment `# ` behind its semicolon: trimmed, the comment
is the operator `#`, which makes another statement.
-/

namespace SqlLayout

open BlockState

variable {config : LexerConfig} {sql : Text}

/-!
# Places between statements
-/

namespace Scan

theorem Emits.exists_after {scan : Scan} {front later : List Token} {token : Token}
    (h : Emits config scan (front ++ token :: later)) (hready : scan.Ready) :
    exists place after : Scan, place.next? config = some (token, after) ∧ place.Ready ∧
      Emits config after later := by
  induction front generalizing scan with
  | nil =>
      cases h with
      | emit hnext htail =>
          exact ⟨scan, _, hnext, hready, htail⟩
  | cons first front ih =>
      cases h with
      | emit hnext htail =>
          exact ih htail (next?_spec hready hnext).2.2.2.2

theorem Emits.rest_ne_nil {scan : Scan} {tokens : List Token} (h : Emits config scan tokens)
    (hne : tokens ≠ []) : scan.rest ≠ [] := by
  cases h with
  | stop _ =>
      exact absurd rfl hne
  | emit hnext _ =>
      intro hnil
      rw [next?_eq_none_iff.mpr hnil] at hnext
      cases hnext

end Scan

theorem EndsAtSemicolon.exists_last {tokens : List Token} (h : EndsAtSemicolon tokens) :
    exists front last, tokens = front ++ [last] ∧
      (last.isSemicolon = true ∨ last.trails = true) := by
  rcases h with ⟨read, semicolon, trailing, rfl, hsemicolon, htrailing⟩
  cases htrail : trailing.getLast? with
  | none =>
      rw [List.getLast?_eq_none_iff.mp htrail]
      exact ⟨read, semicolon, rfl, Or.inl hsemicolon⟩
  | some last =>
      rcases List.getLast?_eq_some_iff.mp htrail with ⟨others, rfl⟩
      refine ⟨read ++ semicolon :: others, last, ?_, Or.inr (htrailing last ?_)⟩
      · rw [List.append_assoc, List.cons_append]
      · exact List.mem_append_right _ (List.mem_singleton_self last)

/-- Between two statements no dollar mark is open, and the text before ends with a
blank or a semicolon. -/
theorem exists_boundary {earlier later : List (List Token)} (hwordy : config.vocabulary.Wordy)
    (h : splitTokens (tokenize config sql) = earlier ++ later) (hearlier : earlier ≠ [])
    (hlater : later ≠ []) :
    exists place : Scan, Scan.Emits config place later.flatten ∧ place.Ready ∧
      place.dollarTag = none ∧ Loose place.before ∧
      place.before = (earlier.flatten.flatMap Token.value).getLast? := by
  have hflatten := splitTokens_flatten (tokenize config sql)
  have hlast := List.dropLast_concat_getLast hearlier
  have hsplit : splitTokens (tokenize config sql) =
      earlier.dropLast ++ earlier.getLast hearlier :: later := by
    rw [h, ← List.singleton_append, ← List.append_assoc, hlast]
  rcases (endsAtSemicolon_of_splitTokens hsplit hlater).exists_last with ⟨front, last, heq, hkind⟩
  have htokens : earlier.flatten = (earlier.dropLast.flatten ++ front) ++ [last] := by
    conv_lhs => rw [← hlast]
    rw [List.flatten_append, List.flatten_singleton, heq, List.append_assoc]
  have hemits := emits_tokenize config sql
  rw [← hflatten, h, List.flatten_append, htokens, List.append_assoc, List.singleton_append]
    at hemits
  rcases hemits.exists_after (ready_start sql) with ⟨place, after, hnext, hready, hafter⟩
  rcases Scan.next?_spec hready hnext with ⟨hvalue, _, _, _, hready'⟩
  have hbefore := (Scan.next?_after hnext).2
  have hmore := hafter.rest_ne_nil (flatten_ne_nil_of_splitTokens h hlater)
  have hcategory : last.category ≠ .string ∧ last.category ≠ .builtin := by
    rcases hkind with hsemicolon | htrails
    · rw [Token.category_of_isSemicolon hsemicolon]
      exact ⟨nofun, nofun⟩
    · rcases category_of_trails htrails with hcategory | hcategory
      · rw [hcategory]
        exact ⟨nofun, nofun⟩
      · rw [hcategory]
        exact ⟨nofun, nofun⟩
  refine ⟨after, hafter, hready', ?_, ?_, ?_⟩
  · exact (Scan.outside_of_category hnext hcategory.1 hcategory.2).2
  · rcases hkind with hsemicolon | htrails
    · intro c hc
      rw [hbefore, value_of_isSemicolon hsemicolon] at hc
      cases hc
      exact Or.inr rfl
    · exact Scan.loose_of_next? hwordy hnext (category_of_trails htrails) hmore
  · rw [hbefore, htokens, List.flatMap_append, List.getLast?_append, List.flatMap_singleton,
      List.getLast?_eq_some_getLast hvalue]
    rfl

/-- Where a statement starts no dollar mark is open, and a blank or a semicolon stands
before it if anything does. -/
theorem exists_start {earlier later : List (List Token)} {statement : List Token}
    (hwordy : config.vocabulary.Wordy)
    (h : splitTokens (tokenize config sql) = earlier ++ statement :: later) :
    exists place : Scan, Scan.Emits config place (statement ++ later.flatten) ∧ place.Ready ∧
      place.dollarTag = none ∧ Loose place.before := by
  rcases eq_or_ne earlier [] with rfl | hne
  · refine ⟨{ rest := sql }, ?_, ready_start sql, rfl, nofun⟩
    have hflatten := splitTokens_flatten (tokenize config sql)
    rw [h, List.nil_append, List.flatten_cons] at hflatten
    rw [hflatten]
    exact emits_tokenize config sql
  · rcases exists_boundary hwordy h hne (List.cons_ne_nil _ _) with
      ⟨place, hemits, hready, htag, hloose, _⟩
    exact ⟨place, hemits, hready, htag, hloose⟩

/-!
# The trimmed statement
-/

theorem exists_leading {scan : Scan} {statement later : List Token} {leading text : Text}
    (hemits : Scan.Emits config scan (statement ++ later)) (hready : scan.Ready)
    (htag : scan.dollarTag = none) (hloose : Loose scan.before)
    (htext : statement.flatMap Token.value = leading ++ text)
    (hblank : forall c, c ∈ leading -> Text.isBlank c = true) (hne : text ≠ [])
    (hsolid : forall c, text.head? = some c -> Text.isBlank c = false) :
    exists spaces tokens place, statement = spaces ++ tokens ∧
      (forall token, token ∈ spaces -> Token.category token = .whitespace) ∧
      Scan.Emits config place (tokens ++ later) ∧ place.Ready ∧ place.dollarTag = none ∧
      Loose place.before ∧ tokens.flatMap Token.value = text := by
  rcases eq_or_ne leading [] with rfl | hleading
  · exact ⟨[], statement, scan, rfl, nofun, hemits, hready, htag, hloose, htext⟩
  · have hspells := hemits.spells hready
    rw [List.flatMap_append, htext, List.append_assoc] at hspells
    cases statement with
    | nil =>
        rw [List.flatMap_nil, eq_comm, List.append_eq_nil_iff] at htext
        exact absurd htext.1 hleading
    | cons token tokens =>
        cases hemits with
        | @emit _ after _ _ hnext htail =>
            have hhead : forall c, (text ++ later.flatMap Token.value).head? = some c ->
                Text.isBlank c = false := by
              intro c hc
              rw [List.head?_append_of_ne_nil _ hne] at hc
              exact hsolid c hc
            rcases Scan.next?_blanks htag hspells.symm hleading hblank hhead hnext with
              ⟨hcategory, hvalue, _, htag'⟩
            have hloose' : Loose after.before := by
              intro c hc
              rw [(Scan.next?_after hnext).2, hvalue] at hc
              exact Or.inl (hblank c (List.mem_of_getLast? hc))
            rw [List.flatMap_cons, hvalue, List.append_cancel_left_eq] at htext
            refine ⟨[token], tokens, after, rfl, ?_, htail, (Scan.next?_spec hready hnext).2.2.2.2,
              htag', hloose', htext⟩
            intro other hother
            rw [List.mem_singleton.mp hother]
            exact hcategory

/-- What stands behind a trimmed statement starts with a blank, or a semicolon is its
end. -/
theorem cutOff_trim {earlier later : List (List Token)} {statement : List Token}
    {leading trimmed trailing : Text} (hwordy : config.vocabulary.Wordy)
    (h : splitTokens (tokenize config sql) = earlier ++ statement :: later)
    (htext : statement.flatMap Token.value = leading ++ (trimmed ++ trailing)) (hne : trimmed ≠ [])
    (hblank : forall c, c ∈ trailing -> Text.isBlank c = true)
    (hsolid : forall c, trimmed.getLast? = some c -> Text.isBlank c = false) :
    CutOff trimmed (trailing ++ later.flatten.flatMap Token.value) := by
  refine ⟨hne, hsolid, ?_⟩
  cases trailing with
  | cons c trailing =>
      left
      intro d hd
      cases hd
      exact hblank c List.mem_cons_self
  | nil =>
      rcases eq_or_ne later [] with rfl | hlater
      · exact Or.inl nofun
      · right
        rw [← List.singleton_append, ← List.append_assoc] at h
        have hearlier : earlier ++ [statement] ≠ [] :=
          List.append_ne_nil_of_right_ne_nil _ (List.cons_ne_nil _ _)
        rcases exists_boundary hwordy h hearlier hlater with ⟨place, _, _, _, hloose, hbefore⟩
        have hlast : place.before = trimmed.getLast? := by
          rw [hbefore, List.flatten_append, List.flatten_singleton, List.flatMap_append, htext,
            List.append_nil, ← List.append_assoc, List.getLast?_append_of_ne_nil _ hne]
        rw [← hlast]
        rw [← hlast] at hsolid
        cases hchar : place.before with
        | none =>
            rw [hchar] at hlast
            exact absurd (List.getLast?_eq_none_iff.mp hlast.symm) hne
        | some c =>
            rcases hloose c hchar with hblank | rfl
            · rw [hsolid c hchar] at hblank
              cases hblank
            · rfl

theorem Closes.of_append {behind : Text} {front back : List Token}
    (h : Closes behind (front ++ back)) : Closes behind back := by
  induction front with
  | nil =>
      exact h
  | cons token front ih =>
      exact ih h.tail

theorem exists_portion {earlier later : List (List Token)} {statement : List Token}
    (hwordy : config.vocabulary.Wordy)
    (h : splitTokens (tokenize config sql) = earlier ++ statement :: later)
    (hne : Text.trim (statement.flatMap Token.value) ≠ []) :
    exists spaces tokens place behind trailing, statement = spaces ++ tokens ∧
      (forall token, token ∈ spaces -> Token.category token = .whitespace) ∧
      Scan.Emits config place (tokens ++ later.flatten) ∧ place.Ready ∧
      Portion place { rest := Text.trim (statement.flatMap Token.value) } tokens
        (Text.trim (statement.flatMap Token.value)) behind trailing := by
  rcases Text.exists_trim (statement.flatMap Token.value) with
    ⟨leading, trailing, htext, hleading, htrailing, hhead, hlast⟩
  generalize Text.trim (statement.flatMap Token.value) = trimmed at *
  have hcut := cutOff_trim hwordy h htext hne htrailing hlast
  rcases exists_start hwordy h with ⟨start, hemits, hready, htag, hloose⟩
  have hhead' : forall c, (trimmed ++ trailing).head? = some c -> Text.isBlank c = false := by
    intro c hc
    rw [List.head?_append_of_ne_nil _ hne] at hc
    exact hhead c hc
  rcases exists_leading hemits hready htag hloose htext hleading
      (List.append_ne_nil_of_left_ne_nil hne _) hhead' with
    ⟨spaces, tokens, place, heq, hspaces, hemits', hready', htag', hloose', htext'⟩
  have hcloses : Closes (trailing ++ later.flatten.flatMap Token.value) statement := by
    rcases eq_or_ne later [] with rfl | hlater
    · left
      rw [List.flatten_nil, List.flatMap_nil, List.append_nil]
      exact htrailing
    · exact Or.inr (Or.inl (endsAtSemicolon_of_splitTokens h hlater))
  rw [heq] at hcloses
  refine ⟨spaces, tokens, place, _, trailing, heq, hspaces, hemits', hready', ?_, hcut, htext',
    htrailing, hcloses.of_append⟩
  refine ⟨?_, rfl, ?_, Or.inr ⟨hloose', nofun⟩, ?_⟩
  · rw [← hemits'.spells hready', List.flatMap_append, htext', List.append_assoc]
  · rw [htag']
  · rw [htag']
    exact nofun

/-!
# Empty comments behind a statement
-/

/-- A statement of the generic dialect that is over before an empty comment `# `. -/
def LosesComment (dialect : Dialect) (tokens : List Token) : Prop :=
  dialect = .generic ∧ exists early, Ended {} early ∧ EndsInEmptyComment early tokens

variable {dialect : Dialect} {tokens spaces : List Token}

theorem stay_of_whitespace {token : Token} (h : token.category = .whitespace) (s : BlockState) :
    s.step token = s ∧ token.isSemicolon = false := by
  constructor
  · apply step_plain
    · unfold Token.isKeyword
      rw [h]
      rfl
    · unfold Token.isDollarQuote
      rw [h]
      rfl
  · apply Token.isSemicolon_of_trails
    unfold Token.trails
    rw [h]
    rfl

theorem reads_spaces (h : forall token, token ∈ spaces -> Token.category token = .whitespace)
    (s : BlockState) : Reads s spaces s := by
  apply Reads.stay
  intro token htoken
  rcases stay_of_whitespace (h token htoken) s with ⟨hstep, hsemicolon⟩
  exact ⟨hstep, isEnd_of_not_semicolon hsemicolon⟩

theorem firstStatement_of_spaces
    (h : forall token, token ∈ spaces -> Token.category token = .whitespace)
    (hfirst : firstStatement {} (spaces ++ tokens) = (spaces ++ tokens, [])) :
    firstStatement {} tokens = (tokens, []) := by
  rw [firstStatement_of_reads (reads_spaces h {}), Prod.mk.injEq, List.append_cancel_left_eq]
    at hfirst
  exact Prod.ext hfirst.1 hfirst.2

theorem losesComment_cons {token : Token} (h : token.category = .whitespace) :
    LosesComment dialect (token :: tokens) <-> LosesComment dialect tokens := by
  rcases stay_of_whitespace h {} with ⟨hstep, hsemicolon⟩
  have hafter : forall read : List Token,
      BlockState.after {} (token :: read) = BlockState.after {} read := by
    intro read
    unfold BlockState.after
    rw [List.foldl_cons, hstep]
  constructor
  · rintro ⟨hdialect, _, ⟨read, semicolon, trailing, rfl, hreads, hends, hlevel, htrailing⟩,
      comment, blanks, heq, hcomment⟩
    cases read with
    | nil =>
        rw [List.nil_append, List.cons_append, List.cons.injEq] at heq
        rw [← heq.1, hsemicolon] at hends
        cases hends
    | cons first read =>
        rw [List.cons_append, List.cons_append, List.cons.injEq] at heq
        rcases heq with ⟨rfl, heq⟩
        rw [hafter] at hreads hlevel
        refine ⟨hdialect, _, ⟨read, semicolon, trailing, rfl, ?_, hends, hlevel, htrailing⟩,
          comment, blanks, heq, hcomment⟩
        cases hreads with
        | cons _ hrest =>
            rw [hstep] at hrest
            exact hrest
  · rintro ⟨hdialect, _, ⟨read, semicolon, trailing, rfl, hreads, hends, hlevel, htrailing⟩,
      comment, blanks, heq, hcomment⟩
    refine ⟨hdialect, _, ⟨token :: read, semicolon, trailing, rfl, ?_, hends, ?_, htrailing⟩,
      comment, blanks, ?_, hcomment⟩
    · rw [hafter]
      exact Reads.step hstep (isEnd_of_not_semicolon hsemicolon) hreads
    · rw [hafter]
      exact hlevel
    · rw [heq, List.cons_append, List.cons_append]

theorem losesComment_append
    (h : forall token, token ∈ spaces -> Token.category token = .whitespace) :
    LosesComment dialect (spaces ++ tokens) <-> LosesComment dialect tokens := by
  induction spaces with
  | nil =>
      exact Iff.rfl
  | cons token spaces ih =>
      rw [List.forall_mem_cons] at h
      rw [List.cons_append, losesComment_cons h.1]
      exact ih h.2

/-!
# The tokens of a part
-/

theorem splitTokens_of_firstStatement (hne : tokens ≠ [])
    (h : firstStatement {} tokens = (tokens, [])) : splitTokens tokens = [tokens] := by
  rw [splitTokens_eq hne, h]
  rfl

theorem firstStatement_of_operator {operator : Token} (h : operator.category = .operator)
    (s : BlockState) :
    firstStatement s [operator] = ([operator], []) ∧ operator.trails = false := by
  constructor
  · apply firstStatement_of_not_isEnd
    apply isEnd_of_not_semicolon
    unfold Token.isSemicolon Token.isPunctuationIn Token.hits
    rw [h]
    rfl
  · unfold Token.trails
    rw [h]
    rfl

theorem tokenize_ne_nil {text : Text} (h : text ≠ []) : tokenize config text ≠ [] := by
  have hlossless := tokenize_spells config text
  intro hnil
  rw [hnil] at hlossless
  exact h hlossless.symm

section

variable {place : Scan} {part behind trailing : Text} {later : List Token}

/-- What is left of a statement is one statement if it is not over before an empty
comment. -/
theorem Portion.splitTokens_kept (h : Portion place { rest := part } tokens part behind trailing)
    (hwordy : config.vocabulary.Wordy) (hready : place.Ready)
    (hemits : Scan.Emits config place (tokens ++ later))
    (hwhole : firstStatement {} tokens = (tokens, []))
    (hkept : ¬ LosesComment config.dialect tokens) :
    splitTokens (tokenize config part) = [tokenize config part] := by
  apply splitTokens_of_firstStatement (tokenize_ne_nil h.cut.ne_nil)
  by_cases hempty : config.dialect = .generic ∧ exists early, EndsInEmptyComment early tokens
  · -- The comment is an operator now, and the statement goes on over it.
    rcases hempty with ⟨hgeneric, early, hcomment⟩
    rcases h.emits_hash hwordy hgeneric hready hemits hcomment with
      ⟨read, operator, hemits', hcuts, hoperator, _⟩
    rw [← hemits'.unique (emits_tokenize config part)]
    have hcomment' := hcomment
    rcases hcomment with ⟨comment, blanks, rfl, _⟩
    have hearly : firstStatement {} early = (early, []) := by
      apply firstStatement_of_prefix
      · rw [hwhole]
        exact List.prefix_append early _
    rcases reads_or_ended hearly with hreads | hended
    · rw [firstStatement_of_reads (reads_of_cutTo hreads hcuts),
        (firstStatement_of_operator hoperator _).1]
    · exact absurd ⟨hgeneric, early, hended, hcomment'⟩ hkept
  · have hnone : config.dialect = .generic -> forall early, ¬ EndsInEmptyComment early tokens :=
      fun hgeneric early hcomment => hempty ⟨hgeneric, early, hcomment⟩
    rcases h.emits hwordy hready hemits hnone with ⟨kept, rest, read, rfl, hemits', hcuts⟩
    rw [← hemits'.unique (emits_tokenize config part)]
    apply firstStatement_of_cutTo _ hcuts
    apply firstStatement_of_prefix
    · rw [hwhole]
      exact List.prefix_append kept rest

/-- A statement that is over before an empty comment is one statement without it, and
the operator that is left of the comment is another one. -/
theorem Portion.splitTokens_lost (h : Portion place { rest := part } tokens part behind trailing)
    (hwordy : config.vocabulary.Wordy) (hready : place.Ready)
    (hemits : Scan.Emits config place (tokens ++ later))
    (hlost : LosesComment config.dialect tokens) :
    exists read operator, tokenize config part = read ++ [operator] ∧ Ended {} read ∧
      operator.value = ['#'] ∧ splitTokens (tokenize config part) = [read, [operator]] := by
  rcases hlost with ⟨hgeneric, early, hended, hcomment⟩
  rcases h.emits_hash hwordy hgeneric hready hemits hcomment with
    ⟨read, operator, hemits', hcuts, hoperator, hvalue⟩
  have hread : tokenize config part ≠ [] := tokenize_ne_nil h.cut.ne_nil
  rw [← hemits'.unique (emits_tokenize config part)] at hread ⊢
  rcases firstStatement_of_operator hoperator {} with ⟨hfirst, htrails⟩
  refine ⟨read, operator, rfl, hended.of_cutTo hcuts, hvalue, ?_⟩
  have hnot : ¬ operator.trails = true := by
    rw [htrails]
    exact Bool.false_ne_true
  rw [splitTokens_eq hread, firstStatement_of_ended (hended.of_cutTo hcuts),
    List.takeWhile_cons_of_neg hnot, List.dropWhile_cons_of_neg hnot, List.append_nil,
    splitTokens_of_firstStatement (List.cons_ne_nil _ _) hfirst]

end

/-- A statement trimmed is one statement, or its semicolon ends it and an operator is
another one. -/
theorem splitTokens_trim {earlier later : List (List Token)} {statement : List Token}
    (hwordy : config.vocabulary.Wordy)
    (h : splitTokens (tokenize config sql) = earlier ++ statement :: later)
    {part : Text} (hpart : part = Text.trim (statement.flatMap Token.value)) (hne : part ≠ []) :
    (¬ LosesComment config.dialect statement ->
      splitTokens (tokenize config part) = [tokenize config part]) ∧
    (LosesComment config.dialect statement -> exists read operator,
      tokenize config part = read ++ [operator] ∧ Ended {} read ∧ operator.value = ['#'] ∧
        splitTokens (tokenize config part) = [read, [operator]]) := by
  have hmem : statement ∈ splitTokens (tokenize config sql) := by
    rw [h]
    exact List.mem_append_right _ List.mem_cons_self
  have hwhole := firstStatement_of_splitTokens (splitTokens_of_mem hmem)
  rw [hpart] at hne
  rcases exists_portion hwordy h hne with
    ⟨spaces, tokens, place, behind, trailing, rfl, hspaces, hemits, hready, hportion⟩
  rw [← hpart] at hportion
  rw [losesComment_append hspaces]
  constructor
  · exact hportion.splitTokens_kept hwordy hready hemits
      (firstStatement_of_spaces hspaces hwhole)
  · exact hportion.splitTokens_lost hwordy hready hemits

/-!
# Parts
-/

theorem split_eq {options : LexerOptions} (h : options.check = .ok config) (sql : Text) :
    split sql options =
      .ok (((splitTokens (tokenize config sql)).map fun tokens =>
        Text.trim (tokens.flatMap Token.value)).filter fun text => !text.isEmpty) := by
  have htexts : (fun tokens => (Statement.ofTokens tokens).text.trim) =
      fun tokens => Text.trim (tokens.flatMap Token.value) := by
    funext tokens
    change Text.trim ((Statement.ofTokens tokens).tokens.flatMap Token.value) = _
    rw [Statement.tokens_ofTokens]
  unfold split readStatements splitStatements
  rw [h]
  dsimp only [bind, Except.bind]
  rw [List.map_map, ← htexts]
  rfl

theorem filter_nonempty {texts : List Text} (h : forall text, text ∈ texts -> text ≠ []) :
    (texts.filter fun text => !text.isEmpty) = texts := by
  rw [List.filter_eq_self]
  intro text htext
  rw [Bool.not_eq_true', List.isEmpty_eq_false_iff]
  exact h text htext

theorem Ended.semicolon_mem (h : Ended {} tokens) : ';' ∈ tokens.flatMap Token.value := by
  rcases h with ⟨read, semicolon, trailing, rfl, _, hsemicolon, _⟩
  rw [List.flatMap_append, List.flatMap_cons, value_of_isSemicolon hsemicolon]
  exact List.mem_append_right _ (List.mem_append_left _ (List.mem_singleton_self ';'))

theorem trim_of_trimmed {text : Text} {c : Char} (htrimmed : Text.trim (text ++ [c]) = text ++ [c])
    (hmem : ';' ∈ text) : Text.trim text = text.trimEnd ∧ text.trimEnd ≠ [] := by
  constructor
  · have hhead : forall d, text.head? = some d -> Text.isBlank d = false := by
      rcases Text.exists_trim (text ++ [c]) with ⟨_, _, _, _, _, hhead, _⟩
      rw [htrimmed, List.head?_append_of_ne_nil _ (List.ne_nil_of_mem hmem)] at hhead
      exact hhead
    unfold Text.trim
    rw [Text.trimStart_eq_self hhead]
  · intro hnil
    rcases Text.exists_trimEnd text with ⟨blanks, heq, hblanks, _⟩
    rw [hnil, List.nil_append] at heq
    rw [heq] at hmem
    exact absurd (hblanks ';' hmem) (by decide)

/-- A part that is split by itself stays one part, for every text, dialect and choice
of keywords.  Only a statement of the generic dialect that is over before an empty
comment `# ` does not: its part ends with a number sign, which is split off. -/
theorem split_again {options : LexerOptions} {sql : Text} {parts : List Text}
    (h : split sql options = .ok parts) {part : Text} (hpart : part ∈ parts) :
    exists config statement, options.check = .ok config ∧ statement ∈ readStatements config sql ∧
      part = statement.text.trim ∧
      (¬ LosesComment config.dialect statement.tokens -> split part options = .ok [part]) ∧
      (LosesComment config.dialect statement.tokens ->
        split part options = .ok [Text.trimEnd part.dropLast, ['#']]) := by
  cases hcheck : options.check with
  | error e =>
      unfold split at h
      rw [hcheck] at h
      cases h
  | ok config =>
      rw [split_eq hcheck, Except.ok.injEq] at h
      rw [← h, List.mem_filter, List.mem_map] at hpart
      rcases hpart with ⟨⟨tokens, htokens, heq⟩, hnonempty⟩
      rw [Bool.not_eq_true', List.isEmpty_eq_false_iff] at hnonempty
      have htext : (Statement.ofTokens tokens).text = tokens.flatMap Token.value := by
        change (Statement.ofTokens tokens).tokens.flatMap Token.value = _
        rw [Statement.tokens_ofTokens]
      rcases List.append_of_mem htokens with ⟨earlier, later, hsplit⟩
      rcases splitTokens_trim (wordy_of_check hcheck) hsplit heq.symm hnonempty with ⟨hkept, hlost⟩
      have hlossless := tokenize_spells config part
      have htrimmed : Text.trim part = part := by
        rw [← heq]
        exact Text.trim_trim _
      refine ⟨config, Statement.ofTokens tokens, rfl, List.mem_map_of_mem htokens, ?_, ?_, ?_⟩
      · rw [htext, heq]
      · intro hnot
        rw [Statement.tokens_ofTokens] at hnot
        rw [split_eq hcheck, hkept hnot, List.map_singleton, hlossless, htrimmed,
          filter_nonempty (by simpa using hnonempty)]
      · intro hloses
        rw [Statement.tokens_ofTokens] at hloses
        rcases hlost hloses with ⟨read, operator, hread, hended, hvalue, htwo⟩
        rw [hread, List.flatMap_append, List.flatMap_singleton, hvalue] at hlossless
        rw [← hlossless] at htrimmed
        rcases trim_of_trimmed htrimmed hended.semicolon_mem with ⟨htrim, hfirst⟩
        have hhash : Text.trim ['#'] = ['#'] := by
          decide
        rw [split_eq hcheck, htwo, List.map_cons, List.map_singleton, List.flatMap_singleton,
          hvalue,
          hhash, htrim, ← hlossless, List.dropLast_concat, filter_nonempty]
        simpa using hfirst

theorem tokenize_empty_comment :
    tokenize ⟨.generic, Vocabulary.ofDialect .generic⟩ (Text.of "a;# ") =
        [⟨.name, ['a'], some 0⟩, ⟨.punctuation, [';'], some 1⟩,
          ⟨.lineComment, ['#', ' '], some 2⟩] ∧
      tokenize ⟨.generic, Vocabulary.ofDialect .generic⟩ (Text.of "a;#") =
        [⟨.name, ['a'], some 0⟩, ⟨.punctuation, [';'], some 1⟩, ⟨.operator, ['#'], some 2⟩] := by
  decide +kernel

theorem split_empty_comment :
    split (Text.of "a;# ") {} = .ok [Text.of "a;#"] ∧
      split (Text.of "a;#") {} = .ok [Text.of "a;", Text.of "#"] := by
  have hcheck : ({} : LexerOptions).check = .ok ⟨.generic, Vocabulary.ofDialect .generic⟩ := rfl
  rw [split_eq hcheck, split_eq hcheck, tokenize_empty_comment.1, tokenize_empty_comment.2]
  decide

theorem split_again_empty_comment :
    split (Text.of "a;# ") {} = .ok [Text.of "a;#"] ∧
      exists config statement, ({} : LexerOptions).check = .ok config ∧
        statement ∈ readStatements config (Text.of "a;# ") ∧
        Text.of "a;#" = statement.text.trim ∧
        (¬ LosesComment config.dialect statement.tokens ->
          split (Text.of "a;#") {} = .ok [Text.of "a;#"]) ∧
        (LosesComment config.dialect statement.tokens ->
          split (Text.of "a;#") {} = .ok [Text.trimEnd (Text.of "a;#").dropLast, ['#']]) :=
  ⟨split_empty_comment.1, split_again split_empty_comment.1 (List.mem_singleton_self _)⟩

/-- The part that an empty comment leaves is split once more. -/
theorem split_not_stable :
    ¬ forall (sql : Text) (options : LexerOptions) (parts : List Text),
      split sql options = .ok parts ->
        forall part, part ∈ parts -> split part options = .ok [part] := by
  intro hall
  have hsame := hall _ _ _ split_empty_comment.1 _ (List.mem_singleton_self _)
  rw [split_empty_comment.2] at hsame
  exact absurd hsame (by decide)

end SqlLayout
