import SqlLayout.Proofs.Splitting.Reading

/-!
# Created routines

The body of a created routine is read as part of its statement: the blocks in it
leave the level where they found it, and the `END` of the body brings it back to
the level of the statement, so that the next semicolon ends the statement.  A
`DECLARE` section raises the level for good: the semicolon after the body does
not end the statement then.
-/

namespace SqlLayout

/-!
# Words that open and close blocks
-/

namespace Token

def blockWords : List String :=
  ["DECLARE", "BEGIN", "END", "END IF", "END FOR", "END WHILE", "IF", "FOR", "WHILE"]

def isBlockWord (token : Token) : Bool :=
  blockWords.any token.isWord

def isBranch (token : Token) : Bool :=
  ["IF", "FOR", "WHILE"].any token.isWord

def isNeutral (token : Token) : Bool :=
  !token.isSemicolon && !token.isDollarQuote && !token.isBlockWord

/-- A token that is neutral or a semicolon. -/
def isPlain (token : Token) : Bool :=
  token.isNeutral || token.isSemicolon

/-- A word that starts a routine. -/
def isCreate (token : Token) : Bool :=
  token.category == .ddl && token.normalized.startsWith (Text.of "CREATE")

variable {token : Token}

theorem isKeyword_of_isCreate (h : token.isCreate = true) : token.isKeyword = true := by
  rw [isCreate, Bool.and_eq_true, beq_iff_eq] at h
  rw [isKeyword, h.1]
  rfl

theorem isKeyword_of_isBranch (h : token.isBranch = true) : token.isKeyword = true := by
  rcases List.any_eq_true.mp h with ⟨word, _, hword⟩
  exact (isWord_iff.mp hword).1

theorem isBlockWord_of_isCreate (h : token.isCreate = true) : token.isBlockWord = false := by
  have hstart := (Bool.and_eq_true_iff.mp h).2
  have hwords :
      (blockWords.all fun word => !(Text.of word).startsWith (Text.of "CREATE")) = true := by
    decide
  rw [← Bool.not_eq_true, isBlockWord, List.any_eq_true]
  rintro ⟨word, hmem, hword⟩
  have hother := List.all_eq_true.mp hwords word hmem
  rw [(isWord_iff.mp hword).2] at hstart
  rw [hstart] at hother
  cases hother

theorem isNeutral_iff :
    token.isNeutral = true <->
      token.isSemicolon = false ∧ token.isDollarQuote = false ∧ token.isBlockWord = false := by
  simp only [isNeutral, Bool.and_eq_true, Bool.not_eq_true', and_assoc]

end Token

/-!
# One word
-/

namespace BlockState

variable {s : BlockState} {token : Token}

theorem stepKeyword_other (s : BlockState) (category : Category) {word : Text}
    (h : forall other, other ∈ Token.blockWords -> word ≠ Text.of other) :
    s.stepKeyword category word =
      { s with isCreate := s.isCreate ||
          (category == .ddl && word.startsWith (Text.of "CREATE")) } := by
  have hother : s.stepKeyword category word =
      if category == .ddl && word.startsWith (Text.of "CREATE") then { s with isCreate := true }
      else s := by
    simp only [Token.blockWords, List.forall_mem_cons] at h
    simp [stepKeyword, h]
  rw [hother]
  split
  · rename_i hcreate
    rw [hcreate, Bool.or_true]
  · rename_i hcreate
    rw [Bool.eq_false_iff.mpr hcreate, Bool.or_false]

theorem step_other (htag : s.dollarTag = none) (hmark : token.isDollarQuote = false)
    (h : token.isBlockWord = false) :
    s.step token = { s with isCreate := s.isCreate || token.isCreate } := by
  cases hword : token.isKeyword with
  | false =>
      have hcreate : token.isCreate = false := by
        rw [← Bool.not_eq_true]
        intro hcreate
        rw [Token.isKeyword_of_isCreate hcreate] at hword
        cases hword
      rw [step_plain hword hmark, hcreate, Bool.or_false]
  | true =>
      rw [step_keyword htag hword]
      apply stepKeyword_other
      intro other hmem hother
      have hany : token.isBlockWord = true :=
        List.any_eq_true.mpr ⟨other, hmem, Token.isWord_iff.mpr ⟨hword, hother⟩⟩
      rw [h] at hany
      cases hany

theorem step_create (htag : s.dollarTag = none) (h : token.isCreate = true) :
    s.step token = { s with isCreate := true } := by
  have hmark := Token.isDollarQuote_of_isKeyword (Token.isKeyword_of_isCreate h)
  rw [step_other htag hmark (Token.isBlockWord_of_isCreate h), h, Bool.or_true]

theorem step_declare (htag : s.dollarTag = none) (hcreate : s.isCreate = true)
    (hdepth : s.beginDepth = 0) (h : token.isWord "DECLARE" = true) :
    s.step token = { s with inDeclare := true, level := s.level + 1 } := by
  rw [step_word htag h]
  simp [stepKeyword, raise, hcreate, hdepth]

theorem step_begin (htag : s.dollarTag = none) (hcreate : s.isCreate = true)
    (h : token.isWord "BEGIN" = true) :
    s.step token = { s with beginDepth := s.beginDepth + 1, level := s.level + 1 } := by
  rw [step_word htag h]
  simp [stepKeyword, raise, hcreate, Text.of]

theorem step_end (htag : s.dollarTag = none) (h : token.isWord "END" = true) :
    s.step token = { s with beginDepth := s.beginDepth - 1, level := s.level - 1 } := by
  rw [step_word htag h]
  rfl

theorem step_branch (htag : s.dollarTag = none) (hcreate : s.isCreate = true)
    (h : token.isBranch = true) :
    s.step token = if 0 < s.beginDepth then { s with level := s.level + 1 } else s := by
  rcases List.any_eq_true.mp h with ⟨word, hmem, hword⟩
  rw [step_word htag hword]
  simp only [List.mem_cons, List.not_mem_nil, or_false] at hmem
  rcases hmem with rfl | rfl | rfl
  · simp [stepKeyword, raise, hcreate, Text.of, Text.startsWith]
  · simp [stepKeyword, raise, hcreate, Text.of, Text.startsWith]
  · simp [stepKeyword, raise, hcreate, Text.of, Text.startsWith]

theorem step_endBranch {word : String} (htag : s.dollarTag = none)
    (hmem : word ∈ ["END IF", "END FOR", "END WHILE"]) (h : token.isWord word = true) :
    s.step token = { s with level := s.level - 1 } := by
  rw [step_word htag h]
  simp only [List.mem_cons, List.not_mem_nil, or_false] at hmem
  rcases hmem with rfl | rfl | rfl
  · rfl
  · rfl
  · rfl

/-!
# Tokens without block words
-/

theorem isEnd_neutral (h : token.isNeutral = true) : s.isEnd token = false :=
  isEnd_of_not_semicolon (Token.isNeutral_iff.mp h).1

theorem step_neutral (htag : s.dollarTag = none) (h : token.isNeutral = true) :
    s.step token = { s with isCreate := s.isCreate || token.isCreate } := by
  rcases Token.isNeutral_iff.mp h with ⟨_, hmark, hword⟩
  exact step_other htag hmark hword

theorem step_of_isPlain (htag : s.dollarTag = none) (hcreate : s.isCreate = true)
    (h : token.isPlain = true) : s.step token = s := by
  rcases Bool.or_eq_true_iff.mp h with hneutral | hsemicolon
  · rw [step_neutral htag hneutral, hcreate, Bool.true_or, ← hcreate]
  · exact step_semicolon hsemicolon

variable {tokens : List Token}

theorem reads_neutral (htag : s.dollarTag = none)
    (h : forall token, token ∈ tokens -> token.isNeutral = true) :
    Reads s tokens { s with isCreate := s.isCreate || tokens.any Token.isCreate } := by
  induction tokens generalizing s with
  | nil =>
      rw [List.any_nil, Bool.or_false]
      exact Reads.nil
  | cons token rest ih =>
      have hneutral := h token List.mem_cons_self
      rw [List.any_cons, ← Bool.or_assoc]
      apply Reads.step (step_neutral htag hneutral) (isEnd_neutral hneutral)
      exact ih htag fun other hother => h other (List.mem_cons_of_mem _ hother)

theorem reads_plain (htag : s.dollarTag = none) (hcreate : s.isCreate = true)
    (hlevel : 0 < s.level) (h : forall token, token ∈ tokens -> token.isPlain = true) :
    Reads s tokens s :=
  Reads.stay fun token hmem =>
    ⟨step_of_isPlain htag hcreate (h token hmem), isEnd_of_level_pos hlevel⟩

end BlockState

/-!
# Bodies
-/

def blockPairs : List (String × String) :=
  [("BEGIN", "END"), ("IF", "END IF"), ("WHILE", "END WHILE"), ("FOR", "END FOR")]

/-- The tokens of a body: neutral tokens, semicolons and blocks with bodies of
their own. -/
inductive Body : List Token -> Prop where
  | nil : Body []
  | plain {token : Token} {rest : List Token} :
      token.isPlain = true -> Body rest -> Body (token :: rest)
  | block {first last : String} {opening closing : Token} {inner rest : List Token} :
      (first, last) ∈ blockPairs -> opening.isWord first = true -> closing.isWord last = true ->
      Body inner -> Body rest -> Body (opening :: (inner ++ closing :: rest))

namespace BlockState

/-- In the body of a created routine, and not in a dollar body. -/
structure InBody (s : BlockState) : Prop where
  outside : s.dollarTag = none
  created : s.isCreate = true
  depth_pos : 0 < s.beginDepth
  level_pos : 0 < s.level

variable {s : BlockState}

/-- The opening word of a block leads to the body of the block, and the closing
word leads back. -/
theorem InBody.block {first last : String} {opening closing : Token} (h : InBody s)
    (hpair : (first, last) ∈ blockPairs) (hopening : opening.isWord first = true)
    (hclosing : closing.isWord last = true) :
    InBody (s.step opening) ∧ (s.step opening).step closing = s := by
  have hlevel : 0 < s.level + 1 := Int.add_pos h.level_pos Int.one_pos
  simp only [blockPairs, List.mem_cons, Prod.mk.injEq, List.not_mem_nil, or_false] at hpair
  rcases hpair with ⟨rfl, rfl⟩ | hpair
  · have hinner : InBody { s with beginDepth := s.beginDepth + 1, level := s.level + 1 } :=
      ⟨h.outside, h.created, Nat.succ_pos _, hlevel⟩
    rw [step_begin h.outside h.created hopening]
    refine ⟨hinner, ?_⟩
    rw [step_end hinner.outside hclosing]
    simp
  · have hwords : opening.isBranch = true ∧ last ∈ ["END IF", "END FOR", "END WHILE"] := by
      rcases hpair with ⟨rfl, rfl⟩ | ⟨rfl, rfl⟩ | ⟨rfl, rfl⟩
      · exact ⟨List.any_eq_true.mpr ⟨"IF", by simp, hopening⟩, by simp⟩
      · exact ⟨List.any_eq_true.mpr ⟨"WHILE", by simp, hopening⟩, by simp⟩
      · exact ⟨List.any_eq_true.mpr ⟨"FOR", by simp, hopening⟩, by simp⟩
    have hinner : InBody { s with level := s.level + 1 } :=
      ⟨h.outside, h.created, h.depth_pos, hlevel⟩
    rw [step_branch h.outside h.created hwords.1, if_pos h.depth_pos]
    refine ⟨hinner, ?_⟩
    rw [step_endBranch hinner.outside hwords.2 hclosing]
    simp

end BlockState

open BlockState

/-- A body is read without an end of the statement, and leaves the blocks as they
were. -/
theorem Body.reads {tokens : List Token} (h : Body tokens) {s : BlockState} (hs : InBody s) :
    Reads s tokens s := by
  induction h generalizing s with
  | nil =>
      exact Reads.nil
  | plain hplain _ ih =>
      exact Reads.step (step_of_isPlain hs.outside hs.created hplain)
        (isEnd_of_level_pos hs.level_pos) (ih hs)
  | block hpair hopening hclosing _ _ ihInner ihRest =>
      rcases hs.block hpair hopening hclosing with ⟨hinner, hback⟩
      apply Reads.step rfl (isEnd_of_level_pos hinner.level_pos)
      apply (ihInner hinner).append
      exact Reads.step hback (isEnd_of_level_pos hs.level_pos) (ihRest hs)

/-!
# Routines
-/

/-- A created routine up to its semicolon. -/
inductive Routine : List Token -> Prop where
  | intro {lead head body tail : List Token} {create opening closing semicolon : Token} :
      (forall token, token ∈ lead -> token.isNeutral = true) ->
      create.isCreate = true ->
      (forall token, token ∈ head -> token.isNeutral = true ∨ token.isBranch = true) ->
      opening.isWord "BEGIN" = true ->
      Body body ->
      closing.isWord "END" = true ->
      (forall token, token ∈ tail -> token.isNeutral = true) ->
      semicolon.isSemicolon = true ->
      Routine (lead ++ create :: (head ++ opening :: (body ++ closing :: (tail ++ [semicolon]))))

theorem reads_header {lead head tokens : List Token} {create opening : Token} {t : BlockState}
    (hlead : forall token, token ∈ lead -> token.isNeutral = true)
    (hcreate : create.isCreate = true)
    (hhead : forall token, token ∈ head -> token.isNeutral = true ∨ token.isBranch = true)
    (hopening : opening.isWord "BEGIN" = true)
    (htokens : Reads { isCreate := true, beginDepth := 1, level := 1 } tokens t) :
    Reads {} (lead ++ create :: (head ++ opening :: tokens)) t := by
  have hbegin : step { isCreate := true } opening =
      { isCreate := true, beginDepth := 1, level := 1 } :=
    step_begin rfl rfl hopening
  have hbranches : Reads { isCreate := true } head { isCreate := true } := by
    apply Reads.stay
    intro token hmem
    rcases hhead token hmem with hneutral | hbranch
    · exact ⟨step_neutral rfl hneutral, isEnd_neutral hneutral⟩
    · exact ⟨step_branch rfl rfl hbranch, isEnd_keyword (Token.isKeyword_of_isBranch hbranch)⟩
  apply (reads_neutral rfl hlead).append
  apply Reads.step (step_create rfl hcreate)
    (isEnd_keyword (Token.isKeyword_of_isCreate hcreate))
  apply hbranches.append
  exact Reads.step hbegin (isEnd_of_level_pos Int.one_pos) htokens

theorem inBody_header : InBody { isCreate := true, beginDepth := 1, level := 1 } :=
  ⟨rfl, rfl, Nat.one_pos, Int.one_pos⟩

theorem Routine.exists_reads {routine : List Token} (h : Routine routine) :
    exists front semicolon, routine = front ++ [semicolon] ∧ semicolon.isSemicolon = true ∧
      Reads {} front { isCreate := true } := by
  cases h with
  | @intro lead head body tail create opening closing semicolon hlead hcreate hhead hopening hbody
      hclosing htail hsemicolon =>
    refine ⟨lead ++ create :: (head ++ opening :: (body ++ closing :: tail)), semicolon,
      by simp, hsemicolon, ?_⟩
    have hend : step { isCreate := true, beginDepth := 1, level := 1 } closing =
        { isCreate := true } :=
      step_end rfl hclosing
    apply reads_header hlead hcreate hhead hopening
    apply (hbody.reads inBody_header).append
    apply Reads.step hend (isEnd_keyword (Token.isWord_iff.mp hclosing).1)
    exact reads_neutral rfl htail

/-- A created routine is one statement, with the blanks and line comments after
its semicolon, whatever follows. -/
theorem routine_is_statement {routine : List Token} (h : Routine routine) (rest : List Token) :
    splitStatements (routine ++ rest) =
      Statement.ofTokens (routine ++ rest.takeWhile Token.trails) ::
        splitStatements (rest.dropWhile Token.trails) := by
  rcases h.exists_reads with ⟨front, semicolon, rfl, hsemicolon, hreads⟩
  apply splitStatements_eq (by simp)
  rw [List.append_assoc, List.append_assoc]
  exact firstStatement_of_semicolon hreads hsemicolon (Int.le_refl 0) rest

/-- A routine with a block inside of a condition. -/
def nestedRoutine : List Token :=
  [⟨.ddl, Text.of "create", none⟩, ⟨.name, Text.of "p", none⟩, ⟨.keyword, Text.of "begin", none⟩,
   ⟨.keyword, Text.of "if", none⟩, ⟨.name, Text.of "x", none⟩, ⟨.keyword, Text.of "begin", none⟩,
   ⟨.name, Text.of "a", none⟩, ⟨.punctuation, Text.of ";", none⟩, ⟨.keyword, Text.of "end", none⟩,
   ⟨.punctuation, Text.of ";", none⟩, ⟨.keyword, Text.of "end if", none⟩,
   ⟨.punctuation, Text.of ";", none⟩, ⟨.keyword, Text.of "end", none⟩,
   ⟨.punctuation, Text.of ";", none⟩]

theorem nestedRoutine_shape : Routine nestedRoutine := by
  have hend : Body [⟨.punctuation, Text.of ";", none⟩] :=
    .plain (by decide) .nil
  have hblock : Body (⟨.keyword, Text.of "begin", none⟩ ::
      ([⟨.name, Text.of "a", none⟩, ⟨.punctuation, Text.of ";", none⟩] ++
        ⟨.keyword, Text.of "end", none⟩ :: [⟨.punctuation, Text.of ";", none⟩])) :=
    .block (by decide : ("BEGIN", "END") ∈ blockPairs) (by decide) (by decide)
      (.plain (by decide) hend) hend
  have hbranch : Body (⟨.keyword, Text.of "if", none⟩ ::
      (⟨.name, Text.of "x", none⟩ :: ⟨.keyword, Text.of "begin", none⟩ ::
        ([⟨.name, Text.of "a", none⟩, ⟨.punctuation, Text.of ";", none⟩] ++
          ⟨.keyword, Text.of "end", none⟩ :: [⟨.punctuation, Text.of ";", none⟩]) ++
        ⟨.keyword, Text.of "end if", none⟩ :: [⟨.punctuation, Text.of ";", none⟩])) :=
    .block (by decide : ("IF", "END IF") ∈ blockPairs) (by decide) (by decide)
      (.plain (by decide) hblock) hend
  exact @Routine.intro [] [⟨.name, Text.of "p", none⟩] _ [] _ _ _ _ (by decide) (by decide)
    (by decide) (by decide) hbranch (by decide) (by decide) (by decide)

theorem routine_is_statement_nested :
    Routine nestedRoutine ∧
      splitStatements (nestedRoutine ++
          [⟨.whitespace, Text.of " ", none⟩, ⟨.name, Text.of "c", none⟩]) =
        Statement.ofTokens (nestedRoutine ++ [⟨.whitespace, Text.of " ", none⟩]) ::
          splitStatements [⟨.name, Text.of "c", none⟩] :=
  ⟨nestedRoutine_shape, routine_is_statement nestedRoutine_shape _⟩

/-!
# Routines with a section of declarations
-/

/-- A created routine with a `DECLARE` section in front of its body, up to the
semicolon after the body. -/
inductive DeclaringRoutine : List Token -> Prop where
  | intro {head declarations body : List Token}
      {create declare opening closing semicolon : Token} :
      create.isCreate = true ->
      (forall token, token ∈ head -> token.isNeutral = true) ->
      declare.isWord "DECLARE" = true ->
      (forall token, token ∈ declarations -> token.isPlain = true) ->
      opening.isWord "BEGIN" = true ->
      (forall token, token ∈ body -> token.isPlain = true) ->
      closing.isWord "END" = true ->
      semicolon.isSemicolon = true ->
      DeclaringRoutine
        (create :: (head ++ declare :: (declarations ++ opening :: (body ++ [closing, semicolon]))))

/-- `DECLARE` and `BEGIN` both raise the level and `END` lowers it once, so the
semicolon after the body is read above the level of the statement. -/
theorem DeclaringRoutine.reads {routine : List Token} (h : DeclaringRoutine routine) :
    Reads {} routine { inDeclare := true, isCreate := true, level := 1 } := by
  cases h with
  | @intro head declarations body create declare opening closing semicolon hcreate hhead hdeclare
      hdeclarations hopening hbody hclosing hsemicolon =>
    have hsection : step { isCreate := true } declare =
        { inDeclare := true, isCreate := true, level := 1 } :=
      step_declare rfl rfl rfl hdeclare
    have hbegin : step { inDeclare := true, isCreate := true, level := 1 } opening =
        { inDeclare := true, isCreate := true, beginDepth := 1, level := 2 } :=
      step_begin rfl rfl hopening
    have hend : step { inDeclare := true, isCreate := true, beginDepth := 1, level := 2 } closing =
        { inDeclare := true, isCreate := true, level := 1 } :=
      step_end rfl hclosing
    apply Reads.step (step_create rfl hcreate)
      (isEnd_keyword (Token.isKeyword_of_isCreate hcreate))
    apply (reads_neutral rfl hhead).append
    apply Reads.step hsection (isEnd_of_level_pos Int.one_pos)
    apply (reads_plain rfl rfl Int.one_pos hdeclarations).append
    apply Reads.step hbegin (isEnd_of_level_pos (by decide))
    apply (reads_plain rfl rfl (by decide) hbody).append
    apply Reads.step hend (isEnd_of_level_pos Int.one_pos)
    exact Reads.step (step_semicolon hsemicolon) (isEnd_of_level_pos Int.one_pos) Reads.nil

/-- The statement of a routine with a section of declarations never ends with
the routine: it goes on into what follows as if a block were still open, and
takes all of it where no word closes a block. -/
theorem declaring_routine_goes_on {routine : List Token} (h : DeclaringRoutine routine)
    (rest : List Token) :
    (exists more later,
      firstStatement { inDeclare := true, isCreate := true, level := 1 } rest = (more, later) ∧
        (rest ≠ [] -> more ≠ []) ∧
        splitStatements (routine ++ rest) =
          Statement.ofTokens (routine ++ more) :: splitStatements later) ∧
      ((forall token, token ∈ rest -> token.isPlain = true) ->
        splitStatements (routine ++ rest) = [Statement.ofTokens (routine ++ rest)]) := by
  have hne : routine ++ rest ≠ [] := by
    cases h with
    | intro =>
        simp
  have hsplit := splitStatements_eq hne (firstStatement_of_reads h.reads rest)
  constructor
  · refine ⟨_, _, rfl, ?_, hsplit⟩
    intro hrest
    cases rest with
    | nil =>
        exact absurd rfl hrest
    | cons token rest =>
        exact firstStatement_ne_nil _ token rest
  · intro hplain
    have hreads : Reads {} (routine ++ rest) { inDeclare := true, isCreate := true, level := 1 } :=
      h.reads.append (reads_plain rfl rfl Int.one_pos hplain)
    have hall := firstStatement_of_reads hreads []
    rw [List.append_nil] at hall
    rw [splitStatements_eq hne hall]
    exact congrArg (fun tokens => [Statement.ofTokens tokens]) (List.append_nil _)

/-- A routine with one declaration and one statement in its body. -/
def declaringRoutine : List Token :=
  [⟨.ddl, Text.of "create", none⟩, ⟨.keyword, Text.of "declare", none⟩, ⟨.name, Text.of "a", none⟩,
   ⟨.punctuation, Text.of ";", none⟩, ⟨.keyword, Text.of "begin", none⟩, ⟨.name, Text.of "b", none⟩,
   ⟨.punctuation, Text.of ";", none⟩, ⟨.keyword, Text.of "end", none⟩,
   ⟨.punctuation, Text.of ";", none⟩]

theorem declaringRoutine_shape : DeclaringRoutine declaringRoutine := by
  refine @DeclaringRoutine.intro [] [⟨.name, Text.of "a", none⟩, ⟨.punctuation, Text.of ";", none⟩]
    [⟨.name, Text.of "b", none⟩, ⟨.punctuation, Text.of ";", none⟩]
    _ _ _ _ _ ?_ ?_ ?_ ?_ ?_ ?_ ?_ ?_
  all_goals decide

theorem declaring_routine_goes_on_name :
    DeclaringRoutine declaringRoutine ∧
      (exists more later,
        firstStatement { inDeclare := true, isCreate := true, level := 1 }
            [⟨.name, Text.of "c", none⟩] = (more, later) ∧
          more ≠ [] ∧
          splitStatements (declaringRoutine ++ [⟨.name, Text.of "c", none⟩]) =
            Statement.ofTokens (declaringRoutine ++ more) :: splitStatements later) ∧
      splitStatements (declaringRoutine ++ [⟨.name, Text.of "c", none⟩]) =
        [Statement.ofTokens (declaringRoutine ++ [⟨.name, Text.of "c", none⟩])] := by
  rcases declaring_routine_goes_on declaringRoutine_shape [⟨.name, Text.of "c", none⟩] with
    ⟨⟨more, later, hfirst, hmore, hsplit⟩, hall⟩
  exact ⟨declaringRoutine_shape, ⟨more, later, hfirst, hmore (by decide), hsplit⟩, hall (by decide)⟩

/-- What follows a routine with a section of declarations is no statement of its
own, although it is neither a blank nor a comment. -/
theorem declaring_routine_takes_next :
    DeclaringRoutine declaringRoutine ∧ Token.trails ⟨.name, Text.of "c", none⟩ = false ∧
      splitTokens (declaringRoutine ++ [⟨.name, Text.of "c", none⟩]) =
        [declaringRoutine ++ [⟨.name, Text.of "c", none⟩]] ∧
      splitTokens (declaringRoutine ++ [⟨.name, Text.of "c", none⟩]) ≠
        [declaringRoutine, [⟨.name, Text.of "c", none⟩]] :=
  ⟨declaringRoutine_shape, by decide, by decide, by decide⟩

end SqlLayout
