import Mathlib.Data.List.TakeWhile
import SqlLayout.Proofs.Splitting.CaseExpressions

/-!
# Loops in routines

The grouping closes a `FOR` loop with `END LOOP`, which is no block word of the
splitting.  In the body of a created routine `FOR` thus raises the level for good:
the `END` of the routine does not bring it back to the level of the statement.
-/

namespace SqlLayout

/-- The tokens of a body with loops that `END LOOP` closes, and how many loops
they are. -/
inductive LoopBody : Nat -> List Token -> Prop where
  | nil : LoopBody 0 []
  | plain {token : Token} {loops : Nat} {rest : List Token} :
      token.isPlain = true -> LoopBody loops rest -> LoopBody loops (token :: rest)
  | loop {opening closing : Token} {inside outside : Nat} {inner rest : List Token} :
      opening.isWord "FOR" = true -> closing.isWord "END LOOP" = true ->
      LoopBody inside inner -> LoopBody outside rest ->
      LoopBody (outside + inside + 1) (opening :: (inner ++ closing :: rest))

/-- A created routine with loops, up to the semicolon after its body. -/
inductive LoopRoutine : Nat -> List Token -> Prop where
  | intro {head body : List Token} {loops : Nat} {create opening closing semicolon : Token} :
      create.isCreate = true ->
      (forall token, token ∈ head -> token.isNeutral = true) ->
      opening.isWord "BEGIN" = true ->
      LoopBody loops body ->
      closing.isWord "END" = true ->
      semicolon.isSemicolon = true ->
      LoopRoutine loops (create :: (head ++ opening :: (body ++ [closing, semicolon])))

open BlockState

theorem LoopBody.reads {loops : Nat} {tokens : List Token} (h : LoopBody loops tokens)
    {s : BlockState} (hs : InBody s) : Reads s tokens { s with level := s.level + loops } := by
  induction h generalizing s with
  | nil =>
      rw [Int.natCast_zero, Int.add_zero]
      exact Reads.nil
  | plain hplain _ ih =>
      exact Reads.step (step_of_isPlain hs.outside hs.created hplain)
        (isEnd_of_level_pos hs.level_pos) (ih hs)
  | @loop opening closing inside outside inner rest hopening hclosing _ _ ihInner ihRest =>
      have hbranch : opening.isBranch = true :=
        List.any_eq_true.mpr ⟨"FOR", by simp, hopening⟩
      have hneutral : closing.isNeutral = true :=
        Token.isNeutral_of_isWord hclosing (by decide)
      have hraise : s.step opening = { s with level := s.level + 1 } := by
        rw [step_branch hs.outside hs.created hbranch, if_pos hs.depth_pos]
      have hinner : InBody { s with level := s.level + 1 } :=
        ⟨hs.outside, hs.created, hs.depth_pos, Int.add_pos hs.level_pos Int.one_pos⟩
      have hrest : InBody { s with level := s.level + 1 + inside } :=
        ⟨hs.outside, hs.created, hs.depth_pos,
          Int.add_pos_of_pos_of_nonneg hinner.level_pos (Int.natCast_nonneg inside)⟩
      have hplain : closing.isPlain = true :=
        Bool.or_eq_true_iff.mpr (Or.inl hneutral)
      have hlevel : s.level + (outside + inside + 1 : Nat) = s.level + 1 + inside + outside := by
        omega
      rw [hlevel]
      apply Reads.step hraise (isEnd_of_level_pos hinner.level_pos)
      apply (ihInner hinner).append
      exact Reads.step (step_of_isPlain hrest.outside hrest.created hplain)
        (isEnd_of_level_pos hrest.level_pos) (ihRest hrest)

/-- In front of its semicolon a routine is as many levels above the statement as
its body has loops. -/
theorem LoopRoutine.exists_reads {loops : Nat} {routine : List Token}
    (h : LoopRoutine loops routine) :
    exists front semicolon, routine = front ++ [semicolon] ∧ semicolon.isSemicolon = true ∧
      Reads {} front { isCreate := true, level := loops } := by
  cases h with
  | @intro head body _ create opening closing semicolon hcreate hhead hopening hbody hclosing
      hsemicolon =>
    refine ⟨create :: (head ++ opening :: (body ++ [closing])), semicolon, by simp, hsemicolon, ?_⟩
    have hend : step { isCreate := true, beginDepth := 1, level := 1 + loops } closing =
        { isCreate := true, level := loops } := by
      rw [step_end rfl hclosing]
      simp only [Nat.sub_self, BlockState.mk.injEq, true_and]
      omega
    have hbranches : forall token, token ∈ head -> token.isNeutral = true ∨ token.isBranch = true :=
      fun token hmem => Or.inl (hhead token hmem)
    have hinside := (hbody.reads inBody_header).append
      (Reads.step hend (isEnd_keyword (Token.isWord_iff.mp hclosing).1) Reads.nil)
    exact reads_header (List.forall_mem_nil _) hcreate hbranches hopening hinside

theorem LoopRoutine.ne_nil {loops : Nat} {routine : List Token} (h : LoopRoutine loops routine) :
    routine ≠ [] := by
  cases h with
  | intro =>
      exact List.cons_ne_nil _ _

/-- With a loop in its body, the semicolon of the routine is read like any other
token. -/
theorem LoopRoutine.reads {loops : Nat} {routine : List Token} (h : LoopRoutine loops routine)
    (hloops : loops ≠ 0) : Reads {} routine { isCreate := true, level := loops } := by
  rcases h.exists_reads with ⟨front, semicolon, rfl, hsemicolon, hreads⟩
  apply hreads.append
  apply Reads.step (step_semicolon hsemicolon) (isEnd_of_level_pos ?_) Reads.nil
  exact Int.natCast_pos.mpr (Nat.pos_of_ne_zero hloops)

theorem Token.isPlain_of_trails {token : Token} (h : token.trails = true) :
    token.isPlain = true := by
  have hcategory : token.category = .whitespace ∨ token.category = .lineComment := by
    rw [trails, Bool.or_eq_true, beq_iff_eq, beq_iff_eq] at h
    exact h
  have hkeyword : token.isKeyword = false := by
    rw [isKeyword]
    rcases hcategory with hblank | hcomment
    · rw [hblank]
      rfl
    · rw [hcomment]
      rfl
  have hword : token.isBlockWord = false := by
    rw [← Bool.not_eq_true, isBlockWord, List.any_eq_true]
    rintro ⟨word, _, hword⟩
    rw [(isWord_iff.mp hword).1] at hkeyword
    cases hkeyword
  rw [isPlain, isNeutral, isDollarQuote_of_trails h, hword]
  cases token.isSemicolon with
  | false =>
      rfl
  | true =>
      rfl

theorem firstStatement_passes_trails {s : BlockState} (htag : s.dollarTag = none)
    (hcreate : s.isCreate = true) (hlevel : 0 < s.level) {rest : List Token}
    (h : exists token, token ∈ rest ∧ token.trails = false) :
    (rest.takeWhile Token.trails).length < (firstStatement s rest).1.length := by
  rcases h with ⟨token, hmem, htrails⟩
  have hbehind : rest.dropWhile Token.trails ≠ [] := by
    rw [Ne, List.dropWhile_eq_nil_iff]
    intro hall
    rw [hall token hmem] at htrails
    cases htrails
  have hplain : forall token, token ∈ rest.takeWhile Token.trails -> token.isPlain = true :=
    fun token hmem => Token.isPlain_of_trails (List.all_eq_true.mp List.all_takeWhile token hmem)
  have hreads := reads_plain htag hcreate hlevel hplain
  rw [← List.takeWhile_append_dropWhile (p := Token.trails) (l := rest),
    firstStatement_of_reads hreads, List.length_append,
    List.takeWhile_append_dropWhile]
  apply Nat.lt_add_of_pos_right
  rcases List.exists_cons_of_ne_nil hbehind with ⟨first, others, hcons⟩
  rw [hcons]
  exact List.length_pos_iff.mpr (firstStatement_ne_nil s first others)

/-- A routine whose body has loops ends its statement exactly if it has none of
them, or if only blanks and line comments follow.  Otherwise the statement goes on
into what follows, a level higher for each loop, and takes all of it where no word
closes a block. -/
theorem loop_routine_ends_iff {loops : Nat} {routine : List Token}
    (h : LoopRoutine loops routine) (rest : List Token) :
    (splitTokens (routine ++ rest) =
        (routine ++ rest.takeWhile Token.trails) :: splitTokens (rest.dropWhile Token.trails) <->
      loops = 0 ∨ forall token, token ∈ rest -> token.trails = true) ∧
    (loops ≠ 0 ->
      splitStatements (routine ++ rest) =
        Statement.ofTokens
            (routine ++ (firstStatement { isCreate := true, level := loops } rest).1) ::
          splitStatements (firstStatement { isCreate := true, level := loops } rest).2) ∧
    (loops ≠ 0 -> (forall token, token ∈ rest -> token.isPlain = true) ->
      splitStatements (routine ++ rest) = [Statement.ofTokens (routine ++ rest)]) := by
  have hne : routine ++ rest ≠ [] := List.append_ne_nil_of_left_ne_nil h.ne_nil rest
  have hgoes := fun hloops : loops ≠ 0 => firstStatement_of_reads (h.reads hloops) rest
  have hlevel := fun hloops : loops ≠ 0 => Int.natCast_pos.mpr (Nat.pos_of_ne_zero hloops)
  have hall : loops ≠ 0 -> (forall token, token ∈ rest -> token.isPlain = true) ->
      firstStatement {} (routine ++ rest) = (routine ++ rest, []) := by
    intro hloops hplain
    have hreads := (h.reads hloops).append (reads_plain rfl rfl (hlevel hloops) hplain)
    have hfirst := firstStatement_of_reads hreads []
    rw [List.append_nil] at hfirst
    rw [hfirst]
    exact congrArg (fun tokens => (tokens, [])) (List.append_nil _)
  refine ⟨⟨?_, ?_⟩, ?_, ?_⟩
  · intro hends
    by_contra hother
    rw [not_or] at hother
    rcases hother with ⟨hloops, htrails⟩
    rw [splitTokens_eq hne, hgoes hloops, List.cons.injEq] at hends
    have hsame := List.append_cancel_left hends.1
    have hpasses := firstStatement_passes_trails (s := { isCreate := true, level := loops }) rfl rfl
      (hlevel hloops) (by simpa using htrails)
    rw [hsame] at hpasses
    exact Nat.lt_irrefl _ hpasses
  · intro hor
    rw [splitTokens_eq hne]
    rcases Decidable.em (loops = 0) with rfl | hloops
    · rcases h.exists_reads with ⟨front, semicolon, rfl, hsemicolon, hreads⟩
      rw [List.append_assoc, List.append_assoc, List.singleton_append,
        firstStatement_of_semicolon hreads hsemicolon (Int.le_refl 0) rest]
      rfl
    · have htrails := hor.resolve_left hloops
      rw [hall hloops fun token hmem => Token.isPlain_of_trails (htrails token hmem),
        List.takeWhile_eq_self_iff.mpr htrails, List.dropWhile_eq_nil_iff.mpr htrails]
  · exact fun hloops => splitStatements_eq hne (hgoes hloops)
  · exact fun hloops hplain => splitStatements_eq hne (hall hloops hplain)

/-- A routine with one loop. -/
def loopRoutine : List Token :=
  [⟨.ddl, Text.of "create", none⟩, ⟨.name, Text.of "p", none⟩, ⟨.keyword, Text.of "begin", none⟩,
   ⟨.keyword, Text.of "for", none⟩, ⟨.name, Text.of "r", none⟩,
   ⟨.keyword, Text.of "end loop", none⟩, ⟨.punctuation, Text.of ";", none⟩,
   ⟨.keyword, Text.of "end", none⟩, ⟨.punctuation, Text.of ";", none⟩]

theorem loopRoutine_shape : LoopRoutine 1 loopRoutine := by
  have hend : LoopBody 0 [⟨.punctuation, Text.of ";", none⟩] :=
    .plain (by decide) .nil
  have hinner : LoopBody 0 [⟨.name, Text.of "r", none⟩] :=
    .plain (by decide) .nil
  exact @LoopRoutine.intro [⟨.name, Text.of "p", none⟩] _ _ _ _ _ _ (by decide) (by decide)
    (by decide) (.loop (by decide) (by decide) hinner hend) (by decide) (by decide)

theorem loop_routine_ends_iff_name :
    LoopRoutine 1 loopRoutine ∧
      (splitTokens (loopRoutine ++ [⟨.name, Text.of "c", none⟩]) =
          [loopRoutine, [⟨.name, Text.of "c", none⟩]] <->
        1 = 0 ∨ Token.trails ⟨.name, Text.of "c", none⟩ = true) ∧
      splitStatements (loopRoutine ++ [⟨.name, Text.of "c", none⟩]) =
        [Statement.ofTokens (loopRoutine ++ [⟨.name, Text.of "c", none⟩])] := by
  rcases loop_routine_ends_iff loopRoutine_shape [⟨.name, Text.of "c", none⟩] with
    ⟨hends, _, hall⟩
  rw [List.forall_mem_singleton] at hends
  exact ⟨loopRoutine_shape, hends, hall (by decide) (by decide)⟩

/-- The words of the loop are the pair that the grouping looks for, yet what
follows the routine is no statement of its own. -/
theorem loop_routine_takes_next :
    LoopRoutine 1 loopRoutine ∧
      GroupKind.forBlock.opening?.any (Token.hits ⟨.keyword, Text.of "for", none⟩) = true ∧
      GroupKind.forBlock.closing?.any (Token.hits ⟨.keyword, Text.of "end loop", none⟩) = true ∧
      Token.trails ⟨.name, Text.of "c", none⟩ = false ∧
      splitTokens (loopRoutine ++ [⟨.name, Text.of "c", none⟩]) =
        [loopRoutine ++ [⟨.name, Text.of "c", none⟩]] ∧
      splitTokens (loopRoutine ++ [⟨.name, Text.of "c", none⟩]) ≠
        [loopRoutine, [⟨.name, Text.of "c", none⟩]] :=
  ⟨loopRoutine_shape, by decide, by decide, by decide, by decide, by decide⟩

end SqlLayout
