import SqlLayout.Proofs.Grouping.ClauseAliases
import SqlLayout.Proofs.Grouping.RunHosts
import SqlLayout.Proofs.Parsing

/-!
# Statements behind a WITH clause

The identifier that a WITH clause for one name has become takes in the comments behind it.
So the keyword behind the clause comes to stand next to the identifier and tells the type
of the statement.
-/

namespace SqlLayout

open Grouping

namespace WithClause

variable {clause : WithClause} {limit : Nat}

/-!
# The pass for trailing comments
-/

/-- How far the pass is with the faces of a clause: comments in front of it may join each
other, and those behind the name that have been passed are in the group of the name. -/
inductive TakesIn (clause : WithClause) (beforeName : List Face) :
    List Face -> List Face -> Prop where
  | front {done todo beforeKey rest : List Face} :
      (forall face, face ∈ done ++ todo -> face.isGap = true) ->
      (forall face, face ∈ beforeKey -> face.isGap = true) ->
      TakesIn clause beforeName done (todo ++ .token clause.word :: (beforeName ++
        .group .identifier :: (beforeKey ++ .token clause.key :: rest)))
  | word {front done todo beforeKey rest : List Face} :
      (forall face, face ∈ front -> face.isGap = true) -> done ++ todo = beforeName ->
      (forall face, face ∈ beforeKey -> face.isGap = true) ->
      TakesIn clause beforeName (front ++ .token clause.word :: done) (todo ++
        .group .identifier :: (beforeKey ++ .token clause.key :: rest))
  | name {front passed todo rest : List Face} :
      (forall face, face ∈ front -> face.isGap = true) ->
      (forall face, face ∈ passed -> face.isBlank = true) ->
      (forall face, face ∈ todo -> face.isGap = true) ->
      TakesIn clause beforeName (front ++ .token clause.word :: (beforeName ++
        .group .identifier :: passed)) (todo ++ .token clause.key :: rest)
  | key {front beforeKey done rest : List Face} :
      (forall face, face ∈ front -> face.isGap = true) ->
      (forall face, face ∈ beforeKey -> face.isBlank = true) ->
      TakesIn clause beforeName (front ++ .token clause.word :: (beforeName ++
        .group .identifier :: (beforeKey ++ .token clause.key :: done))) rest

theorem trailingComment_span {tree : Tree} {list id : NodeId} {left passed right : List Face}
    (hkind : tree.kind? list = some .statement)
    (hfaces : tree.faces list = left ++ .group .identifier :: (passed ++ tree.face id :: right))
    (hpassed : forall face, face ∈ passed -> face.isBlank = true) :
    Seeker.trailingComment.span? tree list (left.length + 1 + passed.length) id =
      some (⟨.identifier, left.length, left.length + 1 + passed.length, true⟩,
        left.length + 1) := by
  rcases Tree.prev_of_faces hfaces hpassed rfl with ⟨host, hprev, hhost⟩
  exact Seeker.trailingComment_span_of_prev hkind hprev (Tree.kind?_of_face hhost nofun)

theorem trailingComment_passes (beforeName : List Face) (list : NodeId) :
    Seeker.trailingComment.PassesFaces (TakesIn clause beforeName) list .statement := by
  intro tree left id right hkind hfaces hchild hrefused h
  generalize hbehind : tree.face id :: right = behind at h
  cases h with
  | @front _ todo beforeKey rest hfront hbefore =>
      cases todo with
      | nil =>
          rcases List.cons.inj hbehind with ⟨hface, rfl⟩
          rw [hface]
          rw [List.append_nil] at hfront
          exact @TakesIn.word clause beforeName left [] beforeName beforeKey rest hfront rfl hbefore
      | cons face todo =>
          rcases List.cons.inj hbehind with ⟨rfl, rfl⟩
          refine TakesIn.front ?_ hbefore
          rw [List.append_assoc, List.singleton_append]
          exact hfront
  | @word front done todo beforeKey rest hfront hname hbefore =>
      cases todo with
      | nil =>
          rcases List.cons.inj hbehind with ⟨hface, rfl⟩
          rw [List.append_nil] at hname
          rw [hface, hname, List.append_assoc, List.cons_append]
          exact TakesIn.name hfront (List.forall_mem_nil _) hbefore
      | cons face todo =>
          rcases List.cons.inj hbehind with ⟨rfl, rfl⟩
          rw [List.append_assoc, List.cons_append]
          refine TakesIn.word hfront ?_ hbefore
          rw [List.append_assoc, List.singleton_append]
          exact hname
  | @name front passed todo rest hfront hpassed htodo =>
      cases todo with
      | nil =>
          rcases List.cons.inj hbehind with ⟨hface, rfl⟩
          rw [hface]
          have hkey := @TakesIn.key clause beforeName front passed [] right hfront hpassed
          simpa using hkey
      | cons face todo =>
          rcases List.cons.inj hbehind with ⟨rfl, rfl⟩
          rw [List.forall_mem_cons] at htodo
          have hcut : tree.faces list = (front ++ .token clause.word :: beforeName) ++
              .group .identifier :: (passed ++ tree.face id ::
                (todo ++ .token clause.key :: rest)) := by
            rw [hfaces]
            simp
          rcases Face.isGap_iff.mp htodo.1 with hblank | hcomment
          · have hname := @TakesIn.name clause beforeName front (passed ++ [tree.face id]) todo rest
              hfront (by
                rw [List.forall_mem_append, List.forall_mem_singleton]
                exact ⟨hpassed, hblank⟩) htodo.2
            simpa using hname
          · have hspan := trailingComment_span hkind hcut hpassed
            have haccepts : Seeker.trailingComment.accepts tree id = true := by
              change tree.isKind id .comment = true
              rw [← @Tree.isKind_face tree id .comment nofun, hcomment]
              rfl
            have hnone := hrefused haccepts
            rw [show (front ++ .token clause.word :: (beforeName ++ .group .identifier ::
              passed)).length = (front ++ .token clause.word :: beforeName).length + 1 +
                passed.length by simp; omega, hspan] at hnone
            cases hnone
  | @key front beforeKey done rest hfront hbefore =>
      have hkey := @TakesIn.key clause beforeName front beforeKey (done ++ [tree.face id]) right
        hfront hbefore
      simpa using hkey

theorem trailingComment_merges (beforeName : List Face)
    (hname : forall face, face ∈ beforeName -> face.isBlank = true) (list : NodeId) :
    Seeker.trailingComment.MergesFaces (TakesIn clause beforeName) list .statement := by
  intro tree left id right span next before moved back hkind hfaces hchild haccepts hspan hcut
    hbefore hmoved h
  have hid : tree.face id = .group .comment := Tree.face_of_kind? (beq_iff_eq.mp haccepts)
  rcases Seeker.trailingComment_span hspan with ⟨prev, host, kind, hprev, hhost, rfl, rfl⟩
  rcases Tree.cut_of_span hfaces hprev hcut hbefore hmoved with ⟨rfl, between, hleft, hblanks⟩
  rw [Tree.face_of_kind? (beq_iff_eq.mp (Pass.isKind_of_commentHost? hhost))] at hleft
  generalize hbehind : tree.face id :: right = behind at h
  rw [hid] at hbehind
  cases h with
  | @front done todo beforeKey rest hfront hbeforeKey =>
      cases todo with
      | nil =>
          cases (List.cons.inj hbehind).1
      | cons face todo =>
          rcases List.cons.inj hbehind with ⟨rfl, rfl⟩
          rw [hleft, List.append_assoc, List.forall_mem_append, List.cons_append,
            List.forall_mem_cons, List.forall_mem_append, List.forall_mem_cons] at hfront
          refine TakesIn.front ?_ hbeforeKey
          rw [List.append_assoc, List.forall_mem_append, List.singleton_append,
            List.forall_mem_cons]
          exact ⟨hfront.1, hfront.2.1, hfront.2.2.2.2⟩
  | @word front done todo beforeKey rest _ hword _ =>
      cases todo with
      | nil =>
          cases (List.cons.inj hbehind).1
      | cons face todo =>
          rcases List.cons.inj hbehind with ⟨rfl, _⟩
          cases hname (.group .comment) (by rw [← hword]; simp)
  | @name front passed todo rest hfront hpassed htodo =>
      cases todo with
      | nil =>
          cases (List.cons.inj hbehind).1
      | cons face todo =>
          rcases List.cons.inj hbehind with ⟨rfl, rfl⟩
          have hcut : (front ++ .token clause.word :: beforeName) ++ .group .identifier :: passed =
              before ++ .group kind :: between := by
            rw [← hleft]
            simp
          rcases last_unique hcut rfl hpassed rfl hblanks with ⟨rfl, hkind, _⟩
          cases hkind
          rw [List.append_assoc, List.cons_append]
          exact TakesIn.name hfront (List.forall_mem_nil _) (List.forall_mem_cons.mp htodo).2
  | @key front beforeKey done rest hfront hbeforeKey =>
      have hcut : (front ++ .token clause.word :: (beforeName ++ .group .identifier ::
          beforeKey)) ++ .token clause.key :: done = before ++ .group kind :: between := by
        rw [← hleft]
        simp
      have hkey : (Face.token clause.key).isBlank = false := by
        change clause.key.isWhitespace = false
        unfold Token.isWhitespace
        rw [clause.key_eq]
        rfl
      -- The keyword is no blank and no group, so the host stands behind it.
      rcases List.append_eq_append_iff.mp hcut with ⟨more, rfl, hmore⟩ | ⟨more, _, hmore⟩
      · cases more with
        | nil =>
            cases (List.cons.inj hmore).1
        | cons face more =>
            rcases List.cons.inj hmore with ⟨rfl, rfl⟩
            have hkeyed := @TakesIn.key clause beforeName front beforeKey (more ++ [.group kind])
              right hfront hbeforeKey
            simpa using hkeyed
      · cases more with
        | nil =>
            cases (List.cons.inj hmore).1
        | cons face more =>
            rcases List.cons.inj hmore with ⟨_, rfl⟩
            rw [hblanks _ (List.mem_append_right _ List.mem_cons_self)] at hkey
            cases hkey

/-- The clause is one identifier with nothing but blanks between it and the keyword. -/
def Settled (clause : WithClause) (faces : List Face) : Prop :=
  exists gaps : Gaps, (forall face, face ∈ gaps.beforeKey -> face.isBlank = true) ∧
    clause.joined gaps [] <+: faces

theorem trailing_turn (gaps : Gaps) :
    Pass.Turns limit (clause.joined gaps [] <+: ·) clause.Settled [.trailingComments] := by
  have hpass : Pass.trailingComments ∈ Pass.all := List.mem_of_getElem? (i := 17) rfl
  apply Pass.turns_singleton hpass
  intro tree after root hshows hrun
  rcases hshows.faces with ⟨rest, hrest⟩
  have hstart : clause.TakesIn gaps.beforeName [] (tree.faces root) := by
    have hfront := @TakesIn.front clause gaps.beforeName [] gaps.front gaps.beforeKey rest
      gaps.front_isGap gaps.beforeKey_isGap
    rw [← hrest, joined_eq, upToName]
    simpa using hfront
  have hend := Seeker.sweep_faces Seeker.trailingComments_plan (Pass.all_sound _ hpass)
    (fun _ _ => rfl) (fun tree list idx id span next hspan => by
      rcases Seeker.trailingComment_span hspan with ⟨prev, _, _, _, _, rfl, rfl⟩
      rfl)
    (trailingComment_passes gaps.beforeName root)
    (trailingComment_merges gaps.beforeName gaps.beforeName_isBlank root) hshows.wellFormed
    hshows.kind hstart hrun
  generalize hnil : ([] : List Face) = right at hend
  generalize hfaces : after.faces root = left at hend
  cases hend with
  | front _ _ =>
      simp at hnil
  | word _ _ _ =>
      simp at hnil
  | name _ _ _ =>
      simp at hnil
  | @key front beforeKey done _ hfront hbeforeKey =>
      refine ⟨{ gaps with
        front := front
        beforeKey := beforeKey
        front_isGap := hfront
        beforeKey_isGap := fun face hface => Face.isGap_of_isBlank (hbeforeKey face hface) },
        hbeforeKey, done, ?_⟩
      simp [joined, head]

theorem last_turn (hkey : clause.key.Leading) :
    Pass.Turns limit clause.Settled clause.Settled
      [.binary .identifierList, .pairs .ifBlock, .pairs .forBlock, .pairs .beginBlock] := by
  intro tree after root hshows hexec
  rcases hshows.faces with ⟨gaps, hblank, hprefix⟩
  have hsteady : [.binary .identifierList, .pairs .ifBlock, .pairs .forBlock,
      .pairs .beginBlock] ⊆ Pass.steady := by
    simp [Pass.steady]
  have hafter := steady_turn (calmHead_joined hkey gaps (Or.inl rfl)) hsteady tree after root
    ⟨hshows.wellFormed, hshows.kind, hshows.parent, hprefix⟩ hexec
  exact ⟨hafter.wellFormed, hafter.kind, hafter.parent, gaps, hblank, hafter.faces⟩

/-!
# The type of the statement
-/

theorem passes_turn (hkey : clause.key.Leading) (hsquares : clause.squaresApart = true)
    {gaps : Gaps} {body rest : List Face} (hbody : Folded clause.body body)
    (hrest : Folded clause.rest rest) :
    Pass.Turns limit (· = clause.laid gaps body rest) clause.Settled Pass.all.tail := by
  have hnamed := @calmHead_bodied clause hkey gaps (.group .identifier)
    (List.mem_cons_of_mem _ (List.mem_cons_of_mem _ List.mem_cons_self))
  have hliterals : Pass.Turns limit (clause.bodied gaps (.group .identifier) <+: ·)
      (clause.bodied gaps (.group .identifier) <+: ·)
      [.typedLiterals, .binary .operator, .orderings, .binary .typecast] :=
    steady_turn hnamed (by simp [Pass.steady])
  have hassignments : Pass.Turns limit (clause.joined gaps [] <+: ·)
      (clause.joined gaps [] <+: ·) [.binary .assignment, .binary .comparison] :=
    steady_turn (calmHead_joined hkey gaps (Or.inl rfl)) (by simp [Pass.steady])
  exact Pass.turns_append (brackets_turn hsquares hbody hrest) <|
    Pass.turns_append (calls_turn hkey gaps) <| Pass.turns_append (names_turn gaps) <|
    Pass.turns_append hliterals <| Pass.turns_append (as_turn hkey gaps) <|
    Pass.turns_append (alias_turn hkey gaps) <| Pass.turns_append hassignments <|
    Pass.turns_append (trailing_turn gaps) (last_turn hkey)

theorem type_of_settled {tree : Tree} {root : NodeId} (h : tree.Shows root clause.Settled) :
    tree.statementType root = clause.key.normalized := by
  rcases h.faces with ⟨gaps, hbefore, rest, hrest⟩
  have hcut : tree.faces root = gaps.front ++ .token clause.word :: (gaps.beforeName ++
      .group .identifier :: (gaps.beforeKey ++ .token clause.key :: rest)) := by
    rw [← hrest, joined_eq, upToName]
    simp
  rcases Tree.exists_child_of_cut hcut with ⟨word, hword, hwordFace⟩
  have hwordToken := Tree.token?_of_face hwordFace
  have hfirst : tree.first root true true = some (gaps.front.length, word) := by
    apply Tree.first_eq_some_iff.mpr
    refine ⟨hword, ?_, ?_⟩
    · refine @Tree.isCode_of_isCategory tree word .cte ?_ (by decide)
      exact Tree.isCategory_iff.mpr ⟨_, hwordToken, clause.word_eq.1⟩
    · intro j other hj hother
      have hgap := gaps.front_isGap _ (Tree.face_mem_of_lt hcut hother hj)
      have hskipped := isSkipped_of_isGap hgap
      rw [Tree.isSkipped_face, Tree.isSkipped_eq_not_isCode, Bool.not_eq_true'] at hskipped
      exact hskipped
  rcases @Tree.next_of_faces tree root false _ _ _ _ _ hcut
    (fun face hface => by rw [Face.isSkipped, gaps.beforeName_isBlank face hface]; rfl) rfl with
    ⟨names, hnames, hnamesFace⟩
  have hcut' : tree.faces root = (gaps.front ++ .token clause.word :: gaps.beforeName) ++
      .group .identifier :: (gaps.beforeKey ++ .token clause.key :: rest) := by
    rw [hcut]
    simp
  have hkeyBlank : (Face.token clause.key).isSkipped false = false := by
    unfold Face.isSkipped
    change (clause.key.isWhitespace || _) = false
    unfold Token.isWhitespace
    rw [clause.key_eq]
    rfl
  rcases @Tree.next_of_faces tree root false _ _ _ _ _ hcut'
    (fun face hface => by rw [Face.isSkipped, hbefore face hface]; rfl) hkeyBlank with
    ⟨key, hkey, hkeyFace⟩
  have hkeyToken := Tree.token?_of_face hkeyFace
  have hlength : (gaps.front ++ Face.token clause.word :: gaps.beforeName).length =
      gaps.front.length + 1 + gaps.beforeName.length := by
    rw [List.length_append, List.length_cons]
    omega
  rw [hlength] at hkey
  unfold Tree.statementType Tree.statementType? Tree.category?
  rw [hfirst]
  dsimp only [bind, Option.bind]
  rw [hwordToken, Option.map_some, clause.word_eq.1]
  dsimp only
  rw [hnames]
  dsimp only
  have hkind : tree.isKindIn names [.identifier, .identifierList] = true := by
    unfold Tree.isKindIn
    rw [Tree.kind?_of_face hnamesFace (by decide)]
    rfl
  have hcategory : tree.isCategory key .dml = true :=
    Tree.isCategory_iff.mpr ⟨_, hkeyToken, clause.key_eq⟩
  simp only [guard, hkind, hkey, hcategory, if_true]
  exact Tree.normalized_of_token? hkeyToken

end WithClause

/-!
# Statements
-/

/-- A statement with a WITH clause for one name has the type of the keyword behind the clause,
whatever comments stand around its parts, but for those in front of the name and in front
of the body. -/
theorem Statement.type_of_with_clause {clause : WithClause} (hkey : clause.key.Leading)
    (hclear : clause.isClear = true) (hsquares : clause.squaresApart = true) {limit : Nat}
    {after : Statement} (h : (ofTokens clause.tokens).group limit = .ok after) :
    after.type = clause.key.normalized := by
  rcases group_ok_iff_exec.mp h with ⟨hexec, hroot⟩
  change exec (Pass.comments.run limit limit _ >>= fun _ => Pass.all.tail.forM _) _ = _ at hexec
  rcases exec_bind_eq_ok hexec with ⟨middle, hcomments, hrest⟩
  have hwf := wellFormed_ofTokens clause.tokens
  have hchanges := Pass.changesWithin_of_run (Pass.all_sound _ List.mem_cons_self)
    (Pass.all_tagsChildren _ List.mem_cons_self) hwf hcomments
  rcases WithClause.exists_laid hclear (folded_of_comments hcomments) with
    ⟨gaps, body, rest, hfaces, hbody, hbehind⟩
  have hstart : (ofTokens clause.tokens).tree.Shows (ofTokens clause.tokens).root fun _ => True :=
    ⟨hwf, kind?_root_ofTokens _, parent?_root _, trivial⟩
  have hmiddle : middle.Shows (ofTokens clause.tokens).root (· = clause.laid gaps body rest) :=
    Pass.shows_of_changes hstart hchanges hfaces
  have hafter := WithClause.passes_turn hkey hsquares hbody hbehind middle after.tree _ hmiddle
    hrest
  unfold type
  rw [hroot]
  exact WithClause.type_of_settled hafter

theorem WithClause.isTrivia_of_mem_nil : forall t : Token, t ∈ [] -> t.isTrivia = true :=
  List.forall_mem_nil _

/-- A clause with the name and the gaps around it left open, and `(select 1) select 2` behind
it. -/
def WithClause.sample (beforeName : List Token) (name : Token) (beforeAs : List Token)
    (hbeforeName : forall t, t ∈ beforeName -> t.isTrivia = true) (hname : name.category = .name)
    (hbeforeAs : forall t, t ∈ beforeAs -> t.isTrivia = true) : WithClause where
  front := []
  word := ⟨.cte, Text.of "with", some 0⟩
  beforeName := beforeName
  name := name
  beforeAs := beforeAs
  asWord := ⟨.keyword, Text.of "as", some 11⟩
  beforeBody := [⟨.whitespace, [' '], some 13⟩]
  opening := ⟨.punctuation, ['('], some 14⟩
  body := [⟨.dml, Text.of "select", some 15⟩, ⟨.whitespace, [' '], some 21⟩,
    ⟨.integer, ['1'], some 22⟩]
  closing := ⟨.punctuation, [')'], some 23⟩
  beforeKey := [⟨.whitespace, [' '], some 24⟩]
  key := ⟨.dml, Text.of "select", some 25⟩
  rest := [⟨.whitespace, [' '], some 31⟩, ⟨.integer, ['2'], some 32⟩]
  front_isTrivia := isTrivia_of_mem_nil
  word_eq := ⟨rfl, by decide⟩
  beforeName_isTrivia := hbeforeName
  name_eq := hname
  beforeAs_isTrivia := hbeforeAs
  asWord_eq := ⟨rfl, by decide⟩
  beforeBody_isTrivia := List.forall_mem_singleton.mpr rfl
  opening_eq := rfl
  body_plain := List.forall_mem_cons.mpr ⟨rfl, List.forall_mem_cons.mpr
    ⟨rfl, List.forall_mem_singleton.mpr rfl⟩⟩
  closing_eq := rfl
  beforeKey_isTrivia := List.forall_mem_singleton.mpr rfl
  key_eq := rfl

/-- A comment behind the name does no harm. -/
theorem Statement.type_of_with_clause_commented :
    exists (clause : WithClause) (after : Statement),
      tokenize ⟨.generic, Vocabulary.ofDialect .generic⟩
        (Text.of "with x/*c*/as (select 1) select 2") = clause.tokens ∧
      clause.key.Leading ∧ clause.isClear = true ∧ clause.squaresApart = true ∧
      (ofTokens clause.tokens).group defaultMaxDepth = .ok after ∧
      after.type = Text.of "SELECT" := by
  let clause := WithClause.sample [⟨.whitespace, [' '], some 4⟩] ⟨.name, ['x'], some 5⟩
    [⟨.blockComment, Text.of "/*c*/", some 6⟩] (by decide) rfl (by decide)
  have hkey : clause.key.Leading := ⟨Or.inl rfl, by decide⟩
  have hgroup : ((ofTokens clause.tokens).group defaultMaxDepth).toOption.any (fun _ => true) =
      true := by
    decide +kernel
  rcases exists_of_group hgroup with ⟨after, hok, _⟩
  refine ⟨clause, after, by decide +kernel, hkey, by decide, by decide, hok, ?_⟩
  exact type_of_with_clause hkey (by decide) (by decide) hok

/-- A comment in front of the name hides the keyword. -/
theorem Statement.type_of_with_clause_unclear :
    ¬ forall (sql : Text) (statements : List Statement) (s : Statement) (clause : WithClause),
      parse sql {} defaultMaxDepth = .ok statements -> s ∈ statements ->
      s.tokens = clause.tokens -> clause.key.Leading -> s.type = clause.key.normalized := by
  let clause := WithClause.sample [⟨.blockComment, Text.of "/*c*/", some 4⟩]
    ⟨.name, ['x'], some 9⟩ [⟨.whitespace, [' '], some 10⟩] (by decide) rfl (by decide)
  have htokens : tokenize ⟨.generic, Vocabulary.ofDialect .generic⟩
      (Text.of "with/*c*/x as (select 1) select 2") = clause.tokens := by
    decide +kernel
  rcases exists_parsed (p := fun s => decide (s.tokens = clause.tokens) &&
      decide (s.type = Text.of "UNKNOWN"))
    htokens (by decide +kernel) with ⟨statements, s, hparse, hs, hfound⟩
  rw [Bool.and_eq_true, decide_eq_true_eq, decide_eq_true_eq] at hfound
  intro hall
  have htype := hall _ statements s clause hparse hs hfound.1 ⟨Or.inl rfl, by decide⟩
  rw [hfound.2] at htype
  exact absurd htype (by decide)

end SqlLayout
