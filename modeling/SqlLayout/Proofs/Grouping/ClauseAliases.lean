import SqlLayout.Proofs.Grouping.ClauseFaces

/-!
# The names of WITH clauses

The pass for AS puts the body into a group with what stands in front of AS, which is the name
or a comment behind it; the pass for aliases then puts the name, and what is left behind it,
into the same identifier.
-/

namespace SqlLayout

open Grouping

namespace WithClause

variable {clause : WithClause} {limit : Nat}

/-!
# The pass for AS
-/

section

variable {face : Face}

theorem isOp_face (tree : Tree) (id : NodeId) :
    BinaryRule.aliasWithAs.isOp tree id = (tree.face id).has Token.readsAs := by
  rw [Tree.has_face]
  unfold BinaryRule.aliasWithAs Tree.isKeyword Tree.tokenHas
  dsimp only
  cases htoken : tree.token? id with
  | none =>
      rfl
  | some t =>
      dsimp only
      rw [Tree.normalized_of_token? htoken]
      rfl

theorem not_readsAs_of_isGap (h : face.isGap = true) : face.has Token.readsAs = false := by
  cases face with
  | group kind =>
      rfl
  | token t =>
      have hkeyword : t.isKeyword = false := Face.has_of_isGap h (p := Category.isKeyword) rfl
      change (t.isKeyword && t.normalized == Text.of "AS") = false
      rw [hkeyword, Bool.false_and]

end

theorem readsAs_asWord : (Face.token clause.asWord).has Token.readsAs = true := by
  change (clause.asWord.isKeyword && clause.asWord.normalized == Text.of "AS") = true
  unfold Token.isKeyword
  rw [clause.asWord_eq.1, clause.asWord_eq.2]
  decide

theorem head_not_readsAs (hkey : clause.key.Leading)
    {front beforeName middle beforeKey : List Face}
    (hfront : forall face, face ∈ front -> face.isGap = true)
    (hname : forall face, face ∈ beforeName -> face.isBlank = true)
    (hmiddle : forall face, face ∈ middle -> face.has Token.readsAs = false)
    (hbefore : forall face, face ∈ beforeKey -> face.isGap = true) :
    forall face, face ∈ clause.head front beforeName middle beforeKey ->
      face.has Token.readsAs = false := by
  have hword : forall t : Token, t.normalized ≠ Text.of "AS" ->
      (Face.token t).has Token.readsAs = false := by
    intro t hne
    change (t.isKeyword && t.normalized == Text.of "AS") = false
    rw [beq_eq_false_iff_ne.mpr hne, Bool.and_false]
  intro face hface
  simp only [head, List.mem_append, List.mem_cons, List.not_mem_nil, or_false] at hface
  rcases hface with hmem | rfl | hmem | hmem | hmem | rfl
  · exact not_readsAs_of_isGap (hfront face hmem)
  · exact hword _ (by rw [clause.word_eq.2]; decide)
  · exact not_readsAs_of_isGap (Face.isGap_of_isBlank (hname face hmem))
  · exact hmiddle face hmem
  · exact not_readsAs_of_isGap (hbefore face hmem)
  · exact hword _ (hkey.normalized_ne _ (by decide))

/-!
# Identifiers with the body
-/

/-- What may be left in front of the group with the body: nothing, or the name and some
comments behind it. -/
def Rests (before : List Face) : Prop :=
  before = [] ∨ exists gap, before = .group .identifier :: gap ∧
    forall face, face ∈ gap -> face.isGap = true

namespace Rests

variable {before : List Face} (h : Rests before)
include h

theorem cases : forall face, face ∈ before ++ [.group .identifier] ->
    face = .group .identifier ∨ face.isGap = true := by
  intro face hface
  rcases List.mem_append.mp hface with hmem | hmem
  · rcases h with rfl | ⟨gap, rfl, hgap⟩
    · cases hmem
    · exact (List.mem_cons.mp hmem).imp_right (hgap face)
  · exact Or.inl (List.mem_singleton.mp hmem)

theorem isCalm : forall face, face ∈ before ++ [.group .identifier] -> face.IsCalm := by
  intro face hface
  rcases h.cases face hface with rfl | hgap
  · exact List.mem_cons_of_mem _ (List.mem_cons_of_mem _ List.mem_cons_self)
  · exact Face.IsCalm.of_isGap hgap

theorem not_readsAs : forall face, face ∈ before ++ [.group .identifier] ->
    face.has Token.readsAs = false := by
  intro face hface
  rcases h.cases face hface with rfl | hgap
  · rfl
  · exact not_readsAs_of_isGap hgap

end Rests

/-- The faces of a clause whose body is part of an identifier, with what is left in front of
that. -/
def joined (clause : WithClause) (gaps : Gaps) (before : List Face) : List Face :=
  clause.head gaps.front gaps.beforeName (before ++ [.group .identifier]) gaps.beforeKey

theorem joined_eq (gaps : Gaps) (before : List Face) :
    clause.joined gaps before = clause.upToName gaps ++ (before ++
      .group .identifier :: (gaps.beforeKey ++ [.token clause.key])) := by
  simp [joined, head, upToName]

theorem calmHead_joined (hkey : clause.key.Leading) (gaps : Gaps) {before : List Face}
    (hrests : Rests before) : Face.CalmHead (clause.joined gaps before) :=
  calmHead_head hkey gaps.front_isGap gaps.beforeName_isBlank hrests.isCalm gaps.beforeKey_isGap

theorem joined_not_readsAs (hkey : clause.key.Leading) (gaps : Gaps) {before : List Face}
    (hrests : Rests before) : forall face, face ∈ clause.joined gaps before ->
      face.has Token.readsAs = false :=
  head_not_readsAs hkey gaps.front_isGap gaps.beforeName_isBlank hrests.not_readsAs
    gaps.beforeKey_isGap

/-- The last face that is no blank among a name and the gaps behind it.  By induction on the
gaps from their end. -/
theorem exists_last_solid {gaps : List Face}
    (hgaps : forall face, face ∈ gaps -> face.isGap = true) :
    exists before kind blanks, .group .identifier :: gaps = before ++ .group kind :: blanks ∧
      Rests before ∧ (kind = .identifier ∨ kind = .comment) ∧
      forall face, face ∈ blanks -> face.isBlank = true := by
  induction gaps using List.reverseRecOn with
  | nil =>
      exact ⟨[], .identifier, [], rfl, Or.inl rfl, Or.inl rfl, List.forall_mem_nil _⟩
  | append_singleton gaps last ih =>
      rw [List.forall_mem_append, List.forall_mem_singleton] at hgaps
      rcases Face.isGap_iff.mp hgaps.2 with hblank | rfl
      · rcases ih hgaps.1 with ⟨before, kind, blanks, heq, hrests, hkind, hblanks⟩
        refine ⟨before, kind, blanks ++ [last], ?_, hrests, hkind, ?_⟩
        · rw [← List.cons_append, heq, List.append_assoc, List.cons_append]
        · rw [List.forall_mem_append, List.forall_mem_singleton]
          exact ⟨hblanks, hblank⟩
      · exact ⟨.group .identifier :: gaps, .comment, [], rfl, Or.inr ⟨gaps, rfl, hgaps.1⟩,
          Or.inr rfl, List.forall_mem_nil _⟩

theorem alias_span {tree : Tree} {list : NodeId} {left blanks passed right : List Face}
    {kind : GroupKind} {op : Face}
    (hfaces : tree.faces list = left ++ .group kind ::
      (blanks ++ op :: (passed ++ .group .parenthesis :: right)))
    (hkind : kind = .identifier ∨ kind = .comment)
    (hpassed : forall face, face ∈ passed -> face.isBlank = true) :
    BinaryRule.aliasWithAs.span? tree list (some left.length) (left.length + 1 + blanks.length) =
      some (left.length, left.length + 1 + blanks.length + 1 + passed.length) := by
  rcases Tree.exists_child_of_cut hfaces with ⟨prev, hprev, hprevFace⟩
  have hprevKind : tree.kind? prev = some kind :=
    Tree.kind?_of_face hprevFace (by rcases hkind with rfl | rfl <;> decide)
  have haccepts : BinaryRule.isExpression tree prev = true := by
    unfold BinaryRule.isExpression Tree.isKeyword Tree.isKindIn
    rw [Tree.tokenHas_of_isGroup (Tree.isGroup_iff_kind?.mpr ⟨_, hprevKind⟩), hprevKind]
    rcases hkind with rfl | rfl <;> rfl
  have hcut : tree.faces list = (left ++ .group kind :: blanks) ++ op ::
      (passed ++ .group .parenthesis :: right) := by
    rw [hfaces, List.append_assoc, List.cons_append]
  have hlength : (left ++ Face.group kind :: blanks).length = left.length + 1 + blanks.length := by
    rw [List.length_append, List.length_cons]
    omega
  rcases @Tree.next_of_faces tree list false _ right passed (.group .parenthesis) op hcut
      (fun face hface => by rw [Face.isSkipped, hpassed face hface]; rfl) rfl with
    ⟨next, hnext, hnextFace⟩
  rw [hlength] at hnext
  have hgroup := Tree.isGroup_iff_kind?.mpr ⟨_, Tree.kind?_of_face hnextFace (by decide)⟩
  have hcategory := Tree.isCategory_of_isGroup hgroup
  unfold BinaryRule.span? BinaryRule.aliasWithAs BinaryRule.some? BinaryRule.fromPrevToNext
  dsimp only
  rw [hnext, hprev]
  dsimp only [Option.map_some, Option.getD_some]
  exact if_pos (by rw [haccepts, hcategory, hcategory, hcategory]; rfl)

theorem as_turn (hkey : clause.key.Leading) (gaps : Gaps) :
    Pass.Turns limit (clause.bodied gaps (.group .identifier) <+: ·)
      (fun faces => exists before, Rests before ∧ clause.joined gaps before <+: faces)
      [.binary .aliasWithAs] := by
  have hpass : Pass.binary .aliasWithAs ∈ Pass.all := List.mem_of_getElem? (i := 13) rfl
  have hsound := Pass.all_sound _ hpass
  apply Pass.turns_singleton hpass
  intro tree after root hshows hrun
  rcases Pass.walks_of_run hsound (Pass.tagsChildren_binary _) (Pass.stays_binary _)
      (fun _ _ => rfl) hshows.wellFormed hrun with ⟨middle, hchanges, _, hfaces, hwalk⟩
  have hmiddle : middle.Shows root (clause.bodied gaps (.group .identifier) <+: ·) :=
    Pass.shows_of_changes hshows hchanges (by rw [hfaces]; exact hshows.faces)
  rcases exists_last_solid gaps.beforeAs_isGap with
    ⟨before, kind, blanks, hbeforeAs, hrests, hkind, hblanks⟩
  refine ⟨before, hrests, ?_⟩
  rcases hmiddle.faces with ⟨rest, hrest⟩
  have hcut : middle.faces root = (clause.upToName gaps ++ before) ++ .group kind ::
      (blanks ++ .token clause.asWord :: (gaps.beforeBody ++ .group .parenthesis ::
        (gaps.beforeKey ++ .token clause.key :: rest))) := by
    rw [← hrest, bodied_eq, behindName, ← List.cons_append, hbeforeAs]
    simp
  have hbefore : forall face,
      face ∈ (clause.upToName gaps ++ before) ++ .group kind :: blanks ->
        face.has Token.readsAs = false := by
    intro face hface
    rcases List.mem_append.mp hface with hmem | hmem
    · apply joined_not_readsAs hkey gaps hrests
      rw [joined_eq, ← List.append_assoc]
      exact List.mem_append_left _ hmem
    · rcases List.mem_cons.mp hmem with rfl | hmem
      · rfl
      · exact not_readsAs_of_isGap (Face.isGap_of_isBlank (hblanks face hmem))
  refine (BinaryRule.walks_first hsound (Pass.keeps_head_of_rule root
    (calmHead_joined hkey gaps hrests) hpass BinaryRule.aliasWithAs_sparesKeyword
    fun tree id hisOp hmem => ?_) hmiddle.wellFormed hmiddle.kind trivial hcut rfl hblanks
    (fun id hmem => ?_) ?_ ?_ (alias_span hcut hkind gaps.beforeBody_isBlank) rfl ?_ hwalk).2
  · rw [isOp_face, joined_not_readsAs hkey gaps hrests _ hmem] at hisOp
    cases hisOp
  · rw [isOp_face, hbefore _ hmem]
  · exact not_isBlank_asWord
  · intro id hface
    rw [isOp_face, hface]
    exact readsAs_asWord
  · intro cursor move next hfits hretag hspan hgroups
    refine hmiddle.headed_of_groups hfits hretag hspan hgroups (clause.upToName gaps ++ before)
      (.group kind :: (blanks ++ .token clause.asWord :: (gaps.beforeBody ++
        [.group .parenthesis]))) (gaps.beforeKey ++ .token clause.key :: rest)
      (by rw [hcut]; simp) rfl (by simp; omega) ⟨rest, ?_⟩
    rw [joined_eq]
    simp
    rfl

/-!
# The pass for aliases
-/

def expresses : Face -> Bool
  | .token t => t.category.isA .number
  | .group kind =>
      [GroupKind.parenthesis, .function, .caseBlock, .identifier, .operation].elem kind

theorem isAliasable_face (tree : Tree) (id : NodeId) :
    Pass.isAliasable tree id = expresses (tree.face id) := by
  unfold Pass.isAliasable Tree.isKindIn Tree.isA
  cases hface : tree.face id with
  | token t =>
      have htoken := Tree.token?_of_face hface
      have hnone : tree.kind? id = none := by
        cases hkind : tree.kind? id with
        | none =>
            rfl
        | some kind =>
            rw [Tree.face_of_kind? hkind] at hface
            cases hface
      unfold Tree.tokenHas
      rw [hnone, htoken]
      rfl
  | group kind =>
      have hplain : forall p : Token -> Bool, tree.tokenHas id p = false := by
        intro p
        rw [← Tree.has_face, hface]
        rfl
      rw [hplain, Bool.or_false]
      by_cases hstatement : kind = .statement
      · subst hstatement
        cases hkind : tree.kind? id with
        | none =>
            rfl
        | some other =>
            rw [Tree.face_of_kind? hkind] at hface
            cases hface
            rfl
      · rw [Tree.kind?_of_face hface hstatement]
        rfl

theorem not_expresses_of_isGap {face : Face} (h : face.isGap = true) : expresses face = false := by
  cases face with
  | token t =>
      exact Face.has_of_isGap h (p := fun c => c.isA .number) rfl
  | group kind =>
      rcases Face.isGap_iff.mp h with hblank | hgroup
      · cases hblank
      · cases hgroup
        rfl

theorem isSkipped_of_isGap {face : Face} (h : face.isGap = true) : face.isSkipped true = true := by
  rcases Face.isGap_iff.mp h with hblank | rfl
  · unfold Face.isSkipped
    rw [hblank, Bool.true_or]
  · rfl

theorem upToName_not_expresses (gaps : Gaps) : forall face, face ∈ clause.upToName gaps ->
    expresses face = false := by
  intro face hface
  rcases List.mem_append.mp hface with hmem | hmem
  · exact not_expresses_of_isGap (gaps.front_isGap face hmem)
  · rcases List.mem_cons.mp hmem with rfl | hmem
    · change clause.word.category.isA .number = false
      rw [clause.word_eq.1]
      rfl
    · exact not_expresses_of_isGap (Face.isGap_of_isBlank (gaps.beforeName_isBlank face hmem))

theorem aliased_sparesHead (gaps : Gaps) : Seeker.aliased.SparesHead (clause.joined gaps []) := by
  have hkeyword : forall p : Category -> Bool, p .dml = false ->
      (Face.token clause.key).has (fun t => p t.category) = false := by
    intro p hp
    change p clause.key.category = false
    rw [clause.key_eq, hp]
  rw [joined_eq, List.nil_append]
  refine Seeker.aliased_sparesHead ?_
    (fun face hface => isSkipped_of_isGap (gaps.beforeKey_isGap face hface)) ?_ rfl
  · intro tree id haliasable hmem
    rw [isAliasable_face] at haliasable
    have hnot : expresses (tree.face id) = false := by
      rcases List.mem_append.mp hmem with hmem | hmem
      · exact upToName_not_expresses gaps _ hmem
      · rcases List.mem_append.mp hmem with hmem | hmem
        · exact not_expresses_of_isGap (gaps.beforeKey_isGap _ hmem)
        · rw [List.mem_singleton.mp hmem]
          exact hkeyword (fun c => c.isA .number) rfl
    rw [hnot] at haliasable
    cases haliasable
  · unfold Face.isSkipped Face.isBlank Face.isComment Token.isWhitespace Token.isComment
    rw [hkeyword Category.isWhitespace rfl, hkeyword Category.isComment rfl]
    rfl

theorem alias_turn (hkey : clause.key.Leading) (gaps : Gaps) :
    Pass.Turns limit
      (fun faces => exists before, Rests before ∧ clause.joined gaps before <+: faces)
      (clause.joined gaps [] <+: ·) [.aliases] := by
  have hpass : Pass.aliases ∈ Pass.all := List.mem_of_getElem? (i := 14) rfl
  have hsound := Pass.all_sound _ hpass
  have hhead := calmHead_joined hkey gaps (Or.inl rfl)
  have hkeeps := fun root => Pass.keeps_head_of_seeker root hhead hpass Seeker.aliases_plan
    (aliased_sparesHead gaps)
  apply Pass.turns_of_exists
  intro before
  apply Pass.turns_singleton hpass
  rintro tree after root hshows hrun
  rcases hshows.faces with ⟨rfl | ⟨gap, rfl, hgap⟩, hfaces⟩
  · exact ((hkeeps root).run hsound (Pass.all_tagsChildren _ hpass) hshows.wellFormed hshows.kind
      trivial ⟨hshows.parent, hfaces⟩ hrun).2
  · rcases Pass.walks_of_run hsound (Pass.all_tagsChildren _ hpass)
      (Pass.stays_of_seeker Seeker.aliases_plan) (fun _ _ => rfl) hshows.wellFormed hrun with
      ⟨middle, hchanges, _, hsame, hwalk⟩
    have hmiddle : middle.Shows root (· = tree.faces root) :=
      Pass.shows_of_changes hshows hchanges hsame
    rcases hfaces with ⟨rest, hrest⟩
    have hcut : middle.faces root = clause.upToName gaps ++ .group .identifier ::
        (gap ++ .group .identifier :: (gaps.beforeKey ++ .token clause.key :: rest)) := by
      rw [hsame, ← hrest, joined_eq]
      simp
    have hfound := Tree.nextBy_of_faces (p := Pass.isAliasable middle) hcut (Nat.zero_le _)
      (fun idx id _ hidx hchild => by
        rw [isAliasable_face]
        exact upToName_not_expresses gaps _ (Tree.face_mem_of_lt hcut hchild hidx))
      (fun id hface => by rw [isAliasable_face, hface]; rfl)
    rcases hfound with ⟨id, hfound, _⟩
    rcases Tree.next_of_faces hcut (fun face hface => isSkipped_of_isGap (hgap face hface)) rfl with
      ⟨name, hnext, hname⟩
    have hkind : middle.isKind name .identifier = true := by
      rw [← @Tree.isKind_face middle name .identifier nofun, hname]
      rfl
    have hplan : Pass.aliases.plan middle root {} =
        some (Pass.groupThen ⟨.identifier, (clause.upToName gaps).length,
          (clause.upToName gaps).length + 1 + gap.length, true⟩ (clause.upToName gaps).length) := by
      unfold Pass.aliases
      dsimp only
      rw [hfound]
      dsimp only
      rw [hnext]
      exact if_pos hkind
    refine (Pass.walks_once hsound (Pass.all_tagsChildren _ hpass)
      (Pass.stays_of_seeker Seeker.aliases_plan) (hkeeps root) (fun cursor => cursor = {})
      hmiddle.wellFormed hmiddle.kind trivial rfl ?_ hwalk).2
    rintro cursor rfl
    refine ⟨_, hplan, nofun, fun _ next hgroups => ⟨?_, trivial⟩⟩
    refine hmiddle.headed_of_groups (hsound middle root _ _ (Cursor.ordered_at 0) hplan) rfl rfl
      hgroups (clause.upToName gaps) (.group .identifier :: (gap ++ [.group .identifier]))
      (gaps.beforeKey ++ .token clause.key :: rest) (by rw [hcut]; simp) rfl (by simp; omega)
      ⟨rest, ?_⟩
    rw [joined_eq]
    simp

end WithClause

end SqlLayout
