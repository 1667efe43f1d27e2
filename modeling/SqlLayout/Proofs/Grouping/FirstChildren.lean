import SqlLayout.Proofs.Grouping.Housing

/-!
# What groups begin with

A span starts at the child that its pass has found, at the last one that counts before an
operator, or at an opening token, and none of these is blank.  Hence no group but the root
begins with a blank.
-/

namespace SqlLayout

namespace Tree

variable {tree after : Tree} {list id : NodeId}

def BeginsSolid (tree : Tree) (id : NodeId) : Prop :=
  exists first, tree.child? id 0 = some first ∧ tree.isWhitespace first = false

def GroupsBeginSolid (tree : Tree) : Prop :=
  forall parent group, group ∈ tree.children parent -> tree.isGroup group = true ->
    tree.BeginsSolid group

theorem not_isWhitespace_of_isCode (h : tree.isCode id = true) : tree.isWhitespace id = false := by
  apply Bool.eq_false_iff.mpr
  intro hblank
  rcases tokenHas_iff.mp hblank with ⟨token, htoken, hblank⟩
  have htrivia : tree.tokenHas id Token.isTrivia = true :=
    tokenHas_iff.mpr ⟨token, htoken, by unfold Token.isTrivia; rw [hblank]; rfl⟩
  unfold isCode at h
  rw [htrivia] at h
  cases h

theorem not_isWhitespace_of_isSkipped {skipComment : Bool}
    (h : tree.isSkipped id true skipComment = false) : tree.isWhitespace id = false := by
  unfold isSkipped at h
  rw [Bool.true_and, Bool.or_eq_false_iff] at h
  exact h.1

theorem BeginsSolid.of_append {other : NodeId} {rest : List NodeId} (h : tree.BeginsSolid id)
    (hkept : tree.TokensKept after) (hchildren : after.children other = tree.children id ++ rest) :
    after.BeginsSolid other := by
  rcases h with ⟨first, hfirst, hsolid⟩
  refine ⟨first, ?_, ?_⟩
  · unfold child? at hfirst ⊢
    rw [hchildren, List.getElem?_append_left (List.getElem?_eq_some_iff.mp hfirst).1]
    exact hfirst
  · rw [hkept.isWhitespace_eq]
    exact hsolid

end Tree

/-!
# One span
-/

def Span.StartsSolid (span : Span) (tree : Tree) (list : NodeId) : Prop :=
  exists first, tree.child? list span.start = some first ∧ tree.isWhitespace first = false

theorem Move.Gathers.groupsBeginSolid {tree after : Tree} {list : NodeId} {cursor : Cursor}
    {move : Move} {span : Span} {front moved back : List NodeId} {group : NodeId}
    (hg : move.Gathers list tree span front moved back group after)
    (hfits : move.Fits tree list cursor) (hwf : tree.WellFormed) (hstep : tree.GroupStep after)
    (hstart : span.StartsSolid tree list) (h : tree.GroupsBeginSolid) :
    after.GroupsBeginSolid := by
  have hkept := hstep.tokensKept
  intro parent id hmem hid
  by_cases hgroup : id = group
  · subst hgroup
    rcases hg.new_or_first with ⟨_, hnew⟩ | ⟨_, hkind, rest, rfl, hfirst⟩
    · rcases hstart with ⟨first, hfirst, hsolid⟩
      refine ⟨first, ?_, (hkept.isWhitespace_eq first).trans hsolid⟩
      unfold Tree.child? at hfirst ⊢
      have hplace := (hfits.span_inside span hg.span_eq).1
      rw [hnew, hg.moved_eq, List.getElem?_drop, Nat.add_zero,
        List.getElem?_take_of_lt (by omega)]
      exact hfirst
    · refine (h list id ?_ (Tree.isGroup_iff_kind?.mpr ⟨_, hkind⟩)).of_append hkept hfirst
      rw [hg.children_eq]
      simp
  · -- A child of some list, before and after.
    have hold : exists upper, id ∈ tree.children upper := by
      rcases hg.mem_children_after hfits hstep hmem with hold | ⟨_, heq⟩ | ⟨_, hmoved⟩
      · exact ⟨parent, hold⟩
      · exact absurd heq hgroup
      · rcases hg.exists_of_mem_moved hmoved with ⟨idx, _, _, hchild⟩
        exact ⟨list, List.mem_of_getElem? hchild⟩
    rcases hold with ⟨upper, hupper⟩
    have hsame := Tree.kind?_of_steps (.single hstep) (hwf.child_lt_size hupper)
    have hbefore := h upper id hupper ((Tree.isGroup_congr hsame).symm.trans hid)
    by_cases hlist : id = list
    · subst hlist
      cases front with
      | nil =>
          refine ⟨group, ?_, Tree.tokenHas_of_isGroup
            (Tree.isGroup_iff_kind?.mpr ⟨_, hg.kind?_group⟩) _⟩
          unfold Tree.child?
          rw [hg.children_list]
          rfl
      | cons first front =>
          rcases hbefore with ⟨other, hother, hsolid⟩
          refine ⟨other, ?_, (hkept.isWhitespace_eq other).trans hsolid⟩
          unfold Tree.child? at hother ⊢
          rw [hg.children_eq] at hother
          rw [hg.children_list]
          exact hother
    · have hcontent := hg.content?_other id hlist hgroup (hfits.retag_ne_after hstep hid)
      refine hbefore.of_append hkept (?_ : after.children id = tree.children id ++ [])
      rw [(Tree.observers_congr hcontent).2.2, List.append_nil]

/-!
# The spans of the passes
-/

def Seeker.StartsSolid (seeker : Seeker) : Prop :=
  forall tree list idx id span next, tree.child? list idx = some id ->
    seeker.accepts tree id = true -> seeker.span? tree list idx id = some (span, next) ->
    span.StartsSolid tree list

namespace Seeker

theorem comment_startsSolid : comment.StartsSolid := by
  intro tree list idx id span next hchild haccepts hspan
  cases hspan
  refine ⟨id, hchild, ?_⟩
  rcases Tree.tokenHas_iff.mp haccepts with ⟨token, htoken, hcomment⟩
  unfold Tree.isWhitespace Tree.tokenHas Token.isWhitespace
  rw [htoken]
  dsimp only
  revert hcomment
  cases token.category <;> decide

theorem call_startsSolid : call.StartsSolid := by
  intro tree list idx id span next hchild haccepts hspan
  have hcode := Tree.isCode_of_test (p := fun c => c.isA .name) haccepts rfl
  rcases call_span hspan with ⟨_, _, _, _, rfl, rfl⟩
  exact ⟨id, hchild, Tree.not_isWhitespace_of_isCode hcode⟩

theorem whereWord_startsSolid : whereWord.StartsSolid := by
  intro tree list idx id span next hchild haccepts hspan
  cases hspan
  exact ⟨id, hchild, Tree.not_isWhitespace_of_isCode (Tree.isCode_of_hits haccepts rfl)⟩

theorem name_startsSolid : name.StartsSolid := by
  intro tree list idx id span next hchild haccepts hspan
  rcases name_span hspan with ⟨hname, rfl, rfl⟩
  refine ⟨id, hchild, Tree.not_isWhitespace_of_isCode ?_⟩
  rcases Bool.or_eq_true_iff.mp hname with hname | hquoted
  · exact Tree.isCode_of_isCategory hname (by decide)
  · exact Tree.isCode_of_isCategory hquoted (by decide)

theorem typeWord_startsSolid : typeWord.StartsSolid := by
  intro tree list idx id span next hchild _ hspan
  rcases Option.map_eq_some_iff.mp hspan with ⟨stop, hstop, heq⟩
  cases heq
  exact ⟨id, hchild, Tree.not_isWhitespace_of_isCode (isCode_of_typedLiteralEnd? hstop)⟩

theorem ordering_startsSolid : ordering.StartsSolid := by
  intro tree list idx id span next _ _ hspan
  rcases ordering_span hspan with ⟨prev, other, hprev, _, rfl, rfl⟩
  rcases Tree.prev_some hprev with ⟨_, hother, hcounts⟩
  exact ⟨other, hother, Tree.not_isWhitespace_of_isSkipped hcounts⟩

theorem aliased_startsSolid : aliased.StartsSolid := by
  intro tree list idx id span next hchild haccepts hspan
  have hsolid : tree.isWhitespace id = false := by
    rcases Bool.or_eq_true_iff.mp haccepts with hkind | hnumber
    · unfold Tree.isKindIn at hkind
      split at hkind
      · rename_i kind hsome
        exact Tree.tokenHas_of_isGroup (Tree.isGroup_iff_kind?.mpr ⟨kind, hsome⟩) _
      · cases hkind
    · exact Tree.not_isWhitespace_of_isCode
        (Tree.isCode_of_test (p := fun c => c.isA .number) hnumber rfl)
  rcases aliased_span hspan with ⟨_, _, _, _, rfl, rfl⟩
  exact ⟨id, hchild, hsolid⟩

theorem trailingComment_startsSolid : trailingComment.StartsSolid := by
  intro tree list idx id span next _ _ hspan
  rcases trailingComment_span hspan with ⟨prev, host, kind, hprev, _, rfl, _⟩
  rcases Tree.prev_some hprev with ⟨_, hhost, hcounts⟩
  exact ⟨host, hhost, Tree.not_isWhitespace_of_isSkipped hcounts⟩

end Seeker

/-!
# All passes
-/

namespace Pass

theorem keeps_beginnings_of_seeker {pass : Pass} {seeker : Seeker} (hpass : pass ∈ Pass.all)
    (hplan : pass.plan = seeker.plan) (h : seeker.StartsSolid) :
    pass.Keeps Tree.GroupsBeginSolid (fun _ => True) (fun _ _ _ => True) := by
  apply keeps_of_seeker hpass hplan
  intro tree after list cursor move idx next id group span front moved back hwf hbegins hchild
    haccepts hfound hfits hstep hg
  exact hg.groupsBeginSolid hfits hwf hstep
    (h tree list idx id span next hchild haccepts hfound) hbegins

theorem keeps_beginnings_of_rule {rule : BinaryRule} (hsound : rule.Sound)
    (hpass : (Pass.binary rule).Sound) :
    (Pass.binary rule).Keeps Tree.GroupsBeginSolid (fun _ => True) Tree.SolidSince := by
  apply keeps_of_rule hpass
  intro tree after list cursor move op start stop hwf hcursor hbegins hknown hchild _ hoperands
    hfits hspan hgroups
  rcases BinaryRule.span?_accepts hoperands with ⟨prev, _, hprev, _, _, _, hfound⟩
  rcases hsound tree list prev cursor.idx start stop (hcursor.prev_lt prev hprev)
    (Tree.child?_lt hchild) hfound with ⟨rfl, _, _⟩
  rcases hgroups.gathers hwf hfits with ⟨span, front, moved, back, group, hg⟩
  cases hspan.symm.trans hg.span_eq
  exact hg.groupsBeginSolid hfits hwf (hgroups.groupStep hwf hfits)
    (hknown.solid start hprev) hbegins

theorem keeps_beginnings_of_pairs {kind : GroupKind} {opening closing : TokenPattern}
    (hopening : kind.opening? = some opening) (hclosing : kind.closing? = some closing)
    (hmark : Category.trivia.elem opening.category = false) :
    (Pass.pairs kind).Keeps Tree.GroupsBeginSolid (· ≠ kind) (Tree.OpensWait opening) := by
  apply keeps_of_pairs hopening hclosing
  intro tree after list cursor move start first last hwf hbegins _ _ hfirst hopens _ _ hfits hspan
    hgroups
  rcases hgroups.gathers hwf hfits with ⟨span, front, moved, back, group, hg⟩
  cases hspan.symm.trans hg.span_eq
  exact hg.groupsBeginSolid hfits hwf (hgroups.groupStep hwf hfits)
    ⟨first, hfirst, Tree.not_isWhitespace_of_isCode (Tree.isCode_of_hits hopens hmark)⟩ hbegins

theorem all_keep_beginnings : forall pass, pass ∈ Pass.all ->
    exists suits known, pass.Keeps Tree.GroupsBeginSolid suits known ∧ suits .statement := by
  have hseeker : forall {pass : Pass} {seeker : Seeker}, pass ∈ Pass.all ->
      pass.plan = seeker.plan -> seeker.StartsSolid ->
      exists suits known, pass.Keeps Tree.GroupsBeginSolid suits known ∧ suits .statement :=
    fun hmem hplan h => ⟨_, _, keeps_beginnings_of_seeker hmem hplan h, trivial⟩
  have hrule : forall {rule : BinaryRule}, Pass.binary rule ∈ Pass.all -> rule.Sound ->
      exists suits known, (Pass.binary rule).Keeps Tree.GroupsBeginSolid suits known ∧
        suits .statement :=
    fun hmem hsound => ⟨_, _, keeps_beginnings_of_rule hsound (all_sound _ hmem), trivial⟩
  intro pass hpass
  have hmem := hpass
  unfold Pass.all at hpass
  simp only [List.mem_cons, List.not_mem_nil, or_false] at hpass
  rcases hpass with rfl | rfl | rfl | rfl | rfl | rfl | rfl | rfl | rfl | rfl | rfl | rfl | rfl |
    rfl | rfl | rfl | rfl | rfl | rfl | rfl | rfl | rfl
  · exact hseeker hmem Seeker.comments_plan Seeker.comment_startsSolid
  · exact ⟨_, _, keeps_beginnings_of_pairs rfl rfl rfl, nofun⟩
  · exact ⟨_, _, keeps_beginnings_of_pairs rfl rfl rfl, nofun⟩
  · exact hseeker hmem Seeker.functions_plan Seeker.call_startsSolid
  · exact hseeker hmem Seeker.whereClauses_plan Seeker.whereWord_startsSolid
  · exact ⟨_, _, keeps_beginnings_of_pairs rfl rfl rfl, nofun⟩
  · exact hrule hmem BinaryRule.period_sound
  · exact hrule hmem BinaryRule.subscript_sound
  · exact hseeker hmem Seeker.identifiers_plan Seeker.name_startsSolid
  · exact hseeker hmem Seeker.typedLiterals_plan Seeker.typeWord_startsSolid
  · exact hrule hmem (BinaryRule.fromPrevToNext_sound rfl)
  · exact hseeker hmem Seeker.orderings_plan Seeker.ordering_startsSolid
  · exact hrule hmem BinaryRule.typecast_sound
  · exact hrule hmem (BinaryRule.fromPrevToNext_sound rfl)
  · exact hseeker hmem Seeker.aliases_plan Seeker.aliased_startsSolid
  · exact hrule hmem BinaryRule.assignment_sound
  · exact hrule hmem (BinaryRule.fromPrevToNext_sound rfl)
  · exact hseeker hmem Seeker.trailingComments_plan Seeker.trailingComment_startsSolid
  · exact hrule hmem (BinaryRule.fromPrevToNext_sound rfl)
  · exact ⟨_, _, keeps_beginnings_of_pairs rfl rfl rfl, nofun⟩
  · exact ⟨_, _, keeps_beginnings_of_pairs rfl rfl rfl, nofun⟩
  · exact ⟨_, _, keeps_beginnings_of_pairs rfl rfl rfl, nofun⟩

end Pass

theorem Statement.groupsBeginSolid_of_group {tokens : List Token} {limit : Nat} {s : Statement}
    (h : (ofTokens tokens).group limit = .ok s) : s.tree.GroupsBeginSolid := by
  refine holds_of_group Pass.all_keep_beginnings ?_ h
  intro parent group hmem hgroup
  rw [children_ofTokens] at hmem
  split at hmem
  · have hlt := List.mem_range.mp hmem
    rw [Tree.isGroup_of_token? ((token?_ofTokens tokens group).trans
      (List.getElem?_eq_getElem hlt))] at hgroup
    cases hgroup
  · cases hmem

end SqlLayout
