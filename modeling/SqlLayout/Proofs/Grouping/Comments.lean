import SqlLayout.Proofs.Grouping.Leaves
import SqlLayout.Proofs.Grouping.Steps

/-!
# Groups of comments

Two passes make groups of comments: one of runs of comments with the blanks
between them, the other of such groups with the blanks between them.  Hence
comments and blanks are all that a group of comments ever holds.
-/

namespace SqlLayout

/-- A comment or a blank. -/
def Token.isTrivia (token : Token) : Bool := token.isWhitespace || token.isComment

theorem Token.category_of_isWhitespace {token : Token} (h : token.isWhitespace = true) :
    token.category = .whitespace := by
  unfold isWhitespace at h
  revert h
  cases token.category <;> decide

namespace Token.Kept

variable {token after : Token}

theorem isWhitespace_eq (h : token.Kept after) : after.isWhitespace = token.isWhitespace := by
  unfold isWhitespace
  rcases h.category_eq with hsame | ⟨hwild, hop⟩
  · rw [hsame]
  · rw [hwild, hop]
    rfl

theorem isComment_eq (h : token.Kept after) : after.isComment = token.isComment := by
  unfold isComment
  rcases h.category_eq with hsame | ⟨hwild, hop⟩
  · rw [hsame]
  · rw [hwild, hop]
    rfl

/-- Grouping makes no comment or blank of another token, nor the other way
round. -/
theorem isTrivia_eq (h : token.Kept after) : after.isTrivia = token.isTrivia := by
  unfold isTrivia
  rw [h.isWhitespace_eq, h.isComment_eq]

end Token.Kept

namespace Tree

variable {tree tagged after : Tree} {list : NodeId}

/-- The leaves of a node, of which there is one at least, are comments or
blanks. -/
def HoldsTrivia (tree : Tree) (id : NodeId) : Prop :=
  tree.leaves id ≠ [] ∧
    forall leaf, leaf ∈ tree.leaves id -> tree.tokenHas leaf Token.isTrivia = true

def CommentsApart (tree : Tree) : Prop :=
  forall id, tree.isKind id .comment = true -> tree.HoldsTrivia id

theorem holdsTrivia_of_tokenHas {id : NodeId} (h : tree.tokenHas id Token.isTrivia = true) :
    tree.HoldsTrivia id := by
  cases htoken : tree.token? id with
  | none =>
      unfold tokenHas at h
      rw [htoken] at h
      cases h
  | some token =>
      unfold HoldsTrivia
      rw [WellFormed.leaves_token htoken]
      refine ⟨List.cons_ne_nil _ _, ?_⟩
      intro leaf hleaf
      rw [List.mem_singleton.mp hleaf]
      exact h

theorem TokensKept.tokenHas_isTrivia (h : tree.TokensKept after) (id : NodeId) :
    after.tokenHas id Token.isTrivia = tree.tokenHas id Token.isTrivia := by
  have hrel := h id
  unfold tokenHas
  generalize tree.token? id = before, after.token? id = later at hrel ⊢
  cases hrel with
  | none =>
      rfl
  | some hkept =>
      exact hkept.isTrivia_eq

theorem HoldsTrivia.kept {id : NodeId} (h : tree.HoldsTrivia id) (hkept : tree.TokensKept after)
    (hleaves : after.leaves id = tree.leaves id) : after.HoldsTrivia id := by
  unfold HoldsTrivia
  rw [hleaves]
  refine ⟨h.1, ?_⟩
  intro leaf hleaf
  rw [hkept.tokenHas_isTrivia]
  exact h.2 leaf hleaf

theorem HoldsTrivia.of_flatMap {id : NodeId} {parts : List NodeId} (hparts : parts ≠ [])
    (h : forall part, part ∈ parts -> tree.HoldsTrivia part) (hkept : tree.TokensKept after)
    (hleaves : after.leaves id = parts.flatMap tree.leaves) : after.HoldsTrivia id := by
  unfold HoldsTrivia
  rw [hleaves]
  constructor
  · intro hnil
    rw [List.flatMap_eq_nil_iff] at hnil
    rcases List.exists_mem_of_ne_nil _ hparts with ⟨part, hpart⟩
    exact (h part hpart).1 (hnil part hpart)
  · intro leaf hleaf
    rcases List.mem_flatMap.mp hleaf with ⟨part, hpart, hmem⟩
    rw [hkept.tokenHas_isTrivia]
    exact (h part hpart).2 leaf hmem

theorem Retagged.kind?_eq (h : tree.Retagged tagged) (id : NodeId) :
    tagged.kind? id = tree.kind? id := by
  cases h with
  | none =>
      rfl
  | operator _ =>
      exact kind?_modifyToken _ _ _

theorem kind?_of_steps (h : Relation.ReflTransGen GroupStep tree after) {id : NodeId}
    (hid : id < tree.size) : after.kind? id = tree.kind? id := by
  induction h using Relation.ReflTransGen.head_induction_on with
  | refl =>
      rfl
  | head hfirst _ ih =>
      have hlt := Nat.lt_of_lt_of_le hid hfirst.size_le
      rcases hfirst with ⟨tagged, htag, hgroup⟩
      rw [← htag.size_eq] at hid
      rw [ih hlt, ← htag.kind?_eq]
      cases hgroup with
      | wrapped _ h =>
          exact h.kind?_of_ne (Nat.ne_of_lt hid)
      | absorbed _ h =>
          exact (h.kind?_eq_and_token?_eq id).1

theorem CommentsApart.retagged (h : tree.CommentsApart) (htag : tree.Retagged tagged) :
    tagged.CommentsApart := by
  intro id hid
  unfold isKind at hid
  rw [htag.kind?_eq] at hid
  exact (h id hid).kept htag.tokensKept (htag.leaves_eq id)

section

variable {kind : GroupKind} {front moved back : List NodeId} (hwf : tree.WellFormed)
  (hapart : tree.CommentsApart)
include hwf hapart

theorem CommentsApart.wrapped (hne : moved ≠ [])
    (h : Wrapped tree list kind front moved back after)
    (hmoved : kind = .comment -> forall id, id ∈ moved -> tree.HoldsTrivia id) :
    after.CommentsApart := by
  have hkept : tree.TokensKept after := TokensKept.of_token?_eq h.token?_eq
  intro id hid
  by_cases hnew : id = tree.size
  · have hkind : kind = .comment := by
      rw [hnew, isKind, kind?_of_content? h.content?_new] at hid
      simpa using hid
    rw [hnew]
    exact HoldsTrivia.of_flatMap hne (hmoved hkind) hkept (h.leaves_new hwf)
  · rw [isKind, h.kind?_of_ne hnew] at hid
    have hlt := lt_size_of_isGroup (isGroup_iff_kind?.mpr ⟨_, eq_of_beq hid⟩)
    exact (hapart id hid).kept hkept (h.leaves_eq hwf hlt)

theorem CommentsApart.absorbed {group : NodeId} (hgroup : tree.kind? group = some kind)
    (h : Absorbed tree list group front moved back after)
    (hmoved : kind = .comment -> forall id, id ∈ moved -> tree.HoldsTrivia id) :
    after.CommentsApart := by
  have hkept : tree.TokensKept after := TokensKept.of_token?_eq h.token?_eq
  intro id hid
  rw [isKind, (h.kind?_eq_and_token?_eq id).1] at hid
  by_cases heq : id = group
  · have hkind : kind = .comment := by
      rw [heq, hgroup] at hid
      simpa using hid
    have hparts : forall part, part ∈ group :: moved -> tree.HoldsTrivia part := by
      intro part hpart
      rcases List.mem_cons.mp hpart with rfl | hmem
      · exact hapart part (by rw [isKind, hgroup, hkind]; rfl)
      · exact hmoved hkind part hmem
    rw [heq]
    exact HoldsTrivia.of_flatMap (List.cons_ne_nil _ _) hparts hkept (h.leaves_group hwf)
  · have hlt := lt_size_of_isGroup (isGroup_iff_kind?.mpr ⟨_, eq_of_beq hid⟩)
    exact (hapart id hid).kept hkept (h.leaves_eq hwf hlt heq)

end

end Tree

/-!
# The spans that become groups of comments
-/

def Move.CommentsApart (tree : Tree) (list : NodeId) (move : Move) : Prop :=
  forall span, move.span = some span -> span.kind = .comment ->
    forall idx id, span.start <= idx -> idx <= span.stop -> tree.child? list idx = some id ->
      tree.HoldsTrivia id

def Pass.KeepsCommentsApart (pass : Pass) : Prop :=
  forall tree list cursor move, tree.CommentsApart -> pass.plan tree list cursor = some move ->
    move.CommentsApart tree list

theorem Pass.keepsCommentsApart_of_kind {pass : Pass}
    (h : forall tree list cursor move span, pass.plan tree list cursor = some move ->
      move.span = some span -> span.kind ≠ .comment) : pass.KeepsCommentsApart := by
  intro tree list cursor move _ hplan span hspan hkind
  exact absurd hkind (h tree list cursor move span hplan hspan)

theorem BinaryRule.plan_kind {rule : BinaryRule} {tree : Tree} {list : NodeId} {cursor : Cursor}
    {move : Move} {span : Span} (hplan : rule.plan tree list cursor = some move)
    (hspan : move.span = some span) : span.kind = rule.kind := by
  unfold plan at hplan
  split at hplan
  · cases hplan
  · split at hplan
    · cases hplan
      cases hspan
    · dsimp only at hplan
      split at hplan
      · split at hplan
        · cases hplan
          cases hspan
          rfl
        · cases hplan
          cases hspan
      · cases hplan
        cases hspan

theorem Pass.keepsCommentsApart_binary {rule : BinaryRule} (h : rule.kind ≠ .comment) :
    (Pass.binary rule).KeepsCommentsApart := by
  apply keepsCommentsApart_of_kind
  intro tree list cursor move span hplan hspan
  rw [BinaryRule.plan_kind hplan hspan]
  exact h

theorem Pass.keepsCommentsApart_pairs {kind : GroupKind} (h : kind ≠ .comment) :
    (Pass.pairs kind).KeepsCommentsApart := by
  apply keepsCommentsApart_of_kind
  intro tree list cursor move span hplan hspan
  unfold pairs at hplan
  dsimp only at hplan
  split at hplan
  · unfold planPair at hplan
    split at hplan
    · cases hplan
    · split at hplan
      · cases hplan
        cases hspan
      · split at hplan
        · cases hplan
          cases hspan
        · split at hplan
          · cases hplan
            cases hspan
          · split at hplan
            · split at hplan
              · cases hplan
                cases hspan
                exact h
              · cases hplan
                cases hspan
            · cases hplan
              cases hspan
  · cases hplan

namespace Seeker

theorem plan_span {seeker : Seeker} {tree : Tree} {list : NodeId} {cursor : Cursor} {move : Move}
    {span : Span} (hplan : seeker.plan tree list cursor = some move)
    (hspan : move.span = some span) :
    exists idx id next, tree.child? list idx = some id ∧ seeker.accepts tree id = true ∧
      seeker.span? tree list idx id = some (span, next) := by
  unfold plan at hplan
  split at hplan
  · cases hplan
  · rename_i idx id hnext
    rcases Tree.nextBy_some hnext with ⟨_, hchild, haccepts, _⟩
    split at hplan
    · rename_i other next hother
      cases hplan
      cases hspan
      exact ⟨idx, id, next, hchild, haccepts, hother⟩
    · cases hplan
      cases hspan

def OfKind (seeker : Seeker) (kind : GroupKind) : Prop :=
  forall tree list idx id span next,
    seeker.span? tree list idx id = some (span, next) -> span.kind = kind

theorem keepsCommentsApart_of_kind {pass : Pass} {seeker : Seeker} {kind : GroupKind}
    (hpass : pass.plan = seeker.plan) (hkind : seeker.OfKind kind) (h : kind ≠ .comment) :
    pass.KeepsCommentsApart := by
  apply Pass.keepsCommentsApart_of_kind
  intro tree list cursor move span hplan hspan
  rw [hpass] at hplan
  rcases plan_span hplan hspan with ⟨idx, id, next, _, _, hfound⟩
  rw [hkind tree list idx id span next hfound]
  exact h

theorem call_ofKind : call.OfKind .function := by
  intro tree list idx id span next h
  rcases call_span h with ⟨_, _, _, _, rfl, rfl⟩
  rfl

theorem whereWord_ofKind : whereWord.OfKind .whereClause := by
  intro tree list idx id span next h
  cases h
  rfl

theorem name_ofKind : name.OfKind .identifier := by
  intro tree list idx id span next h
  rcases name_span h with ⟨_, rfl, rfl⟩
  rfl

theorem typeWord_ofKind : typeWord.OfKind .typedLiteral := by
  intro tree list idx id span next h
  rcases Option.map_eq_some_iff.mp h with ⟨stop, _, hpair⟩
  cases hpair
  rfl

theorem ordering_ofKind : ordering.OfKind .identifier := by
  intro tree list idx id span next h
  rcases ordering_span h with ⟨_, _, _, _, rfl, rfl⟩
  rfl

theorem aliased_ofKind : aliased.OfKind .identifier := by
  intro tree list idx id span next h
  rcases aliased_span h with ⟨_, _, _, _, rfl, rfl⟩
  rfl

end Seeker

/-!
# Runs of comments
-/

section

variable {tree : Tree} {list : NodeId}

theorem Tree.tokenHas_isTrivia_of_run {id : NodeId}
    (h : (tree.isA id .comment || tree.isWhitespace id) = true) :
    tree.tokenHas id Token.isTrivia = true := by
  rw [Bool.or_comm] at h
  unfold isA isWhitespace tokenHas at h
  unfold tokenHas
  cases htoken : tree.token? id with
  | none =>
      rw [htoken] at h
      cases h
  | some token =>
      rw [htoken] at h
      exact h

theorem Tree.holdsTrivia_of_run {id : NodeId}
    (h : (tree.isA id .comment || tree.isWhitespace id) = true) : tree.HoldsTrivia id :=
  holdsTrivia_of_tokenHas (tokenHas_isTrivia_of_run h)

theorem Pass.commentRunEnd_run {start : Nat} {first : NodeId}
    (hfirst : tree.isA first .comment = true) (hstart : tree.child? list start = some first)
    {idx : Nat} {id : NodeId} (hle : start <= idx) (hend : idx <= commentRunEnd tree list start)
    (hchild : tree.child? list idx = some id) :
    (tree.isA id .comment || tree.isWhitespace id) = true := by
  rcases Nat.eq_or_lt_of_le hle with rfl | hlt
  · rw [hstart] at hchild
    cases hchild
    rw [hfirst, Bool.true_or]
  · unfold commentRunEnd at hend
    dsimp only at hend
    split at hend
    · rename_i stop other hstop
      rcases Tree.nextBy_some hstop with ⟨hstopLe, _, _, hbefore⟩
      have hrefused := hbefore idx id hlt (by omega) hchild
      rw [Bool.not_eq_false'] at hrefused
      exact hrefused
    · rename_i hnone
      have hrefused := Tree.nextBy_none hnone hlt hchild
      rw [Bool.not_eq_false'] at hrefused
      exact hrefused

theorem Pass.commentRunEnd_trivia {start : Nat} {first : NodeId}
    (hfirst : tree.isA first .comment = true) (hstart : tree.child? list start = some first)
    {idx : Nat} {id : NodeId} (hle : start <= idx) (hend : idx <= commentRunEnd tree list start)
    (hchild : tree.child? list idx = some id) : tree.HoldsTrivia id :=
  Tree.holdsTrivia_of_run (commentRunEnd_run hfirst hstart hle hend hchild)

theorem Pass.comments_keepsCommentsApart : Pass.comments.KeepsCommentsApart := by
  intro tree list cursor move _ hplan span hspan _ idx id hstart hstop hchild
  rw [Seeker.comments_plan] at hplan
  rcases Seeker.plan_span hplan hspan with ⟨start, first, next, hfirst, haccepts, hfound⟩
  unfold Seeker.comment at haccepts hfound
  cases hfound
  exact commentRunEnd_trivia haccepts hfirst hstart hstop hchild

theorem Pass.isKind_of_commentHost? {id : NodeId} {kind : GroupKind}
    (h : commentHost? tree id = some kind) : tree.isKind id kind = true := by
  unfold commentHost? at h
  split at h
  · rename_i other hkind
    split at h
    · cases h
    · cases h
      rw [Tree.isKind, hkind]
      exact beq_self_eq_true _
  · cases h

theorem Pass.trailingComments_keepsCommentsApart : Pass.trailingComments.KeepsCommentsApart := by
  intro tree list cursor move hapart hplan span hspan hkind idx id hstart hstop hchild
  rw [Seeker.trailingComments_plan] at hplan
  rcases Seeker.plan_span hplan hspan with ⟨last, comment, next, hcomment, haccepts, hfound⟩
  rcases Seeker.trailingComment_span hfound with ⟨prev, host, kind, hprev, hhostKind, rfl, _⟩
  rcases Tree.prev_some hprev with ⟨_, hhost, _⟩
  dsimp only at hkind hstart hstop
  rcases Nat.eq_or_lt_of_le hstart with rfl | hafter
  · rw [hhost] at hchild
    cases hchild
    apply hapart
    rw [← hkind]
    exact isKind_of_commentHost? hhostKind
  · rcases Nat.eq_or_lt_of_le hstop with rfl | hbefore
    · rw [hcomment] at hchild
      cases hchild
      exact hapart _ haccepts
    · have hskipped := Tree.prev_between hprev hafter hbefore hchild
      apply Tree.holdsTrivia_of_run
      simpa [Tree.isSkipped] using Or.inr hskipped

end

/-!
# All passes
-/

theorem Pass.all_keepsCommentsApart :
    forall pass, pass ∈ Pass.all -> pass.KeepsCommentsApart := by
  intro pass hpass
  unfold Pass.all at hpass
  simp only [List.mem_cons, List.not_mem_nil, or_false] at hpass
  rcases hpass with rfl | rfl | rfl | rfl | rfl | rfl | rfl | rfl | rfl | rfl | rfl | rfl | rfl |
    rfl | rfl | rfl | rfl | rfl | rfl | rfl | rfl | rfl
  · exact comments_keepsCommentsApart
  · exact keepsCommentsApart_pairs (by decide)
  · exact keepsCommentsApart_pairs (by decide)
  · exact Seeker.keepsCommentsApart_of_kind Seeker.functions_plan Seeker.call_ofKind (by decide)
  · exact Seeker.keepsCommentsApart_of_kind Seeker.whereClauses_plan Seeker.whereWord_ofKind
      (by decide)
  · exact keepsCommentsApart_pairs (by decide)
  · exact keepsCommentsApart_binary (by decide)
  · exact keepsCommentsApart_binary (by decide)
  · exact Seeker.keepsCommentsApart_of_kind Seeker.identifiers_plan Seeker.name_ofKind (by decide)
  · exact Seeker.keepsCommentsApart_of_kind Seeker.typedLiterals_plan Seeker.typeWord_ofKind
      (by decide)
  · exact keepsCommentsApart_binary (by decide)
  · exact Seeker.keepsCommentsApart_of_kind Seeker.orderings_plan Seeker.ordering_ofKind
      (by decide)
  · exact keepsCommentsApart_binary (by decide)
  · exact keepsCommentsApart_binary (by decide)
  · exact Seeker.keepsCommentsApart_of_kind Seeker.aliases_plan Seeker.aliased_ofKind (by decide)
  · exact keepsCommentsApart_binary (by decide)
  · exact keepsCommentsApart_binary (by decide)
  · exact trailingComments_keepsCommentsApart
  · exact keepsCommentsApart_binary (by decide)
  · exact keepsCommentsApart_pairs (by decide)
  · exact keepsCommentsApart_pairs (by decide)
  · exact keepsCommentsApart_pairs (by decide)

/-- A step of grouping that puts only comments and blanks into groups of
comments. -/
def Tree.CommentStep (tree after : Tree) : Prop :=
  tree.GroupStep after ∧ (tree.CommentsApart -> after.CommentsApart)

theorem Tree.exists_of_mem_span {tree : Tree} {list id : NodeId} {start stop : Nat}
    (h : id ∈ ((tree.children list).take (stop + 1)).drop start) :
    exists idx, start <= idx ∧ idx <= stop ∧ tree.child? list idx = some id := by
  rcases List.mem_iff_getElem?.mp h with ⟨i, hi⟩
  rw [List.getElem?_drop, List.getElem?_take] at hi
  split at hi
  · exact ⟨start + i, Nat.le_add_right _ _, by omega, hi⟩
  · cases hi

theorem Pass.takes_commentStep {pass : Pass} (hsound : pass.Sound)
    (hkeeps : pass.KeepsCommentsApart) : pass.Takes Tree.CommentStep := by
  intro tree list cursor move hwf hcursor hplan hspan
  have hfits := hsound tree list cursor move hcursor hplan
  have htag := Move.retagged_tagged hfits
  have hwf' := htag.wellFormed hwf
  cases hmove : move.span with
  | none =>
      exact absurd hmove hspan
  | some span =>
      rcases hfits.span_inside span hmove with ⟨hstart, hstop, hextend⟩
      have hinside : span.stop < ((move.tagged tree).children list).length := by
        rw [htag.children_eq]
        exact hstop
      -- Giving a token another category moves no leaf.
      have htrivia : tree.CommentsApart -> span.kind = .comment -> forall first id,
          span.start <= first ->
          id ∈ (((move.tagged tree).children list).take (span.stop + 1)).drop first ->
          (move.tagged tree).HoldsTrivia id := by
        intro hapart hkind first id hfrom hid
        rw [htag.children_eq] at hid
        rcases Tree.exists_of_mem_span hid with ⟨idx, hle, hge, hchild⟩
        have hholds := hkeeps tree list cursor move hapart hplan span hmove hkind idx id
          (Nat.le_trans hfrom hle) hge hchild
        exact hholds.kept htag.tokensKept (htag.leaves_eq id)
      rcases Tree.groupTokens_ok span.kind span.extend hwf' hstart hinside with
        ⟨group, after, hok, habsorbed | hwrapped⟩
      · rcases habsorbed with ⟨hext, hkind, habsorbed⟩
        refine ⟨after, ⟨span, group, hmove, hok⟩, ⟨move.tagged tree, htag,
          .absorbed (Tree.span_ne_nil (hextend hext) hinside) habsorbed⟩, ?_⟩
        intro hapart
        refine Tree.CommentsApart.absorbed hwf' (hapart.retagged htag) hkind habsorbed ?_
        intro hcomment id hid
        exact htrivia hapart hcomment _ id (Nat.le_succ _) hid
      · refine ⟨after, ⟨span, group, hmove, hok⟩, ⟨move.tagged tree, htag,
          .wrapped (Tree.span_ne_nil hstart hinside) hwrapped.2⟩, ?_⟩
        intro hapart
        refine Tree.CommentsApart.wrapped hwf' (hapart.retagged htag)
          (Tree.span_ne_nil hstart hinside) hwrapped.2 ?_
        intro hcomment id hid
        exact htrivia hapart hcomment _ id (Nat.le_refl _) hid

theorem Tree.commentsApart_of_steps {tree after : Tree}
    (h : Relation.ReflTransGen Tree.CommentStep tree after) (hapart : tree.CommentsApart) :
    after.CommentsApart := by
  induction h with
  | refl =>
      exact hapart
  | tail _ hlast ih =>
      exact hlast.2 ih

/-- The groups of comments of a grouped statement hold comments and blanks
only. -/
theorem Statement.commentsApart_of_group {tokens : List Token} {after : Statement} {limit : Nat}
    (h : (ofTokens tokens).group limit = .ok after) : after.tree.CommentsApart := by
  have hsafe := groupInPlace_safe
    (fun pass hpass => Pass.takes_commentStep (Pass.all_sound pass hpass)
      (Pass.all_keepsCommentsApart pass hpass))
    (fun _ _ hwf hstep => hstep.1.wellFormed hwf) (wellFormed_ofTokens tokens) limit
  have hsteps := hsafe.steps
  rw [group_ok_iff.mp h] at hsteps
  apply Tree.commentsApart_of_steps hsteps
  intro id hid
  unfold Tree.isKind at hid
  rw [kind?_ofTokens] at hid
  by_cases hroot : id = tokens.length
  · rw [if_pos hroot] at hid
    cases hid
  · rw [if_neg hroot] at hid
    cases hid

end SqlLayout
