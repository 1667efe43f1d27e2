import SqlLayout.Proofs.Grouping.Collecting
import SqlLayout.Proofs.Grouping.Operands

/-!
# Where names and comments end up

The first pass puts each comment into a group of comments, and the pass for names puts
each name that is in no identifier yet into one of its own.  No later pass takes a comment
out again: it would group something that is neither a comment nor a blank, and no group of
comments has such a child.
-/

namespace SqlLayout

open Grouping

/-!
# Children that are neither comments nor blanks
-/

def Category.trivia : List Category :=
  [.whitespace, .comment, .lineComment, .lineHint, .blockComment, .blockHint]

theorem Category.any_beq_eq_false {categories : List Category} {category : Category}
    (h : category ∉ categories) : (categories.any fun c => c == category) = false :=
  List.any_eq_false.mpr fun _ hc heq => h (beq_iff_eq.mp heq ▸ hc)

namespace Tree

variable {tree after : Tree} {id : NodeId}

def isCode (tree : Tree) (id : NodeId) : Bool :=
  !(tree.tokenHas id Token.isTrivia || tree.isKind id .comment)

theorem isKind_of_token? {token : Token} (h : tree.token? id = some token) (kind : GroupKind) :
    tree.isKind id kind = false := by
  apply Bool.eq_false_iff.mpr
  intro hkind
  have hgroup := isGroup_of_token? h
  rw [isGroup_iff_kind?.mpr ⟨kind, beq_iff_eq.mp hkind⟩] at hgroup
  cases hgroup

theorem isCode_of_tokenHas {p : Token -> Bool} (h : tree.tokenHas id p = true)
    (hp : forall token : Token, token.isTrivia = true -> p token = false) :
    tree.isCode id = true := by
  rcases tokenHas_iff.mp h with ⟨token, htoken, hhas⟩
  unfold isCode tokenHas
  rw [htoken, isKind_of_token? htoken]
  dsimp only
  cases htrivia : token.isTrivia with
  | false =>
      rfl
  | true =>
      rw [hp token htrivia] at hhas
      cases hhas

theorem isCode_of_test {p : Category -> Bool}
    (h : tree.tokenHas id (fun token => p token.category) = true)
    (hp : Category.trivia.any p = false) : tree.isCode id = true := by
  apply isCode_of_tokenHas h
  intro token htrivia
  exact List.any_eq_false.mp hp _ (Token.isTrivia_cases htrivia) |> Bool.eq_false_iff.mpr

theorem isCode_of_isCategory {category : Category} (h : tree.isCategory id category = true)
    (hne : category ∉ Category.trivia) : tree.isCode id = true := by
  rw [isCategory_eq_tokenHas] at h
  exact isCode_of_test (p := fun c => c == category) h (Category.any_beq_eq_false hne)

theorem isCode_of_hits {pattern : TokenPattern} (h : tree.hits id pattern = true)
    (hpattern : Category.trivia.elem pattern.category = false) : tree.isCode id = true := by
  apply isCode_of_tokenHas h
  intro token htrivia
  apply Token.hits_eq_false_of_ne
  intro heq
  have hcategory : pattern.category ∈ Category.trivia := heq ▸ Token.isTrivia_cases htrivia
  rw [← List.elem_iff, hpattern] at hcategory
  cases hcategory

theorem isCode_of_isKind {kind : GroupKind} (h : tree.isKind id kind = true)
    (hne : kind ≠ .comment) : tree.isCode id = true := by
  have hkind := beq_iff_eq.mp h
  unfold isCode
  rw [tokenHas_of_isGroup (isGroup_iff_kind?.mpr ⟨_, hkind⟩), isKind, hkind, Bool.false_or,
    Bool.not_eq_true', beq_eq_false_iff_ne]
  exact fun heq => hne (Option.some.inj heq)

theorem not_isCode_of_isKind (h : tree.isKind id .comment = true) : tree.isCode id = false := by
  unfold isCode
  rw [h, Bool.or_true, Bool.not_true]

theorem not_isCode_of_isTrivia (h : tree.tokenHas id Token.isTrivia = true) :
    tree.isCode id = false := by
  unfold isCode
  rw [h, Bool.true_or, Bool.not_true]

theorem isCode_of_steps (h : Relation.ReflTransGen GroupStep tree after) (hid : id < tree.size) :
    after.isCode id = tree.isCode id := by
  unfold isCode isKind
  rw [(tokensKept_of_steps h).tokenHas_isTrivia, kind?_of_steps h hid]

def CommentsPlain (tree : Tree) : Prop :=
  forall group, tree.isKind group .comment = true ->
    forall id, id ∈ tree.children group -> tree.isCode id = false

/-- Comments are children of groups of comments, and these hold nothing else. -/
structure CommentsHoused (tree : Tree) : Prop where
  plain : tree.CommentsPlain
  housed : forall id, tree.tokenHas id Token.isComment = true -> tree.Housed .comment id

end Tree

/-!
# The spans of the passes
-/

/-- A span that is to be a group of comments holds comments and blanks only; any other span
holds something else as well. -/
structure Span.Apart (span : Span) (tree : Tree) (list : NodeId) : Prop where
  plain : span.kind = .comment -> forall idx id, span.start <= idx -> idx <= span.stop ->
    tree.child? list idx = some id -> tree.isCode id = false
  code : span.kind ≠ .comment -> exists idx id, span.start <= idx ∧ idx <= span.stop ∧
    tree.child? list idx = some id ∧ tree.isCode id = true

theorem Span.Apart.of_code {span : Span} {tree : Tree} {list : NodeId} {idx : Nat} {id : NodeId}
    (hkind : span.kind ≠ .comment) (hstart : span.start <= idx) (hstop : idx <= span.stop)
    (hchild : tree.child? list idx = some id) (hcode : tree.isCode id = true) :
    span.Apart tree list :=
  ⟨fun h => absurd h hkind, fun _ => ⟨idx, id, hstart, hstop, hchild, hcode⟩⟩

def Pass.Sorts (pass : Pass) : Prop :=
  forall tree list cursor move span, cursor.Ordered -> pass.plan tree list cursor = some move ->
    move.span = some span -> span.Apart tree list

def Seeker.Sorts (seeker : Seeker) : Prop :=
  forall tree list idx id span next, tree.child? list idx = some id ->
    seeker.accepts tree id = true -> seeker.span? tree list idx id = some (span, next) ->
    span.Apart tree list

theorem Pass.sorts_of_seeker {pass : Pass} {seeker : Seeker} (hplan : pass.plan = seeker.plan)
    (h : seeker.Sorts) : pass.Sorts := by
  intro tree list cursor move span _ hmove hspan
  rw [hplan] at hmove
  rcases Seeker.plan_span hmove hspan with ⟨idx, id, next, hchild, haccepts, hfound⟩
  exact h tree list idx id span next hchild haccepts hfound

theorem Pass.sorts_binary {rule : BinaryRule} (hsound : rule.Sound) (hkind : rule.kind ≠ .comment)
    (hop : forall tree id, rule.isOp tree id = true -> tree.isCode id = true) :
    (Pass.binary rule).Sorts := by
  intro tree list cursor move span hcursor hmove hspan
  change rule.plan tree list cursor = some move at hmove
  rcases BinaryRule.does_of_plan hmove with ⟨id, hchild, hdoes⟩
  cases hdoes with
  | blank _ =>
      cases hspan
  | @group start stop _ hisOp hoperands =>
      cases hspan
      rcases BinaryRule.span?_accepts hoperands with ⟨prev, _, hprev, _, _, _, hfound⟩
      have hlt := hcursor.prev_lt prev hprev
      rcases hsound tree list prev cursor.idx start stop hlt (Tree.child?_lt hchild) hfound with
        ⟨rfl, hstop, _⟩
      exact .of_code hkind (Nat.le_of_lt hlt) hstop hchild (hop tree id hisOp)
  | past _ _ =>
      cases hspan

theorem Pass.sorts_pairs {kind : GroupKind} {opening closing : TokenPattern}
    (hopening : kind.opening? = some opening) (hclosing : kind.closing? = some closing)
    (hkind : kind ≠ .comment)
    (hmark : Category.trivia.elem closing.category = false) : (Pass.pairs kind).Sorts := by
  intro tree list cursor move span hcursor hmove hspan
  rcases pairs_move hopening hclosing hmove with ⟨id, hchild, hdoes⟩
  cases hdoes with
  | @shuts start opens _ hshuts hwaits =>
      cases hspan
      have hordered := hcursor.opens_lt
      rw [hwaits, List.pairwise_cons] at hordered
      exact .of_code hkind (Nat.le_of_lt (hordered.1 start List.mem_cons_self)) (Nat.le_refl _)
        hchild (Tree.isCode_of_hits (Bool.and_eq_true_iff.mp hshuts).2 hmark)
  | past _ _ _ => cases hspan
  | into _ _ => cases hspan
  | opens _ _ _ => cases hspan

namespace Seeker

theorem comment_sorts : comment.Sorts := by
  intro tree list idx id span next hchild haccepts hspan
  cases hspan
  refine ⟨?_, fun h => absurd rfl h⟩
  intro _ j other hstart hstop hother
  exact Tree.not_isCode_of_isTrivia (Tree.tokenHas_isTrivia_of_run
    (Pass.commentRunEnd_run haccepts hchild hstart hstop hother))

theorem call_sorts : call.Sorts := by
  intro tree list idx id span next hchild haccepts hspan
  have hcode := Tree.isCode_of_test (p := fun c => c.isA .name) haccepts rfl
  have hle := (call_sound tree list idx id span next hchild hspan).1
  rcases call_span hspan with ⟨_, _, _, _, rfl, rfl⟩
  exact .of_code nofun (Nat.le_refl _) hle hchild hcode

theorem whereWord_sorts : whereWord.Sorts := by
  intro tree list idx id span next hchild haccepts hspan
  have hle := (whereWord_sound tree list idx id span next hchild hspan).1
  cases hspan
  exact .of_code nofun (Nat.le_refl _) hle hchild (Tree.isCode_of_hits haccepts rfl)

theorem name_sorts : name.Sorts := by
  intro tree list idx id span next hchild _ hspan
  rcases name_span hspan with ⟨hname, rfl, rfl⟩
  refine .of_code nofun (Nat.le_refl _) (Nat.le_refl _) hchild ?_
  rcases Bool.or_eq_true_iff.mp hname with hname | hquoted
  · exact Tree.isCode_of_isCategory hname (by decide)
  · exact Tree.isCode_of_isCategory hquoted (by decide)

theorem isCode_of_typedLiteralEnd? {tree : Tree} {list : NodeId} {idx stop : Nat} {id : NodeId}
    (h : Pass.typedLiteralEnd? tree list idx id = some stop) : tree.isCode id = true := by
  unfold Pass.typedLiteralEnd? at h
  split at h
  · rename_i hword
    apply Tree.isCode_of_tokenHas hword
    intro token htrivia
    apply Bool.eq_false_iff.mpr
    intro hnames
    have hcategory := Token.isTrivia_cases htrivia
    have hnamed := Token.namesType_cases hnames
    revert hcategory hnamed
    cases token.category <;> decide
  · cases h

theorem typeWord_sorts : typeWord.Sorts := by
  intro tree list idx id span next hchild _ hspan
  have hle := (typeWord_sound tree list idx id span next hchild hspan).1
  rcases Option.map_eq_some_iff.mp hspan with ⟨stop, hstop, heq⟩
  cases heq
  exact .of_code nofun (Nat.le_refl _) hle hchild (isCode_of_typedLiteralEnd? hstop)

theorem ordering_sorts : ordering.Sorts := by
  intro tree list idx id span next hchild haccepts hspan
  have hcode := Tree.isCode_of_isCategory haccepts (by decide)
  rcases ordering_span hspan with ⟨prev, other, hprev, _, rfl, rfl⟩
  have hlt := (Tree.prev_some hprev).1
  exact .of_code nofun (Nat.le_of_lt hlt) (Nat.le_refl _) hchild hcode

theorem aliased_sorts : aliased.Sorts := by
  intro tree list idx id span next _ _ hspan
  rcases aliased_span hspan with ⟨place, other, hnext, hkind, rfl, rfl⟩
  rcases Tree.next_some hnext with ⟨hlt, hother, _⟩
  exact .of_code nofun (Nat.le_of_lt hlt) (Nat.le_refl _) hother
    (Tree.isCode_of_isKind hkind nofun)

theorem trailingComment_sorts : trailingComment.Sorts := by
  intro tree list idx id span next hchild haccepts hspan
  rcases trailingComment_span hspan with ⟨prev, host, kind, hprev, hhostKind, rfl, _⟩
  rcases Tree.prev_some hprev with ⟨hlt, hhost, _⟩
  have hkind := Pass.isKind_of_commentHost? hhostKind
  by_cases hcomment : kind = .comment
  · refine ⟨fun _ => ?_, fun h => absurd hcomment h⟩
    intro j other hstart hstop hother
    dsimp only at hstart hstop
    rcases Nat.eq_or_lt_of_le hstart with rfl | hafter
    · cases hhost.symm.trans hother
      exact Tree.not_isCode_of_isKind (hcomment ▸ hkind)
    · rcases Nat.eq_or_lt_of_le hstop with rfl | hbefore
      · cases hchild.symm.trans hother
        exact Tree.not_isCode_of_isKind haccepts
      · have hskipped := Tree.prev_between hprev hafter hbefore hother
        apply Tree.not_isCode_of_isTrivia
        apply Tree.tokenHas_isTrivia_of_run
        simpa [Tree.isSkipped] using Or.inr hskipped
  · exact .of_code hcomment (Nat.le_refl _) (Nat.le_of_lt hlt) hhost
      (Tree.isCode_of_isKind hkind hcomment)

end Seeker

theorem Pass.all_sorts : forall pass, pass ∈ Pass.all -> pass.Sorts := by
  intro pass hpass
  unfold Pass.all at hpass
  simp only [List.mem_cons, List.not_mem_nil, or_false] at hpass
  rcases hpass with rfl | rfl | rfl | rfl | rfl | rfl | rfl | rfl | rfl | rfl | rfl | rfl | rfl |
    rfl | rfl | rfl | rfl | rfl | rfl | rfl | rfl | rfl
  · exact sorts_of_seeker Seeker.comments_plan Seeker.comment_sorts
  · exact sorts_pairs rfl rfl nofun rfl
  · exact sorts_pairs rfl rfl nofun rfl
  · exact sorts_of_seeker Seeker.functions_plan Seeker.call_sorts
  · exact sorts_of_seeker Seeker.whereClauses_plan Seeker.whereWord_sorts
  · exact sorts_pairs rfl rfl nofun rfl
  · exact sorts_binary BinaryRule.period_sound nofun fun _ _ h => Tree.isCode_of_hits h rfl
  · exact sorts_binary BinaryRule.subscript_sound nofun fun _ _ h => Tree.isCode_of_isKind h nofun
  · exact sorts_of_seeker Seeker.identifiers_plan Seeker.name_sorts
  · exact sorts_of_seeker Seeker.typedLiterals_plan Seeker.typeWord_sorts
  · exact sorts_binary (BinaryRule.fromPrevToNext_sound rfl) nofun fun _ _ h => by
      rcases Bool.or_eq_true_iff.mp h with hop | hwild
      · exact Tree.isCode_of_isCategory hop (by decide)
      · exact Tree.isCode_of_isCategory hwild (by decide)
  · exact sorts_of_seeker Seeker.orderings_plan Seeker.ordering_sorts
  · exact sorts_binary BinaryRule.typecast_sound nofun fun _ _ h => Tree.isCode_of_hits h rfl
  · exact sorts_binary (BinaryRule.fromPrevToNext_sound rfl) nofun fun _ _ h =>
      Tree.isCode_of_test (p := Category.isKeyword) (Bool.and_eq_true_iff.mp h).1 rfl
  · exact sorts_of_seeker Seeker.aliases_plan Seeker.aliased_sorts
  · exact sorts_binary BinaryRule.assignment_sound nofun fun _ _ h => Tree.isCode_of_hits h rfl
  · exact sorts_binary (BinaryRule.fromPrevToNext_sound rfl) nofun fun _ _ h =>
      Tree.isCode_of_isCategory h (by decide)
  · exact sorts_of_seeker Seeker.trailingComments_plan Seeker.trailingComment_sorts
  · exact sorts_binary (BinaryRule.fromPrevToNext_sound rfl) nofun fun _ _ h =>
      Tree.isCode_of_hits h rfl
  · exact sorts_pairs rfl rfl nofun rfl
  · exact sorts_pairs rfl rfl nofun rfl
  · exact sorts_pairs rfl rfl nofun rfl

/-!
# One span
-/

section

variable {tree after : Tree} {list : NodeId} {cursor : Cursor} {move : Move} {span : Span}
  {front moved back : List NodeId} {group : NodeId}
  (hg : move.Gathers list tree span front moved back group after)
  (hfits : move.Fits tree list cursor) (hwf : tree.WellFormed) (hstep : tree.GroupStep after)
  (hapart : span.Apart tree list)
include hg hapart

omit hg in
theorem Tree.CommentsPlain.kind_eq (h : tree.CommentsPlain)
    (hlist : tree.isKind list .comment = true) : span.kind = .comment := by
  apply Classical.byContradiction
  intro hkind
  rcases hapart.code hkind with ⟨idx, id, _, _, hchild, hcode⟩
  rw [h list hlist id (List.mem_of_getElem? hchild)] at hcode
  cases hcode

include hfits hwf hstep

theorem Tree.CommentsPlain.gathers (h : tree.CommentsPlain) : after.CommentsPlain := by
  intro parent hparent id hmem
  rcases hg.mem_children_after hfits hstep hmem with hold | ⟨rfl, rfl⟩ | ⟨rfl, hmoved⟩
  · rw [Tree.isKind, Tree.kind?_of_steps (.single hstep) (Tree.lt_size_of_mem_children hold)]
      at hparent
    rw [Tree.isCode_of_steps (.single hstep) (hwf.child_lt_size hold)]
    exact h parent hparent id hold
  · rw [Tree.isKind, hg.kind?_list] at hparent
    apply Tree.not_isCode_of_isKind
    rw [Tree.isKind, hg.kind?_group, h.kind_eq hapart hparent]
    rfl
  · rw [Tree.isKind, hg.kind?_group] at hparent
    rcases hg.exists_of_mem_moved hmoved with ⟨idx, hstart, hstop, hchild⟩
    have hlt := hwf.child_lt_size (List.mem_of_getElem? hchild)
    rw [Tree.isCode_of_steps (.single hstep) hlt]
    exact hapart.plain (Option.some.inj (beq_iff_eq.mp hparent)) idx id hstart hstop hchild

theorem Tree.CommentsHoused.gathers (h : tree.CommentsHoused) : after.CommentsHoused := by
  refine ⟨h.plain.gathers hg hfits hwf hstep hapart, ?_⟩
  intro id hcomment
  have hsame : after.tokenHas id Token.isComment = tree.tokenHas id Token.isComment :=
    hstep.tokensKept.tokenHas_eq (fun _ _ hkept => hkept.test_eq (p := Category.isComment) rfl) id
  rw [hsame] at hcomment
  rcases Tree.tokenHas_iff.mp hcomment with ⟨token, htoken, _⟩
  exact hg.housed hfits hwf hstep (Tree.isGroup_of_token? htoken) (h.housed id hcomment)
    fun hlist _ => h.plain.kind_eq hapart hlist

end

/-!
# Runs
-/

theorem Pass.all_visit_groups : forall pass, pass ∈ Pass.all ->
    forall tree list cursor move id, pass.plan tree list cursor = some move ->
      move.visit = some id -> tree.isGroup id = true := by
  have hstays : forall {pass : Pass}, pass.Stays ->
      forall tree list cursor move id, pass.plan tree list cursor = some move ->
        move.visit = some id -> tree.isGroup id = true := by
    intro pass h tree list cursor move id hmove hvisit
    rw [h tree list cursor move hmove] at hvisit
    cases hvisit
  have hpairs : forall {kind : GroupKind} tree list cursor move id,
      (Pass.pairs kind).plan tree list cursor = some move ->
        move.visit = some id -> tree.isGroup id = true := by
    intro kind tree list cursor move id hmove hvisit
    rcases pairDoes_of_plan hmove with ⟨_, _, other, _, _, _, hdoes⟩
    cases hdoes with
    | into hgroup _ =>
        cases hvisit
        exact hgroup
    | past _ _ _ => cases hvisit
    | opens _ _ _ => cases hvisit
    | shuts _ _ _ => cases hvisit
  intro pass hpass
  unfold Pass.all at hpass
  simp only [List.mem_cons, List.not_mem_nil, or_false] at hpass
  rcases hpass with rfl | rfl | rfl | rfl | rfl | rfl | rfl | rfl | rfl | rfl | rfl | rfl | rfl |
    rfl | rfl | rfl | rfl | rfl | rfl | rfl | rfl | rfl
  · exact hstays (stays_of_seeker Seeker.comments_plan)
  · exact hpairs
  · exact hpairs
  · exact hstays (stays_of_seeker Seeker.functions_plan)
  · exact hstays (stays_of_seeker Seeker.whereClauses_plan)
  · exact hpairs
  · exact hstays (stays_binary _)
  · exact hstays (stays_binary _)
  · exact hstays (stays_of_seeker Seeker.identifiers_plan)
  · exact hstays (stays_of_seeker Seeker.typedLiterals_plan)
  · exact hstays (stays_binary _)
  · exact hstays (stays_of_seeker Seeker.orderings_plan)
  · exact hstays (stays_binary _)
  · exact hstays (stays_binary _)
  · exact hstays (stays_of_seeker Seeker.aliases_plan)
  · exact hstays (stays_binary _)
  · exact hstays (stays_binary _)
  · exact hstays (stays_of_seeker Seeker.trailingComments_plan)
  · exact hstays (stays_binary _)
  · exact hpairs
  · exact hpairs
  · exact hpairs

/-- A property that every span of a pass keeps, wherever it is planned. -/
theorem Pass.keeps_of_spans {pass : Pass} (hpass : pass ∈ Pass.all) {holds : Tree -> Prop}
    (h : forall tree after list cursor move span front moved back group, tree.WellFormed ->
      cursor.Ordered -> holds tree -> pass.plan tree list cursor = some move ->
      move.Fits tree list cursor -> tree.GroupStep after ->
      move.Gathers list tree span front moved back group after -> holds after) :
    pass.Keeps holds (fun _ => True) (fun _ _ _ => True) where
  enters := fun _ _ _ _ _ => trivial
  start := fun _ _ => trivial
  skip := fun _ _ _ _ _ _ _ _ => trivial
  visit := by
    intro tree list cursor move id _ hmove hvisit
    rcases Tree.isGroup_iff_kind?.mp (all_visit_groups pass hpass tree list cursor move id hmove
      hvisit) with ⟨kind, hkind⟩
    exact ⟨⟨kind, hkind, trivial⟩, fun _ _ _ => trivial⟩
  span := by
    intro tree after list host cursor move span hwf hcursor hholds _ _ _ hmove hspan hgroups
    have hsound := all_sound pass hpass
    have hfits := hsound tree list cursor move hcursor hmove
    rcases hgroups.gathers hwf hfits with ⟨found, front, moved, back, group, hg⟩
    exact ⟨h tree after list cursor move found front moved back group hwf hcursor hholds hmove
      hfits (groupStep_of_groups hsound hwf hcursor hmove hgroups) hg, trivial⟩

theorem Pass.keeps_of_seeker {pass : Pass} {seeker : Seeker} (hpass : pass ∈ Pass.all)
    (hplan : pass.plan = seeker.plan) {holds : Tree -> Prop}
    (h : forall {tree after : Tree} {list : NodeId} {cursor : Cursor} {move : Move} {idx next : Nat}
      {id group : NodeId} {span : Span} {front moved back : List NodeId}, tree.WellFormed ->
      holds tree -> tree.child? list idx = some id -> seeker.accepts tree id = true ->
      seeker.span? tree list idx id = some (span, next) -> move.Fits tree list cursor ->
      tree.GroupStep after -> move.Gathers list tree span front moved back group after ->
      holds after) :
    pass.Keeps holds (fun _ => True) (fun _ _ _ => True) := by
  apply keeps_of_spans hpass
  intro tree after list cursor move span front moved back group hwf _ hholds hmove hfits hstep hg
  rw [hplan] at hmove
  rcases Seeker.plan_span hmove hg.span_eq with ⟨idx, id, next, hchild, haccepts, hfound⟩
  exact h hwf hholds hchild haccepts hfound hfits hstep hg

theorem Pass.keeps_commentsPlain {pass : Pass} (hpass : pass ∈ Pass.all) :
    pass.Keeps Tree.CommentsPlain (fun _ => True) (fun _ _ _ => True) := by
  apply keeps_of_spans hpass
  intro tree after list cursor move span front moved back group hwf hcursor hplain hmove hfits
    hstep hg
  exact hplain.gathers hg hfits hwf hstep
    (all_sorts pass hpass tree list cursor move span hcursor hmove hg.span_eq)

theorem Pass.keeps_commentsHoused {pass : Pass} (hpass : pass ∈ Pass.all) :
    pass.Keeps Tree.CommentsHoused (fun _ => True) (fun _ _ _ => True) := by
  apply keeps_of_spans hpass
  intro tree after list cursor move span front moved back group hwf hcursor hhoused hmove hfits
    hstep hg
  exact hhoused.gathers hg hfits hwf hstep
    (all_sorts pass hpass tree list cursor move span hcursor hmove hg.span_eq)

/-!
# The passes that house comments and names
-/

namespace Seeker

theorem comment_collects : comment.Collects .comment Token.isComment where
  kept := fun _ _ hkept => hkept.test_eq (p := Category.isComment) rfl
  refuses := fun _ _ h => h
  leaves := by
    intro tree list idx id _ hspan
    cases hspan
  takes := by
    intro tree list idx id span next hspan
    cases hspan
    exact ⟨rfl, rfl, rfl, rfl⟩

end Seeker

/-- A name, quoted or not, but no word of the language. -/
def Token.names (token : Token) : Bool :=
  token.category == .name || token.category == .doubleQuoted

theorem Tree.tokenHas_names (tree : Tree) (id : NodeId) :
    tree.tokenHas id Token.names =
      (tree.isCategory id .name || tree.isCategory id .doubleQuoted) := by
  unfold tokenHas isCategory category?
  cases tree.token? id with
  | none =>
      rfl
  | some token =>
      rfl

theorem Seeker.name_collects : name.Collects .identifier Token.names where
  kept := fun _ _ hkept => hkept.test_eq (p := fun c => c == .name || c == .doubleQuoted) rfl
  refuses := by
    intro tree id h
    cases h
  leaves := by
    intro tree list idx id _ hspan
    unfold name at hspan
    dsimp only at hspan
    split at hspan
    · cases hspan
    · rename_i hnot
      rw [Tree.tokenHas_names]
      exact Bool.eq_false_iff.mpr hnot
  takes := by
    intro tree list idx id span next hspan
    rcases name_span hspan with ⟨_, rfl, rfl⟩
    exact ⟨rfl, rfl, rfl, rfl⟩

namespace Survey

theorem comments_makes : (ofSeeker .comments (some .comment) .comment).Makes .comment :=
  makes_ofSeeker Seeker.comments_plan Seeker.comment_ofKind
    (regular_ofSeeker Seeker.comments_plan (fun _ _ => rfl) (fun _ _ => rfl)
      (List.mem_of_getElem? (i := 0) rfl))

theorem identifiers_makes : (ofSeeker .identifiers (some .identifier) .name).Makes .identifier :=
  makes_ofSeeker Seeker.identifiers_plan Seeker.name_ofKind
    (regular_ofSeeker Seeker.identifiers_plan (fun _ _ => rfl) (fun _ _ => rfl)
      (List.mem_of_getElem? (i := 8) rfl))

end Survey

namespace Statement

variable {tokens : List Token} {limit : Nat} {after : Tree}

theorem steps_of_forM {passes : List Pass} (hpasses : passes ⊆ Pass.all) {root : NodeId}
    {tree : Tree} (hwf : tree.WellFormed)
    (h : exec (passes.forM fun pass => pass.run limit limit root) tree = (.ok (), after)) :
    Relation.ReflTransGen Tree.GroupStep tree after := by
  have hsafe : Safe Tree.GroupStep limit tree
      (exec (passes.forM fun pass => pass.run limit limit root) tree) := by
    apply forM_safe Tree.groupStep_keepsWellFormed _ hwf
    intro pass hpass tree htree
    have hsound := Pass.all_sound pass (hpasses hpass)
    exact Pass.run_safe hsound (Pass.takes_groupStep hsound) Tree.groupStep_keepsWellFormed limit
      root htree
  rw [h] at hsafe
  exact hsafe.steps

/-- The turn of one pass when all passes run on a flat statement: the trees that it finds
and leaves. -/
structure Turn (tokens : List Token) (limit place : Nat) (pass : Pass) (before later last : Tree) :
    Prop where
  front : exec ((Pass.all.take place).forM fun pass => pass.run limit limit (ofTokens tokens).root)
    (ofTokens tokens).tree = (.ok (), before)
  run : exec (pass.run limit limit (ofTokens tokens).root) before = (.ok (), later)
  back : exec ((Pass.all.drop (place + 1)).forM fun pass =>
    pass.run limit limit (ofTokens tokens).root) later = (.ok (), last)
  front_steps : Relation.ReflTransGen Tree.GroupStep (ofTokens tokens).tree before
  steps : Relation.ReflTransGen Tree.GroupStep before later
  back_steps : Relation.ReflTransGen Tree.GroupStep later last
  before_wellFormed : before.WellFormed
  later_wellFormed : later.WellFormed

namespace Turn

variable {place : Nat} {pass : Pass} {before later last : Tree}
  (h : Turn tokens limit place pass before later last)
include h

theorem before_root : before.kind? (ofTokens tokens).root = some .statement :=
  (Tree.kind?_of_steps h.front_steps (root_lt_size tokens)).trans (kind?_root_ofTokens tokens)

theorem later_root : later.kind? (ofTokens tokens).root = some .statement :=
  (Tree.kind?_of_steps (h.front_steps.trans h.steps) (root_lt_size tokens)).trans
    (kind?_root_ofTokens tokens)

end Turn

theorem exists_turn (place : Nat) {pass : Pass} {s : Statement}
    (hplace : Pass.all = Pass.all.take place ++ pass :: Pass.all.drop (place + 1))
    (h : (ofTokens tokens).group limit = .ok s) :
    exists before later, Turn tokens limit place pass before later s.tree := by
  rcases group_ok_iff_exec.mp h with ⟨hexec, _⟩
  have hwf := wellFormed_ofTokens tokens
  rw [hplace, exec_forM_append] at hexec
  rcases exec_bind_eq_ok hexec with ⟨before, hbefore, hrest⟩
  rcases exec_bind_eq_ok hrest with ⟨later, hrun, hback⟩
  have hmem : pass ∈ Pass.all := by
    rw [hplace]
    simp
  have hfront := steps_of_forM (List.take_subset place _) hwf hbefore
  have hbeforeWf := Tree.groupStep_keepsWellFormed.run hwf hfront
  have hsteps := (Pass.changesWithin_of_run (Pass.all_sound pass hmem)
    (Pass.all_tagsChildren pass hmem) hbeforeWf hrun).steps
  have hlaterWf := Tree.groupStep_keepsWellFormed.run hbeforeWf hsteps
  exact ⟨before, later, hbefore, hrun, hback, hfront, hsteps,
    steps_of_forM (List.drop_subset (place + 1) _) hlaterWf hback, hbeforeWf, hlaterWf⟩

theorem above_ofTokens {id : NodeId} {token : Token}
    (h : (ofTokens tokens).tree.token? id = some token) :
    (ofTokens tokens).tree.Above (ofTokens tokens).root id := by
  rw [token?_ofTokens] at h
  apply Tree.above_of_parent?
  rw [parent?_ofTokens, if_pos (List.getElem?_eq_some_iff.mp h).1, root_ofTokens]

theorem commentsHoused_of_run
    (h : exec (Pass.comments.run limit limit (ofTokens tokens).root) (ofTokens tokens).tree =
      (.ok (), after)) : after.CommentsHoused := by
  have hwf := wellFormed_ofTokens tokens
  have hsteps := (Survey.comments_makes.changesWithin_of_run hwf h).steps
  have hmem : Pass.comments ∈ Pass.all := List.mem_of_getElem? (i := 0) rfl
  have hplain : (ofTokens tokens).tree.CommentsPlain := by
    intro group hgroup
    rw [isKind_ofTokens tokens group (by decide)] at hgroup
    cases hgroup
  refine ⟨(Pass.keeps_commentsPlain hmem).run (Pass.all_sound _ hmem) (Pass.all_tagsChildren _ hmem)
    hwf (kind?_root_ofTokens tokens) trivial hplain h, ?_⟩
  intro id hcomment
  have hsame := (Tree.tokensKept_of_steps hsteps).tokenHas_eq Seeker.comment_collects.kept id
  rw [hsame] at hcomment
  rcases Tree.tokenHas_iff.mp hcomment with ⟨token, htoken, _⟩
  rcases Survey.housed_of_run Seeker.comments_plan Seeker.comment_collects Survey.comments_makes hwf
    h (above_ofTokens htoken) hcomment with hhoused | ⟨group, hgroup, _⟩
  · exact hhoused
  · rw [isKind_ofTokens tokens group (by decide)] at hgroup
    cases hgroup

theorem commentsHoused_of_group {s : Statement} (h : (ofTokens tokens).group limit = .ok s) :
    s.tree.CommentsHoused := by
  rcases group_ok_iff_exec.mp h with ⟨hexec, _⟩
  rcases exec_bind_eq_ok hexec with ⟨middle, hfirst, hrest⟩
  have hwf := wellFormed_ofTokens tokens
  have hsteps := (Survey.comments_makes.changesWithin_of_run hwf hfirst).steps
  refine Pass.holds_of_forM ?_ (Tree.groupStep_keepsWellFormed.run hwf hsteps)
    ((Tree.kind?_of_steps hsteps (root_lt_size tokens)).trans (kind?_root_ofTokens tokens))
    (commentsHoused_of_run hfirst) hrest
  intro pass hpass
  have hmem : pass ∈ Pass.all := List.mem_cons_of_mem _ hpass
  exact ⟨Pass.all_sound pass hmem, Pass.all_tagsChildren pass hmem, _, _,
    Pass.keeps_commentsHoused hmem, trivial⟩

theorem names_of_group {s : Statement} (h : (ofTokens tokens).group limit = .ok s) {id : NodeId}
    (hid : s.tree.tokenHas id Token.names = true) :
    exists group, s.tree.isKind group .identifier = true ∧ s.tree.Above group id := by
  rcases group_ok_iff_exec.mp h with ⟨hexec, _⟩
  have hwf := wellFormed_ofTokens tokens
  -- The passes before the one for names, that one, and the passes behind it.
  rw [show Pass.all = Pass.all.take 8 ++ .identifiers :: Pass.all.drop 9 from rfl,
    exec_forM_append] at hexec
  rcases exec_bind_eq_ok hexec with ⟨before, hbefore, hrest⟩
  rcases exec_bind_eq_ok hrest with ⟨later, hrun, hback⟩
  have hfront := steps_of_forM (List.take_subset 8 _) hwf hbefore
  have hbeforeWf := Tree.groupStep_keepsWellFormed.run hwf hfront
  have hmiddle := (Survey.identifiers_makes.changesWithin_of_run hbeforeWf hrun).steps
  have hlaterWf := Tree.groupStep_keepsWellFormed.run hbeforeWf hmiddle
  have hlast := steps_of_forM (List.drop_subset 9 _) hlaterWf hback
  have hkept := Seeker.name_collects.kept
  have hflat := (Tree.tokensKept_of_steps (hfront.trans (hmiddle.trans hlast))).tokenHas_eq hkept id
  have hnow := (Tree.tokensKept_of_steps hfront).tokenHas_eq hkept id
  rw [hflat] at hid
  rcases Tree.tokenHas_iff.mp hid with ⟨token, htoken, _⟩
  have hbelow := Tree.above_of_steps hwf hfront (above_ofTokens htoken)
  -- The group above the name is there after the run, and it stays.
  have hstays : forall group, before.isKind group .identifier = true ∨
      later.isKind group .identifier = true -> s.tree.isKind group .identifier = true := by
    intro group hgroup
    unfold Tree.isKind at hgroup ⊢
    rcases hgroup with hkind | hkind
    · rw [Tree.kind?_of_steps (hmiddle.trans hlast)
        (Tree.lt_size_of_isGroup (Tree.isGroup_iff_kind?.mpr ⟨_, beq_iff_eq.mp hkind⟩))]
      exact hkind
    · rw [Tree.kind?_of_steps hlast
        (Tree.lt_size_of_isGroup (Tree.isGroup_iff_kind?.mpr ⟨_, beq_iff_eq.mp hkind⟩))]
      exact hkind
  rcases Survey.housed_of_run Seeker.identifiers_plan Seeker.name_collects Survey.identifiers_makes
    hbeforeWf hrun hbelow (hnow.trans hid) with ⟨group, hgroup, hmem⟩ | ⟨group, hgroup, habove⟩
  · exact ⟨group, hstays group (Or.inr hgroup), Tree.above_of_steps hlaterWf hlast
      (Tree.above_of_parent? (hlaterWf.parent?_of_mem hmem))⟩
  · exact ⟨group, hstays group (Or.inl hgroup),
      Tree.above_of_steps hbeforeWf (hmiddle.trans hlast) habove⟩

end Statement

/-- In a grouped statement each name is below an identifier, each comment is a child of a
group of comments, and the groups of comments hold comments and blanks only. -/
theorem names_and_comments_housed {tokens : List Token} {limit : Nat} {s : Statement}
    (h : (Statement.ofTokens tokens).group limit = .ok s) :
    (forall leaf, leaf ∈ s.tree.leaves s.root ->
        s.tree.isCategory leaf .name = true ∨ s.tree.isCategory leaf .doubleQuoted = true ->
        exists group, s.tree.isKind group .identifier = true ∧ s.tree.Above group leaf) ∧
      (forall leaf, leaf ∈ s.tree.leaves s.root -> s.tree.isA leaf .comment = true ->
        exists group, s.tree.parent? leaf = some group ∧ s.tree.isKind group .comment = true) ∧
      forall group, s.tree.isKind group .comment = true ->
        forall leaf, leaf ∈ s.tree.leaves group -> s.tree.tokenHas leaf Token.isTrivia = true := by
  refine ⟨?_, ?_, ?_⟩
  · intro leaf _ hname
    apply Statement.names_of_group h
    rw [Tree.tokenHas_names, Bool.or_eq_true]
    exact hname
  · intro leaf _ hcomment
    have hwf := (Statement.wellFormed_of_group h).1
    rcases (Statement.commentsHoused_of_group h).housed leaf hcomment with ⟨group, hgroup, hmem⟩
    exact ⟨group, hwf.parent?_of_mem hmem, hgroup⟩
  · intro group hgroup
    exact (Statement.commentsApart_of_group h group hgroup).2

/-- A name and a quoted name with a comment after the first: the names are in identifiers,
and the comment is in a group of its own inside the first one. -/
theorem names_and_comments_housed_alias :
    exists s, (Statement.ofTokens [⟨.name, ['a'], some 0⟩, ⟨.blockComment, Text.of "/*b*/", some 1⟩,
        ⟨.doubleQuoted, Text.of "\"c\"", some 6⟩]).group 4 = .ok s ∧
      (forall leaf, leaf ∈ [0, 2] ->
        exists group, s.tree.isKind group .identifier = true ∧ s.tree.Above group leaf) ∧
      exists group, s.tree.parent? 1 = some group ∧ s.tree.isKind group .comment = true := by
  have hrun : ((Statement.ofTokens [⟨.name, ['a'], some 0⟩,
      ⟨.blockComment, Text.of "/*b*/", some 1⟩,
      ⟨.doubleQuoted, Text.of "\"c\"", some 6⟩]).group 4).toOption.any
        (fun s => decide (s.tree.leaves s.root = [0, 1, 2]) && s.tree.isCategory 0 .name &&
          s.tree.isCategory 2 .doubleQuoted && s.tree.isA 1 .comment) = true := by
    decide +kernel
  rcases Statement.exists_of_group hrun with ⟨s, hgroup, hp⟩
  simp only [Bool.and_eq_true, decide_eq_true_eq] at hp
  rcases hp with ⟨⟨⟨hleaves, hname⟩, hquoted⟩, hcomment⟩
  rcases names_and_comments_housed hgroup with ⟨hnames, hcomments, _⟩
  rw [hleaves] at hnames hcomments
  refine ⟨s, hgroup, ?_, hcomments 1 (by decide) hcomment⟩
  intro leaf hleaf
  simp only [List.mem_cons, List.not_mem_nil, or_false] at hleaf
  rcases hleaf with rfl | rfl
  · exact hnames 0 (by decide) (Or.inl hname)
  · exact hnames 2 (by decide) (Or.inr hquoted)

end SqlLayout
