import SqlLayout.Proofs.Grouping.Faces
import SqlLayout.Proofs.Grouping.FlatStatements
import SqlLayout.Proofs.Grouping.LeadingKeyword

/-!
# Heads that stay

The first children of a statement are left as they are by every pass that finds nothing to
start a group with among them.  Such a head ends with a keyword that no group begins with,
so that an operator behind it takes nothing of it either.
-/

namespace SqlLayout

open Grouping

/-!
# Calm faces
-/

def TokenPattern.sparesCalm (p : TokenPattern) : Bool :=
  !([Category.whitespace, .cte, .name, .dml].elem p.category) &&
    (p.category != .keyword ||
      !p.values.isEmpty && p.values.all fun v => !(Text.of "AS").sameIgnoringCase v)

namespace Token

variable {t : Token}

/-- A token that most passes go past. -/
structure IsCalm (t : Token) : Prop where
  category : t.category ∈ [Category.whitespace, .cte, .name, .dml] ∨
    t.category = .keyword ∧ t.normalized = Text.of "AS"
  not_isTypeWord : forall word, word ∈ Pass.literalTypes -> Pass.isTypeWord word t = false

theorem IsCalm.category_test (h : t.IsCalm) {p : Category -> Bool}
    (hp : [Category.whitespace, .cte, .name, .dml, .keyword].any p = false) :
    p t.category = false := by
  have hmem : t.category ∈ [Category.whitespace, .cte, .name, .dml, .keyword] := by
    rcases h.category with hmem | ⟨heq, _⟩
    · exact List.mem_append_left [Category.keyword] hmem
    · rw [heq]
      exact List.mem_append_right [Category.whitespace, .cte, .name, .dml] List.mem_cons_self
  simpa using List.any_eq_false.mp hp t.category hmem

theorem IsCalm.hits_eq_false (h : t.IsCalm) {p : TokenPattern} (hp : p.sparesCalm = true) :
    t.hits p = false := by
  rcases Bool.and_eq_true_iff.mp hp with ⟨hother, hwords⟩
  rcases h.category with hmem | ⟨hkeyword, has⟩
  · apply Token.hits_eq_false_of_ne
    intro heq
    rw [← heq, List.elem_iff.mpr hmem] at hother
    cases hother
  · by_cases hcategory : p.category = .keyword
    · rw [hcategory, bne_self_eq_false, Bool.false_or, Bool.and_eq_true] at hwords
      have hisKeyword : t.isKeyword = true := by
        unfold isKeyword
        rw [hkeyword]
        rfl
      have hnone : p.values.any (Text.sameIgnoringCase (Text.of "AS")) = false := by
        apply List.any_eq_false.mpr
        intro v hv
        simpa using List.all_eq_true.mp hwords.2 v hv
      unfold hits
      rw [if_pos hisKeyword, has, hnone, Bool.or_false, Bool.not_eq_true' _ |>.mp hwords.1,
        Bool.and_false]
    · apply Token.hits_eq_false_of_ne
      rw [hkeyword]
      exact Ne.symm hcategory

end Token

def Face.IsCalm : Face -> Prop
  | .token t => t.IsCalm
  | .group kind => kind ∈ [GroupKind.comment, .parenthesis, .identifier]

namespace Tree

variable {tree : Tree} {id : NodeId}

theorem not_isCalm_of_isKind {kind : GroupKind} (h : tree.isKind id kind = true)
    (hkind : kind ∉ [GroupKind.comment, .parenthesis, .identifier]) : ¬ (tree.face id).IsCalm := by
  rw [face_of_kind? (beq_iff_eq.mp h)]
  exact hkind

theorem not_isCalm_of_tokenHas {p : Token -> Bool} (h : tree.tokenHas id p = true)
    (hp : forall t : Token, t.IsCalm -> p t = false) : ¬ (tree.face id).IsCalm := by
  rcases tokenHas_iff.mp h with ⟨t, htoken, ht⟩
  rw [face_of_token? htoken]
  intro hcalm
  rw [hp t hcalm] at ht
  cases ht

theorem not_isCalm_of_hits {p : TokenPattern} (h : tree.hits id p = true)
    (hp : p.sparesCalm = true) : ¬ (tree.face id).IsCalm :=
  not_isCalm_of_tokenHas h fun _ hcalm => hcalm.hits_eq_false hp

theorem not_isCalm_of_isCategory {category : Category} (h : tree.isCategory id category = true)
    (hcategory : category ∉ [Category.whitespace, .cte, .name, .dml, .keyword]) :
    ¬ (tree.face id).IsCalm := by
  rw [isCategory_eq_tokenHas] at h
  apply not_isCalm_of_tokenHas h
  intro t hcalm
  exact hcalm.category_test (p := fun c => c == category) (Category.any_beq_eq_false hcategory)

end Tree

/-!
# Heads
-/

/-- A head that most passes go past, with a keyword at its end. -/
structure Face.CalmHead (head : List Face) : Prop where
  calm : forall face, face ∈ head -> face.IsCalm
  keyword : exists front key, head = front ++ [.token key] ∧ key.Leading

def Tree.Headed (root : NodeId) (head : List Face) (tree : Tree) : Prop :=
  tree.parent? root = none ∧ head <+: tree.faces root

theorem Token.IsCalm.category_ne {t : Token} (h : t.IsCalm) : t.category ≠ .wildcard := by
  have htest := h.category_test (p := fun c => c == .wildcard) rfl
  exact beq_eq_false_iff_ne.mp htest

namespace Tree

variable {tree after : Tree} {root id : NodeId} {head : List Face}

theorem face_of_steps (hsteps : Relation.ReflTransGen GroupStep tree after) (hid : id < tree.size)
    (h : (tree.face id).IsCalm) : after.face id = tree.face id := by
  apply face_congr (kind?_of_steps hsteps hid)
  cases htoken : tree.token? id with
  | none =>
      rcases isGroup_or_token? hid with hgroup | ⟨t, ht⟩
      · exact token?_eq_none_of_isGroup (isGroup_of_steps hsteps hgroup)
      · rw [htoken] at ht
        cases ht
  | some t =>
      rw [face_of_token? htoken] at h
      have hcalm : t.IsCalm := h
      have hrel := tokensKept_of_steps hsteps id
      rw [htoken] at hrel
      cases hafter : after.token? id with
      | none =>
          rw [hafter] at hrel
          cases hrel
      | some later =>
          rw [hafter] at hrel
          cases hrel with
          | some hkept =>
              rw [hkept.eq_or.resolve_right fun hwild => hcalm.category_ne hwild.1]

namespace Headed

variable (h : tree.Headed root head) (hhead : Face.CalmHead head)
include h hhead

theorem isGroup : tree.isGroup root = true := by
  rcases h with ⟨_, rest, hfaces⟩
  rcases hhead.keyword with ⟨front, key, rfl, _⟩
  rw [List.append_assoc] at hfaces
  rcases exists_child_of_cut hfaces.symm with ⟨id, hchild, _⟩
  exact isGroup_of_mem_children (List.mem_of_getElem? hchild)

theorem of_children (hwf : tree.WellFormed) (hsteps : Relation.ReflTransGen GroupStep tree after)
    (hchildren : forall idx, idx < head.length -> after.child? root idx = tree.child? root idx) :
    after.Headed root head := by
  have hroot := lt_size_of_isGroup (h.isGroup hhead)
  rcases h with ⟨hparent, rest, hfaces⟩
  refine ⟨(root_of_steps hwf hsteps hroot hparent).2.1, ?_⟩
  have htake : (after.faces root).take head.length = head := by
    apply List.ext_getElem?
    intro idx
    rw [List.getElem?_take]
    split
    · rename_i hidx
      have hold : (tree.faces root)[idx]? = head[idx]? := by
        rw [← hfaces, List.getElem?_append_left hidx]
      rw [← hold, getElem?_faces, getElem?_faces, hchildren idx hidx]
      cases hchild : tree.child? root idx with
      | none =>
          rfl
      | some id =>
          have hcalm := hhead.calm _ (face_mem_of_lt hfaces.symm hchild hidx)
          rw [Option.map_some, Option.map_some, face_of_steps hsteps
            (hwf.child_lt_size (List.mem_of_getElem? hchild)) hcalm]
    · rename_i hidx
      rw [List.getElem?_eq_none (Nat.le_of_not_lt hidx)]
  exact htake ▸ List.take_prefix head.length (after.faces root)

end Headed
end Tree

namespace Move.Gathers

open Tree

variable {tree after : Tree} {list root : NodeId} {cursor : Cursor} {move : Move} {span : Span}
  {front moved back : List NodeId} {group : NodeId} {head : List Face}
  (hg : move.Gathers list tree span front moved back group after)
include hg

theorem headed (hfits : move.Fits tree list cursor) (hwf : tree.WellFormed)
    (hstep : tree.GroupStep after) (hhead : Face.CalmHead head)
    (hspan : list = root -> head.length <= span.start) (h : tree.Headed root head) :
    after.Headed root head := by
  have hgroup := h.isGroup hhead
  refine h.of_children hhead hwf (.single hstep) fun idx hidx => ?_
  by_cases hlist : list = root
  · subst hlist
    exact hg.child?_front (Nat.lt_of_lt_of_le hidx (hspan rfl))
  · have hcontent := hg.content?_root hfits hwf hgroup h.1 (Ne.symm hlist)
    unfold child?
    rw [(observers_congr hcontent).2.2]

end Move.Gathers

/-!
# Passes that look for a child
-/

namespace Seeker

variable {seeker : Seeker} {head : List Face}

def SparesHead (seeker : Seeker) (head : List Face) : Prop :=
  forall tree list idx id span next rest, tree.child? list idx = some id ->
    seeker.accepts tree id = true -> seeker.span? tree list idx id = some (span, next) ->
    head ++ rest = tree.faces list -> head.length <= span.start

theorem sparesHead_of_start (hhead : Face.CalmHead head)
    (h : forall tree list idx id span next, tree.child? list idx = some id ->
      seeker.accepts tree id = true -> seeker.span? tree list idx id = some (span, next) ->
      span.start = idx ∧ ¬ (tree.face id).IsCalm) : seeker.SparesHead head := by
  intro tree list idx id span next rest hchild haccepts hspan hfaces
  rcases h tree list idx id span next hchild haccepts hspan with ⟨hstart, hnot⟩
  rw [hstart]
  apply Nat.le_of_not_lt
  intro hlt
  exact hnot (hhead.calm _ (Tree.face_mem_of_lt hfaces.symm hchild hlt))

theorem whereWord_sparesHead (hhead : Face.CalmHead head) : whereWord.SparesHead head := by
  apply sparesHead_of_start hhead
  intro tree list idx id span next _ haccepts hspan
  cases hspan
  exact ⟨rfl, Tree.not_isCalm_of_hits haccepts (by decide)⟩

theorem typeWord_sparesHead (hhead : Face.CalmHead head) : typeWord.SparesHead head := by
  apply sparesHead_of_start hhead
  intro tree list idx id span next _ _ hspan
  rcases Option.map_eq_some_iff.mp hspan with ⟨stop, hstop, heq⟩
  cases heq
  refine ⟨rfl, ?_⟩
  unfold Pass.typedLiteralEnd? at hstop
  split at hstop
  · rename_i htype
    apply Tree.not_isCalm_of_tokenHas htype
    intro t hcalm
    apply List.any_eq_false.mpr
    intro word hword
    exact Bool.eq_false_iff.mp (hcalm.not_isTypeWord word hword)
  · cases hstop

end Seeker

/-- What counts and stands in front of a place behind a head stands behind the head, if it
is not the keyword at its end. -/
theorem Face.CalmHead.le_of_blanks {head rest : List Face} (hhead : CalmHead head) {tree : Tree}
    {list id : NodeId} (hfaces : head ++ rest = tree.faces list) {start idx : Nat}
    (hidx : head.length <= idx) (hstart : tree.child? list start = some id)
    (hblanks : forall j other, start < j -> j < idx -> tree.child? list j = some other ->
      tree.isWhitespace other = true)
    (hid : forall token, tree.token? id = some token -> ¬ token.Leading) :
    head.length <= start := by
  rcases hhead.keyword with ⟨front, key, rfl, hkey⟩
  rw [List.length_append, List.length_singleton] at hidx ⊢
  rw [List.append_assoc, List.singleton_append] at hfaces
  rcases Tree.exists_child_of_cut hfaces.symm with ⟨other, hother, hface⟩
  have htoken := Tree.token?_of_face hface
  apply Nat.le_of_not_lt
  intro hlt
  rcases Nat.lt_or_eq_of_le (Nat.le_of_lt_succ hlt) with hbefore | rfl
  · have hblank := hblanks front.length other hbefore hidx hother
    rw [Tree.not_isWhitespace_of_isCode (Tree.isCode_of_leading htoken hkey)] at hblank
    cases hblank
  · cases hstart.symm.trans hother
    exact hid key htoken hkey

theorem Seeker.ordering_sparesHead {head : List Face} (hhead : Face.CalmHead head) :
    ordering.SparesHead head := by
  intro tree list idx id span next rest hchild haccepts hspan hfaces
  have hidx : head.length <= idx := by
    apply Nat.le_of_not_lt
    intro hlt
    exact Tree.not_isCalm_of_isCategory haccepts (by decide)
      (hhead.calm _ (Tree.face_mem_of_lt hfaces.symm hchild hlt))
  rcases ordering_span hspan with ⟨prev, other, hprev, hhost, rfl, rfl⟩
  refine hhead.le_of_blanks hfaces hidx (Tree.prev_some hprev).2.1 ?_ ?_
  · intro j below hlt hj hbelow
    have hskipped := Tree.prev_between hprev hlt hj hbelow
    simpa [Tree.isSkipped] using hskipped
  · intro token htoken
    rcases Bool.or_eq_true_iff.mp hhost with hkind | hnumber
    · exact Tree.not_leading_of_kind? (beq_iff_eq.mp hkind) htoken
    · exact Tree.not_leading_of_test (p := fun c => c.isA .number) hnumber rfl htoken

theorem Seeker.sparesHead_of_lone {seeker : Seeker} {left right : List Face} {lone : Face}
    (hstart : forall tree list idx id span next,
      seeker.span? tree list idx id = some (span, next) -> span.start = idx)
    (hothers : forall tree id, seeker.accepts tree id = true -> tree.face id ∉ left ++ right)
    (hlone : forall (tree : Tree) list id rest,
      tree.faces list = left ++ lone :: (right ++ rest) ->
      tree.child? list left.length = some id -> seeker.span? tree list left.length id = none) :
    seeker.SparesHead (left ++ lone :: right) := by
  intro tree list idx id span next rest hchild haccepts hspan hfaces
  have hcut : tree.faces list = left ++ lone :: (right ++ rest) := by
    rw [← hfaces, List.append_assoc, List.cons_append]
  have hnot := hothers tree id haccepts
  rw [List.mem_append, not_or] at hnot
  rw [hstart tree list idx id span next hspan]
  rcases Nat.lt_trichotomy idx left.length with hlt | rfl | hgt
  · exact absurd (Tree.face_mem_of_lt hcut hchild hlt) hnot.1
  · rw [hlone tree list id rest hcut hchild] at hspan
    cases hspan
  · apply Nat.le_of_not_lt
    intro hlt
    have hat : (tree.faces list)[idx]? = some (tree.face id) := by
      rw [Tree.getElem?_faces, hchild, Option.map_some]
    rw [← hfaces, List.getElem?_append_left hlt,
      List.getElem?_append_right (Nat.le_of_lt hgt),
      show idx - left.length = idx - left.length - 1 + 1 by omega, List.getElem?_cons_succ] at hat
    exact hnot.2 (List.mem_of_getElem? hat)

theorem Seeker.call_sparesHead {left blanks right : List Face} {name next : Face}
    (hothers : forall face, face ∈ left ++ (blanks ++ next :: right) ->
      face.has (fun t => t.category.isA .name) = false)
    (hblanks : forall face, face ∈ blanks -> face.isBlank = true) (hnext : next.isBlank = false)
    (hparens : next.isKind .parenthesis = false) :
    call.SparesHead (left ++ name :: (blanks ++ next :: right)) := by
  apply sparesHead_of_lone
  · intro tree list idx id span _ hspan
    rcases call_span hspan with ⟨_, _, _, _, rfl, rfl⟩
    rfl
  · intro tree id haccepts hmem
    have hname : (tree.face id).has (fun t => t.category.isA .name) = true := by
      rw [Tree.has_face]
      exact haccepts
    rw [hothers _ hmem] at hname
    cases hname
  · intro tree list id rest hfaces _
    rw [List.append_assoc, List.cons_append] at hfaces
    rcases @Tree.next_of_faces tree list false left (right ++ rest) blanks next name hfaces
      (fun face hface => by rw [Face.isSkipped, hblanks face hface]; rfl)
      (by rw [Face.isSkipped, hnext]; rfl) with ⟨other, hother, hface⟩
    unfold call
    dsimp only
    rw [hother]
    dsimp only
    rw [← @Tree.isKind_face tree other .parenthesis nofun, hface, hparens]
    rfl

theorem Seeker.aliased_sparesHead {left gaps right : List Face} {expr next : Face}
    (hothers : forall tree id, Pass.isAliasable tree id = true ->
      tree.face id ∉ left ++ (gaps ++ next :: right))
    (hgaps : forall face, face ∈ gaps -> face.isSkipped true = true)
    (hnext : next.isSkipped true = false) (hidentifier : next.isKind .identifier = false) :
    aliased.SparesHead (left ++ expr :: (gaps ++ next :: right)) := by
  refine sparesHead_of_lone ?_ hothers ?_
  · intro tree list idx id span _ hspan
    rcases aliased_span hspan with ⟨_, _, _, _, rfl, rfl⟩
    rfl
  · intro tree list id rest hfaces _
    rw [List.append_assoc, List.cons_append] at hfaces
    rcases Tree.next_of_faces hfaces hgaps hnext with ⟨other, hother, hface⟩
    unfold aliased
    dsimp only
    rw [hother]
    dsimp only
    rw [← @Tree.isKind_face tree other .identifier nofun, hface, hidentifier]
    rfl

/-!
# The passes that keep a head
-/

namespace Pass

variable (root : NodeId) {head : List Face} (hhead : Face.CalmHead head)
include hhead

theorem keeps_head_of_seeker {pass : Pass} {seeker : Seeker} (hpass : pass ∈ Pass.all)
    (hplan : pass.plan = seeker.plan) (h : seeker.SparesHead head) :
    pass.Keeps (Tree.Headed root head) (fun _ => True) (fun _ _ _ => True) := by
  apply keeps_of_seeker hpass hplan
  intro tree after list cursor move idx next id group span front moved back hwf hheaded hchild
    haccepts hfound hfits hstep hg
  refine hg.headed hfits hwf hstep hhead ?_ hheaded
  rintro rfl
  rcases hheaded with ⟨_, rest, hfaces⟩
  exact h tree list idx id span next rest hchild haccepts hfound hfaces

theorem keeps_head_of_rule {rule : BinaryRule} (hpass : Pass.binary rule ∈ Pass.all)
    (h : rule.SparesKeyword)
    (hop : forall tree id, rule.isOp tree id = true -> tree.face id ∉ head) :
    (Pass.binary rule).Keeps (Tree.Headed root head) (fun _ => True) Tree.SolidSince := by
  apply keeps_of_rule (all_sound _ hpass)
  intro tree after list cursor move op start stop hwf hcursor hheaded hknown hchild hisOp hoperands
    hfits hspan hgroups
  rcases hgroups.gathers hwf hfits with ⟨span, front, moved, back, group, hg⟩
  cases hspan.symm.trans hg.span_eq
  refine hg.headed hfits hwf (hgroups.groupStep hwf hfits) hhead ?_ hheaded
  rintro rfl
  rcases hheaded with ⟨_, rest, hfaces⟩
  rcases BinaryRule.span?_accepts hoperands with ⟨prev, left, hprev, hleft, haccepts, _, hfound⟩
  rcases h.sound tree list prev cursor.idx start stop (hcursor.prev_lt prev hprev)
    (Tree.child?_lt hchild) hfound with ⟨rfl, _, _⟩
  have hidx : head.length <= cursor.idx := by
    apply Nat.le_of_not_lt
    intro hlt
    exact hop tree op hisOp (Tree.face_mem_of_lt hfaces.symm hchild hlt)
  exact hhead.le_of_blanks hfaces hidx hleft
    (fun j other hlt hj hother => hknown.blanks start hprev j other hlt hj hother)
    fun token => h.prev tree left token haccepts

theorem keeps_head_of_pairs {kind : GroupKind} {opening closing : TokenPattern}
    (hopening : kind.opening? = some opening) (hclosing : kind.closing? = some closing)
    (hcalm : opening.sparesCalm = true) :
    (Pass.pairs kind).Keeps (Tree.Headed root head) (· ≠ kind) (Tree.OpensWait opening) := by
  apply keeps_of_pairs hopening hclosing
  intro tree after list cursor move start first last hwf hheaded _ _ hfirst hopens _ _ hfits hspan
    hgroups
  rcases hgroups.gathers hwf hfits with ⟨span, front, moved, back, group, hg⟩
  cases hspan.symm.trans hg.span_eq
  refine hg.headed hfits hwf (hgroups.groupStep hwf hfits) hhead ?_ hheaded
  rintro rfl
  rcases hheaded with ⟨_, rest, hfaces⟩
  apply Nat.le_of_not_lt
  intro hlt
  exact Tree.not_isCalm_of_hits hopens hcalm
    (hhead.calm _ (Tree.face_mem_of_lt hfaces.symm hfirst hlt))

end Pass

def Pass.steady : List Pass :=
  [.whereClauses, .pairs .caseBlock, .binary .period, .binary .subscript, .typedLiterals,
   .binary .operator, .orderings, .binary .typecast, .binary .assignment, .binary .comparison,
   .binary .identifierList, .pairs .ifBlock, .pairs .forBlock, .pairs .beginBlock]

theorem Pass.steady_subset : steady ⊆ all := by
  unfold steady all
  simp only [List.cons_subset, List.mem_cons, true_or, or_true, List.nil_subset, and_self]

theorem Pass.steady_keep_head (root : NodeId) {head : List Face} (hhead : Face.CalmHead head) :
    forall pass, pass ∈ steady ->
      exists suits known, pass.Keeps (Tree.Headed root head) suits known ∧ suits .statement := by
  have hseeker : forall {pass : Pass} {seeker : Seeker}, pass ∈ steady ->
      pass.plan = seeker.plan -> seeker.SparesHead head ->
      exists suits known, pass.Keeps (Tree.Headed root head) suits known ∧ suits .statement :=
    fun hmem hplan h =>
      ⟨_, _, keeps_head_of_seeker root hhead (steady_subset hmem) hplan h, trivial⟩
  have hrule : forall {rule : BinaryRule}, Pass.binary rule ∈ steady -> rule.SparesKeyword ->
      (forall tree id, rule.isOp tree id = true -> ¬ (tree.face id).IsCalm) ->
      exists suits known, (Pass.binary rule).Keeps (Tree.Headed root head) suits known ∧
        suits .statement :=
    fun hmem h hop => ⟨_, _, keeps_head_of_rule root hhead (steady_subset hmem) h
      fun tree id hisOp hface => hop tree id hisOp (hhead.calm _ hface), trivial⟩
  intro pass hpass
  have hmem := hpass
  unfold steady at hpass
  simp only [List.mem_cons, List.not_mem_nil, or_false] at hpass
  rcases hpass with rfl | rfl | rfl | rfl | rfl | rfl | rfl | rfl | rfl | rfl | rfl | rfl | rfl |
    rfl
  · exact hseeker hmem Seeker.whereClauses_plan (Seeker.whereWord_sparesHead hhead)
  · exact ⟨_, _, keeps_head_of_pairs root hhead rfl rfl (by decide), nofun⟩
  · exact hrule hmem BinaryRule.period_sparesKeyword
      fun _ _ h => Tree.not_isCalm_of_hits h (by decide)
  · exact hrule hmem BinaryRule.subscript_sparesKeyword
      fun _ _ h => Tree.not_isCalm_of_isKind h (by decide)
  · exact hseeker hmem Seeker.typedLiterals_plan (Seeker.typeWord_sparesHead hhead)
  · refine hrule hmem BinaryRule.operator_sparesKeyword fun _ _ h => ?_
    rcases Bool.or_eq_true_iff.mp h with hop | hwild
    · exact Tree.not_isCalm_of_isCategory hop (by decide)
    · exact Tree.not_isCalm_of_isCategory hwild (by decide)
  · exact hseeker hmem Seeker.orderings_plan (Seeker.ordering_sparesHead hhead)
  · exact hrule hmem BinaryRule.typecast_sparesKeyword
      fun _ _ h => Tree.not_isCalm_of_hits h (by decide)
  · exact hrule hmem BinaryRule.assignment_sparesKeyword
      fun _ _ h => Tree.not_isCalm_of_hits h (by decide)
  · exact hrule hmem BinaryRule.comparison_sparesKeyword
      fun _ _ h => Tree.not_isCalm_of_isCategory h (by decide)
  · exact hrule hmem BinaryRule.identifierList_sparesKeyword
      fun _ _ h => Tree.not_isCalm_of_hits h (by decide)
  · exact ⟨_, _, keeps_head_of_pairs root hhead rfl rfl (by decide), nofun⟩
  · exact ⟨_, _, keeps_head_of_pairs root hhead rfl rfl (by decide), nofun⟩
  · exact ⟨_, _, keeps_head_of_pairs root hhead rfl rfl (by decide), nofun⟩

/-!
# Passes one after the other
-/

/-- The faces of a statement whose passes so far are done. -/
structure Tree.Shows (root : NodeId) (p : List Face -> Prop) (tree : Tree) : Prop where
  wellFormed : tree.WellFormed
  kind : tree.kind? root = some .statement
  parent : tree.parent? root = none
  faces : p (tree.faces root)

theorem Tree.Shows.headed_of_groups {tree after : Tree} {root : NodeId} {p : List Face -> Prop}
    (h : tree.Shows root p) {cursor : Cursor} {move : Move} {span : Span}
    (hfits : move.Fits tree root cursor) (hretag : move.retag = none)
    (hspan : move.span = some span) (hgroups : move.Groups root tree after)
    (left taken right : List Face) {head : List Face}
    (hfaces : tree.faces root = left ++ taken ++ right)
    (hleft : left.length = span.start) (htaken : left.length + taken.length = span.stop + 1)
    (hhead : head <+: left ++ .group span.kind :: right) : after.Headed root head := by
  rcases hgroups.gathers h.wellFormed hfits with ⟨found, front, moved, back, group, hg⟩
  cases hspan.symm.trans hg.span_eq
  have hstep := hgroups.groupStep h.wellFormed hfits
  have hroot := Tree.lt_size_of_content? (Tree.content?_of_kind? h.kind)
  refine ⟨(Tree.root_of_steps h.wellFormed (.single hstep) hroot h.parent).2.1, ?_⟩
  rw [hg.faces_of_cut h.wellFormed hstep hretag left taken right hfaces hleft htaken]
  exact hhead

def Pass.Turns (limit : Nat) (p q : List Face -> Prop) (passes : List Pass) : Prop :=
  forall (tree after : Tree) root, tree.Shows root p ->
    exec (passes.forM fun pass => pass.run limit limit root) tree = (.ok (), after) ->
    after.Shows root q

namespace Pass

variable {limit : Nat} {p q r : List Face -> Prop} {first rest : List Pass}

theorem turns_append (hfirst : Turns limit p q first) (hrest : Turns limit q r rest) :
    Turns limit p r (first ++ rest) := by
  intro tree after root hshows hexec
  rw [exec_forM_append] at hexec
  rcases exec_bind_eq_ok hexec with ⟨middle, hmiddle, hafter⟩
  exact hrest middle after root (hfirst tree middle root hshows hmiddle) hafter

theorem turns_of_exists {alpha : Type} {p : alpha -> List Face -> Prop} {passes : List Pass}
    (h : forall x, Turns limit (p x) q passes) :
    Turns limit (fun faces => exists x, p x faces) q passes := by
  intro tree after root hshows hexec
  rcases hshows.faces with ⟨x, hx⟩
  exact h x tree after root ⟨hshows.wellFormed, hshows.kind, hshows.parent, hx⟩ hexec

theorem shows_of_changes {tree after : Tree} {root : NodeId} (h : tree.Shows root p)
    (hchanges : tree.ChangesWithin root after) (hafter : q (after.faces root)) :
    after.Shows root q := by
  have hroot := Tree.lt_size_of_content? (Tree.content?_of_kind? h.kind)
  exact ⟨hchanges.wellFormed h.wellFormed, (Tree.kind?_of_steps hchanges.steps hroot).trans h.kind,
    (Tree.root_of_steps h.wellFormed hchanges.steps hroot h.parent).2.1, hafter⟩

theorem turns_singleton {pass : Pass} (hpass : pass ∈ Pass.all)
    (h : forall (tree after : Tree) root, tree.Shows root p ->
      exec (pass.run limit limit root) tree = (.ok (), after) -> q (after.faces root)) :
    Turns limit p q [pass] := by
  intro tree after root hshows hexec
  rcases exec_bind_eq_ok hexec with ⟨middle, hrun, hnil⟩
  cases hnil
  exact shows_of_changes hshows (changesWithin_of_run (all_sound pass hpass)
    (all_tagsChildren pass hpass) hshows.wellFormed hrun) (h tree _ root hshows hrun)

theorem turns_of_keeps {passes : List Pass} (hpasses : passes ⊆ Pass.all) {head : List Face}
    (h : forall root pass, pass ∈ passes -> exists suits known,
      pass.Keeps (Tree.Headed root head) suits known ∧ suits .statement) :
    Turns limit (head <+: ·) (head <+: ·) passes := by
  induction passes with
  | nil =>
      intro tree after root hshows hexec
      cases hexec
      exact hshows
  | cons pass rest ih =>
      rw [List.cons_subset] at hpasses
      refine turns_append (turns_singleton hpasses.1 ?_)
        (ih hpasses.2 fun root other hother => h root other (List.mem_cons_of_mem _ hother))
      intro tree after root hshows hrun
      rcases h root pass List.mem_cons_self with ⟨suits, known, hkeeps, hsuits⟩
      exact (hkeeps.run (all_sound pass hpasses.1) (all_tagsChildren pass hpasses.1)
        hshows.wellFormed hshows.kind hsuits ⟨hshows.parent, hshows.faces⟩ hrun).2

end Pass

end SqlLayout
