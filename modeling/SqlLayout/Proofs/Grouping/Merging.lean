import SqlLayout.Proofs.Grouping.ListByList

/-!
# What a walk makes of the roses of a list

In front of its place a walk leaves roses that it is done with; behind the place
stand those that it has still to do.  A move that groups a span merges the first
rose of the span with those behind it.
-/

namespace SqlLayout

namespace Rose

/-- Roses that a walk is done with up to a place and has to do from there on. -/
structure Walked (done todo : Rose -> Prop) (roses : List Rose) (place : Nat) : Prop where
  done : forall i rose, roses[i]? = some rose -> i < place -> done rose
  todo : forall i rose, roses[i]? = some rose -> place <= i -> todo rose

/-- The group that a rose and those behind it become: a new one, or the first
rose if it is of the kind and may be extended. -/
inductive Merged (kind : GroupKind) (extend : Bool) (first : Rose) (rest : List Rose) :
    Rose -> Prop where
  | wrapped : (extend = true -> forall inner, first ≠ .group kind inner) ->
      Merged kind extend first rest (.group kind (first :: rest))
  | absorbed {inner : List Rose} : extend = true -> first = .group kind inner ->
      Merged kind extend first rest (.group kind (inner ++ rest))

namespace Walked

variable {done todo : Rose -> Prop} {roses : List Rose} {place next : Nat}

theorem start (h : forall rose, rose ∈ roses -> todo rose) : Walked done todo roses 0 where
  done := by
    intro i _ _ hi
    exact absurd hi (Nat.not_lt_zero i)
  todo := by
    intro _ rose hget _
    exact h rose (List.mem_of_getElem? hget)

variable (hsub : forall rose, todo rose -> done rose)
include hsub

theorem get (h : Walked done todo roses place) {i : Nat} {rose : Rose}
    (hget : roses[i]? = some rose) : done rose := by
  rcases Nat.lt_or_ge i place with hlt | hge
  · exact h.done i rose hget hlt
  · exact hsub rose (h.todo i rose hget hge)

theorem move_on (h : Walked done todo roses place) (hle : place <= next) :
    Walked done todo roses next where
  done := fun _ _ hget _ => h.get hsub hget
  todo := fun i rose hget hi => h.todo i rose hget (Nat.le_trans hle hi)

theorem all (h : Walked done todo roses place) : forall rose, rose ∈ roses -> done rose := by
  intro rose hrose
  rcases List.mem_iff_getElem?.mp hrose with ⟨i, hget⟩
  exact h.get hsub hget

theorem regrouped {front middle back : List Rose} {group : Rose}
    (h : Walked done todo (front ++ middle ++ back) place)
    (hplace : place <= front.length + middle.length) (hgroup : done group) :
    Walked done todo (front ++ group :: back) (front.length + 1) where
  done := by
    intro i rose hget hi
    rcases Nat.lt_or_eq_of_le (Nat.le_of_lt_succ hi) with hlt | rfl
    · rw [List.getElem?_append_left hlt] at hget
      apply h.get hsub
      rw [List.append_assoc, List.getElem?_append_left hlt]
      exact hget
    · rw [List.getElem?_append_right (Nat.le_refl _), Nat.sub_self, List.getElem?_cons_zero,
        Option.some.injEq] at hget
      rw [← hget]
      exact hgroup
  todo := by
    intro i rose hget hi
    rw [List.getElem?_append_right (Nat.le_of_succ_le hi),
      show i - front.length = i - (front.length + 1) + 1 by omega,
      List.getElem?_cons_succ] at hget
    apply h.todo (front.length + middle.length + (i - (front.length + 1))) rose
    · rw [List.getElem?_append_right (by rw [List.length_append]; omega), List.length_append,
        Nat.add_sub_cancel_left]
      exact hget
    · omega

omit hsub in
theorem at_operator {front blanks behind back : List Rose} {left op : Rose}
    (h : Walked done todo (front ++ (left :: (blanks ++ op :: behind)) ++ back) place)
    (hplace : front.length + 1 + blanks.length = place) :
    done left ∧ todo op ∧ forall rose, rose ∈ behind -> todo rose := by
  rw [List.append_assoc] at h
  have hbehind : forall i, (left :: (blanks ++ op :: behind) ++ back)[1 + blanks.length + i]? =
      (op :: (behind ++ back))[i]? := by
    intro i
    rw [Nat.add_assoc, Nat.add_comm 1, List.cons_append, List.getElem?_cons_succ,
      List.append_assoc, List.getElem?_append_right (Nat.le_add_right _ _),
      Nat.add_sub_cancel_left]
    rfl
  have hget : forall i, (front ++ (left :: (blanks ++ op :: behind) ++ back))[front.length + i]? =
      (left :: (blanks ++ op :: behind) ++ back)[i]? := by
    intro i
    rw [List.getElem?_append_right (Nat.le_add_right _ _), Nat.add_sub_cancel_left]
  refine ⟨?_, ?_, ?_⟩
  · apply h.done (front.length + 0) left _ (by omega)
    rw [hget]
    rfl
  · apply h.todo (front.length + (1 + blanks.length + 0)) op _ (by omega)
    rw [hget, hbehind]
    rfl
  · intro rose hmem
    rcases List.mem_iff_getElem?.mp hmem with ⟨i, hi⟩
    apply h.todo (front.length + (1 + blanks.length + (i + 1))) rose _ (by omega)
    rw [hget, hbehind, List.getElem?_cons_succ,
      List.getElem?_append_left (List.getElem?_eq_some_iff.mp hi).1]
    exact hi

end Walked
end Rose

theorem Span.Regroups.merged {span : Span} {roses after : List Rose}
    (h : span.Regroups roses after) (hle : span.start <= span.stop) :
    exists front first rest back group, roses = front ++ (first :: rest) ++ back ∧
      front.length = span.start ∧ front.length + rest.length = span.stop ∧
      Rose.Merged span.kind span.extend first rest group ∧ after = front ++ group :: back := by
  cases h with
  | @wraps front moved back hfront hmoved hother =>
      cases moved with
      | nil =>
          rw [List.length_nil] at hmoved
          omega
      | cons first rest =>
          rw [List.length_cons] at hmoved
          refine ⟨front, first, rest, back, _, rfl, hfront, by omega, Rose.Merged.wrapped ?_, rfl⟩
          rintro hextend inner rfl
          exact hother hextend inner rest rfl
  | @absorbs front inner moved back hextend hfront hmoved =>
      refine ⟨front, _, moved, back, _, ?_, hfront, hmoved, Rose.Merged.absorbed hextend rfl, rfl⟩
      rw [List.append_assoc]
      rfl

open Grouping Tree

/-- How far a walk is with a list of some kind.  Of the roses behind its place it
may be done with a few. -/
structure Tree.WalkedAt (done todo : Rose -> Prop) (list : NodeId) (kind : GroupKind)
    (slack : Nat) (tree : Tree) (cursor : Cursor) : Prop where
  kind : tree.kind? list = some kind
  walked : exists place, place <= cursor.idx + slack ∧
    Rose.Walked done todo ((tree.children list).map tree.rose) place

/-!
# Passes that look for a child
-/

namespace Seeker

variable {seeker : Seeker} {done todo : Rose -> Prop} {list : NodeId} {kind : GroupKind}
  {slack : Nat}

/-- Every group that a seeker makes in a list is done, if the roses behind the child that
was found are still to do. -/
def Finishes (seeker : Seeker) (done todo : Rose -> Prop) (list : NodeId) (slack : Nat) : Prop :=
  forall (tree : Tree) place hit id span next front first rest back group,
    tree.WellFormed -> tree.child? list hit = some id -> seeker.accepts tree id = true ->
    seeker.span? tree list hit id = some (span, next) ->
    (tree.children list).map tree.rose = front ++ (first :: rest) ++ back ->
    front.length = span.start -> front.length + rest.length = span.stop ->
    place <= hit + slack ->
    Rose.Walked done todo ((tree.children list).map tree.rose) place ->
    Rose.Merged span.kind span.extend first rest group -> done group

theorem walked_skip {tree : Tree} {cursor : Cursor} {move : Move}
    (h : tree.WalkedAt done todo list kind slack cursor)
    (hmove : seeker.plan tree list cursor = some move) (hnone : move.span = none) :
    tree.WalkedAt done todo list kind slack move.cursor := by
  rcases h with ⟨hkind, place, hplace, hwalked⟩
  refine ⟨hkind, place, Nat.le_trans hplace (Nat.add_le_add_right ?_ _), hwalked⟩
  unfold Seeker.plan at hmove
  split at hmove
  · cases hmove
  · rename_i hit id hfound
    rcases nextBy_some hfound with ⟨hle, _⟩
    split at hmove
    · cases hmove
      cases hnone
    · cases hmove
      exact Nat.le_succ_of_le hle

theorem walked_group (hsub : forall rose, todo rose -> done rose)
    (hfinishes : seeker.Finishes done todo list slack)
    (hnext : forall tree list idx id span next,
      seeker.span? tree list idx id = some (span, next) -> next + slack = span.start + 1)
    {tree after : Tree} (hwf : tree.WellFormed) {cursor : Cursor} {move : Move} {span : Span}
    (h : tree.WalkedAt done todo list kind slack cursor)
    (hmove : seeker.plan tree list cursor = some move) (hfits : move.Fits tree list cursor)
    (hsome : move.span = some span) (hgroups : move.Groups list tree after) :
    after.WalkedAt done todo list kind slack move.cursor := by
  rcases h with ⟨hkind, place, hplace, hwalked⟩
  unfold Seeker.plan at hmove
  split at hmove
  · cases hmove
  · rename_i hit id hfound
    rcases nextBy_some hfound with ⟨hle, hchild, haccepts, _⟩
    split at hmove
    · rename_i other next hspan
      cases hmove
      cases hsome
      have hadvances := hfits.advances
      have hslack := hnext tree list hit id span next hspan
      rcases hgroups.regroups hwf hfits with ⟨_, hsame, hkind', hregroups⟩
      cases hsame
      change span.Regroups ((tree.children list).map tree.rose) _ at hregroups
      rcases hregroups.merged (hfits.span_inside span rfl).1 with
        ⟨front, first, rest, back, group, hroses, hfront, hrest, hmerged, hresult⟩
      have hdone := hfinishes tree place hit id span next front first rest back group hwf hchild
        haccepts hspan hroses hfront hrest (by omega) hwalked hmerged
      rw [hroses] at hwalked
      refine ⟨hkind'.trans hkind, front.length + 1, ?_, ?_⟩
      · dsimp only [Pass.groupThen, Pass.goto]
        omega
      · rw [hresult]
        refine hwalked.regrouped hsub ?_ hdone
        dsimp only [Pass.groupThen, Pass.goto] at hadvances
        rw [List.length_cons]
        omega
    · cases hmove
      cases hsome

/-- If every merge that a pass plans is done, the walk is done with all roses of
its list.  A walk that goes on at the group itself has one rose less to do. -/
theorem walks_done {pass : Pass} (hplan : pass.plan = seeker.plan)
    (hsound : pass.Sound) (slack : Nat)
    (hnext : forall tree list idx id span next,
      seeker.span? tree list idx id = some (span, next) -> next + slack = span.start + 1)
    (hsub : forall rose, todo rose -> done rose)
    (hfinishes : seeker.Finishes done todo list slack) {tree after : Tree}
    (hwf : tree.WellFormed) (hkind : tree.kind? list = some kind)
    (htodo : forall rose, rose ∈ (tree.children list).map tree.rose -> todo rose)
    (h : pass.Walks list tree after) :
    exists roses, after.rose list = .group kind roses ∧ forall rose, rose ∈ roses -> done rose := by
  have htags := Pass.tagsChildren_of_seeker hplan
  have hafter := (Pass.Walks.changesWithin hsound htags hwf h).wellFormed hwf
  have hstart : tree.WalkedAt done todo list kind slack {} :=
    ⟨hkind, 0, Nat.zero_le _, Rose.Walked.start htodo⟩
  rcases Pass.walks_rule hsound htags (Pass.stays_of_seeker hplan)
      (fun tree cursor move _ hwalked hmove => walked_skip hwalked (hplan ▸ hmove))
      (fun tree after cursor move span hwf hcursor hwalked hmove => walked_group hsub hfinishes
        hnext hwf hwalked (hplan ▸ hmove) (hsound tree list cursor move hcursor hmove))
      hwf hstart h with
    ⟨last, ⟨hkind', place, _, hwalked⟩, _⟩
  exact ⟨_, hafter.rose_of_kind? hkind', hwalked.all hsub⟩

end Seeker

/-!
# Constructs around an operator
-/

namespace BinaryRule

def retagged (rule : BinaryRule) (op : Rose) : Rose :=
  match rule.retag, op with
  | some category, .token t => .token { t with category := category }
  | _, _ => op

theorem retagged_of_none {rule : BinaryRule} (h : rule.retag = none) (op : Rose) :
    rule.retagged op = op := by
  unfold retagged
  rw [h]

/-- Roses of a list that a rule merges: an operand, blanks, an operator, and what
belongs to the construct behind it. -/
structure Site (rule : BinaryRule) (tree : Tree) (list : NodeId) (left : Rose)
    (blanks : List Rose) (op : Rose) (behind : List Rose) : Prop where
  acceptsPrev : exists id, id ∈ tree.children list ∧ tree.rose id = left ∧
    rule.acceptsPrev tree id = true
  isOp : exists id, id ∈ tree.children list ∧ tree.rose id = op ∧ rule.isOp tree id = true
  isBlank : forall rose, rose ∈ blanks -> rose.isBlank = true
  span : exists front back idx,
    (tree.children list).map tree.rose = front ++ left :: (blanks ++ op :: (behind ++ back)) ∧
    idx = front.length + 1 + blanks.length ∧
    rule.acceptsNext tree ((tree.next list idx true).map Prod.snd) = true ∧
    rule.span tree list ⟨front.length, idx, (tree.next list idx true).map Prod.fst⟩ =
      (front.length, idx + behind.length)

/-- How far a walk is: only blanks stand between the place and the last child
before it that counts. -/
structure WalkedAt (done todo : Rose -> Prop) (list : NodeId) (kind : GroupKind) (tree : Tree)
    (cursor : Cursor) : Prop where
  kind : tree.kind? list = some kind
  walked : Rose.Walked done todo ((tree.children list).map tree.rose) cursor.idx
  blanks : forall prev, cursor.prev = some prev -> forall i rose, prev < i -> i < cursor.idx ->
    ((tree.children list).map tree.rose)[i]? = some rose -> rose.isBlank = true

variable {rule : BinaryRule} {tree : Tree} {list : NodeId}

/-- The tree with the category that a grouped operator gets has the same roses in
the list besides the one of the operator. -/
theorem roses_tagged {cursor : Cursor} {move : Move} {id : NodeId} (hwf : tree.WellFormed)
    (hfits : move.Fits tree list cursor)
    (hretag : move.retag = rule.retag.map fun category => (id, category)) {left right : List Rose}
    (hroses : (tree.children list).map tree.rose = left ++ tree.rose id :: right)
    (hchild : tree.child? list left.length = some id) :
    (tree.children list).map (move.tagged tree).rose =
      left ++ rule.retagged (tree.rose id) :: right := by
  have hmem : id ∈ tree.children list := List.mem_of_getElem? hchild
  cases hrule : rule.retag with
  | none =>
      rw [hrule] at hretag
      have htagged : move.tagged tree = tree := by
        unfold Move.tagged
        rw [hretag]
        rfl
      rw [htagged, retagged_of_none hrule]
      exact hroses
  | some category =>
      rw [hrule] at hretag
      have htag := Move.retagged_tagged hfits
      have htagged : move.tagged tree =
          tree.modifyToken id fun token => { token with category := category } := by
        unfold Move.tagged
        rw [hretag]
        rfl
      rcases hfits.exists_token_of_retag hretag with ⟨token, htoken⟩
      have hrose : (move.tagged tree).rose id = rule.retagged (tree.rose id) := by
        have htoken' : (move.tagged tree).token? id =
            some { token with category := category } := by
          rw [htagged, token?_modifyToken, if_pos rfl, htoken]
          rfl
        rw [rose_of_token? htoken, rose_of_token? htoken']
        unfold retagged
        rw [hrule]
      rw [← hrose]
      refine hwf.roses_of_siblings ?_ hroses hchild
      intro other hother hne
      apply hwf.rose_eq_of_unchanged (htag.wellFormed hwf) (hwf.child_lt_size hother)
      intro below hbelow
      rw [htagged, content?_modifyToken, if_neg]
      rintro rfl
      exact hne (hwf.eq_of_children_above hother hmem hbelow (Or.inl rfl))

theorem cut_at_operator {pre post front rest back : List Rose} {left op : Rose}
    (h : pre ++ op :: post = front ++ (left :: rest) ++ back)
    (hfront : front.length < pre.length) (hrest : pre.length <= front.length + rest.length) :
    exists blanks behind, pre = front ++ left :: blanks ∧ post = behind ++ back ∧
      rest = blanks ++ op :: behind := by
  rcases cut_middle h (Nat.le_of_lt hfront) (by rw [List.length_cons]; omega) with
    ⟨first, second, rfl, hpost, hcut⟩
  rw [List.length_append] at hfront hrest
  cases first with
  | nil =>
      rw [List.length_nil] at hfront
      omega
  | cons head blanks =>
      rw [List.cons_append, List.cons.injEq] at hcut
      rcases hcut with ⟨rfl, rfl⟩
      cases second with
      | nil =>
          rw [List.append_nil, List.length_cons] at hrest
          omega
      | cons other behind =>
          rw [List.cons_append, List.cons.injEq] at hpost
          rcases hpost with ⟨rfl, rfl⟩
          exact ⟨blanks, behind, rfl, rfl, rfl⟩

theorem site_of_span? {idx start stop : Nat} {id : NodeId} {front blanks behind back : List Rose}
    {left : Rose} (hop : rule.isOp tree id = true) (hchild : tree.child? list idx = some id)
    (hspan : rule.span? tree list (some front.length) idx = some (start, stop))
    (hroses : (tree.children list).map tree.rose =
      front ++ left :: (blanks ++ tree.rose id :: (behind ++ back)))
    (hidx : front.length + 1 + blanks.length = idx)
    (hstart : start = front.length) (hstop : stop = idx + behind.length)
    (hblanks : forall i rose, front.length < i -> i < idx ->
      ((tree.children list).map tree.rose)[i]? = some rose -> rose.isBlank = true) :
    rule.Site tree list left blanks (tree.rose id) behind := by
  rcases span?_accepts hspan with ⟨prev, before, hprev, hbefore, haccepts, hnext, hfound⟩
  cases hprev
  have hget : forall i, ((tree.children list).map tree.rose)[front.length + i]? =
      (left :: (blanks ++ tree.rose id :: (behind ++ back)))[i]? := by
    intro i
    rw [hroses, List.getElem?_append_right (Nat.le_add_right _ _), Nat.add_sub_cancel_left]
  refine ⟨⟨before, List.mem_of_getElem? hbefore, ?_, haccepts⟩,
    ⟨id, List.mem_of_getElem? hchild, rfl, hop⟩, ?_,
    ⟨front, back, idx, hroses, hidx.symm, hnext, ?_⟩⟩
  · have hleft := hget 0
    unfold child? at hbefore
    rw [List.getElem?_map, Nat.add_zero, hbefore, Option.map_some, List.getElem?_cons_zero,
      Option.some.injEq] at hleft
    exact hleft
  · intro rose hmem
    rcases List.mem_iff_getElem?.mp hmem with ⟨i, hi⟩
    have hbound := (List.getElem?_eq_some_iff.mp hi).1
    apply hblanks (front.length + (i + 1)) rose (by omega) (by omega)
    rw [hget, List.getElem?_cons_succ, List.getElem?_append_left hbound]
    exact hi
  · rw [hfound, hstart, hstop]

theorem exists_site (hrule : rule.Sound) {after : Tree} {cursor : Cursor} {move : Move}
    {id : NodeId} {start stop : Nat} (hwf : tree.WellFormed) (hcursor : cursor.Ordered)
    (hfits : move.Fits tree list cursor) (hchild : tree.child? list cursor.idx = some id)
    (hop : rule.isOp tree id = true)
    (hspan : rule.span? tree list cursor.prev cursor.idx = some (start, stop))
    (hblanks : forall prev, cursor.prev = some prev -> forall i rose, prev < i ->
      i < cursor.idx -> ((tree.children list).map tree.rose)[i]? = some rose ->
        rose.isBlank = true)
    (hretag : move.retag = rule.retag.map fun category => (id, category))
    (hsome : move.span = some { kind := rule.kind, start, stop, extend := rule.extend })
    (hgroups : move.Groups list tree after) :
    exists front left blanks behind back group,
      rule.Site tree list left blanks (tree.rose id) behind ∧
      (tree.children list).map tree.rose =
        front ++ (left :: (blanks ++ tree.rose id :: behind)) ++ back ∧
      (after.children list).map after.rose = front ++ group :: back ∧
      front.length = start ∧ front.length + 1 + blanks.length = cursor.idx ∧
      Rose.Merged rule.kind rule.extend left (blanks ++ rule.retagged (tree.rose id) :: behind)
        group := by
  rcases span?_accepts hspan with ⟨prev, _, hprev, _, _, _, hfound⟩
  have hlt := hcursor.prev_lt prev hprev
  rcases hrule tree list prev cursor.idx start stop hlt hfits.inside hfound with
    ⟨rfl, hstop, _⟩
  rcases exists_roses_around hchild with ⟨pre, post, hroses, hlength⟩
  have htagged := roses_tagged hwf hfits hretag hroses (hlength.symm ▸ hchild)
  rcases hgroups.regroups hwf hfits with ⟨_, hsame, _, hregroups⟩
  rw [hsome] at hsame
  cases hsame
  rcases hregroups.merged (Nat.le_trans (Nat.le_of_lt hlt) hstop) with
    ⟨front, left, rest, back, group, hsplit, hfront, hrest, hmerged, hresult⟩
  dsimp only at hfront hrest hmerged
  rw [htagged] at hsplit
  rcases cut_at_operator hsplit (by omega) (by omega) with ⟨blanks, behind, rfl, rfl, rfl⟩
  subst hfront
  rw [List.append_assoc, List.cons_append] at hroses
  rw [List.length_append, List.length_cons] at hlength hrest
  have hidx : front.length + 1 + blanks.length = cursor.idx := by omega
  refine ⟨front, left, blanks, behind, back, group, ?_, ?_, hresult, rfl, hidx, hmerged⟩
  · rw [hprev] at hspan
    exact site_of_span? hop hchild hspan hroses hidx rfl (by omega) (hblanks front.length hprev)
  · rw [hroses]
    simp

/-- A move that makes no group goes one child on, and what it goes past is a blank or
the last child that counts. -/
theorem walked_skip {done todo : Rose -> Prop} (hsub : forall rose, todo rose -> done rose)
    {kind : GroupKind} (hwf : tree.WellFormed) {cursor : Cursor} {move : Move}
    (h : WalkedAt done todo list kind tree cursor) (hmove : rule.plan tree list cursor = some move)
    (hnone : move.span = none) : WalkedAt done todo list kind tree move.cursor := by
  rcases does_of_plan hmove with ⟨id, hchild, hdoes⟩
  cases hdoes with
  | blank hblank =>
      refine ⟨h.kind, h.walked.move_on hsub (Nat.le_succ _), ?_⟩
      intro prev hprev i rose hlt hi hget
      rcases Nat.lt_or_eq_of_le (Nat.le_of_lt_succ hi) with hbefore | rfl
      · exact h.blanks prev hprev i rose hlt hbefore hget
      · unfold child? at hchild
        rw [List.getElem?_map, hchild, Option.map_some, Option.some.injEq] at hget
        rw [← hget, hwf.isBlank_rose (hwf.child_lt_size (List.mem_of_getElem? hchild))]
        exact hblank
  | group _ _ _ =>
      cases hnone
  | past _ _ =>
      refine ⟨h.kind, h.walked.move_on hsub (Nat.le_succ _), ?_⟩
      intro prev hprev i rose hlt hi _
      cases hprev
      exact absurd hi (Nat.not_lt.mpr hlt)

section

variable {done todo : Rose -> Prop} (hrule : rule.Sound)
  (hsub : forall rose, todo rose -> done rose)
  (hmerge : forall (tree : Tree) left blanks op behind group, tree.WellFormed ->
    rule.Site tree list left blanks op behind -> done left -> todo op ->
    (forall rose, rose ∈ behind -> todo rose) ->
    Rose.Merged rule.kind rule.extend left (blanks ++ rule.retagged op :: behind) group ->
    done group)
  {kind : GroupKind}

include hrule hsub hmerge

theorem walked_group {after : Tree} (hwf : tree.WellFormed) {cursor : Cursor} {move : Move}
    {span : Span} (hcursor : cursor.Ordered) (h : WalkedAt done todo list kind tree cursor)
    (hmove : rule.plan tree list cursor = some move) (hfits : move.Fits tree list cursor)
    (hsome : move.span = some span) (hgroups : move.Groups list tree after) :
    WalkedAt done todo list kind after move.cursor := by
  rcases does_of_plan hmove with ⟨id, hchild, hdoes⟩
  cases hdoes with
  | blank _ =>
      cases hsome
  | group _ hop hspan =>
      rcases exists_site hrule hwf hcursor hfits hchild hop hspan h.blanks rfl rfl hgroups with
        ⟨front, left, blanks, behind, back, group, hsite, hroses, hresult, hfront, hidx, hmerged⟩
      rcases hgroups.regroups hwf hfits with ⟨_, _, hkind', _⟩
      have hwalked := h.walked
      rw [hroses] at hwalked
      rcases hwalked.at_operator hidx with ⟨hleft, htodo, hbehind⟩
      have hdone := hmerge tree left blanks (tree.rose id) behind group hwf hsite hleft htodo
        hbehind hmerged
      refine ⟨hkind'.trans h.kind, ?_, ?_⟩
      · rw [hresult]
        dsimp only
        rw [← hfront]
        refine hwalked.regrouped hsub ?_ hdone
        rw [List.length_cons, List.length_append]
        omega
      · intro prev hprev i rose hlt hi _
        cases hprev
        exact absurd hi (Nat.not_lt.mpr hlt)
  | past _ _ =>
      cases hsome

/-- If every merge that a rule plans is done, the walk is done with all roses of
its list. -/
theorem walks_done (hsound : (Pass.binary rule).Sound) {after : Tree} (hwf : tree.WellFormed)
    (hkind : tree.kind? list = some kind)
    (htodo : forall rose, rose ∈ (tree.children list).map tree.rose -> todo rose)
    (h : (Pass.binary rule).Walks list tree after) :
    exists roses, after.rose list = .group kind roses ∧ forall rose, rose ∈ roses -> done rose := by
  have htags := Pass.tagsChildren_binary rule
  have hafter := (Pass.Walks.changesWithin hsound htags hwf h).wellFormed hwf
  have hstart : WalkedAt done todo list kind tree {} :=
    ⟨hkind, Rose.Walked.start htodo, fun prev hprev => by cases hprev⟩
  rcases Pass.walks_rule hsound htags (Pass.stays_binary rule)
      (fun tree cursor move hwf hwalked hmove => walked_skip hsub hwf hwalked hmove)
      (fun tree after cursor move span hwf hcursor hwalked hmove => walked_group hrule hsub hmerge
        hwf hcursor hwalked hmove (hsound tree list cursor move hcursor hmove))
      hwf hstart h with
    ⟨last, hlast, _⟩
  exact ⟨_, hafter.rose_of_kind? hlast.kind, hlast.walked.all hsub⟩

end

end BinaryRule

end SqlLayout
