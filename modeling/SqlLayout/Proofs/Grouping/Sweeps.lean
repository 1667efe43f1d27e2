import SqlLayout.Proofs.Grouping.Stages

/-!
# Walks that sweep over a list

A walk passes the roses of a list from left to right and puts groups in the place of
some of them on its way.  What it does is followed with the roses alone: an invariant
of the roses behind the place and of those from the place on holds where the walk ends,
if it is kept by going past one rose and by putting a group in the place of a span.
-/

namespace SqlLayout

open Grouping Tree

/-!
# Blanks around what counts
-/

section

variable {alpha : Type} {blank : alpha -> Bool} {left left' blanks blanks' : List alpha}
  {first first' : alpha}

theorem last_unique (h : left ++ first :: blanks = left' ++ first' :: blanks')
    (hfirst : blank first = false) (hblanks : forall item, item ∈ blanks -> blank item = true)
    (hfirst' : blank first' = false) (hblanks' : forall item, item ∈ blanks' -> blank item = true) :
    left = left' ∧ first = first' ∧ blanks = blanks' := by
  rcases List.append_eq_append_iff.mp h with ⟨more, rfl, hmore⟩ | ⟨more, rfl, hmore⟩
  · cases more with
    | nil =>
        rw [List.nil_append, List.cons.injEq] at hmore
        exact ⟨(List.append_nil _).symm, hmore⟩
    | cons head more =>
        rw [List.cons_append, List.cons.injEq] at hmore
        rw [hblanks first' (by rw [hmore.2]; simp)] at hfirst'
        cases hfirst'
  · cases more with
    | nil =>
        rw [List.nil_append, List.cons.injEq] at hmore
        exact ⟨List.append_nil _, hmore.1.symm, hmore.2.symm⟩
    | cons head more =>
        rw [List.cons_append, List.cons.injEq] at hmore
        rw [hblanks' first (by rw [hmore.2]; simp)] at hfirst
        cases hfirst

theorem first_unique (h : blanks ++ first :: left = blanks' ++ first' :: left')
    (hfirst : blank first = false) (hblanks : forall item, item ∈ blanks -> blank item = true)
    (hfirst' : blank first' = false) (hblanks' : forall item, item ∈ blanks' -> blank item = true) :
    blanks = blanks' ∧ first = first' ∧ left = left' := by
  have hreverse := congrArg List.reverse h
  simp only [List.reverse_append, List.reverse_cons, List.append_assoc, List.singleton_append]
    at hreverse
  rcases last_unique hreverse hfirst (fun item hitem => hblanks item (List.mem_reverse.mp hitem))
      hfirst' (fun item hitem => hblanks' item (List.mem_reverse.mp hitem)) with
    ⟨hleft, rfl, hblanks⟩
  exact ⟨List.reverse_inj.mp hblanks, rfl, List.reverse_inj.mp hleft⟩

end

namespace Tree

variable {tree : Tree} {list : NodeId} {left right blanks : List Rose} {first rose : Rose}

theorem exists_child_of_lt {idx : Nat} (h : idx < (tree.children list).length) :
    exists id, tree.child? list idx = some id :=
  ⟨_, List.getElem?_eq_getElem h⟩

variable (hwf : tree.WellFormed)
include hwf

theorem isSkipped_of_rose {id : NodeId} (hid : id ∈ tree.children list) :
    tree.isSkipped id true false = (tree.rose id).isBlank := by
  rw [hwf.isBlank_rose (hwf.child_lt_size hid), isSkipped, Bool.true_and, Bool.false_and,
    Bool.or_false]

theorem next_of_split
    (hroses : (tree.children list).map tree.rose = left ++ rose :: (blanks ++ first :: right))
    (hblanks : forall rose, rose ∈ blanks -> rose.isBlank = true) (hfirst : first.isBlank = false) :
    exists id, tree.next list left.length true = some (left.length + 1 + blanks.length, id) ∧
      tree.rose id = first :=
  next_of_map Rose.isBlank (fun _ => isSkipped_of_rose hwf) hroses hblanks hfirst

theorem prev_of_split
    (hroses : (tree.children list).map tree.rose = left ++ first :: (blanks ++ right))
    (hblanks : forall rose, rose ∈ blanks -> rose.isBlank = true) (hfirst : first.isBlank = false) :
    exists id, tree.prev list (left.length + 1 + blanks.length) true = some (left.length, id) ∧
      tree.rose id = first :=
  prev_of_map Rose.isBlank (fun _ => isSkipped_of_rose hwf) hroses hblanks hfirst

end Tree

/-!
# Passes that look for a child
-/

/-- Where a sweep is: behind it are some roses of a list, before it the others. -/
structure Tree.SweptAt (invariant : List Rose -> List Rose -> Prop) (list : NodeId)
    (kind : GroupKind) (tree : Tree) (place : Nat) : Prop where
  kind : tree.kind? list = some kind
  cut : exists left right, (tree.children list).map tree.rose = left ++ right ∧
    left.length = place ∧ invariant left right

theorem Tree.SweptAt.exists_roses {tree : Tree} {invariant : List Rose -> List Rose -> Prop}
    {list : NodeId} {kind : GroupKind} {place : Nat} (h : tree.SweptAt invariant list kind place)
    (hwf : tree.WellFormed) (hplace : tree.childCount list <= place) :
    exists roses, tree.rose list = .group kind roses ∧ invariant roses [] := by
  rcases h with ⟨hkind, left, right, hroses, rfl, hinvariant⟩
  have hnil : right = [] := by
    have hlength := congrArg List.length hroses
    rw [List.length_map, List.length_append] at hlength
    apply List.eq_nil_of_length_eq_zero
    unfold childCount at hplace
    omega
  subst hnil
  rw [List.append_nil] at hroses
  exact ⟨left, hroses ▸ hwf.rose_of_kind? hkind, hinvariant⟩

namespace Seeker

variable {seeker : Seeker} {invariant : List Rose -> List Rose -> Prop} {list : NodeId}
  {kind : GroupKind}

/-- Going past a child of which a seeker makes no span keeps an invariant. -/
def Passes (seeker : Seeker) (invariant : List Rose -> List Rose -> Prop) (list : NodeId)
    (kind : GroupKind) : Prop :=
  forall (tree : Tree) left id right, tree.WellFormed -> tree.kind? list = some kind ->
    (tree.children list).map tree.rose = left ++ tree.rose id :: right ->
    tree.child? list left.length = some id ->
    (seeker.accepts tree id = true -> seeker.span? tree list left.length id = none) ->
    invariant left (tree.rose id :: right) -> invariant (left ++ [tree.rose id]) right

def Merges (seeker : Seeker) (invariant : List Rose -> List Rose -> Prop) (list : NodeId)
    (kind : GroupKind) : Prop :=
  forall (tree : Tree) left id right span next front first rest back group, tree.WellFormed ->
    tree.kind? list = some kind ->
    (tree.children list).map tree.rose = left ++ tree.rose id :: right ->
    tree.child? list left.length = some id -> seeker.accepts tree id = true ->
    seeker.span? tree list left.length id = some (span, next) ->
    left ++ tree.rose id :: right = front ++ (first :: rest) ++ back ->
    front.length = span.start -> front.length + rest.length = span.stop ->
    Rose.Merged span.kind span.extend first rest group ->
    invariant left (tree.rose id :: right) -> invariant (front ++ [group]) back

theorem sweeps_past (hpasses : seeker.Passes invariant list kind) {tree : Tree}
    (hwf : tree.WellFormed) {place : Nat} (count : Nat)
    (h : tree.SweptAt invariant list kind place)
    (hcount : place + count <= tree.childCount list)
    (hrefused : forall idx id, place <= idx -> idx < place + count ->
      tree.child? list idx = some id -> seeker.accepts tree id = false) :
    tree.SweptAt invariant list kind (place + count) := by
  induction count with
  | zero =>
      exact h
  | succ count ih =>
      rcases ih (by omega) (fun idx id hle hlt => hrefused idx id hle (by omega)) with
        ⟨hkind, left, right, hroses, hlength, hinvariant⟩
      have hlt : left.length < (tree.children list).length := by
        unfold childCount at hcount
        omega
      rcases exists_child_of_lt hlt with ⟨id, hchild⟩
      rcases exists_rose_cons hroses hchild with ⟨rest, rfl⟩
      refine ⟨hkind, left ++ [tree.rose id], rest, ?_, ?_,
        hpasses tree left id rest hwf hkind hroses hchild ?_ hinvariant⟩
      · rw [hroses, List.append_assoc, List.singleton_append]
      · rw [List.length_append, hlength]
        rfl
      · intro haccepts
        rw [hrefused left.length id (by omega) (by omega) hchild] at haccepts
        cases haccepts

theorem sweeps_to (hpasses : seeker.Passes invariant list kind) {tree : Tree}
    (hwf : tree.WellFormed) {place hit : Nat} {id : NodeId}
    (h : tree.SweptAt invariant list kind place)
    (hfound : tree.nextBy list place (seeker.accepts tree) = some (hit, id)) :
    exists left right, tree.kind? list = some kind ∧
      (tree.children list).map tree.rose = left ++ tree.rose id :: right ∧ left.length = hit ∧
      tree.child? list hit = some id ∧ seeker.accepts tree id = true ∧
      invariant left (tree.rose id :: right) := by
  rcases nextBy_some hfound with ⟨hle, hchild, haccepts, hbefore⟩
  rcases Nat.exists_eq_add_of_le hle with ⟨count, rfl⟩
  rcases sweeps_past hpasses hwf count h (Nat.le_of_lt (child?_lt hchild)) hbefore with
    ⟨hkind, left, right, hroses, hlength, hinvariant⟩
  rcases exists_rose_cons hroses (hlength.symm ▸ hchild) with ⟨rest, rfl⟩
  exact ⟨left, rest, hkind, hroses, hlength, hchild, haccepts, hinvariant⟩

theorem sweeps_skip (hpasses : seeker.Passes invariant list kind) {tree : Tree}
    (hwf : tree.WellFormed) {cursor : Cursor} {move : Move}
    (h : tree.SweptAt invariant list kind cursor.idx)
    (hmove : seeker.plan tree list cursor = some move) (hnone : move.span = none) :
    tree.SweptAt invariant list kind move.cursor.idx := by
  unfold Seeker.plan at hmove
  split at hmove
  · cases hmove
  · rename_i hit id hfound
    rcases sweeps_to hpasses hwf h hfound with
      ⟨left, right, hkind, hroses, rfl, hchild, _, hinvariant⟩
    split at hmove
    · cases hmove
      cases hnone
    · rename_i hspan
      cases hmove
      refine ⟨hkind, left ++ [_], right, ?_, ?_,
        hpasses tree left id right hwf hkind hroses hchild (fun _ => hspan) hinvariant⟩
      · rw [hroses, List.append_assoc, List.singleton_append]
      · rw [List.length_append]
        rfl

theorem sweeps_group (hpasses : seeker.Passes invariant list kind)
    (hmerges : seeker.Merges invariant list kind)
    (hnext : forall tree list idx id span next,
      seeker.span? tree list idx id = some (span, next) -> next = span.start + 1)
    {tree after : Tree} (hwf : tree.WellFormed) {cursor : Cursor} {move : Move} {span : Span}
    (h : tree.SweptAt invariant list kind cursor.idx)
    (hmove : seeker.plan tree list cursor = some move) (hfits : move.Fits tree list cursor)
    (hsome : move.span = some span) (hgroups : move.Groups list tree after) :
    after.SweptAt invariant list kind move.cursor.idx := by
  unfold Seeker.plan at hmove
  split at hmove
  · cases hmove
  · rename_i hit id hfound
    rcases sweeps_to hpasses hwf h hfound with
      ⟨left, right, hkind, hroses, rfl, hchild, haccepts, hinvariant⟩
    split at hmove
    · rename_i other next hspan
      cases hmove
      cases hsome
      rcases hgroups.regroups hwf hfits with ⟨_, hsame, hkind', hregroups⟩
      cases hsame
      change span.Regroups ((tree.children list).map tree.rose) _ at hregroups
      rw [hroses] at hregroups
      rcases hregroups.merged (hfits.span_inside span rfl).1 with
        ⟨front, first, rest, back, group, hcut, hfront, hrest, hmerged, hresult⟩
      refine ⟨hkind'.trans hkind, front ++ [group], back, ?_, ?_,
        hmerges tree left id right span next front first rest back group hwf hkind hroses hchild
          haccepts hspan hcut hfront hrest hmerged hinvariant⟩
      · rw [hresult, List.append_assoc, List.singleton_append]
      · rw [List.length_append, hfront]
        exact (hnext tree list left.length id span next hspan).symm
    · cases hmove
      cases hsome

theorem refused_of_end {tree : Tree} {cursor : Cursor}
    (hend : seeker.plan tree list cursor = none ∨ tree.childCount list <= cursor.idx) {idx : Nat}
    {id : NodeId} (hidx : cursor.idx <= idx) (hchild : tree.child? list idx = some id) :
    seeker.accepts tree id = false := by
  rcases hend with hnone | hcount
  · unfold Seeker.plan at hnone
    split at hnone
    · rename_i hfound
      exact nextBy_none hfound hidx hchild
    · split at hnone
      · cases hnone
      · cases hnone
  · exact absurd (child?_lt hchild) (by omega)

/-- An invariant that a pass keeps where it goes past a child and where it makes a
group holds at the end of the list. -/
theorem walks_sweep {pass : Pass} (hplan : pass.plan = seeker.plan) (hsound : pass.Sound)
    (hnext : forall tree list idx id span next,
      seeker.span? tree list idx id = some (span, next) -> next = span.start + 1)
    (hpasses : seeker.Passes invariant list kind) (hmerges : seeker.Merges invariant list kind)
    {tree after : Tree} (hwf : tree.WellFormed) (hkind : tree.kind? list = some kind)
    (hstart : invariant [] ((tree.children list).map tree.rose))
    (h : pass.Walks list tree after) :
    exists roses, after.rose list = .group kind roses ∧ invariant roses [] := by
  have htags := Pass.tagsChildren_of_seeker hplan
  have hafter := (Pass.Walks.changesWithin hsound htags hwf h).wellFormed hwf
  have hskip : forall (tree : Tree) (cursor : Cursor) (move : Move), tree.WellFormed ->
      tree.SweptAt invariant list kind cursor.idx -> pass.plan tree list cursor = some move ->
      move.span = none -> tree.SweptAt invariant list kind move.cursor.idx :=
    fun tree cursor move hwf hswept hmove => sweeps_skip hpasses hwf hswept (hplan ▸ hmove)
  rcases Pass.walks_rule hsound htags (Pass.stays_of_seeker hplan) hskip
      (fun tree after cursor move span hwf hcursor hswept hmove => sweeps_group hpasses hmerges
        hnext hwf hswept (hplan ▸ hmove) (hsound tree list cursor move hcursor hmove))
      hwf ⟨hkind, [], _, rfl, rfl, hstart⟩ h with
    ⟨last, hlast, hend⟩
  rw [hplan] at hend
  have hle : last.idx <= after.childCount list := by
    rcases hlast.cut with ⟨left, right, hroses, hlength, _⟩
    have hcount := congrArg List.length hroses
    rw [List.length_map, List.length_append, hlength] at hcount
    unfold childCount
    omega
  rcases Nat.exists_eq_add_of_le hle with ⟨count, hcount⟩
  exact (sweeps_past hpasses hafter count hlast (Nat.le_of_eq hcount.symm)
    fun idx id hidx _ hchild => refused_of_end hend hidx hchild).exists_roses hafter
      (Nat.le_of_eq hcount)

/-- If each span of a pass begins with the child that is looked for, the roses behind the
walk are all of one sort once those in front of it are of another. -/
theorem walks_turn {seeker : Seeker} {pass : Pass} (hplan : pass.plan = seeker.plan)
    (hsound : pass.Sound)
    (hspan : forall tree list idx id span next,
      seeker.span? tree list idx id = some (span, next) -> span.start = idx ∧ next = idx + 1)
    {done todo : Rose -> Prop} {list : NodeId}
    (hpass : forall (tree : Tree) idx id, tree.WellFormed -> tree.child? list idx = some id ->
      (seeker.accepts tree id = true -> seeker.span? tree list idx id = none) ->
      todo (tree.rose id) -> done (tree.rose id))
    (hmerge : forall (tree : Tree) left id rest back span next group, tree.WellFormed ->
      (tree.children list).map tree.rose = left ++ (tree.rose id :: rest) ++ back ->
      tree.child? list left.length = some id -> seeker.accepts tree id = true ->
      seeker.span? tree list left.length id = some (span, next) ->
      left.length + rest.length = span.stop -> todo (tree.rose id) ->
      Rose.Merged span.kind span.extend (tree.rose id) rest group -> done group)
    {tree after : Tree} {kind : GroupKind} (hwf : tree.WellFormed)
    (hkind : tree.kind? list = some kind)
    (htodo : forall rose, rose ∈ (tree.children list).map tree.rose -> todo rose)
    (h : pass.Walks list tree after) :
    exists roses, after.rose list = .group kind roses ∧ forall rose, rose ∈ roses -> done rose := by
  have hpasses : seeker.Passes
      (fun left right => Rose.Every done left ∧ Rose.Every todo right) list kind := by
    rintro tree left id right hwf _ _ hchild hrefused ⟨hdone, htodo⟩
    refine ⟨?_, fun rose hrose => htodo rose (List.mem_cons_of_mem _ hrose)⟩
    intro rose hrose
    rcases List.mem_append.mp hrose with hmem | hlast
    · exact hdone rose hmem
    · rw [List.mem_singleton.mp hlast]
      exact hpass tree left.length id hwf hchild hrefused (htodo _ List.mem_cons_self)
  have hmerges : seeker.Merges
      (fun left right => Rose.Every done left ∧ Rose.Every todo right) list kind := by
    rintro tree left id right span next front first rest back group hwf _ hroses hchild haccepts
      hfound hcut hfront hrest hmerged ⟨hdone, htodo⟩
    rcases hspan tree list left.length id span next hfound with ⟨hstart, _⟩
    rw [List.append_assoc] at hcut
    rcases List.append_inj hcut (by omega) with ⟨rfl, hbehind⟩
    rw [List.cons_append, List.cons.injEq] at hbehind
    rcases hbehind with ⟨rfl, rfl⟩
    refine ⟨?_, fun rose hrose => htodo rose (by simp [hrose])⟩
    intro rose hrose
    rcases List.mem_append.mp hrose with hmem | hlast
    · exact hdone rose hmem
    · rw [List.mem_singleton.mp hlast]
      refine hmerge tree left id rest back span next group hwf ?_ hchild haccepts hfound hrest
        (htodo _ List.mem_cons_self) hmerged
      rw [hroses, List.append_assoc, List.cons_append]
  have hnext : forall tree list idx id span next,
      seeker.span? tree list idx id = some (span, next) -> next = span.start + 1 := by
    intro tree list idx id span next hfound
    rcases hspan tree list idx id span next hfound with ⟨hstart, hnext⟩
    rw [hstart, hnext]
  rcases walks_sweep hplan hsound hnext hpasses hmerges hwf hkind
      ⟨fun _ hmem => absurd hmem List.not_mem_nil, htodo⟩ h with
    ⟨roses, hrose, hdone, _⟩
  exact ⟨roses, hrose, hdone⟩

end Seeker

/-!
# Constructs around an operator
-/

/-- Two operands with an operator between them, each with blanks in front of it. -/
structure Rose.Joined (op operand : Trigger) (first : Rose) (blanks : List Rose) (sign : Rose)
    (blanks' : List Rose) (last : Rose) : Prop where
  first_counts : first.isBlank = false
  first_operand : first.sets operand = true
  blanks : forall rose, rose ∈ blanks -> rose.isBlank = true
  sign_counts : sign.isBlank = false
  sign_op : sign.sets op = true
  blanks' : forall rose, rose ∈ blanks' -> rose.isBlank = true
  last_counts : last.isBlank = false
  last_operand : last.sets operand = true

def Rose.LastCounts (roses : List Rose) : Option Nat -> Prop
  | none => forall rose, rose ∈ roses -> rose.isBlank = true
  | some place => exists left first blanks, roses = left ++ first :: blanks ∧ left.length = place ∧
      first.isBlank = false ∧ forall rose, rose ∈ blanks -> rose.isBlank = true

theorem Rose.LastCounts.blank {roses : List Rose} {place : Option Nat} {rose : Rose}
    (h : LastCounts roses place) (hblank : rose.isBlank = true) :
    LastCounts (roses ++ [rose]) place := by
  have happend : forall blanks : List Rose,
      (forall other, other ∈ blanks -> other.isBlank = true) ->
      forall other, other ∈ blanks ++ [rose] -> other.isBlank = true := by
    intro blanks hblanks other hother
    rcases List.mem_append.mp hother with hmem | hlast
    · exact hblanks other hmem
    · rw [List.mem_singleton.mp hlast]
      exact hblank
  cases place with
  | none =>
      exact happend roses h
  | some place =>
      rcases h with ⟨left, first, blanks, rfl, hlength, hfirst, hblanks⟩
      exact ⟨left, first, blanks ++ [rose], by simp, hlength, hfirst, happend blanks hblanks⟩

theorem Rose.LastCounts.counts {left rest : List Rose} {first : Rose}
    (h : LastCounts (left ++ first :: rest) (some left.length)) : first.isBlank = false := by
  rcases h with ⟨left', first', blanks, hcut, hlength, hcounts, _⟩
  rw [(List.cons.inj (List.append_inj hcut hlength.symm).2).1]
  exact hcounts

theorem Rose.LastCounts.blanks_between {roses left right : List Rose} {place : Option Nat}
    {stop : Nat} (h : LastCounts left place) (hroses : roses = left ++ right)
    (hlength : left.length = stop) :
    forall prev, place = some prev -> forall i rose, prev < i -> i < stop ->
      roses[i]? = some rose -> rose.isBlank = true := by
  rintro prev rfl i rose hlt hi hget
  rcases h with ⟨front, first, blanks, rfl, rfl, _, hblanks⟩
  rw [hroses, List.getElem?_append_left (by omega),
    List.getElem?_append_right (Nat.le_of_lt hlt),
    show i - front.length = i - front.length - 1 + 1 by omega, List.getElem?_cons_succ] at hget
  exact hblanks rose (List.mem_of_getElem? hget)

theorem Rose.lastCounts_append {roses : List Rose} {rose : Rose} (h : rose.isBlank = false) :
    LastCounts (roses ++ [rose]) (some roses.length) :=
  ⟨roses, rose, [], rfl, rfl, h, fun _ hmem => absurd hmem List.not_mem_nil⟩

namespace BinaryRule

/-- A rule that joins two operands and whose tests look for sorts of tokens and of
groups. -/
structure Reads (rule : BinaryRule) (op operand : Trigger) : Prop where
  isOp : forall tree id, rule.isOp tree id = op.fires tree id
  acceptsPrev : forall tree id, rule.acceptsPrev tree id = operand.fires tree id
  acceptsNext : forall tree next, rule.acceptsNext tree next = next.any (operand.fires tree)
  span : rule.span = fromPrevToNext
  retag : rule.retag = none

/-- Going past a rose that joins nothing keeps an invariant. -/
def Passes (op operand : Trigger) (invariant : List Rose -> List Rose -> Prop) : Prop :=
  forall left rose right, invariant left (rose :: right) ->
    (forall front first blanks blanks' last back, left = front ++ first :: blanks ->
      right = blanks' ++ last :: back ->
      ¬ Rose.Joined op operand first blanks rose blanks' last) ->
    invariant (left ++ [rose]) right

def Merges (rule : BinaryRule) (op operand : Trigger)
    (invariant : List Rose -> List Rose -> Prop) : Prop :=
  forall front first blanks sign blanks' last back group,
    invariant (front ++ first :: blanks) (sign :: (blanks' ++ last :: back)) ->
    Rose.Joined op operand first blanks sign blanks' last ->
    Rose.Merged rule.kind rule.extend first (blanks ++ sign :: (blanks' ++ [last])) group ->
    invariant (front ++ [group]) back

/-- Where a sweep of a rule is, with the place of the last child that counts. -/
structure SweptAt (invariant : List Rose -> List Rose -> Prop) (list : NodeId) (kind : GroupKind)
    (tree : Tree) (cursor : Cursor) : Prop where
  kind : tree.kind? list = some kind
  cut : exists left right, (tree.children list).map tree.rose = left ++ right ∧
    left.length = cursor.idx ∧ Rose.LastCounts left cursor.prev ∧ invariant left right

variable {rule : BinaryRule} {op operand : Trigger}
  {invariant : List Rose -> List Rose -> Prop} {list : NodeId} {kind : GroupKind}

theorem SweptAt.sweptAt {tree : Tree} {cursor : Cursor}
    (h : SweptAt invariant list kind tree cursor) :
    tree.SweptAt invariant list kind cursor.idx := by
  rcases h with ⟨hkind, left, right, hroses, hlength, _, hinvariant⟩
  exact ⟨hkind, left, right, hroses, hlength, hinvariant⟩

theorem split_at_sign {left rest front blanks behind back : List Rose} {first sign : Rose}
    (h : left ++ sign :: rest = front ++ first :: (blanks ++ sign :: behind) ++ back)
    (hlength : left.length = front.length + 1 + blanks.length) :
    left = front ++ first :: blanks ∧ rest = behind ++ back := by
  have hsplit : front ++ first :: (blanks ++ sign :: behind) ++ back =
      (front ++ first :: blanks) ++ sign :: (behind ++ back) := by
    simp
  rw [hsplit] at h
  rcases List.append_inj h (by rw [List.length_append, List.length_cons]; omega) with
    ⟨hleft, hrest⟩
  exact ⟨hleft, (List.cons.inj hrest).2⟩

theorem Reads.not_joined (hreads : rule.Reads op operand) {tree : Tree} (hwf : tree.WellFormed)
    {left right : List Rose} {id : NodeId} {prev : Option Nat}
    (hroses : (tree.children list).map tree.rose = left ++ tree.rose id :: right)
    (hchild : tree.child? list left.length = some id) (hlast : Rose.LastCounts left prev)
    (hnone : rule.isOp tree id = true -> rule.span? tree list prev left.length = none)
    {front blanks blanks' back : List Rose} {first last : Rose}
    (hleft : left = front ++ first :: blanks) (hright : right = blanks' ++ last :: back) :
    ¬ Rose.Joined op operand first blanks (tree.rose id) blanks' last := by
  intro hjoined
  have hid := hwf.child_lt_size (List.mem_of_getElem? hchild)
  have hsets : forall {idx other}, tree.child? list idx = some other -> forall trigger : Trigger,
      (tree.rose other).sets trigger = trigger.fires tree other := fun hother =>
    hwf.sets_rose (hwf.child_lt_size (List.mem_of_getElem? hother))
  have hisOp : rule.isOp tree id = true := by
    rw [hreads.isOp, ← hsets hchild]
    exact hjoined.sign_op
  have hprev : prev = some front.length := by
    cases prev with
    | none =>
        have hblank := hlast first (by rw [hleft]; simp)
        rw [hjoined.first_counts] at hblank
        cases hblank
    | some place =>
        rcases hlast with ⟨left', first', blanks', hcut, hlength, hcounts, hblanks⟩
        rw [hleft] at hcut
        rcases last_unique hcut hjoined.first_counts hjoined.blanks hcounts hblanks with
          ⟨rfl, _, _⟩
        rw [hlength]
  subst hprev
  rw [hright] at hroses
  rcases next_of_split hwf hroses hjoined.blanks' hjoined.last_counts with
    ⟨next, hnext, hnextRose⟩
  rw [hleft, List.append_assoc, List.cons_append] at hroses
  rcases exists_child_of_map hroses with ⟨before, hbefore, hbeforeRose⟩
  have hnextOperand : operand.fires tree next = true := by
    rw [← hsets (next_some hnext).2.1, hnextRose]
    exact hjoined.last_operand
  have hbeforeOperand : operand.fires tree before = true := by
    rw [← hsets hbefore, hbeforeRose]
    exact hjoined.first_operand
  have hspan := hnone hisOp
  unfold span? at hspan
  dsimp only at hspan
  rw [hnext, hbefore] at hspan
  dsimp only [Option.map_some] at hspan
  have haccepts : (rule.acceptsPrev tree before && rule.acceptsNext tree (some next)) = true := by
    rw [hreads.acceptsPrev, hreads.acceptsNext, Option.any_some, hnextOperand, hbeforeOperand]
    rfl
  rw [if_pos haccepts] at hspan
  cases hspan

theorem Reads.joined_of_site (hreads : rule.Reads op operand) {tree : Tree} (hwf : tree.WellFormed)
    {first sign : Rose} {blanks behind : List Rose}
    (hsite : rule.Site tree list first blanks sign behind) :
    exists blanks' last, behind = blanks' ++ [last] ∧ (first.isBlank = false ->
      sign.isBlank = false -> Rose.Joined op operand first blanks sign blanks' last) := by
  rcases hsite.span with ⟨front, back, idx, hroses, hidx, hnext, hspan⟩
  rcases hsite.acceptsPrev with ⟨firstId, hfirstMem, hfirst, hfirstOperand⟩
  rcases hsite.isOp with ⟨signId, hsignMem, hsign, hsignOp⟩
  rw [hreads.acceptsPrev, ← hwf.sets_rose (hwf.child_lt_size hfirstMem), hfirst] at hfirstOperand
  rw [hreads.isOp, ← hwf.sets_rose (hwf.child_lt_size hsignMem), hsign] at hsignOp
  rw [hreads.acceptsNext, Option.any_eq_true] at hnext
  rcases hnext with ⟨id, hid, hlastOperand⟩
  rcases Option.map_eq_some_iff.mp hid with ⟨⟨place, _⟩, hfound, rfl⟩
  rw [hreads.span, hfound] at hspan
  have hplace : place = idx + behind.length := (Prod.mk.inj hspan).2
  rw [hplace] at hfound
  rcases next_some hfound with ⟨_, hchild, hcounts⟩
  rw [isSkipped_of_rose hwf (List.mem_of_getElem? hchild)] at hcounts
  rw [← hwf.sets_rose (hwf.child_lt_size (List.mem_of_getElem? hchild))] at hlastOperand
  rcases behind_of_next hwf hroses hidx hfound with ⟨blanks', rfl, hblanks'⟩
  exact ⟨blanks', _, rfl, fun hfirstCounts hsignCounts => ⟨hfirstCounts, hfirstOperand,
    hsite.isBlank, hsignCounts, hsignOp, hblanks', hcounts, hlastOperand⟩⟩

theorem sweeps_skip (hreads : rule.Reads op operand) (hpasses : Passes op operand invariant)
    {tree : Tree} (hwf : tree.WellFormed) {cursor : Cursor} {move : Move}
    (h : SweptAt invariant list kind tree cursor) (hmove : rule.plan tree list cursor = some move)
    (hnone : move.span = none) : SweptAt invariant list kind tree move.cursor := by
  rcases h with ⟨hkind, left, right, hroses, hlength, hlast, hinvariant⟩
  rcases does_of_plan hmove with ⟨id, hchild, hdoes⟩
  rcases exists_rose_cons hroses (hlength.symm ▸ hchild) with ⟨rest, rfl⟩
  have hblank := hwf.isBlank_rose (hwf.child_lt_size (List.mem_of_getElem? hchild))
  have hroses' : (tree.children list).map tree.rose = (left ++ [tree.rose id]) ++ rest := by
    rw [hroses, List.append_assoc, List.singleton_append]
  have hlength' : (left ++ [tree.rose id]).length = cursor.idx + 1 := by
    rw [List.length_append, hlength]
    rfl
  cases hdoes with
  | blank hwhite =>
      rw [hwhite] at hblank
      refine ⟨hkind, _, rest, hroses', hlength', hlast.blank hblank,
        hpasses left _ rest hinvariant ?_⟩
      intro _ _ _ _ _ _ _ _ hjoined
      rw [hjoined.sign_counts] at hblank
      cases hblank
  | group _ _ _ =>
      cases hnone
  | past hcounts hspan =>
      rw [hcounts] at hblank
      rw [← hlength] at hspan
      have hlast' : Rose.LastCounts (left ++ [tree.rose id]) (some left.length) :=
        Rose.lastCounts_append hblank
      rw [hlength] at hlast'
      refine ⟨hkind, _, rest, hroses', hlength', hlast', hpasses left _ rest hinvariant ?_⟩
      intro front first blanks blanks' last back hleft hright
      exact hreads.not_joined hwf hroses (hlength.symm ▸ hchild) hlast hspan hleft hright

theorem sweeps_group (hreads : rule.Reads op operand)
    (hmerges : rule.Merges op operand invariant) {tree after : Tree} (hwf : tree.WellFormed)
    {cursor : Cursor} {move : Move} {span : Span} (hcursor : cursor.Ordered)
    (h : SweptAt invariant list kind tree cursor)
    (hmove : rule.plan tree list cursor = some move) (hfits : move.Fits tree list cursor)
    (hsome : move.span = some span) (hgroups : move.Groups list tree after) :
    SweptAt invariant list kind after move.cursor := by
  rcases h with ⟨hkind, left, right, hroses, hlength, hlast, hinvariant⟩
  rcases does_of_plan hmove with ⟨id, hchild, hdoes⟩
  rcases exists_rose_cons hroses (hlength.symm ▸ hchild) with ⟨rest, rfl⟩
  cases hdoes with
  | blank _ =>
      cases hsome
  | @group start stop hcounts hop hspan =>
      rcases exists_site (fromPrevToNext_sound hreads.span) hwf hcursor hfits hchild hop hspan
          (hlast.blanks_between hroses hlength) rfl rfl hgroups with
        ⟨front, first, blanks, behind, back, group, hsite, hcut, hresult, hfront, hidx, hmerged⟩
      rw [retagged_of_none hreads.retag] at hmerged
      rcases hgroups.regroups hwf hfits with ⟨_, _, hkind', _⟩
      rcases hreads.joined_of_site hwf hsite with ⟨blanks', last, rfl, hjoined⟩
      -- The roses behind the place begin with the first operand.
      rw [hroses] at hcut
      rcases split_at_sign hcut (by omega) with ⟨rfl, rfl⟩
      rw [List.append_assoc, List.singleton_append] at hinvariant
      refine ⟨hkind'.trans hkind, front ++ [group], back, ?_, ?_, ?_,
        hmerges front first blanks _ blanks' last back group hinvariant (hjoined ?_ ?_) hmerged⟩
      · rw [hresult, List.append_assoc, List.singleton_append]
      · rw [List.length_append, hfront]
        rfl
      · dsimp only
        rw [← hfront]
        apply Rose.lastCounts_append
        cases hmerged with
        | wrapped _ =>
            rfl
        | absorbed _ _ =>
            rfl
      · rcases span?_accepts hspan with ⟨prev, _, hprev, _, _, _, hstart⟩
        rw [hreads.span] at hstart
        have hplace : prev = start := (Prod.mk.inj hstart).1
        rw [hprev, hplace, ← hfront] at hlast
        exact hlast.counts
      · rw [hwf.isBlank_rose (hwf.child_lt_size (List.mem_of_getElem? hchild))]
        exact hcounts
  | past _ _ =>
      cases hsome

theorem childCount_le_of_end {tree : Tree} {cursor : Cursor}
    (hend : rule.plan tree list cursor = none ∨ tree.childCount list <= cursor.idx) :
    tree.childCount list <= cursor.idx := by
  rcases hend with hplan | hcount
  · rw [← Nat.not_lt]
    intro hlt
    rcases exists_child_of_lt hlt with ⟨id, hchild⟩
    rcases rule.plan_of_child hchild with ⟨_, hmove⟩ | ⟨_, _, _, _, _, hmove⟩ | ⟨_, _, hmove⟩
    all_goals
      rw [hmove] at hplan
      cases hplan
  · exact hcount

/-- An invariant that a rule keeps where it goes past a rose and where it joins two
operands holds at the end of the list. -/
theorem walks_sweep (hreads : rule.Reads op operand) (hpasses : Passes op operand invariant)
    (hmerges : rule.Merges op operand invariant) {tree after : Tree} (hwf : tree.WellFormed)
    (hkind : tree.kind? list = some kind)
    (hstart : invariant [] ((tree.children list).map tree.rose))
    (h : (Pass.binary rule).Walks list tree after) :
    exists roses, after.rose list = .group kind roses ∧ invariant roses [] := by
  have hsound : (Pass.binary rule).Sound :=
    Pass.binary_sound (fromPrevToNext_sound hreads.span) hreads.retag
  have htags := Pass.tagsChildren_binary rule
  have hafter := (Pass.Walks.changesWithin hsound htags hwf h).wellFormed hwf
  have hstart' : SweptAt invariant list kind tree {} :=
    ⟨hkind, [], _, rfl, rfl, fun _ hmem => absurd hmem List.not_mem_nil, hstart⟩
  rcases Pass.walks_rule hsound htags (Pass.stays_binary rule)
      (fun tree cursor move hwf hswept hmove => sweeps_skip hreads hpasses hwf hswept hmove)
      (fun tree after cursor move span hwf hcursor hswept hmove =>
        sweeps_group hreads hmerges hwf hcursor hswept hmove
          (hsound tree list cursor move hcursor hmove))
      hwf hstart' h with
    ⟨last, hlast, hend⟩
  exact hlast.sweptAt.exists_roses hafter (childCount_le_of_end hend)

end BinaryRule
end SqlLayout
