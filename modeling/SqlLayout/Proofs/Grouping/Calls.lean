import SqlLayout.Proofs.Grouping.Walks

/-!
# Courses of grouping

The walk along a list has a budget, and an edit that names a wrong place fails.
A course has neither: it goes on for as long as a move is planned, and notes each
span that is put into a group with the tree in which this is done.  There is one
course from each tree, it comes to an end, it groups only children that are there,
and its outcome is the one of the run with the budget.
-/

namespace SqlLayout
namespace Grouping

/-- A span of a list that is put into a group, and the tree before. -/
structure Call where
  tree : Tree
  list : NodeId
  span : Span

/-- The span starts at a child of the list and ends at the same or a later one. -/
def Call.InRange (call : Call) : Prop :=
  call.span.start <= call.span.stop ∧ call.span.stop < call.tree.childCount call.list

abbrev Course := Tree -> List Call -> Except Error Unit × Tree -> Prop

namespace Course

/-- An edit that makes no calls. -/
inductive Edits (f : Tree -> Tree) : Course where
  | intro {tree : Tree} : Edits f tree [] (.ok (), f tree)

inductive Fails (e : Error) : Course where
  | intro {tree : Tree} : Fails e tree [] (.error e, tree)

/-- The call that puts a span into a group. -/
inductive Groups (list : NodeId) (span : Span) : Course where
  | ok {tree after : Tree} {group : NodeId} :
      tree.groupTokens list span.kind span.start span.stop span.extend = .ok (group, after) ->
      Groups list span tree [⟨tree, list, span⟩] (.ok (), after)
  | fault {tree : Tree} {fault : Fault} :
      tree.groupTokens list span.kind span.start span.stop span.extend = .error fault ->
      Groups list span tree [⟨tree, list, span⟩] (.error (.fault fault), tree)

/-- A course and, if it goes well, another one after it. -/
inductive Then (first second : Course) : Course where
  | goes {tree middle : Tree} {calls later : List Call} {outcome : Except Error Unit × Tree} :
      first tree calls (.ok (), middle) -> second middle later outcome ->
      Then first second tree (calls ++ later) outcome
  | stops {tree after : Tree} {calls : List Call} {e : Error} :
      first tree calls (.error e, after) -> Then first second tree calls (.error e, after)

/-- A course that depends on the tree it starts from. -/
def Reads (course : Tree -> Course) : Course :=
  fun tree => course tree tree

def InTurn {alpha : Type} (visited : alpha -> Course) : List alpha -> Course
  | [] => Edits id
  | a :: rest => Then (visited a) (InTurn visited rest)

def Maybe {alpha : Type} (visited : alpha -> Course) : Option alpha -> Course
  | none => Edits id
  | some a => visited a

def Performs (visited : NodeId -> Course) (list : NodeId) (move : Move) : Course :=
  Then (Maybe visited move.visit) (Then (Edits move.tagged) (Maybe (Groups list) move.span))

/-- Move after move along a list, until none is planned. -/
inductive Walks (visited : NodeId -> Course) (list : NodeId)
    (plan : Tree -> NodeId -> Cursor -> Option Move) : Cursor -> Course where
  | ends {tree : Tree} {cursor : Cursor} :
      plan tree list cursor = none -> Walks visited list plan cursor tree [] (.ok (), tree)
  | moves {tree middle : Tree} {cursor : Cursor} {move : Move} {calls later : List Call}
      {outcome : Except Error Unit × Tree} :
      plan tree list cursor = some move ->
      Performs visited list move tree calls (.ok (), middle) ->
      Walks visited list plan move.cursor middle later outcome ->
      Walks visited list plan cursor tree (calls ++ later) outcome
  | stops {tree after : Tree} {cursor : Cursor} {move : Move} {calls : List Call} {e : Error} :
      plan tree list cursor = some move ->
      Performs visited list move tree calls (.error e, after) ->
      Walks visited list plan cursor tree calls (.error e, after)

def Runs (pass : Pass) (limit : Nat) : Nat -> NodeId -> Course
  | 0, _ => Fails (.nestingTooDeep limit)
  | room + 1, list =>
      Reads fun tree =>
        Then (InTurn (Runs pass limit room) ((tree.sublists list).filter (pass.enters tree)))
          (Reads fun tree =>
            if pass.applies tree list then Walks (Runs pass limit room) list pass.plan {}
            else Edits id)

/-!
# There is one course at most
-/

def Determined (course : Course) : Prop :=
  forall tree calls calls' outcome outcome', course tree calls outcome ->
    course tree calls' outcome' -> calls = calls' ∧ outcome = outcome'

theorem determined_edits (f : Tree -> Tree) : Determined (Edits f) := by
  intro tree calls calls' outcome outcome' h h'
  cases h
  cases h'
  exact ⟨rfl, rfl⟩

theorem determined_fails (e : Error) : Determined (Fails e) := by
  intro tree calls calls' outcome outcome' h h'
  cases h
  cases h'
  exact ⟨rfl, rfl⟩

theorem determined_groups (list : NodeId) (span : Span) : Determined (Groups list span) := by
  intro tree calls calls' outcome outcome' h h'
  cases h with
  | ok hok =>
      cases h' with
      | ok hok' =>
          rw [hok] at hok'
          cases hok'
          exact ⟨rfl, rfl⟩
      | fault hfault' =>
          rw [hok] at hfault'
          cases hfault'
  | fault hfault =>
      cases h' with
      | ok hok' =>
          rw [hfault] at hok'
          cases hok'
      | fault hfault' =>
          rw [hfault] at hfault'
          cases hfault'
          exact ⟨rfl, rfl⟩

theorem determined_then {first second : Course} (hfirst : Determined first)
    (hsecond : Determined second) : Determined (Then first second) := by
  intro tree calls calls' outcome outcome' h h'
  cases h with
  | goes hok hlater =>
      cases h' with
      | goes hok' hlater' =>
          rcases hfirst _ _ _ _ _ hok hok' with ⟨rfl, hmiddle⟩
          cases hmiddle
          rcases hsecond _ _ _ _ _ hlater hlater' with ⟨rfl, rfl⟩
          exact ⟨rfl, rfl⟩
      | stops herror' =>
          cases (hfirst _ _ _ _ _ hok herror').2
  | stops herror =>
      cases h' with
      | goes hok' _ =>
          cases (hfirst _ _ _ _ _ herror hok').2
      | stops herror' =>
          exact hfirst _ _ _ _ _ herror herror'

theorem determined_reads {course : Tree -> Course} (h : forall tree, Determined (course tree)) :
    Determined (Reads course) :=
  fun tree => h tree tree

theorem determined_inTurn {alpha : Type} {visited : alpha -> Course}
    (h : forall a, Determined (visited a)) (items : List alpha) :
    Determined (InTurn visited items) := by
  induction items with
  | nil =>
      exact determined_edits id
  | cons a rest ih =>
      exact determined_then (h a) ih

theorem determined_maybe {alpha : Type} {visited : alpha -> Course}
    (h : forall a, Determined (visited a)) (item : Option alpha) :
    Determined (Maybe visited item) := by
  cases item with
  | none =>
      exact determined_edits id
  | some a =>
      exact h a

variable {visited : NodeId -> Course} (hvisited : forall id, Determined (visited id))
include hvisited

theorem determined_performs (list : NodeId) (move : Move) :
    Determined (Performs visited list move) :=
  determined_then (determined_maybe hvisited _)
    (determined_then (determined_edits _) (determined_maybe (determined_groups list) _))

theorem determined_walks (list : NodeId) (plan : Tree -> NodeId -> Cursor -> Option Move)
    (cursor : Cursor) : Determined (Walks visited list plan cursor) := by
  have hperforms := determined_performs hvisited list
  intro tree calls calls' outcome outcome' h
  induction h generalizing calls' outcome' with
  | ends hnone =>
      intro h'
      cases h' with
      | ends _ =>
          exact ⟨rfl, rfl⟩
      | moves hplan' _ _ =>
          rw [hnone] at hplan'
          cases hplan'
      | stops hplan' _ =>
          rw [hnone] at hplan'
          cases hplan'
  | moves hplan hok _ ih =>
      intro h'
      cases h' with
      | ends hnone' =>
          rw [hplan] at hnone'
          cases hnone'
      | moves hplan' hok' hlater' =>
          rw [hplan] at hplan'
          cases hplan'
          rcases hperforms _ _ _ _ _ _ hok hok' with ⟨rfl, hmiddle⟩
          cases hmiddle
          rcases ih _ _ hlater' with ⟨rfl, rfl⟩
          exact ⟨rfl, rfl⟩
      | stops hplan' herror' =>
          rw [hplan] at hplan'
          cases hplan'
          cases (hperforms _ _ _ _ _ _ hok herror').2
  | stops hplan herror =>
      intro h'
      cases h' with
      | ends hnone' =>
          rw [hplan] at hnone'
          cases hnone'
      | moves hplan' hok' _ =>
          rw [hplan] at hplan'
          cases hplan'
          cases (hperforms _ _ _ _ _ _ herror hok').2
      | stops hplan' herror' =>
          rw [hplan] at hplan'
          cases hplan'
          exact hperforms _ _ _ _ _ _ herror herror'

omit hvisited in
theorem determined_runs (pass : Pass) (limit room : Nat) (list : NodeId) :
    Determined (Runs pass limit room list) := by
  induction room generalizing list with
  | zero =>
      exact determined_fails _
  | succ room ih =>
      apply determined_reads
      intro start
      apply determined_then
      · exact determined_inTurn ih _
      · apply determined_reads
        intro tree
        split
        · exact determined_walks ih list pass.plan {}
        · exact determined_edits id

end Course

/-!
# There is a course
-/

/-- A course with this outcome, all of whose calls are in range. -/
def Course.Reaches (course : Course) (tree : Tree) (outcome : Except Error Unit × Tree) : Prop :=
  exists calls, course tree calls outcome ∧ forall call, call ∈ calls -> call.InRange

theorem perform_eq (visit : NodeId -> Grouping Unit) (list : NodeId) (move : Move) :
    perform visit list move =
      (move.visit.forM visit >>= fun _ =>
        modify move.tagged >>= fun _ => move.span.forM (groupSpan list)) := by
  rcases move with ⟨_ | id, _ | ⟨token, category⟩, _ | span, cursor⟩
  · rfl
  · rfl
  · rfl
  · rfl
  · rfl
  · rfl
  · rfl
  · rfl

namespace Course

theorem reaches_edits (f : Tree -> Tree) (tree : Tree) :
    (Edits f).Reaches tree (.ok (), f tree) :=
  ⟨[], Edits.intro, List.forall_mem_nil _⟩

theorem reaches_groups {list : NodeId} {span : Span} {tree : Tree}
    (h : Call.InRange ⟨tree, list, span⟩) :
    (Groups list span).Reaches tree (exec (groupSpan list span) tree) := by
  refine ⟨[⟨tree, list, span⟩], ?_, List.forall_mem_singleton.mpr h⟩
  unfold groupSpan
  rw [exec_get_bind]
  cases hgroup : tree.groupTokens list span.kind span.start span.stop span.extend with
  | error fault =>
      exact Groups.fault hgroup
  | ok pair =>
      exact Groups.ok hgroup

theorem reaches_reads {course : Tree -> Course} {tree : Tree}
    {outcome : Except Error Unit × Tree} (h : (course tree).Reaches tree outcome) :
    (Reads course).Reaches tree outcome :=
  h

theorem reaches_maybe {alpha : Type} {visited : alpha -> Course} {f : alpha -> Grouping Unit}
    {item : Option alpha} {tree : Tree}
    (h : forall a, item = some a -> (visited a).Reaches tree (exec (f a) tree)) :
    (Maybe visited item).Reaches tree (exec (item.forM f) tree) := by
  cases item with
  | none =>
      exact reaches_edits id tree
  | some a =>
      exact h a rfl

theorem reaches_then {first second : Course} {m : Grouping Unit} {f : Unit -> Grouping Unit}
    {tree : Tree} (hfirst : first.Reaches tree (exec m tree))
    (hsecond : forall after, exec m tree = (.ok (), after) ->
      second.Reaches after (exec (f ()) after)) :
    (Then first second).Reaches tree (exec (m >>= f) tree) := by
  rw [exec_bind]
  rcases hfirst with ⟨calls, hcalls, hrange⟩
  rcases hexec : exec m tree with ⟨e | u, after⟩
  · rw [hexec] at hcalls
    exact ⟨calls, Then.stops hcalls, hrange⟩
  · rw [hexec] at hcalls
    rcases hsecond after hexec with ⟨later, hlater, hrange'⟩
    refine ⟨calls ++ later, Then.goes hcalls hlater, ?_⟩
    intro call hcall
    exact (List.mem_append.mp hcall).elim (hrange call) (hrange' call)

theorem reaches_inTurn {alpha : Type} {visited : alpha -> Course} {f : alpha -> Grouping Unit}
    {items : List alpha}
    (hvisited : forall a, a ∈ items -> forall tree : Tree, tree.WellFormed ->
      (visited a).Reaches tree (exec (f a) tree) ∧ (exec (f a) tree).2.WellFormed)
    {tree : Tree} (hwf : tree.WellFormed) :
    (InTurn visited items).Reaches tree (exec (items.forM f) tree) ∧
      (exec (items.forM f) tree).2.WellFormed := by
  induction items generalizing tree with
  | nil =>
      exact ⟨reaches_edits id tree, hwf⟩
  | cons a rest ih =>
      rcases hvisited a List.mem_cons_self tree hwf with ⟨hfirst, hafter⟩
      have hrest : forall middle : Tree, middle.WellFormed ->
          (InTurn visited rest).Reaches middle (exec (rest.forM f) middle) ∧
            (exec (rest.forM f) middle).2.WellFormed := by
        intro middle hmiddle
        exact ih (fun b hb => hvisited b (List.mem_cons_of_mem _ hb)) hmiddle
      change (Then (visited a) (InTurn visited rest)).Reaches tree
          (exec (f a >>= fun _ => rest.forM f) tree) ∧
        (exec (f a >>= fun _ => rest.forM f) tree).2.WellFormed
      constructor
      · apply reaches_then hfirst
        intro middle hexec
        rw [hexec] at hafter
        exact (hrest middle hafter).1
      · rw [exec_bind]
        rcases hexec : exec (f a) tree with ⟨e | u, middle⟩
        · rw [hexec] at hafter
          exact hafter
        · rw [hexec] at hafter
          exact (hrest middle hafter).2

end Course

end Grouping

open Grouping Tree

namespace Pass

variable {pass : Pass} (hsound : pass.Sound) {limit : Nat} {list : NodeId}
include hsound

theorem reaches_performs {visited : NodeId -> Course} {visit : NodeId -> Grouping Unit}
    (hvisited : forall id (tree : Tree), tree.WellFormed ->
      (visited id).Reaches tree (exec (visit id) tree))
    {tree : Tree} {cursor : Cursor} {move : Move} (hwf : tree.WellFormed)
    (hcursor : cursor.Ordered) (hplan : pass.plan tree list cursor = some move) :
    (Course.Performs visited list move).Reaches tree (exec (perform visit list move) tree) := by
  have hfits := hsound tree list cursor move hcursor hplan
  rw [perform_eq]
  apply Course.reaches_then (Course.reaches_maybe fun id _ => hvisited id tree hwf)
  intro middle hmiddle
  apply Course.reaches_then (m := modify move.tagged) (Course.reaches_edits move.tagged middle)
  intro after hafter
  cases hafter
  apply Course.reaches_maybe
  intro span hspan
  apply Course.reaches_groups
  -- A move with a span visits no child, so the positions are those of the tree before.
  rw [hfits.visit_eq_none (by rw [hspan]; exact Option.some_ne_none span)] at hmiddle
  cases hmiddle
  rcases hfits.span_inside span hspan with ⟨hstart, hstop, _⟩
  refine ⟨hstart, ?_⟩
  change span.stop < ((move.tagged tree).children list).length
  rw [(Move.retagged_tagged hfits).children_eq]
  exact hstop

variable (htags : pass.TagsChildren)
include htags

/-- Each move comes nearer to the end of the list, so a walk with a move for each
child that is left ends by itself. -/
theorem reaches_walks {visited : NodeId -> Course} {visit : NodeId -> Grouping Unit}
    (hvisited : forall id (tree : Tree), tree.WellFormed ->
      (visited id).Reaches tree (exec (visit id) tree))
    (hvisit : forall id (tree : Tree), tree.WellFormed ->
      tree.ChangesWithin id (exec (visit id) tree).2)
    {budget : Nat} {tree : Tree} {cursor : Cursor} (hwf : tree.WellFormed)
    (hcursor : cursor.Ordered) (hbudget : tree.childCount list <= cursor.idx + budget) :
    (Course.Walks visited list pass.plan cursor).Reaches tree
      (exec (walk visit list pass.plan budget cursor) tree) := by
  induction budget generalizing tree cursor with
  | zero =>
      have hnone : pass.plan tree list cursor = none := by
        rw [Option.eq_none_iff_forall_ne_some]
        intro move hplan
        exact Nat.not_le_of_lt (hsound tree list cursor move hcursor hplan).inside hbudget
      exact ⟨[], Course.Walks.ends hnone, List.forall_mem_nil _⟩
  | succ budget ih =>
      unfold walk
      rw [exec_get_bind]
      cases hplan : pass.plan tree list cursor with
      | none =>
          exact ⟨[], Course.Walks.ends hplan, List.forall_mem_nil _⟩
      | some move =>
          have hfits := hsound tree list cursor move hcursor hplan
          have hchanges := perform_changesWithin hsound htags hvisit hwf hcursor hplan
          rcases reaches_performs hsound hvisited hwf hcursor hplan with ⟨calls, hcalls, hrange⟩
          dsimp only
          rw [exec_bind]
          rcases hexec : exec (perform visit list move) tree with ⟨e | u, after⟩
          · rw [hexec] at hcalls
            exact ⟨calls, Course.Walks.stops hplan hcalls, hrange⟩
          · rw [hexec] at hcalls hchanges
            have hmoved := moved_of_perform hsound hwf hcursor hplan hexec
            have hcount := childCount_of_moved hsound hvisit hwf hcursor hplan hmoved
            have hnext : after.childCount list <= move.cursor.idx + budget := by
              omega
            rcases ih (hchanges.wellFormed hwf) hfits.ordered hnext with
              ⟨later, hlater, hrange'⟩
            refine ⟨calls ++ later, Course.Walks.moves hplan hcalls hlater, ?_⟩
            intro call hcall
            exact (List.mem_append.mp hcall).elim (hrange call) (hrange' call)

theorem reaches_runs (limit room : Nat) (list : NodeId) {tree : Tree} (hwf : tree.WellFormed) :
    (Course.Runs pass limit room list).Reaches tree (exec (pass.run limit room list) tree) := by
  induction room generalizing list tree with
  | zero =>
      exact ⟨[], Course.Fails.intro, List.forall_mem_nil _⟩
  | succ room ih =>
      have hvisit : forall id (tree : Tree), tree.WellFormed ->
          tree.ChangesWithin id (exec (pass.run limit room id) tree).2 :=
        fun id _ h => run_changesWithin hsound htags limit room id h
      have hsublists : forall ids : List NodeId,
          (Course.InTurn (Course.Runs pass limit room) ids).Reaches tree
              (exec (ids.forM (pass.run limit room)) tree) ∧
            (exec (ids.forM (pass.run limit room)) tree).2.WellFormed :=
        fun ids => Course.reaches_inTurn
          (fun id _ tree h => ⟨ih id h, (hvisit id tree h).wellFormed h⟩) hwf
      unfold run
      rw [exec_get_bind]
      rcases hsublists ((tree.sublists list).filter (pass.enters tree)) with ⟨hinTurn, hafter⟩
      apply Course.reaches_reads
      apply Course.reaches_then hinTurn
      intro middle hmiddle
      rw [hmiddle] at hafter
      rw [exec_get_bind]
      apply Course.reaches_reads
      split
      · exact reaches_walks hsound htags (fun id _ h => ih id h) hvisit hafter
          (Cursor.ordered_at 0) (Nat.le_of_eq (Nat.zero_add _).symm)
      · exact Course.reaches_edits id middle

end Pass
end SqlLayout
