import SqlLayout.Proofs.Grouping.Reached

/-!
# Tokens that a pass collects

Some passes put each token of a sort into a group: comments, names, the words that open
clauses.  After a run each such token below the list is a child of a group of the pass,
or has been below one before.
-/

namespace SqlLayout

open Grouping

def Tree.Housed (tree : Tree) (kind : GroupKind) (id : NodeId) : Prop :=
  exists group, tree.isKind group kind = true ∧ id ∈ tree.children group

/-!
# One span
-/

namespace Move

variable {tree after : Tree} {list : NodeId} {cursor : Cursor} {move : Move}

theorem Fits.retag_ne_after (h : move.Fits tree list cursor) (hstep : tree.GroupStep after)
    {id : NodeId} (hgroup : after.isGroup id = true) (category : Category) :
    move.retag ≠ some (id, category) := by
  by_cases hlt : id < tree.size
  · apply h.retag_ne
    rw [← Tree.isGroup_congr (Tree.kind?_of_steps (.single hstep) hlt)]
    exact hgroup
  · intro hretag
    rcases h.exists_token_of_retag hretag with ⟨token, htoken⟩
    exact hlt (Tree.lt_size_of_token? htoken)

namespace Gathers

variable {span : Span} {front moved back : List NodeId} {group : NodeId}
  (h : move.Gathers list tree span front moved back group after)
  (hfits : move.Fits tree list cursor)
include h hfits

theorem mem_children {parent id : NodeId} (hmem : id ∈ tree.children parent) :
    id ∈ after.children parent ∨
      (parent = list ∧ id ∈ moved ∧ (id = group ∨ id ∈ after.children group)) := by
  by_cases hlist : parent = list
  · subst hlist
    rw [h.children_eq, List.mem_append, List.mem_append] at hmem
    rw [h.children_list, List.mem_append, List.mem_cons]
    rcases hmem with (hfront | hmoved) | hback
    · exact Or.inl (Or.inl hfront)
    · refine Or.inr ⟨rfl, hmoved, ?_⟩
      rcases h.new_or_first with ⟨_, hnew⟩ | ⟨_, _, rest, rfl, hfirst⟩
      · rw [hnew]
        exact Or.inr hmoved
      · rw [hfirst, List.mem_append]
        exact (List.mem_cons.mp hmoved).imp_right Or.inr
    · exact Or.inl (Or.inr (Or.inr hback))
  · left
    by_cases hgroup : parent = group
    · subst hgroup
      rcases h.first_of_lt_size (Tree.lt_size_of_mem_children hmem) with ⟨_, rest, _, hfirst⟩
      rw [hfirst]
      exact List.mem_append_left _ hmem
    · have hcontent := h.content?_other parent hlist hgroup
        (hfits.retag_ne (Tree.isGroup_of_mem_children hmem))
      rw [(Tree.observers_congr hcontent).2.2]
      exact hmem

theorem mem_children_after (hstep : tree.GroupStep after) {parent id : NodeId}
    (hmem : id ∈ after.children parent) :
    id ∈ tree.children parent ∨ (parent = list ∧ id = group) ∨ (parent = group ∧ id ∈ moved) := by
  by_cases hlist : parent = list
  · subst hlist
    by_cases hgroup : id = group
    · exact Or.inr (Or.inl ⟨rfl, hgroup⟩)
    · exact Or.inl (h.mem_front_or_back hmem hgroup)
  · by_cases hgroup : parent = group
    · subst hgroup
      rcases h.new_or_first with ⟨_, hnew⟩ | ⟨_, _, rest, rfl, hfirst⟩
      · rw [hnew] at hmem
        exact Or.inr (Or.inr ⟨rfl, hmem⟩)
      · rw [hfirst, List.mem_append] at hmem
        rcases hmem with hold | hrest
        · exact Or.inl hold
        · exact Or.inr (Or.inr ⟨rfl, List.mem_cons_of_mem _ hrest⟩)
    · have hcontent := h.content?_other parent hlist hgroup
        (hfits.retag_ne_after hstep (Tree.isGroup_of_mem_children hmem))
      rw [(Tree.observers_congr hcontent).2.2] at hmem
      exact Or.inl hmem

/-- A token stays housed, if a span that takes it out of its group makes one of the same
kind. -/
theorem housed {kind : GroupKind} {id : NodeId} (hwf : tree.WellFormed)
    (hstep : tree.GroupStep after)
    (hid : tree.isGroup id = false) (hhoused : tree.Housed kind id)
    (hkind : tree.isKind list kind = true -> id ∈ moved -> span.kind = kind) :
    after.Housed kind id := by
  rcases hhoused with ⟨parent, hparent, hmem⟩
  rcases h.mem_children hfits hmem with hstays | ⟨rfl, hmoved, hinside⟩
  · refine ⟨parent, ?_, hstays⟩
    rw [Tree.isKind, Tree.kind?_of_steps (.single hstep) (Tree.lt_size_of_mem_children hmem)]
    exact hparent
  · refine ⟨group, ?_, ?_⟩
    · rw [Tree.isKind, h.kind?_group, hkind hparent hmoved, beq_self_eq_true]
    · apply hinside.resolve_left
      rintro rfl
      rcases h.first_of_lt_size (hwf.child_lt_size hmem) with ⟨hsome, _⟩
      rw [Tree.isGroup_iff_kind?.mpr ⟨_, hsome⟩] at hid
      cases hid

end Gathers
end Move

/-!
# Walks
-/

namespace Seeker

theorem plan_cases {seeker : Seeker} {tree : Tree} {list : NodeId} {cursor : Cursor} {move : Move}
    (h : seeker.plan tree list cursor = some move) :
    exists idx id, tree.nextBy list cursor.idx (seeker.accepts tree) = some (idx, id) ∧
      ((seeker.span? tree list idx id = none ∧ move = Pass.goto (idx + 1)) ∨
        exists span next, seeker.span? tree list idx id = some (span, next) ∧
          move = Pass.groupThen span next) := by
  unfold plan at h
  split at h
  · cases h
  · rename_i idx id hnext
    refine ⟨idx, id, hnext, ?_⟩
    split at h
    · rename_i span next hspan
      cases h
      exact Or.inr ⟨span, next, hspan, rfl⟩
    · rename_i hnone
      cases h
      exact Or.inl ⟨hnone, rfl⟩

theorem nextBy_of_plan_none {seeker : Seeker} {tree : Tree} {list : NodeId} {cursor : Cursor}
    (h : seeker.plan tree list cursor = none) :
    tree.nextBy list cursor.idx (seeker.accepts tree) = none := by
  unfold plan at h
  split at h
  · assumption
  · split at h
    · cases h
    · cases h

/-- A seeker that makes a new group of each token of a sort, which stands first in it. -/
structure Collects (seeker : Seeker) (kind : GroupKind) (p : Token -> Bool) : Prop where
  kept : forall token after : Token, token.Kept after -> p after = p token
  refuses : forall tree id, seeker.accepts tree id = false -> tree.tokenHas id p = false
  leaves : forall tree list idx id, seeker.accepts tree id = true ->
    seeker.span? tree list idx id = none -> tree.tokenHas id p = false
  takes : forall tree list idx id span next, seeker.span? tree list idx id = some (span, next) ->
    span.kind = kind ∧ span.start = idx ∧ span.extend = false ∧ next = idx + 1

end Seeker

namespace Pass

variable {pass : Pass} {seeker : Seeker} {kind : GroupKind} {p : Token -> Bool}
  {start tree after : Tree} {list id : NodeId} {cursor : Cursor} {move : Move}

/-- How far a walk is: behind the place no token of the sort is left in the list, and those
that have left the list are housed. -/
structure Collected (kind : GroupKind) (p : Token -> Bool) (start : Tree) (list : NodeId)
    (tree : Tree) (cursor : Cursor) : Prop where
  behind : forall idx id, idx < cursor.idx -> tree.child? list idx = some id ->
    tree.tokenHas id p = false
  housed : forall id, id ∈ start.children list -> tree.tokenHas id p = true ->
    id ∈ tree.children list ∨ tree.Housed kind id

theorem Collected.behind_hit (hcollects : seeker.Collects kind p)
    (h : Collected kind p start list tree cursor) {idx : Nat}
    (hnext : tree.nextBy list cursor.idx (seeker.accepts tree) = some (idx, id))
    {j : Nat} {other : NodeId} (hj : j < idx) (hchild : tree.child? list j = some other) :
    tree.tokenHas other p = false := by
  rcases Tree.nextBy_some hnext with ⟨_, _, _, hbetween⟩
  rcases Nat.lt_or_ge j cursor.idx with hlt | hge
  · exact h.behind j other hlt hchild
  · exact hcollects.refuses tree other (hbetween j other hge hj hchild)

theorem Collected.skip (hcollects : seeker.Collects kind p)
    (h : Collected kind p start list tree cursor)
    (hplan : seeker.plan tree list cursor = some move) (hspan : move.span = none) :
    Collected kind p start list tree move.cursor := by
  rcases Seeker.plan_cases hplan with ⟨idx, id, hnext, ⟨hnone, rfl⟩ | ⟨span, next, _, rfl⟩⟩
  · refine ⟨?_, h.housed⟩
    intro j other hj hchild
    rcases Nat.lt_or_eq_of_le (Nat.le_of_lt_succ hj) with hlt | rfl
    · exact h.behind_hit hcollects hnext hlt hchild
    · rcases Tree.nextBy_some hnext with ⟨_, hid, haccepts, _⟩
      cases hid.symm.trans hchild
      exact hcollects.leaves tree list j id haccepts hnone
  · cases hspan

theorem Collected.gathers (hcollects : seeker.Collects kind p) (hwf : tree.WellFormed)
    (hfits : move.Fits tree list cursor) (hstep : tree.GroupStep after)
    (h : Collected kind p start list tree cursor)
    (hplan : seeker.plan tree list cursor = some move) (hgroups : move.Groups list tree after) :
    Collected kind p start list after move.cursor := by
  have hsame : forall other, after.tokenHas other p = tree.tokenHas other p :=
    hstep.tokensKept.tokenHas_eq hcollects.kept
  rcases hgroups.gathers hwf hfits with ⟨span, front, moved, back, group, hg⟩
  rcases Seeker.plan_cases hplan with ⟨idx, id, hnext, ⟨_, rfl⟩ | ⟨found, next, hfound, rfl⟩⟩
  · cases hg.span_eq
  · cases hg.span_eq
    rcases hcollects.takes tree list idx id span next hfound with ⟨hkind, rfl, _, rfl⟩
    refine ⟨?_, ?_⟩
    · intro j other hj hchild
      rcases Nat.lt_or_eq_of_le (Nat.le_of_lt_succ hj) with hlt | rfl
      · rw [hg.child?_front hlt] at hchild
        rw [hsame]
        exact h.behind_hit hcollects hnext hlt hchild
      · cases hg.child?_start.symm.trans hchild
        exact Tree.tokenHas_of_isGroup (Tree.isGroup_iff_kind?.mpr ⟨_, hg.kind?_group⟩) _
    · intro other hother hp
      rw [hsame] at hp
      have htoken : tree.isGroup other = false := by
        rcases Tree.tokenHas_iff.mp hp with ⟨token, htoken, _⟩
        exact Tree.isGroup_of_token? htoken
      rcases h.housed other hother hp with hmem | hhoused
      · rcases hg.mem_children hfits hmem with hstays | ⟨_, hmoved, hinside⟩
        · exact Or.inl hstays
        · refine Or.inr ⟨group, ?_, ?_⟩
          · rw [Tree.isKind, hg.kind?_group, hkind, beq_self_eq_true]
          · apply hinside.resolve_left
            rintro rfl
            rw [← hsame, Tree.tokenHas_of_isGroup
              (Tree.isGroup_iff_kind?.mpr ⟨_, hg.kind?_group⟩)] at hp
            cases hp
      · exact Or.inr (hg.housed hfits hwf hstep htoken hhoused fun _ _ => hkind)

theorem housed_of_walk (hplan : pass.plan = seeker.plan) (hsound : pass.Sound)
    (hcollects : seeker.Collects kind p) (hwf : tree.WellFormed)
    (hwalk : pass.Walks list tree after) (hmem : id ∈ tree.children list)
    (hp : after.tokenHas id p = true) : after.Housed kind id := by
  have hskip : forall (next : Tree) (cursor : Cursor) (move : Move), next.WellFormed ->
      Collected kind p tree list next cursor -> pass.plan next list cursor = some move ->
      move.span = none -> Collected kind p tree list next move.cursor := by
    intro next cursor move _ hdone hmove hspan
    rw [hplan] at hmove
    exact hdone.skip hcollects hmove hspan
  have hspans : forall (next later : Tree) (cursor : Cursor) (move : Move) (span : Span),
      next.WellFormed -> cursor.Ordered -> Collected kind p tree list next cursor ->
      pass.plan next list cursor = some move -> move.span = some span ->
      move.Groups list next later -> Collected kind p tree list later move.cursor := by
    intro next later cursor move span hnext hcursor hdone hmove _ hgroups
    have hfits := hsound next list cursor move hcursor hmove
    have hstep := groupStep_of_groups hsound hnext hcursor hmove hgroups
    rw [hplan] at hmove
    exact hdone.gathers hcollects hnext hfits hstep hmove hgroups
  have hstart : Collected kind p tree list tree {} :=
    ⟨fun _ _ hlt => absurd hlt (Nat.not_lt_zero _), fun _ hid _ => Or.inl hid⟩
  rcases walks_rule hsound (tagsChildren_of_seeker hplan) (stays_of_seeker hplan) hskip hspans
    hwf hstart hwalk with ⟨last, hlast, hend⟩
  rcases hlast.housed id hmem hp with hchild | hhoused
  · rcases List.mem_iff_getElem?.mp hchild with ⟨idx, hidx⟩
    have hleft : after.tokenHas id p = false := by
      rcases Nat.lt_or_ge idx last.idx with hlt | hge
      · exact hlast.behind idx id hlt hidx
      · rcases hend with hnone | hcount
        · rw [hplan] at hnone
          refine hcollects.refuses after id (Tree.nextBy_none ?_ hge hidx)
          exact Seeker.nextBy_of_plan_none hnone
        · exact absurd (Tree.child?_lt hidx) (by omega)
    rw [hp] at hleft
    cases hleft
  · exact hhoused

end Pass

/-!
# Runs
-/

theorem Tree.Untouched.housed {tree after : Tree} {list id : NodeId} {kind : GroupKind}
    (h : tree.Untouched list after) (hwf : tree.WellFormed) (hbelow : tree.Above list id)
    (hhoused : tree.Housed kind id) : after.Housed kind id := by
  rcases hhoused with ⟨group, hgroup, hmem⟩
  have hat : tree.AtOrAbove list group := by
    rcases Tree.above_cases (hwf.parent?_of_mem hmem) hbelow with heq | habove
    · exact Or.inl heq
    · exact Or.inr habove
  have hobservers := (h.below hat).observers
  refine ⟨group, ?_, ?_⟩
  · rw [Tree.isKind, hobservers.1]
    exact hgroup
  · rw [hobservers.2.2]
    exact hmem

namespace Survey

variable {survey : Survey} {kind : GroupKind} {tree after : Tree} {list id : NodeId}

/-- A run comes to the list of every node below that is not below a group which the pass
does not look into. -/
theorem Makes.reaches_or_inside (h : survey.Makes kind) (hwf : tree.WellFormed)
    (hbelow : tree.Above list id) :
    (exists parent, survey.Reaches tree list parent ∧ id ∈ tree.children parent) ∨
      exists group, tree.isKind group kind = true ∧ tree.Above group id := by
  induction hbelow with
  | single hparent =>
      exact Or.inl ⟨list, .refl, hwf.mem_of_parent? hparent⟩
  | @tail parent id _ hparent ih =>
      have hmem := hwf.mem_of_parent? hparent
      rcases ih with ⟨upper, hreach, hupper⟩ | ⟨group, hgroup, habove⟩
      · cases hkind : tree.isKind parent kind with
        | true =>
            exact Or.inr ⟨parent, hkind, Tree.above_of_parent? hparent⟩
        | false =>
            refine Or.inl ⟨parent, hreach.tail ⟨?_, h.opens_iff.mpr hkind⟩, hmem⟩
            exact Tree.mem_sublists_iff.mpr ⟨hupper, Tree.isGroup_of_mem_children hmem⟩
      · exact Or.inr ⟨group, hgroup, habove.tail hparent⟩

/-- After a run every token of the sort below the list is housed, if it has not been below
a group of the kind before. -/
theorem housed_of_run {pass : Pass} {seeker : Seeker} {p : Token -> Bool}
    (hplan : pass.plan = seeker.plan) (hcollects : seeker.Collects kind p)
    (hmakes : (ofSeeker pass (some kind) seeker).Makes kind) (hwf : tree.WellFormed)
    {limit room : Nat} (hexec : exec (pass.run limit room list) tree = (.ok (), after))
    (hbelow : tree.Above list id) (hp : tree.tokenHas id p = true) :
    after.Housed kind id ∨ exists group, tree.isKind group kind = true ∧ tree.Above group id := by
  rcases hmakes.reaches_or_inside hwf hbelow with ⟨parent, hreach, hmem⟩ | hinside
  · left
    rcases hmakes.run_at hwf hexec hreach with ⟨left, before, later, hbefore, hrun, hlater⟩
    have hbeforeWf := Tree.groupStep_keepsWellFormed.run hwf hbefore.steps
    have hlaterWf := hmakes.wellFormed_of_run hbeforeWf hrun
    have hsteps := hbefore.steps.trans (hmakes.changesWithin_of_run hbeforeWf hrun).steps
    rcases (hmakes.run_turn hbeforeWf hrun).1 with ⟨middle, hmiddle, hchildren, _, hwalk⟩
    have hbelowParent := Tree.above_of_parent? (hwf.parent?_of_mem hmem)
    rw [← hbefore.observers.2.2, ← hchildren] at hmem
    rw [← (Tree.tokensKept_of_steps hsteps).tokenHas_eq hcollects.kept] at hp
    apply hlater.housed hlaterWf (Tree.above_of_steps hwf hsteps hbelowParent)
    exact Pass.housed_of_walk hplan hmakes.regular.sound hcollects (hmiddle.wellFormed hbeforeWf)
      hwalk hmem hp
  · exact Or.inr hinside

end Survey

end SqlLayout
