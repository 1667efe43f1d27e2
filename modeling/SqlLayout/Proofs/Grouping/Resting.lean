import SqlLayout.Proofs.Grouping.ListByList
import SqlLayout.Proofs.Grouping.Triggers

/-!
# Groups that rest

A group rests in a pass if nothing at or below it sets the pass off.  A run on a
list of resting groups is the walk along the list and nothing else.
-/

namespace SqlLayout

open Grouping Tree

/-!
# Surveys of passes that look into no group on their way
-/

/-- A pass that looks at no child on its way along a list, with its survey. -/
structure Survey.Regular (survey : Survey) : Prop where
  sound : survey.pass.Sound
  tags : survey.pass.TagsChildren
  stays : survey.pass.Stays
  enters : forall (tree : Tree) id, survey.pass.enters tree id = survey.opens tree id
  applies : forall tree list, survey.pass.applies tree list = true
  faithful : survey.Faithful

namespace Survey

variable {survey : Survey}

theorem regular_ofRule {rule : BinaryRule} (hmem : ofRule rule ∈ all) : (ofRule rule).Regular where
  sound := Pass.all_sound _ (all_map_pass ▸ List.mem_map_of_mem hmem)
  tags := Pass.tagsChildren_binary rule
  stays := Pass.stays_binary rule
  enters := fun _ _ => rfl
  applies := fun _ _ => rfl
  faithful := all_faithful _ hmem

theorem regular_ofSeeker {pass : Pass} {closed : Option GroupKind} {seeker : Seeker}
    (hplan : pass.plan = seeker.plan)
    (henters : forall (tree : Tree) id,
      pass.enters tree id = (ofSeeker pass closed seeker).opens tree id)
    (happlies : forall tree list, pass.applies tree list = true)
    (hmem : ofSeeker pass closed seeker ∈ all) : (ofSeeker pass closed seeker).Regular where
  sound := Pass.all_sound _ (all_map_pass ▸ List.mem_map_of_mem hmem)
  tags := Pass.tagsChildren_of_seeker hplan
  stays := Pass.stays_of_seeker hplan
  enters := henters
  applies := happlies
  faithful := all_faithful _ hmem

def opensKind (survey : Survey) (kind : GroupKind) : Bool := !(survey.closed == some kind)

theorem opens_of_kind? {tree : Tree} {id : NodeId} {kind : GroupKind}
    (h : tree.kind? id = some kind) : survey.opens tree id = survey.opensKind kind := by
  unfold opens opensKind
  cases survey.closed with
  | none =>
      rfl
  | some other =>
      dsimp only
      rw [Tree.isKind, h]
      exact congrArg Bool.not BEq.comm

theorem Regular.enters_of_kind? (h : survey.Regular) (tree : Tree) (id : NodeId)
    (kind : GroupKind) (hkind : tree.kind? id = some kind) :
    survey.pass.enters tree id = survey.opensKind kind :=
  (h.enters tree id).trans (opens_of_kind? hkind)

/-!
# Lists and groups at rest
-/

def Still (survey : Survey) (children : List Rose) : Prop :=
  forall (tree : Tree) list, tree.WellFormed -> (tree.children list).map tree.rose = children ->
    forall idx, survey.acts tree list idx = false

end Survey

/-- What a pass leaves as it is when it runs on the list above. -/
inductive Rose.Rests (survey : Survey) : Rose -> Prop where
  | token {token : Token} : Rests survey (.token token)
  | closed {kind : GroupKind} {children : List Rose} : survey.opensKind kind = false ->
      Rests survey (.group kind children)
  | group {kind : GroupKind} {children : List Rose} : survey.Still children ->
      (forall child, child ∈ children -> Rests survey child) -> Rests survey (.group kind children)

namespace Survey

variable {survey : Survey}

theorem idle_of_rests (hfaithful : survey.Faithful) {tree : Tree} (hwf : tree.WellFormed)
    (limit : Nat) {room : Nat} {list : NodeId} {kind : GroupKind} {children : List Rose}
    (hrose : tree.rose list = .group kind children) (hlist : list < tree.size)
    (hstill : survey.Still children)
    (hrests : forall child, child ∈ children -> Rose.Rests survey child)
    (hnests : Rose.Nests (fun _ => false) room (tree.rose list)) :
    Idle (survey.pass.run limit room list) tree := by
  induction room generalizing list kind children with
  | zero =>
      rw [hrose] at hnests
      cases hnests with
      | free hfree _ =>
          cases hfree
  | succ room ih =>
      rcases hwf.kind?_of_rose hlist hrose with ⟨hkind, rfl⟩
      apply (hfaithful tree list limit room hwf).mpr
      refine ⟨hstill tree list hwf rfl, ?_⟩
      intro id hmem hopens
      rcases List.mem_filter.mp hmem with ⟨hchild, hgroup⟩
      rcases isGroup_iff_kind?.mp hgroup with ⟨other, hother⟩
      have hbelow := hrests _ (List.mem_map_of_mem hchild)
      have hroom : Rose.Nests (fun _ => false) room (tree.rose id) := by
        rw [hrose] at hnests
        cases hnests with
        | free hfree _ =>
            cases hfree
        | group hall =>
            exact hall _ (List.mem_map_of_mem hchild)
      have hsame := hwf.rose_of_kind? hother
      rw [hsame] at hbelow
      cases hbelow with
      | closed hclosed =>
          rw [opens_of_kind? hother, hclosed] at hopens
          cases hopens
      | group hstill' hrests' =>
          exact ih hsame (hwf.child_lt_size hchild) hstill' hrests' hroom

end Survey

/-!
# What does not set a pass off
-/

namespace Rose

def sets (trigger : Trigger) : Rose -> Bool
  | .token t => trigger.token t
  | .group kind _ => trigger.kind kind

variable {trigger : Trigger}

theorem Lacks.sets_eq_false {rose : Rose} (h : Lacks trigger rose) : rose.sets trigger = false := by
  cases h with
  | token htoken =>
      exact htoken
  | group hkind _ =>
      exact hkind

end Rose

theorem Tree.WellFormed.sets_rose {tree : Tree} (h : tree.WellFormed) {id : NodeId}
    (hid : id < tree.size) (trigger : Trigger) :
    (tree.rose id).sets trigger = trigger.fires tree id := by
  unfold Trigger.fires
  rcases isGroup_or_token? hid with hgroup | ⟨token, htoken⟩
  · rcases isGroup_iff_kind?.mp hgroup with ⟨kind, hkind⟩
    rw [h.rose_of_kind? hkind, tokenHas_of_isGroup hgroup, hkind]
    rfl
  · have hkind : tree.kind? id = none := by
      have hgroup := isGroup_of_token? htoken
      unfold isGroup at hgroup
      simpa using hgroup
    rw [rose_of_token? htoken, hkind, tokenHas, htoken]
    simp [Rose.sets]

namespace Survey

variable {survey : Survey} {trigger : Trigger}

theorem Needs.still (hneeds : survey.Needs trigger) {children : List Rose}
    (h : forall child, child ∈ children -> child.sets trigger = false) : survey.Still children := by
  intro tree list hwf hchildren idx
  apply Bool.eq_false_iff.mpr
  intro hacts
  rcases hneeds tree list idx hacts with ⟨id, hmem, hfires⟩
  have hnot := h (tree.rose id) (hchildren ▸ List.mem_map_of_mem hmem)
  rw [hwf.sets_rose (hwf.child_lt_size hmem), hfires] at hnot
  cases hnot

theorem Needs.rests (hneeds : survey.Needs trigger) {rose : Rose} (h : rose.Lacks trigger) :
    rose.Rests survey := by
  induction h with
  | token _ =>
      exact Rose.Rests.token
  | group _ hchildren ih =>
      exact Rose.Rests.group (hneeds.still fun child hchild =>
        (hchildren child hchild).sets_eq_false)
        ih

end Survey

/-- A pass that is given nothing of what it needs does nothing, as long as there
is room for it to look. -/
theorem Survey.idle_of_mem_triggers {survey : Survey} {trigger : Trigger}
    (hmem : (survey, trigger) ∈ triggers) {tree : Tree} (hwf : tree.WellFormed) (limit : Nat)
    {room : Nat} {list : NodeId} (hgroup : tree.isGroup list = true)
    (hlacks : Rose.Lacks trigger (tree.rose list))
    (hnests : Rose.Nests (fun _ => false) room (tree.rose list)) :
    Idle (survey.pass.run limit room list) tree := by
  have hneeds := triggers_needs _ hmem
  have hfaithful := all_faithful survey (triggers_map_fst ▸ List.mem_map_of_mem hmem)
  rcases isGroup_iff_kind?.mp hgroup with ⟨kind, hkind⟩
  have hrose := hwf.rose_of_kind? hkind
  rw [hrose, Rose.lacks_group_iff] at hlacks
  apply idle_of_rests hfaithful hwf limit hrose (lt_size_of_isGroup hgroup) _ _ hnests
  · exact hneeds.still fun child hchild => (hlacks.2 child hchild).sets_eq_false
  · exact fun child hchild => hneeds.rests (hlacks.2 child hchild)

/-!
# Runs on resting groups
-/

namespace Survey

variable {survey : Survey} (hregular : survey.Regular)
include hregular

/-- A run succeeds if there is room for the nesting.  A group that rests it leaves
as it is; to another list it does what a walk along it does, after runs on the
groups in it. -/
theorem Regular.run_turns {turns : Rose -> Rose -> Prop}
    (hrests : forall kind children, survey.opensKind kind = true ->
      (Rose.group kind children).Rests survey ->
      turns (.group kind children) (.group kind children))
    (hwalks : forall (tree after : Tree) list kind olds, tree.WellFormed ->
      tree.kind? list = some kind ->
      ¬ (survey.opensKind kind = true ∧ (Rose.group kind olds).Rests survey) ->
      List.Forall₂ (Rose.Entered survey.opensKind turns) olds
        ((tree.children list).map tree.rose) ->
      survey.pass.Walks list tree after -> turns (.group kind olds) (after.rose list))
    (limit : Nat) {room : Nat} {list : NodeId} {tree : Tree} (hwf : tree.WellFormed)
    (hgroup : tree.isGroup list = true)
    (hnests : Rose.Nests (fun _ => false) room (tree.rose list)) :
    exists after, exec (survey.pass.run limit room list) tree = (.ok (), after) ∧
      tree.ChangesWithin list after ∧ turns (tree.rose list) (after.rose list) := by
  induction room generalizing list tree with
  | zero =>
      rcases isGroup_iff_kind?.mp hgroup with ⟨kind, hkind⟩
      rw [hwf.rose_of_kind? hkind] at hnests
      cases hnests with
      | free hfree _ =>
          cases hfree
  | succ room ih =>
      rcases isGroup_iff_kind?.mp hgroup with ⟨kind, hkind⟩
      have hrose := hwf.rose_of_kind? hkind
      by_cases hrest : survey.opensKind kind = true ∧
          (Rose.group kind ((tree.children list).map tree.rose)).Rests survey
      · have hturns := hrests _ _ hrest.1 hrest.2
        rcases hrest with ⟨hopens, hrest⟩
        cases hrest with
        | closed hclosed =>
            rw [hclosed] at hopens
            cases hopens
        | group hlist hbelow =>
            have hidle := idle_of_rests hregular.faithful hwf limit hrose
              (lt_size_of_isGroup hgroup) hlist hbelow hnests
            refine ⟨tree, hidle, ChangesWithin.refl tree list, ?_⟩
            rw [hrose]
            exact hturns
      · rcases Pass.run_parts hregular.sound hregular.tags hregular.stays
            hregular.enters_of_kind? hregular.applies
            (fun tree id hwf hgroup hnests => ih hwf hgroup hnests) hwf hkind hnests with
          ⟨middle, after, hexec, hchanges, hmiddle, hkind', holds, hwalk⟩
        refine ⟨after, hexec, hchanges, ?_⟩
        rw [hrose]
        exact hwalks middle after list kind _ hmiddle hkind' hrest holds hwalk

omit hregular

def Spares (survey : Survey) (old new : Rose) : Prop :=
  forall kind children, old = .group kind children -> survey.opensKind kind = true ->
    old.Rests survey -> new = old

theorem eq_of_entered_rests {turns : Rose -> Rose -> Prop}
    (hspares : forall old new, turns old new -> survey.Spares old new) {old new : Rose}
    (hrests : old.Rests survey) (h : Rose.Entered survey.opensKind turns old new) : new = old := by
  cases h with
  | same =>
      rfl
  | run hopens hturns =>
      exact hspares _ _ hturns _ _ rfl hopens hrests

include hregular

/-- On a list whose children rest a run is a walk along the list. -/
theorem Regular.run_over (limit : Nat) {room : Nat} {list : NodeId} {kind : GroupKind}
    {tree : Tree} (hwf : tree.WellFormed) (hkind : tree.kind? list = some kind)
    (hrests : forall rose, rose ∈ (tree.children list).map tree.rose -> rose.Rests survey)
    (hnests : Rose.Nests (fun _ => false) (room + 1) (tree.rose list)) :
    exists middle after, exec (survey.pass.run limit (room + 1) list) tree = (.ok (), after) ∧
      tree.ChangesWithin list after ∧ middle.WellFormed ∧ middle.kind? list = some kind ∧
      (middle.children list).map middle.rose = (tree.children list).map tree.rose ∧
      survey.pass.Walks list middle after := by
  have hsub : forall (tree : Tree) id, tree.WellFormed -> tree.isGroup id = true ->
      Rose.Nests (fun _ => false) room (tree.rose id) ->
      exists after, exec (survey.pass.run limit room id) tree = (.ok (), after) ∧
        tree.ChangesWithin id after ∧ survey.Spares (tree.rose id) (after.rose id) := by
    intro tree id hwf hgroup hroom
    refine hregular.run_turns ?_ ?_ limit hwf hgroup hroom
    · intro kind children _ _ _ _ _ _ _
      rfl
    · rintro tree after list kind olds _ _ hnot _ _ _ _ ⟨rfl, rfl⟩ hopens hrest
      exact absurd ⟨hopens, hrest⟩ hnot
  rcases Pass.run_parts hregular.sound hregular.tags hregular.stays hregular.enters_of_kind?
      hregular.applies hsub hwf hkind hnests with
    ⟨middle, after, hexec, hchanges, hmiddle, hkind', holds, hwalk⟩
  refine ⟨middle, after, hexec, hchanges, hmiddle, hkind', ?_, hwalk⟩
  have hsame : forall olds news : List Rose, (forall rose, rose ∈ olds -> rose.Rests survey) ->
      List.Forall₂ (Rose.Entered survey.opensKind survey.Spares) olds news -> news = olds := by
    intro olds news hall h
    induction h with
    | nil =>
        rfl
    | cons hfirst _ ih =>
        rw [List.forall_mem_cons] at hall
        rw [ih hall.2, eq_of_entered_rests (fun _ _ h => h) hall.1 hfirst]
  exact hsame _ _ hrests holds

end Survey
end SqlLayout
