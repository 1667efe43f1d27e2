import SqlLayout.Proofs.Grouping.BracketMarks
import SqlLayout.Proofs.Grouping.Faces
import SqlLayout.Proofs.Grouping.Sweeps

/-!
# Walks among faces

A walk is followed with the faces of its list.  A sweep keeps an invariant of the faces
behind its place and of those from the place on; a walk that waits for one place keeps the
list as it is up to there.
-/

namespace SqlLayout

open Grouping

/-!
# The last child before a place
-/

namespace Tree

variable {tree : Tree} {list : NodeId} {left right passed : List Face} {face : Face}

theorem prev_of_faces (h : tree.faces list = left ++ face :: (passed ++ right))
    (hpassed : forall face, face ∈ passed -> face.isBlank = true) (hface : face.isBlank = false) :
    exists id, tree.prev list (left.length + 1 + passed.length) true =
      some (left.length, id) ∧ tree.face id = face := by
  have hskipped : forall id, tree.isSkipped id true false = (tree.face id).isBlank := by
    intro id
    rw [← isSkipped_face]
    exact Bool.or_false _
  exact prev_of_map Face.isBlank (fun id _ => hskipped id) h hpassed hface

theorem cut_of_prev {prev : Nat} {host : NodeId} (h : tree.faces list = left ++ right)
    (hprev : tree.prev list left.length true = some (prev, host)) :
    exists front between, left = front ++ tree.face host :: between ∧ front.length = prev ∧
      forall face, face ∈ between -> face.isBlank = true := by
  rcases prev_some hprev with ⟨hlt, hchild, _⟩
  have hhost : left[prev]? = some (tree.face host) := by
    rw [← List.getElem?_append_left hlt, ← h, getElem?_faces, hchild, Option.map_some]
  rw [List.getElem?_eq_getElem hlt, Option.some.injEq] at hhost
  refine ⟨left.take prev, left.drop (prev + 1), ?_, List.length_take_of_le (Nat.le_of_lt hlt), ?_⟩
  · rw [← hhost, List.getElem_cons_drop, List.take_append_drop]
  · intro face hface
    rcases List.mem_iff_getElem?.mp hface with ⟨idx, hidx⟩
    rw [List.getElem?_drop] at hidx
    have hinside := (List.getElem?_eq_some_iff.mp hidx).1
    have hfaces : (tree.faces list)[prev + 1 + idx]? = some face := by
      rw [h, List.getElem?_append_left hinside, hidx]
    rcases exists_child_of_face hfaces with ⟨id, hid, rfl⟩
    have hskipped := prev_between hprev (by omega) hinside hid
    rw [← isSkipped_face] at hskipped
    exact (Bool.or_false _).symm.trans hskipped

theorem cut_of_span {prev : Nat} {id host : NodeId} {front moved back : List Face}
    (h : tree.faces list = left ++ tree.face id :: right)
    (hprev : tree.prev list left.length true = some (prev, host))
    (hcut : left ++ tree.face id :: right = front ++ moved ++ back) (hfront : front.length = prev)
    (hmoved : front.length + moved.length = left.length + 1) :
    right = back ∧ exists between, left = front ++ tree.face host :: between ∧
      forall face, face ∈ between -> face.isBlank = true := by
  rcases cut_of_prev h hprev with ⟨before, between, hleft, hlength, hblanks⟩
  rw [List.append_cons left] at hcut
  rcases List.append_inj hcut (by rw [List.length_append, List.length_append, hmoved]; rfl) with
    ⟨htaken, hright⟩
  rw [hleft, List.append_assoc] at htaken
  rcases List.append_inj htaken (by rw [hlength, hfront]) with ⟨rfl, _⟩
  exact ⟨hright, between, hleft, hblanks⟩

end Tree

/-!
# Sweeps
-/

namespace Seeker

variable {seeker : Seeker} {invariant : List Face -> List Face -> Prop} {list : NodeId}
  {kind : GroupKind}

def PassesFaces (seeker : Seeker) (invariant : List Face -> List Face -> Prop) (list : NodeId)
    (kind : GroupKind) : Prop :=
  forall (tree : Tree) left id right, tree.kind? list = some kind ->
    tree.faces list = left ++ tree.face id :: right -> tree.child? list left.length = some id ->
    (seeker.accepts tree id = true -> seeker.span? tree list left.length id = none) ->
    invariant left (tree.face id :: right) -> invariant (left ++ [tree.face id]) right

def MergesFaces (seeker : Seeker) (invariant : List Face -> List Face -> Prop) (list : NodeId)
    (kind : GroupKind) : Prop :=
  forall (tree : Tree) left id right span next front moved back, tree.kind? list = some kind ->
    tree.faces list = left ++ tree.face id :: right -> tree.child? list left.length = some id ->
    seeker.accepts tree id = true -> seeker.span? tree list left.length id = some (span, next) ->
    left ++ tree.face id :: right = front ++ moved ++ back -> front.length = span.start ->
    front.length + moved.length = span.stop + 1 -> invariant left (tree.face id :: right) ->
    invariant (front ++ [.group span.kind]) back

/-- An invariant that a pass keeps where it goes past a child and where it makes a group
holds of the faces that a run leaves. -/
theorem sweep_faces {pass : Pass} (hplan : pass.plan = seeker.plan) (hsound : pass.Sound)
    (happlies : forall tree list, pass.applies tree list = true)
    (hnext : forall tree list idx id span next,
      seeker.span? tree list idx id = some (span, next) -> next = span.start + 1)
    (hpasses : seeker.PassesFaces invariant list kind)
    (hmerges : seeker.MergesFaces invariant list kind) {limit room : Nat} {tree after : Tree}
    (hwf : tree.WellFormed) (hkind : tree.kind? list = some kind)
    (hstart : invariant [] (tree.faces list))
    (h : exec (pass.run limit room list) tree = (.ok (), after)) :
    invariant (after.faces list) [] := by
  rcases Pass.walks_of_run hsound (Pass.tagsChildren_of_seeker hplan) (Pass.stays_of_seeker hplan)
      happlies hwf h with ⟨middle, hchanges, hkind', hfaces, hwalk⟩
  have hmiddle := hchanges.wellFormed hwf
  have hface : forall (tree : Tree), tree.WellFormed -> forall idx id,
      tree.child? list idx = some id -> (tree.rose id).face = tree.face id :=
    fun tree hwf _ id hchild => hwf.face_rose (hwf.child_lt_size (List.mem_of_getElem? hchild))
  have hcut : forall (tree : Tree) left id right, tree.WellFormed ->
      (tree.children list).map tree.rose = left ++ tree.rose id :: right ->
      tree.child? list left.length = some id ->
      tree.faces list = left.map Rose.face ++ tree.face id :: right.map Rose.face := by
    intro tree left id right hwf hroses hchild
    rw [← hwf.map_face_roses, hroses, List.map_append, List.map_cons, hface tree hwf _ id hchild]
  have hpasses' : seeker.Passes
      (fun left right => invariant (left.map Rose.face) (right.map Rose.face)) list kind := by
    intro tree left id right hwf hkind hroses hchild hrefused hinvariant
    rw [List.map_cons, hface tree hwf _ id hchild] at hinvariant
    rw [List.map_append, List.map_singleton, hface tree hwf _ id hchild]
    rw [← List.length_map Rose.face] at hchild hrefused
    exact hpasses tree _ id _ hkind (hcut tree left id right hwf hroses (by simpa using hchild))
      hchild hrefused hinvariant
  have hmerges' : seeker.Merges
      (fun left right => invariant (left.map Rose.face) (right.map Rose.face)) list kind := by
    intro tree left id right span next front first rest back group hwf hkind hroses hchild haccepts
      hspan hmoved hfront hrest hmerged hinvariant
    have hgroup : group.face = .group span.kind := by
      cases hmerged with
      | wrapped _ =>
          rfl
      | absorbed _ _ =>
          rfl
    have hfaces := hcut tree left id right hwf hroses hchild
    rw [List.map_cons, hface tree hwf _ id hchild] at hinvariant
    rw [List.map_append, List.map_singleton, hgroup]
    rw [← List.length_map Rose.face] at hchild hspan
    refine hmerges tree _ id _ span next (front.map Rose.face) ((first :: rest).map Rose.face)
      (back.map Rose.face) hkind hfaces hchild haccepts hspan ?_ ?_ ?_ hinvariant
    · rw [← hfaces, ← hwf.map_face_roses, hroses, hmoved, List.map_append, List.map_append]
    · rw [List.length_map, hfront]
    · rw [List.length_map, List.length_map, List.length_cons]
      omega
  have hmiddleKind := hkind'.trans hkind
  have hlater := Pass.Walks.changesWithin hsound (Pass.tagsChildren_of_seeker hplan) hmiddle hwalk
  have hafter := hlater.wellFormed hmiddle
  have hgroup := (Tree.kind?_of_steps hlater.steps
    (Tree.lt_size_of_content? (Tree.content?_of_kind? hmiddleKind))).trans hmiddleKind
  rcases walks_sweep hplan hsound hnext hpasses' hmerges' hmiddle hmiddleKind
      (by rw [hmiddle.map_face_roses, hfaces]; exact hstart) hwalk with ⟨roses, hrose, hinvariant⟩
  rw [hafter.rose_of_kind? hgroup, Rose.group.injEq] at hrose
  rw [← hafter.map_face_roses, hrose.2]
  exact hinvariant

end Seeker

/-!
# Walks that wait for a place
-/

/-- A walk that makes no span up to some place, and one there after which the tree is of a
sort that all later spans keep. -/
theorem Pass.walks_once {pass : Pass} (hsound : pass.Sound) (htags : pass.TagsChildren)
    (hstays : pass.Stays) {holds : Tree -> Prop} {suits : GroupKind -> Prop}
    {known : Tree -> NodeId -> Cursor -> Prop} (hkeeps : pass.Keeps holds suits known)
    {list : NodeId} {kind : GroupKind} {tree after : Tree} (waits : Cursor -> Prop)
    (hwf : tree.WellFormed) (hkind : tree.kind? list = some kind) (hsuits : suits kind)
    (hstart : waits {})
    (hwaits : forall cursor, waits cursor -> exists move,
      pass.plan tree list cursor = some move ∧ (move.span = none -> waits move.cursor) ∧
        (move.span ≠ none -> forall next, move.Groups list tree next ->
          holds next ∧ known next list move.cursor))
    (h : pass.Walks list tree after) : holds after := by
  have hskip : forall (next : Tree) (cursor : Cursor) (move : Move), next.WellFormed ->
      (next = tree ∧ waits cursor ∧ cursor.Ordered) ∨
        (holds next ∧ next.kind? list = some kind ∧ known next list cursor) ->
      pass.plan next list cursor = some move -> move.span = none ->
      (next = tree ∧ waits move.cursor ∧ move.cursor.Ordered) ∨
        (holds next ∧ next.kind? list = some kind ∧ known next list move.cursor) := by
    rintro next cursor move _ (⟨rfl, hcursor, hordered⟩ | ⟨hholds, hlist, hknown⟩) hplan hspan
    · rcases hwaits cursor hcursor with ⟨other, hother, hnone, _⟩
      cases hplan.symm.trans hother
      exact Or.inl ⟨rfl, hnone hspan, (hsound next list cursor move hordered hplan).ordered⟩
    · exact Or.inr ⟨hholds, hlist, hkeeps.skip next list cursor move hknown hplan
        (hstays next list cursor move hplan) hspan⟩
  have hgroup : forall (next later : Tree) (cursor : Cursor) (move : Move) (span : Span),
      next.WellFormed -> cursor.Ordered ->
      (next = tree ∧ waits cursor ∧ cursor.Ordered) ∨
        (holds next ∧ next.kind? list = some kind ∧ known next list cursor) ->
      pass.plan next list cursor = some move -> move.span = some span ->
      move.Groups list next later ->
      (later = tree ∧ waits move.cursor ∧ move.cursor.Ordered) ∨
        (holds later ∧ later.kind? list = some kind ∧ known later list move.cursor) := by
    rintro next later cursor move span hnext hordered hcase hplan hspan hgroups
    have hstep := groupStep_of_groups hsound hnext hordered hplan hgroups
    have hlater : next.kind? list = some kind -> later.kind? list = some kind := fun hlist =>
      (Tree.kind?_of_steps (.single hstep)
        (Tree.lt_size_of_content? (Tree.content?_of_kind? hlist))).trans hlist
    rcases hcase with ⟨rfl, hcursor, _⟩ | ⟨hholds, hlist, hknown⟩
    · rcases hwaits cursor hcursor with ⟨other, hother, _, hspans⟩
      cases hplan.symm.trans hother
      rcases hspans (by rw [hspan]; nofun) later hgroups with ⟨hholds, hknown⟩
      exact Or.inr ⟨hholds, hlater hkind, hknown⟩
    · rcases hkeeps.span next later list kind cursor move span hnext hordered hholds hlist hsuits
        hknown hplan hspan hgroups with ⟨hholds', hknown'⟩
      exact Or.inr ⟨hholds', hlater hlist, hknown'⟩
  rcases walks_rule hsound htags hstays hskip hgroup hwf
      (Or.inl ⟨rfl, hstart, Cursor.ordered_at 0⟩) h with
    ⟨last, ⟨rfl, hlast, hordered⟩ | ⟨hholds, _⟩, hend⟩
  · rcases hwaits last hlast with ⟨move, hmove, _, _⟩
    have hinside := (hsound _ list last move hordered hmove).inside
    rcases hend with hnone | hcount
    · rw [hmove] at hnone
      cases hnone
    · exact absurd hinside (Nat.not_lt.mpr hcount)
  · exact hholds

theorem BinaryRule.walks_first {rule : BinaryRule} (hsound : (Pass.binary rule).Sound)
    {holds : Tree -> Prop} {suits : GroupKind -> Prop}
    (hkeeps : (Pass.binary rule).Keeps holds suits Tree.SolidSince) {list : NodeId}
    {kind : GroupKind} {tree after : Tree} {left passed right : List Face} {first op : Face}
    {start stop : Nat} (hwf : tree.WellFormed) (hkind : tree.kind? list = some kind)
    (hsuits : suits kind) (hfaces : tree.faces list = left ++ first :: (passed ++ op :: right))
    (hfirst : first.isBlank = false) (hpassed : forall face, face ∈ passed -> face.isBlank = true)
    (hbefore : forall id, tree.face id ∈ left ++ first :: passed -> rule.isOp tree id = false)
    (hop : op.isBlank = false) (hisOp : forall id, tree.face id = op -> rule.isOp tree id = true)
    (hspan : rule.span? tree list (some left.length) (left.length + 1 + passed.length) =
      some (start, stop))
    (hretag : rule.retag = none)
    (hholds : forall (cursor : Cursor) (move : Move) (next : Tree), move.Fits tree list cursor ->
      move.retag = none -> move.span = some ⟨rule.kind, start, stop, rule.extend⟩ ->
      move.Groups list tree next -> holds next)
    (h : (Pass.binary rule).Walks list tree after) : holds after := by
  rcases Tree.prev_of_faces hfaces hpassed hfirst with ⟨_, hprev, _⟩
  have hcut : tree.faces list = (left ++ first :: passed) ++ op :: right := by
    rw [hfaces, List.append_assoc, List.cons_append]
  have hlength : (left ++ first :: passed).length = left.length + 1 + passed.length := by
    rw [List.length_append, List.length_cons]
    omega
  refine Pass.walks_once hsound (Pass.tagsChildren_binary rule) (Pass.stays_binary rule) hkeeps
    (fun cursor => cursor.idx <= left.length + 1 + passed.length ∧ cursor.Ordered ∧
      cursor.prev = (tree.prev list cursor.idx true).map Prod.fst)
    hwf hkind hsuits ⟨Nat.zero_le _, Cursor.ordered_at 0, rfl⟩ ?_ h
  rintro cursor ⟨hle, hordered, hcursor⟩
  rcases Nat.lt_or_eq_of_le hle with hlt | heq
  · have hinside : cursor.idx < (tree.faces list).length := by
      rw [hcut, List.length_append, hlength]
      omega
    rcases Tree.exists_child_of_face (List.getElem?_eq_getElem hinside) with ⟨id, hchild, _⟩
    have hacts : rule.acts tree list cursor.idx = false := by
      unfold acts
      rw [hchild]
      dsimp only
      rw [hbefore id (Tree.face_mem_of_lt hcut hchild (hlength.symm ▸ hlt)), Bool.and_false]
      rfl
    rcases (stepsThrough cursor hcursor).moves id hchild with ⟨move, hmove, _, hquiet⟩
    rcases hquiet hacts with ⟨hnone, _, hidx, hknown⟩
    refine ⟨move, hmove, fun _ => ⟨by omega, ?_, hknown⟩, fun hsome => absurd hnone hsome⟩
    exact (hsound tree list cursor move hordered hmove).ordered
  · rcases Tree.exists_child_of_cut hcut with ⟨id, hchild, hface⟩
    rw [hlength, ← heq] at hchild
    have hid : tree.isWhitespace id = false := by
      rw [← Tree.isBlank_face, hface, hop]
    rw [heq, hprev] at hcursor
    have hfound : rule.span? tree list cursor.prev cursor.idx = some (start, stop) := by
      rw [hcursor, heq]
      exact hspan
    rcases rule.plan_of_child hchild with
      ⟨hblank, _⟩ | ⟨_, _, first, last, hoperands, hmove⟩ | ⟨_, hnone, _⟩
    · rw [hid] at hblank
      cases hblank
    · cases hfound.symm.trans hoperands
      refine ⟨_, hmove, nofun, fun _ next hgroups => ?_⟩
      have hfits := hsound tree list cursor _ hordered hmove
      refine ⟨hholds cursor _ next hfits ?_ rfl hgroups, hgroups.solidSince hwf hfits rfl rfl⟩
      rw [hretag]
      rfl
    · rw [hnone (hisOp id hface)] at hfound
      cases hfound

/-!
# The pass for names
-/

def Face.named : Face -> Face
  | .token t => if t.names then .group .identifier else .token t
  | .group kind => .group kind

theorem Face.named_of_not_names {face : Face} (h : face.has Token.names = false) :
    face.named = face := by
  cases face with
  | group kind =>
      rfl
  | token t =>
      exact if_neg (Bool.eq_false_iff.mp h)

theorem Pass.faces_of_identifiers {limit room : Nat} {list : NodeId} {kind : GroupKind}
    {tree after : Tree} (hwf : tree.WellFormed) (hkind : tree.kind? list = some kind)
    (h : exec (identifiers.run limit room list) tree = (.ok (), after)) :
    after.faces list = (tree.faces list).map Face.named := by
  have hnamed : forall (tree : Tree) id, (tree.face id).named =
      if tree.isCategory id .name || tree.isCategory id .doubleQuoted then .group .identifier
      else tree.face id := by
    intro tree id
    rw [← Tree.tokenHas_names]
    unfold Tree.face Tree.tokenHas
    cases tree.token? id with
    | none =>
        rfl
    | some t =>
        rfl
  have hpasses : Seeker.name.PassesFaces
      (fun left right => left ++ right.map Face.named = (tree.faces list).map Face.named) list
      kind := by
    intro other left id right _ _ _ hrefused hinvariant
    have hnone := hrefused rfl
    unfold Seeker.name at hnone
    dsimp only at hnone
    split at hnone
    · cases hnone
    · rename_i hnot
      rw [← hinvariant, List.map_cons, hnamed, if_neg hnot, List.append_assoc]
      rfl
  have hmerges : Seeker.name.MergesFaces
      (fun left right => left ++ right.map Face.named = (tree.faces list).map Face.named) list
      kind := by
    intro other left id right span next front moved back _ _ _ _ hspan hcut hfront hmoved hinvariant
    rcases Seeker.name_span hspan with ⟨hname, rfl, rfl⟩
    dsimp only at hfront hmoved
    rw [List.append_assoc] at hcut
    rcases List.append_inj hcut hfront.symm with ⟨rfl, hbehind⟩
    rcases List.length_eq_one_iff.mp (show moved.length = 1 by omega) with ⟨face, rfl⟩
    rcases List.cons.inj hbehind with ⟨rfl, rfl⟩
    rw [← hinvariant, List.map_cons, hnamed, if_pos hname, List.append_assoc]
    rfl
  have hfaces := Seeker.sweep_faces Seeker.identifiers_plan
    (sound_of_seeker Seeker.identifiers_plan Seeker.name_sound) (fun _ _ => rfl) ?_ hpasses hmerges
    hwf hkind rfl h
  · rw [← hfaces, List.map_nil, List.append_nil]
  · intro tree list idx id span next hspan
    rcases Seeker.name_span hspan with ⟨_, rfl, rfl⟩
    rfl

end SqlLayout
