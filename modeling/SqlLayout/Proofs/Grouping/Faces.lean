import SqlLayout.Proofs.Grouping.Housing

/-!
# Faces of the children

What a pass sees of a child of a list is its face: the token, or the kind of the group.
A span puts the face of one group in the place of the faces that it takes in, and what
happens inside of the groups of a list leaves the faces of the list as they are.
-/

namespace SqlLayout

open Grouping

inductive Face where
  | token (token : Token)
  | group (kind : GroupKind)
deriving DecidableEq, Repr

namespace Face

def has (p : Token -> Bool) : Face -> Bool
  | .token t => p t
  | .group _ => false

def isKind (kind : GroupKind) : Face -> Bool
  | .token _ => false
  | .group other => other == kind

def isBlank (face : Face) : Bool := face.has Token.isWhitespace

/-- A comment token or a group of comments. -/
def isComment (face : Face) : Bool := face.isKind .comment || face.has Token.isComment

def isSkipped (skipComment : Bool) (face : Face) : Bool :=
  face.isBlank || (skipComment && face.isComment)

end Face

def Rose.face : Rose -> Face
  | .token t => .token t
  | .group kind _ => .group kind

namespace Tree

def face (tree : Tree) (id : NodeId) : Face :=
  match tree.token? id with
  | some t => .token t
  | none => .group ((tree.kind? id).getD .statement)

def faces (tree : Tree) (list : NodeId) : List Face := (tree.children list).map tree.face

variable {tree after : Tree} {list id : NodeId}

/-!
# Nodes and their faces
-/

theorem face_congr (hkind : after.kind? id = tree.kind? id)
    (htoken : after.token? id = tree.token? id) : after.face id = tree.face id := by
  unfold face
  rw [hkind, htoken]

theorem face_of_token? {token : Token} (h : tree.token? id = some token) :
    tree.face id = .token token := by
  unfold face
  rw [h]

theorem face_of_kind? {kind : GroupKind} (h : tree.kind? id = some kind) :
    tree.face id = .group kind := by
  unfold face
  rw [token?_eq_none_of_isGroup (isGroup_iff_kind?.mpr ⟨kind, h⟩), h]
  rfl

theorem token?_of_face {token : Token} (h : tree.face id = .token token) :
    tree.token? id = some token := by
  unfold face at h
  split at h
  · rename_i other htoken
    cases h
    exact htoken
  · cases h

theorem kind?_of_face {kind : GroupKind} (h : tree.face id = .group kind)
    (hkind : kind ≠ .statement) : tree.kind? id = some kind := by
  unfold face at h
  split at h
  · cases h
  · cases hsome : tree.kind? id with
    | none =>
        rw [hsome] at h
        cases h
        exact absurd rfl hkind
    | some other =>
        rw [hsome] at h
        cases h
        rfl

theorem WellFormed.face_rose (h : tree.WellFormed) (hid : id < tree.size) :
    (tree.rose id).face = tree.face id := by
  rcases isGroup_or_token? hid with hgroup | ⟨token, htoken⟩
  · rcases isGroup_iff_kind?.mp hgroup with ⟨kind, hkind⟩
    rw [h.rose_of_kind? hkind, face_of_kind? hkind]
    rfl
  · rw [rose_of_token? htoken, face_of_token? htoken]
    rfl

theorem has_face (p : Token -> Bool) : (tree.face id).has p = tree.tokenHas id p := by
  unfold face tokenHas
  cases tree.token? id with
  | none =>
      rfl
  | some token =>
      rfl

theorem isKind_face {kind : GroupKind} (hkind : kind ≠ .statement) :
    (tree.face id).isKind kind = tree.isKind id kind := by
  unfold isKind
  cases hface : tree.face id with
  | token token =>
      have hnot := isKind_of_token? (token?_of_face hface) kind
      exact hnot.symm
  | group other =>
      by_cases hother : other = .statement
      · subst hother
        have hne : tree.kind? id ≠ some kind := by
          intro hsome
          rw [face_of_kind? hsome, Face.group.injEq] at hface
          exact hkind hface
        rw [beq_eq_false_iff_ne.mpr hne]
        exact beq_eq_false_iff_ne.mpr (Ne.symm hkind)
      · rw [kind?_of_face hface hother]
        rfl

theorem isBlank_face : (tree.face id).isBlank = tree.isWhitespace id := has_face _

theorem isSkipped_face (skipComment : Bool) :
    (tree.face id).isSkipped skipComment = tree.isSkipped id true skipComment := by
  unfold Face.isSkipped Face.isComment isSkipped isComment
  rw [isBlank_face, @isKind_face tree id .comment nofun, has_face, Bool.true_and]

/-!
# The faces of a list
-/

theorem length_faces : (tree.faces list).length = tree.childCount list := List.length_map _

theorem getElem?_faces (idx : Nat) :
    (tree.faces list)[idx]? = (tree.child? list idx).map tree.face := List.getElem?_map

theorem WellFormed.map_face_roses (h : tree.WellFormed) :
    ((tree.children list).map tree.rose).map Rose.face = tree.faces list := by
  rw [List.map_map]
  exact List.map_congr_left fun id hid => h.face_rose (h.child_lt_size hid)

theorem faces_congr (hchildren : after.children list = tree.children list)
    (h : forall id, id ∈ tree.children list ->
      after.kind? id = tree.kind? id ∧ after.token? id = tree.token? id) :
    after.faces list = tree.faces list := by
  unfold faces
  rw [hchildren]
  exact List.map_congr_left fun id hid => face_congr (h id hid).1 (h id hid).2

theorem exists_child_of_face {idx : Nat} {face : Face} (h : (tree.faces list)[idx]? = some face) :
    exists id, tree.child? list idx = some id ∧ tree.face id = face := by
  rw [getElem?_faces] at h
  exact Option.map_eq_some_iff.mp h

theorem exists_child_of_cut {left right : List Face} {face : Face}
    (h : tree.faces list = left ++ face :: right) :
    exists id, tree.child? list left.length = some id ∧ tree.face id = face :=
  exists_child_of_map h

theorem face_of_child? {left right : List Face} {face : Face}
    (h : tree.faces list = left ++ face :: right)
    (hchild : tree.child? list left.length = some id) :
    tree.face id = face := by
  rcases exists_child_of_cut h with ⟨other, hother, hface⟩
  cases hchild.symm.trans hother
  exact hface

theorem face_mem_of_lt {left right : List Face} (h : tree.faces list = left ++ right) {idx : Nat}
    (hchild : tree.child? list idx = some id) (hidx : idx < left.length) : tree.face id ∈ left := by
  have hget : (tree.faces list)[idx]? = some (tree.face id) := by
    rw [getElem?_faces, hchild, Option.map_some]
  rw [h, List.getElem?_append_left hidx] at hget
  exact List.mem_of_getElem? hget

/-!
# Searches
-/

variable {skipComment : Bool} {left right passed : List Face} {face other : Face}

theorem next_of_faces (h : tree.faces list = left ++ other :: (passed ++ face :: right))
    (hpassed : forall face, face ∈ passed -> face.isSkipped skipComment = true)
    (hface : face.isSkipped skipComment = false) :
    exists id, tree.next list left.length true skipComment =
      some (left.length + 1 + passed.length, id) ∧ tree.face id = face :=
  next_of_map (Face.isSkipped skipComment) (fun _ _ => (isSkipped_face skipComment).symm) h
    hpassed hface

theorem nextBy_of_faces {p : NodeId -> Bool} {start : Nat}
    (h : tree.faces list = left ++ face :: right) (hstart : start <= left.length)
    (hpassed : forall idx id, start <= idx -> idx < left.length ->
      tree.child? list idx = some id -> p id = false)
    (hface : forall id, tree.face id = face -> p id = true) :
    exists id, tree.nextBy list start p = some (left.length, id) ∧ tree.face id = face := by
  rcases exists_child_of_cut h with ⟨id, hchild, hid⟩
  cases hfound : tree.nextBy list start p with
  | none =>
      have hnot := nextBy_none hfound hstart hchild
      rw [hface id hid] at hnot
      cases hnot
  | some hit =>
      rcases hit with ⟨idx, found⟩
      rcases nextBy_some hfound with ⟨hle, hother, hp, hbefore⟩
      rcases Nat.lt_trichotomy idx left.length with hlt | rfl | hgt
      · rw [hpassed idx found hle hlt hother] at hp
        cases hp
      · cases hchild.symm.trans hother
        exact ⟨_, rfl, hid⟩
      · have hnot := hbefore left.length id hstart hgt hchild
        rw [hface id hid] at hnot
        cases hnot

end Tree

/-!
# One span
-/

namespace Move.Gathers

open Tree

variable {tree after : Tree} {list : NodeId} {move : Move} {span : Span}
  {front moved back : List NodeId} {group : NodeId}
  (hg : move.Gathers list tree span front moved back group after)
include hg

theorem faces_list (hwf : tree.WellFormed) (hstep : tree.GroupStep after)
    (hretag : move.retag = none) :
    after.faces list = (tree.faces list).take span.start ++
      .group span.kind :: (tree.faces list).drop (span.stop + 1) := by
  have hnodup := (hstep.wellFormed hwf).nodup_children list
  rw [hg.children_list] at hnodup
  have hsame : forall ids : List NodeId, (forall id, id ∈ ids -> id ∈ front ++ back) ->
      ids.map after.face = ids.map tree.face := by
    intro ids hids
    apply List.map_congr_left
    intro id hid
    have hmem := List.mem_append.mp (hids id hid)
    have hne : id ≠ group := by
      rintro rfl
      rw [List.nodup_append, List.nodup_cons] at hnodup
      rcases hmem with hfront | hback
      · exact hnodup.2.2 id hfront id List.mem_cons_self rfl
      · exact hnodup.2.1.1 hback
    have hafter : id ∈ after.children list := by
      rw [hg.children_list]
      rcases hmem with hfront | hback
      · exact List.mem_append_left _ hfront
      · exact List.mem_append_right _ (List.mem_cons_of_mem _ hback)
    have hcontent := hg.content?_child hwf hretag hafter hne
    exact face_congr (observers_congr hcontent).1 (observers_congr hcontent).2.1
  unfold faces
  rw [hg.children_list, List.map_append, List.map_cons, face_of_kind? hg.kind?_group,
    hsame front fun id => List.mem_append_left _, hsame back fun id => List.mem_append_right _,
    ← List.map_take, ← List.map_drop, hg.children_eq, ← hg.stop_eq, ← hg.start_eq,
    ← List.length_append, List.drop_left, List.append_assoc, List.take_left]

theorem faces_of_cut (hwf : tree.WellFormed) (hstep : tree.GroupStep after)
    (hretag : move.retag = none) (left taken right : List Face)
    (hfaces : tree.faces list = left ++ taken ++ right) (hleft : left.length = span.start)
    (htaken : left.length + taken.length = span.stop + 1) :
    after.faces list = left ++ .group span.kind :: right := by
  rw [hg.faces_list hwf hstep hretag, hfaces, ← htaken, ← hleft, ← List.length_append,
    List.drop_left, List.append_assoc, List.take_left]

end Move.Gathers

/-!
# What happens inside of the groups
-/

namespace Tree

variable {tree after : Tree} {list id : NodeId}

theorem ChangesWithin.faces_upper (hwf : tree.WellFormed) (h : tree.ChangesWithin id after)
    (hmem : id ∈ tree.children list) (hgroup : tree.isGroup id = true) :
    after.faces list = tree.faces list := by
  apply faces_congr (h.children_upper hwf hmem)
  intro other hother
  by_cases hid : other = id
  · subst hid
    have hlt := hwf.child_lt_size hother
    have hgroup' := isGroup_of_steps h.steps hgroup
    exact ⟨kind?_of_steps h.steps hlt, (token?_eq_none_of_isGroup hgroup').trans
      (token?_eq_none_of_isGroup hgroup).symm⟩
  · have hsame := (h.untouched_sibling hwf hmem hother hid).observers
    exact ⟨hsame.1, hsame.2.1⟩

end Tree

theorem Pass.walks_of_run {pass : Pass} (hsound : pass.Sound) (htags : pass.TagsChildren)
    (hstays : pass.Stays) (happlies : forall tree list, pass.applies tree list = true)
    {limit room : Nat} {list : NodeId} {tree after : Tree} (hwf : tree.WellFormed)
    (h : exec (pass.run limit room list) tree = (.ok (), after)) :
    exists middle, tree.ChangesWithin list middle ∧ middle.kind? list = tree.kind? list ∧
      middle.faces list = tree.faces list ∧ pass.Walks list middle after := by
  cases room with
  | zero =>
      cases h
  | succ room =>
      rcases Pass.run_turn hsound htags hstays happlies hwf h with
        ⟨middle, hchanges, hcontent, hwalk, hall⟩
      rcases Tree.observers_congr hcontent with ⟨hkind, _, hchildren⟩
      refine ⟨middle, hchanges, hkind, ?_, hwalk⟩
      · apply Tree.faces_congr hchildren
        intro id hid
        have hlt := hwf.child_lt_size hid
        refine ⟨Tree.kind?_of_steps hchanges.steps hlt, ?_⟩
        rcases Bool.eq_false_or_eq_true (tree.isGroup id) with hgroup | hplain
        · have hgroup' := Tree.isGroup_of_steps hchanges.steps hgroup
          rw [Tree.token?_eq_none_of_isGroup hgroup, Tree.token?_eq_none_of_isGroup hgroup']
        · exact ((hall id hid).1 (Or.inl hplain)).observers.2.1

end SqlLayout
