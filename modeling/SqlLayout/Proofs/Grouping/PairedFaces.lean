import SqlLayout.Proofs.Grouping.Faces
import SqlLayout.Proofs.Grouping.SettledPairs

/-!
# The faces that a pass for pairs leaves

A pass for pairs works on the faces of a list like a reader of brackets with a stack: an
opening token starts a frame, and a closing token makes one group of the innermost frame.
So what is grouped in one part of a list depends on the others only through the brackets
that stay open in front of it.
-/

namespace SqlLayout

open Grouping

/-!
# Brackets that wait
-/

namespace Token

def opensPair (opening : TokenPattern) (t : Token) : Bool := !t.isWhitespace && t.hits opening

def shutsPair (opening closing : TokenPattern) (t : Token) : Bool :=
  !t.isWhitespace && !t.hits opening && t.hits closing

end Token

/-- How many brackets are open behind some tokens, if so many are in front of them. -/
def openAfter (opening closing : TokenPattern) : Nat -> List Token -> Nat
  | depth, [] => depth
  | depth, t :: rest =>
      if t.opensPair opening then openAfter opening closing (depth + 1) rest
      else if t.shutsPair opening closing then openAfter opening closing (depth - 1) rest
      else openAfter opening closing depth rest

/-- How many closing brackets of some tokens have no opening one among them. -/
def shutBefore (opening closing : TokenPattern) : List Token -> Nat
  | [] => 0
  | t :: rest =>
      if t.opensPair opening then shutBefore opening closing rest - 1
      else if t.shutsPair opening closing then shutBefore opening closing rest + 1
      else shutBefore opening closing rest

/-!
# Frames
-/

namespace Face

/-- The tokens among some faces. -/
def tokens (faces : List Face) : List Token :=
  faces.filterMap fun
    | .token t => some t
    | .group _ => none

def framed (frames : List (List Face)) : List Face := frames.reverse.flatten

def push (face : Face) : List (List Face) -> List (List Face)
  | [] => [[face]]
  | top :: below => (top ++ [face]) :: below

def waiting : List (List Face) -> List Nat
  | _ :: outer :: below => (framed (outer :: below)).length :: waiting (outer :: below)
  | _ => []

def pairStep (kind : GroupKind) (opening closing : TokenPattern) (frames : List (List Face))
    (face : Face) : List (List Face) :=
  if face.has (Token.opensPair opening) then [face] :: frames
  else if face.has (Token.shutsPair opening closing) then
    match frames with
    | _ :: outer :: below => push (.group kind) (outer :: below)
    | frames => push face frames
  else push face frames

/-- What a pass for pairs makes of some faces. -/
def paired (kind : GroupKind) (opening closing : TokenPattern) (faces : List Face) : List Face :=
  framed (faces.foldl (pairStep kind opening closing) [[]])

variable {kind : GroupKind} {opening closing : TokenPattern} {face : Face}
  {top : List Face} {frames below : List (List Face)}

theorem framed_cons : framed (top :: below) = framed below ++ top := by
  simp [framed]

theorem framed_push : framed (push face frames) = framed frames ++ [face] := by
  cases frames with
  | nil =>
      rfl
  | cons top below =>
      rw [push, framed_cons, framed_cons, List.append_assoc]

theorem waiting_push : waiting (push face frames) = waiting frames := by
  cases frames with
  | nil =>
      rfl
  | cons top below =>
      cases below with
      | nil =>
          rfl
      | cons outer below =>
          rfl

theorem push_ne_nil : push face frames ≠ [] := by
  cases frames with
  | nil =>
      exact List.cons_ne_nil _ _
  | cons top below =>
      exact List.cons_ne_nil _ _

theorem not_shuts_of_opens (h : face.has (Token.opensPair opening) = true) :
    face.has (Token.shutsPair opening closing) = false := by
  cases face with
  | group kind =>
      cases h
  | token t =>
      change (!t.isWhitespace && t.hits opening) = true at h
      change (!t.isWhitespace && !t.hits opening && t.hits closing) = false
      rw [(Bool.and_eq_true_iff.mp h).2]
      simp

theorem pairStep_opens (h : face.has (Token.opensPair opening) = true) :
    pairStep kind opening closing frames face = [face] :: frames := by
  unfold pairStep
  rw [if_pos h]

theorem pairStep_shuts (h : face.has (Token.shutsPair opening closing) = true)
    {outer : List Face} :
    pairStep kind opening closing (top :: outer :: below) face =
      push (.group kind) (outer :: below) := by
  unfold pairStep
  rw [if_neg, if_pos h]
  intro hopens
  rw [not_shuts_of_opens hopens] at h
  cases h

theorem pairStep_plain (hopens : face.has (Token.opensPair opening) = false)
    (hshuts : face.has (Token.shutsPair opening closing) = true -> frames.length <= 1) :
    pairStep kind opening closing frames face = push face frames := by
  unfold pairStep
  rw [if_neg (Bool.eq_false_iff.mp hopens)]
  split
  · rename_i h
    have hlength := hshuts h
    split
    · simp only [List.length_cons] at hlength
      omega
    · rfl
  · rfl

end Face

namespace Tree

variable {tree : Tree} {id : NodeId}

theorem opensPair_face (opening : TokenPattern) :
    (tree.face id).has (Token.opensPair opening) = tree.opensPair opening id := by
  rw [has_face]
  unfold opensPair isWhitespace hits tokenHas
  cases tree.token? id with
  | none =>
      rfl
  | some t =>
      rfl

theorem shutsPair_face (opening closing : TokenPattern) :
    (tree.face id).has (Token.shutsPair opening closing) = tree.shutsPair opening closing id := by
  rw [has_face]
  unfold shutsPair isWhitespace hits tokenHas
  cases tree.token? id with
  | none =>
      rfl
  | some t =>
      rfl

end Tree

/-!
# The walk along a list
-/

namespace Pass

open Tree Face

variable {kind : GroupKind} {opening closing : TokenPattern}

/-- How far the pairs of a list are read: the frames are what is done, and with the faces
that are to be read they come to the same in the end. -/
structure FramedAt (kind : GroupKind) (opening closing : TokenPattern) (list : NodeId)
    (total : List Face) (tree : Tree) (cursor : Cursor) : Prop where
  cut : exists frames todo, frames ≠ [] ∧ tree.faces list = framed frames ++ todo ∧
    cursor.idx = (framed frames).length ∧ cursor.opens = waiting frames ∧
    framed (todo.foldl (pairStep kind opening closing) frames) = total

/-- What has been read of the pairs of a list, and the face that is read next. -/
structure ReadsAt (kind : GroupKind) (opening closing : TokenPattern) (list : NodeId)
    (total : List Face) (tree : Tree) (cursor : Cursor) (frames : List (List Face)) (face : Face)
    (rest : List Face) : Prop where
  ne_nil : frames ≠ []
  faces : tree.faces list = framed frames ++ face :: rest
  idx : cursor.idx = (framed frames).length
  opens : cursor.opens = waiting frames
  total : framed (rest.foldl (pairStep kind opening closing)
    (pairStep kind opening closing frames face)) = total

theorem FramedAt.exists_face {kind : GroupKind} {opening closing : TokenPattern} {list id : NodeId}
    {total : List Face} {tree : Tree} {cursor : Cursor}
    (h : FramedAt kind opening closing list total tree cursor)
    (hchild : tree.child? list cursor.idx = some id) :
    exists frames rest,
      ReadsAt kind opening closing list total tree cursor frames (tree.face id) rest := by
  rcases h.cut with ⟨frames, todo, hne, hfaces, hidx, hwaits, htotal⟩
  cases todo with
  | nil =>
      rw [List.append_nil] at hfaces
      have hlt := child?_lt hchild
      rw [← length_faces, hfaces, hidx] at hlt
      exact absurd hlt (Nat.lt_irrefl _)
  | cons face rest =>
      rw [face_of_child? hfaces (hidx ▸ hchild)]
      exact ⟨frames, rest, hne, hfaces, hidx, hwaits, htotal⟩

namespace ReadsAt

variable {list id : NodeId} {total : List Face} {tree after : Tree} {cursor : Cursor}
  {move : Move} {frames : List (List Face)} {face : Face} {rest : List Face}
  (h : ReadsAt kind opening closing list total tree cursor frames face rest)
include h

theorem length_le_one (hopens : cursor.opens = []) : frames.length <= 1 := by
  rw [h.opens] at hopens
  rcases frames with _ | ⟨top, _ | ⟨outer, below⟩⟩
  · exact Nat.zero_le _
  · exact Nat.le_refl _
  · cases hopens

theorem past (hafter : after.faces list = tree.faces list)
    (hopens : face.has (Token.opensPair opening) = false)
    (hshuts : face.has (Token.shutsPair opening closing) = true -> frames.length <= 1) :
    FramedAt kind opening closing list total after (Move.skip cursor).cursor := by
  refine ⟨push face frames, rest, push_ne_nil, ?_, ?_, ?_, ?_⟩
  · rw [hafter, h.faces, framed_push, List.append_assoc, List.singleton_append]
  · rw [framed_push, List.length_append, ← h.idx]
    rfl
  · rw [waiting_push, ← h.opens]
    rfl
  · rw [← h.total, pairStep_plain hopens hshuts]

theorem opened (hopens : face.has (Token.opensPair opening) = true) :
    FramedAt kind opening closing list total tree
      (Move.skip { cursor with opens := cursor.idx :: cursor.opens }).cursor := by
  refine ⟨[face] :: frames, rest, List.cons_ne_nil _ _, ?_, ?_, ?_, ?_⟩
  · rw [h.faces, framed_cons, List.append_assoc, List.singleton_append]
  · rw [framed_cons, List.length_append, ← h.idx]
    rfl
  · cases frames with
    | nil =>
        exact absurd rfl h.ne_nil
    | cons top below =>
        rw [waiting, ← h.idx, ← h.opens]
        rfl
  · rw [← h.total, pairStep_opens hopens]

theorem shut (hwf : tree.WellFormed) (hfits : move.Fits tree list cursor) {start : Nat}
    {opens : List Nat} (hshuts : face.has (Token.shutsPair opening closing) = true)
    (hwaiting : cursor.opens = start :: opens)
    (hmove : move = { span := some { kind := kind, start := start, stop := cursor.idx },
                      cursor := { idx := start + 1, opens := opens } })
    (hgroups : move.Groups list tree after) :
    FramedAt kind opening closing list total after move.cursor := by
  have hwaits := h.opens
  have hidx := h.idx
  rcases frames with _ | ⟨top, _ | ⟨outer, below⟩⟩
  · exact absurd rfl h.ne_nil
  · rw [hwaiting] at hwaits
    cases hwaits
  · rw [hwaiting, waiting, List.cons.injEq] at hwaits
    rcases hwaits with ⟨hstart, hopens⟩
    rcases hgroups.gathers hwf hfits with ⟨span, front, moved, back, group, hg⟩
    have hspan := hg.span_eq
    rw [hmove] at hspan
    cases hspan
    have hafter := hg.faces_of_cut hwf (hgroups.groupStep hwf hfits) (by rw [hmove])
      (framed (outer :: below)) (top ++ [face]) rest
      (by rw [h.faces, framed_cons]; simp) hstart.symm (by
        rw [framed_cons, List.length_append] at hidx
        rw [List.length_append, List.length_singleton]
        dsimp only
        omega)
    rw [hmove]
    refine ⟨push (.group kind) (outer :: below), rest, push_ne_nil, ?_, ?_, ?_, ?_⟩
    · rw [hafter, framed_push, List.append_assoc, List.singleton_append]
    · rw [framed_push, List.length_append, ← hstart]
      rfl
    · rw [waiting_push, ← hopens]
    · rw [← h.total, pairStep_shuts hshuts]

end ReadsAt

variable (hopening : kind.opening? = some opening) (hclosing : kind.closing? = some closing)
  {limit room : Nat} {list : NodeId} {total : List Face} {tree after : Tree} {cursor : Cursor}
  {move : Move}
include hopening hclosing

theorem FramedAt.moved (hwf : tree.WellFormed) (hcursor : cursor.Ordered)
    (h : FramedAt kind opening closing list total tree cursor)
    (hplan : (Pass.pairs kind).plan tree list cursor = some move)
    (hmoved : Moved ((Pass.pairs kind).run limit room) list move tree after) :
    FramedAt kind opening closing list total after move.cursor := by
  have hfits := pairs_sound kind tree list cursor move hcursor hplan
  rcases pairMoved_of_moved hopening hclosing hplan hmoved with ⟨id, hchild, hdone⟩
  rcases h.exists_face hchild with ⟨frames, rest, hreads⟩
  cases hdone with
  | past _ hopens hshuts =>
      refine hreads.past rfl (by rw [opensPair_face, hopens]) fun hface => ?_
      rw [shutsPair_face] at hface
      exact hreads.length_le_one (hshuts hface)
  | into hgroup _ hexec =>
      have hwithin := changesWithin_of_run (pairs_sound kind) (tagsChildren_pairs kind) hwf hexec
      have hnone := pairTests_of_isGroup hgroup opening closing
      refine hreads.past (hwithin.faces_upper hwf (List.mem_of_getElem? hchild) hgroup)
        (by rw [opensPair_face, hnone.1]) fun hface => ?_
      rw [shutsPair_face, hnone.2] at hface
      cases hface
  | opens _ hopens _ =>
      exact hreads.opened (by rw [opensPair_face, hopens])
  | shuts _ hshuts hwaiting hmove hgroups =>
      exact hreads.shut hwf hfits (by rw [shutsPair_face, hshuts]) hwaiting hmove hgroups

theorem faces_of_pairs {tree after : Tree} (hwf : tree.WellFormed)
    (h : exec ((Pass.pairs kind).run limit room list) tree = (.ok (), after)) :
    after.faces list = paired kind opening closing (tree.faces list) := by
  cases room with
  | zero =>
      cases h
  | succ room =>
      rw [exec_pairs_run hopening hclosing] at h
      have hstart : FramedAt kind opening closing list
          (paired kind opening closing (tree.faces list)) tree {} :=
        ⟨[[]], tree.faces list, List.cons_ne_nil _ _, rfl, rfl, rfl, rfl⟩
      rcases walk_rule (pairs_sound kind) (tagsChildren_pairs kind)
          (fun id _ hwf => run_changesWithin (pairs_sound kind) (tagsChildren_pairs kind) limit room
            id hwf)
          (fun tree after cursor move hwf hcursor hinvariant hplan hmoved =>
            hinvariant.moved hopening hclosing hwf hcursor hplan hmoved)
          hwf (Cursor.ordered_at 0) (Nat.le_add_left _ _) hstart h with ⟨last, hlast, hend⟩
      have hcount := childCount_le_of_pairs_end hopening hclosing hend
      rcases hlast.cut with ⟨frames, todo, _, hfaces, hidx, _, htotal⟩
      have hnil : todo = [] := by
        apply List.eq_nil_of_length_eq_zero
        have hlength := congrArg List.length hfaces
        rw [List.length_append, length_faces] at hlength
        omega
      subst hnil
      rw [hfaces, List.append_nil]
      exact htotal

end Pass

/-!
# Parts of a list
-/

namespace Face

variable {kind : GroupKind} {opening closing : TokenPattern} {face : Face}
  {frames : List (List Face)}

theorem foldl_plain {faces top : List Face} {below : List (List Face)}
    (h : forall face, face ∈ faces -> face.has (Token.opensPair opening) = false ∧
      face.has (Token.shutsPair opening closing) = false) :
    faces.foldl (pairStep kind opening closing) (top :: below) = (top ++ faces) :: below := by
  induction faces generalizing top with
  | nil =>
      rw [List.foldl_nil, List.append_nil]
  | cons face rest ih =>
      rw [List.forall_mem_cons] at h
      rw [List.foldl_cons, pairStep_plain h.1.1
        (fun hshuts => by rw [h.1.2] at hshuts; cases hshuts),
        push, ih h.2, List.append_assoc, List.singleton_append]

theorem push_keeps (inner : List (List Face)) (top : List Face) (below : List (List Face)) :
    exists inner' more, push face (inner ++ top :: below) = inner' ++ (top ++ more) :: below ∧
      inner'.length = inner.length ∧
      forall other, other ∈ more ∨ other ∈ framed inner' ->
        other ∈ framed inner ∨ other = face := by
  cases inner with
  | nil =>
      refine ⟨[], [face], rfl, rfl, ?_⟩
      rintro other (hmore | hinner)
      · exact Or.inr (List.mem_singleton.mp hmore)
      · cases hinner
  | cons first inner =>
      refine ⟨(first ++ [face]) :: inner, [], by rw [List.append_nil]; rfl, rfl, ?_⟩
      rintro other (hmore | hinner)
      · cases hmore
      · rw [framed_cons, ← List.append_assoc, ← framed_cons, List.mem_append,
          List.mem_singleton] at hinner
        exact hinner

theorem pairStep_keeps {inner : List (List Face)} {top : List Face} {below : List (List Face)}
    (h : below = [] ∨ inner ≠ [] ∨ face.has (Token.shutsPair opening closing) = false) :
    exists (inner' : List (List Face)) (more : List Face),
      pairStep kind opening closing (inner ++ top :: below) face =
        inner' ++ (top ++ more) :: below ∧
      inner'.length = openAfter opening closing inner.length (tokens [face]) ∧
      forall other, other ∈ more ∨ other ∈ framed inner' ->
        other ∈ framed inner ∨ other = face ∨ other = .group kind := by
  have hplain : face.has (Token.opensPair opening) = false ->
      (face.has (Token.shutsPair opening closing) = true -> inner = [] ∧ below = []) ->
      exists inner' more, pairStep kind opening closing (inner ++ top :: below) face =
          inner' ++ (top ++ more) :: below ∧ inner'.length = inner.length ∧
        forall other, other ∈ more ∨ other ∈ framed inner' ->
          other ∈ framed inner ∨ other = face ∨ other = .group kind := by
    intro hopens hshuts
    rcases @push_keeps face inner top below with ⟨inner', more, heq, hlength, hmem⟩
    refine ⟨inner', more, ?_, hlength, fun other hother => (hmem other hother).imp_right Or.inl⟩
    rw [pairStep_plain hopens, heq]
    intro h
    rcases hshuts h with ⟨rfl, rfl⟩
    exact Nat.le_refl _
  cases face with
  | group other =>
      rcases hplain rfl nofun with ⟨inner', more, heq, hlength, hmem⟩
      exact ⟨inner', more, heq, hlength, hmem⟩
  | token t =>
      have htokens : tokens [.token t] = [t] := rfl
      rw [htokens, openAfter]
      split
      · rename_i hopens
        refine ⟨[.token t] :: inner, [], ?_, rfl, ?_⟩
        · rw [@pairStep_opens kind opening closing (.token t) _ hopens, List.append_nil]
          rfl
        · rintro other (hmore | hinner)
          · cases hmore
          · rw [framed_cons, List.mem_append, List.mem_singleton] at hinner
            exact hinner.imp_right Or.inl
      · rename_i hopens
        split
        · rename_i hshuts
          cases inner with
          | nil =>
              rcases h with rfl | hne | hnot
              · exact hplain (Bool.eq_false_iff.mpr hopens) fun _ => ⟨rfl, rfl⟩
              · exact absurd rfl hne
              · exact absurd hshuts (Bool.eq_false_iff.mp hnot)
          | cons first inner =>
              rcases @push_keeps (.group kind) inner top below with
                ⟨inner', more, heq, hlength, hmem⟩
              refine ⟨inner', more, ?_, hlength, ?_⟩
              · rw [← heq]
                cases inner with
                | nil =>
                    exact @pairStep_shuts kind opening closing (.token t) first below hshuts top
                | cons second inner =>
                    exact @pairStep_shuts kind opening closing (.token t) first
                      (inner ++ top :: below) hshuts second
              · intro other hother
                rcases hmem other hother with hinner | hgroup
                · rw [framed_cons]
                  exact Or.inl (List.mem_append_left _ hinner)
                · exact Or.inr (Or.inr hgroup)
        · rename_i hshuts
          exact hplain (Bool.eq_false_iff.mpr hopens) fun h => absurd h hshuts

theorem tokens_cons (face : Face) (rest : List Face) :
    tokens (face :: rest) = tokens [face] ++ tokens rest := by
  cases face with
  | token t =>
      rfl
  | group kind =>
      rfl

theorem openAfter_append (opening closing : TokenPattern) (depth : Nat) (left right : List Token) :
    openAfter opening closing depth (left ++ right) =
      openAfter opening closing (openAfter opening closing depth left) right := by
  induction left generalizing depth with
  | nil =>
      rfl
  | cons t rest ih =>
      rw [List.cons_append, openAfter, openAfter]
      split
      · exact ih _
      · split
        · exact ih _
        · exact ih _

/-- If some frames are enough for the brackets that are closed, there is one for the first of
them, and those behind it are enough for the rest. -/
theorem shutBefore_step {inner : List (List Face)} {rest : List Token}
    (h : shutBefore opening closing (tokens [face] ++ rest) <= inner.length) :
    (inner ≠ [] ∨ face.has (Token.shutsPair opening closing) = false) ∧
      shutBefore opening closing rest <=
        openAfter opening closing inner.length (tokens [face]) := by
  cases face with
  | group other =>
      exact ⟨Or.inr rfl, h⟩
  | token t =>
      have htokens : tokens [.token t] = [t] := rfl
      rw [htokens, List.singleton_append, shutBefore] at h
      rw [htokens, openAfter]
      split at h
      · rename_i hopens
        rw [if_pos hopens]
        exact ⟨Or.inr (@not_shuts_of_opens opening closing (.token t) hopens), by
          rw [openAfter]; omega⟩
      · rename_i hopens
        rw [if_neg hopens]
        split at h
        · rename_i hshuts
          rw [if_pos hshuts]
          refine ⟨Or.inl ?_, by rw [openAfter]; omega⟩
          rintro rfl
          exact absurd h (Nat.not_succ_le_zero _)
        · rename_i hshuts
          rw [if_neg hshuts]
          exact ⟨Or.inr (Bool.eq_false_iff.mpr hshuts), h⟩

/-- Some faces leave a frame what it has if it is the outermost one, or if enough frames are
around them for the brackets that they close.  What they add comes from them. -/
theorem foldl_keeps {faces : List Face} {inner : List (List Face)} {top : List Face}
    {below : List (List Face)}
    (h : below = [] ∨ shutBefore opening closing (tokens faces) <= inner.length) :
    exists inner' more, faces.foldl (pairStep kind opening closing) (inner ++ top :: below) =
        inner' ++ (top ++ more) :: below ∧
      inner'.length = openAfter opening closing inner.length (tokens faces) ∧
      forall other, other ∈ more ∨ other ∈ framed inner' ->
        other ∈ framed inner ∨ other ∈ faces ∨ other = .group kind := by
  induction faces generalizing inner top with
  | nil =>
      refine ⟨inner, [], by rw [List.append_nil, List.foldl_nil], rfl, ?_⟩
      rintro other (hmore | hinner)
      · cases hmore
      · exact Or.inl hinner
  | cons face rest ih =>
      have hstep : below = [] ∨ inner ≠ [] ∨
          face.has (Token.shutsPair opening closing) = false := by
        refine h.imp_right fun hle => ?_
        rw [tokens_cons] at hle
        exact (shutBefore_step hle).1
      rcases @pairStep_keeps kind opening closing face inner top below hstep with
        ⟨middle, added, heq, hlength, hmem⟩
      have hrest : below = [] ∨ shutBefore opening closing (tokens rest) <= middle.length := by
        refine h.imp_right fun hle => ?_
        rw [tokens_cons] at hle
        rw [hlength]
        exact (shutBefore_step hle).2
      rcases @ih middle (top ++ added) hrest with ⟨inner', more, heq', hlength', hmem'⟩
      refine ⟨inner', added ++ more, ?_, ?_, ?_⟩
      · rw [List.foldl_cons, heq, heq', List.append_assoc]
      · rw [hlength', hlength, tokens_cons face rest, openAfter_append]
      · intro other hother
        have hall : other ∈ added ∨ other ∈ framed middle ∨ other ∈ rest ∨ other = .group kind := by
          rcases hother with hmore | hinner
          · rcases List.mem_append.mp hmore with hadded | hmore
            · exact Or.inl hadded
            · exact Or.inr (hmem' other (Or.inl hmore))
          · exact Or.inr (hmem' other (Or.inr hinner))
        rw [List.mem_cons]
        rcases hall with hadded | hmiddle | hrest | hgroup
        · exact (hmem other (Or.inl hadded)).imp_right (Or.imp_left Or.inl)
        · exact (hmem other (Or.inr hmiddle)).imp_right (Or.imp_left Or.inl)
        · exact Or.inr (Or.inl (Or.inr hrest))
        · exact Or.inr (Or.inr hgroup)

/-- Two parts of a list, apart from each other: no bracket that the first one leaves open is
closed in the second one.  Then what stands in front of them and between them stays. -/
theorem paired_apart {front body middle rest : List Face}
    (hfront : forall face, face ∈ front -> face.has (Token.opensPair opening) = false ∧
      face.has (Token.shutsPair opening closing) = false)
    (hmiddle : forall face, face ∈ middle -> face.has (Token.opensPair opening) = false ∧
      face.has (Token.shutsPair opening closing) = false)
    (hapart : openAfter opening closing 0 (tokens body) = 0 ∨
      shutBefore opening closing (tokens rest) = 0) :
    exists body' rest', paired kind opening closing (front ++ (body ++ (middle ++ rest))) =
        front ++ (body' ++ (middle ++ rest')) ∧
      forall face, face ∈ body' -> face ∈ body ∨ face = .group kind := by
  rcases @foldl_keeps kind opening closing body [] front [] (Or.inl rfl) with
    ⟨inner, more, hbody, hlength, hmem⟩
  rw [List.nil_append] at hbody
  rcases hframes : inner ++ [front ++ more] with _ | ⟨top, below⟩
  · simp at hframes
  · have hbelow : below = [] ∨ shutBefore opening closing (tokens rest) <= 0 := by
      rcases hapart with hopen | hshut
      · left
        rw [List.length_nil, hopen] at hlength
        rw [List.eq_nil_of_length_eq_zero hlength, List.nil_append] at hframes
        exact (List.cons.inj hframes).2.symm
      · exact Or.inr (Nat.le_of_eq hshut)
    rcases @foldl_keeps kind opening closing rest [] (top ++ middle) below hbelow with
      ⟨inner', more', hrest, _, _⟩
    have hframed : framed (top :: below) = front ++ (more ++ framed inner) := by
      rw [← hframes]
      simp [framed]
    refine ⟨more ++ framed inner, more' ++ framed inner', ?_, ?_⟩
    · unfold paired
      rw [List.foldl_append, foldl_plain hfront, List.nil_append, List.foldl_append, hbody, hframes,
        List.foldl_append, foldl_plain hmiddle]
      rw [List.nil_append] at hrest
      rw [hrest]
      have hsplit : framed (inner' ++ (top ++ middle ++ more') :: below) =
          framed (top :: below) ++ (middle ++ more') ++ framed inner' := by
        simp [framed]
      rw [hsplit, hframed]
      simp
    · intro face hface
      rcases hmem face (List.mem_append.mp hface) with hnone | hbody | hgroup
      · cases hnone
      · exact Or.inl hbody
      · exact Or.inr hgroup

theorem paired_group {front body middle rest : List Face} {first last : Face}
    (hfront : forall face, face ∈ front -> face.has (Token.opensPair opening) = false ∧
      face.has (Token.shutsPair opening closing) = false)
    (hfirst : first.has (Token.opensPair opening) = true)
    (hbody : forall face, face ∈ body -> face.has (Token.opensPair opening) = false ∧
      face.has (Token.shutsPair opening closing) = false)
    (hlast : last.has (Token.shutsPair opening closing) = true)
    (hmiddle : forall face, face ∈ middle -> face.has (Token.opensPair opening) = false ∧
      face.has (Token.shutsPair opening closing) = false) :
    exists rest', paired kind opening closing
      (front ++ first :: (body ++ last :: (middle ++ rest))) =
      front ++ .group kind :: (middle ++ rest') := by
  rcases @foldl_keeps kind opening closing rest [] (front ++ [.group kind] ++ middle) []
      (Or.inl rfl) with ⟨inner, more, hrest, _, _⟩
  refine ⟨more ++ framed inner, ?_⟩
  unfold paired
  rw [List.foldl_append, foldl_plain hfront, List.nil_append, List.foldl_cons,
    pairStep_opens hfirst,
    List.foldl_append, foldl_plain hbody, List.foldl_cons, pairStep_shuts hlast, push,
    List.foldl_append, foldl_plain hmiddle]
  rw [List.nil_append] at hrest
  rw [hrest]
  simp [framed]

end Face

end SqlLayout
