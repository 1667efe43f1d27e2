import SqlLayout.Layout.Cleanup
import SqlLayout.Proofs.Grouping.Comments
import SqlLayout.Proofs.Tree.Relist

/-!
# Stripping comments

Each comment goes with the blanks that were grouped with it, and a space or
nothing takes its place.  No comment is left, and the other tokens stay as they
are.
-/

namespace SqlLayout

/-- The space that takes the place of a comment. -/
def Token.space : Token := ⟨.whitespace, [' '], none⟩

/-- A run of comments and blanks gives way to a space or to nothing. -/
inductive CommentCut : List Token -> List Token -> Prop where
  | cut {run place : List Token} (front back : List Token) :
      run ≠ [] ->
      (forall token, token ∈ run -> token.isTrivia = true) ->
      place = [] ∨ place = [Token.space] ->
      CommentCut (front ++ run ++ back) (front ++ place ++ back)

theorem not_isComment_of_cuts {tokens after : List Token}
    (h : Relation.ReflTransGen CommentCut tokens after)
    (htokens : forall token, token ∈ tokens -> token.isComment = false) :
    forall token, token ∈ after -> token.isComment = false := by
  induction h with
  | refl =>
      exact htokens
  | tail _ hlast ih =>
      cases hlast with
      | cut front back _ _ hplace =>
          intro token hmem
          rcases List.mem_append.mp hmem with hmem | hback
          · rcases List.mem_append.mp hmem with hfront | hspace
            · exact ih token (List.mem_append_left _ (List.mem_append_left _ hfront))
            · rcases hplace with rfl | rfl
              · cases hspace
              · rw [List.mem_singleton.mp hspace]
                rfl
          · exact ih token (List.mem_append_right _ hback)

namespace Tree

variable {tree middle after : Tree} {list : NodeId}

/-!
# What stripping leaves alone
-/

/-- The leaves of a node that are neither comments nor blanks. -/
def codeLeaves (tree : Tree) (id : NodeId) : List NodeId :=
  (tree.leaves id).filter fun leaf => !tree.tokenHas leaf Token.isTrivia

/-- One tree comes of another by stripping comments. -/
structure Stripped (tree after : Tree) : Prop where
  wellFormed : after.WellFormed
  size_le : tree.size <= after.size
  kind?_eq : forall id, id < tree.size -> after.kind? id = tree.kind? id
  token?_eq : forall id, id < tree.size -> after.token? id = tree.token? id
  token?_new : forall id, tree.size <= id -> id < after.size ->
    after.token? id = some Token.space
  parent?_old : forall id parent, id < tree.size -> after.parent? id = some parent ->
    tree.parent? id = some parent
  leaves_comment : forall id, tree.isKind id .comment = true -> after.leaves id = tree.leaves id
  cuts : forall id, id < tree.size ->
    Relation.ReflTransGen CommentCut (tree.tokens id) (after.tokens id)
  codeLeaves_eq : forall id, id < tree.size -> after.codeLeaves id = tree.codeLeaves id

namespace Stripped

theorem refl (hwf : tree.WellFormed) : tree.Stripped tree := by
  refine ⟨hwf, Nat.le_refl _, fun _ _ => rfl, fun _ _ => rfl, ?_, fun _ _ _ h => h,
    fun _ _ => rfl, fun _ _ => Relation.ReflTransGen.refl, fun _ _ => rfl⟩
  intro id hle hlt
  exact absurd hlt (Nat.not_lt_of_le hle)

theorem isKind_eq (h : tree.Stripped after) {id : NodeId} (hid : id < tree.size)
    (kind : GroupKind) : after.isKind id kind = tree.isKind id kind := by
  unfold isKind
  rw [h.kind?_eq id hid]

theorem isGroup_eq (h : tree.Stripped after) {id : NodeId} (hid : id < tree.size) :
    after.isGroup id = tree.isGroup id := by
  unfold isGroup
  rw [h.kind?_eq id hid]

theorem trans (h : tree.Stripped middle) (h' : middle.Stripped after) : tree.Stripped after := by
  have hlt : forall id, id < tree.size -> id < middle.size :=
    fun id hid => Nat.lt_of_lt_of_le hid h.size_le
  refine ⟨h'.wellFormed, Nat.le_trans h.size_le h'.size_le, ?_, ?_, ?_, ?_, ?_, ?_, ?_⟩
  · intro id hid
    rw [h'.kind?_eq id (hlt id hid), h.kind?_eq id hid]
  · intro id hid
    rw [h'.token?_eq id (hlt id hid), h.token?_eq id hid]
  · intro id hle hid
    by_cases hmiddle : id < middle.size
    · rw [h'.token?_eq id hmiddle]
      exact h.token?_new id hle hmiddle
    · exact h'.token?_new id (Nat.le_of_not_lt hmiddle) hid
  · intro id parent hid hparent
    exact h.parent?_old id parent hid (h'.parent?_old id parent (hlt id hid) hparent)
  · intro id hkind
    have hid := lt_size_of_isGroup (isGroup_iff_kind?.mpr ⟨_, eq_of_beq hkind⟩)
    rw [h'.leaves_comment id (by rw [h.isKind_eq hid]; exact hkind), h.leaves_comment id hkind]
  · intro id hid
    exact (h.cuts id hid).trans (h'.cuts id (hlt id hid))
  · intro id hid
    rw [h'.codeLeaves_eq id (hlt id hid), h.codeLeaves_eq id hid]

theorem lt_size_of_isGroup (h : tree.Stripped after) {id : NodeId}
    (hid : after.isGroup id = true) : id < tree.size := by
  apply Nat.lt_of_not_le
  intro hle
  have htoken := h.token?_new id hle (Tree.lt_size_of_isGroup hid)
  rw [isGroup_of_token? htoken] at hid
  cases hid

theorem commentsApart (h : tree.Stripped after) (hwf : tree.WellFormed)
    (hapart : tree.CommentsApart) : after.CommentsApart := by
  intro id hid
  have hlt := h.lt_size_of_isGroup (isGroup_iff_kind?.mpr ⟨_, eq_of_beq hid⟩)
  rw [h.isKind_eq hlt] at hid
  have hholds := hapart id hid
  unfold HoldsTrivia
  rw [h.leaves_comment id hid]
  refine ⟨hholds.1, ?_⟩
  intro leaf hleaf
  unfold tokenHas
  rw [h.token?_eq leaf (hwf.leaf_lt_size hlt hleaf)]
  exact hholds.2 leaf hleaf

theorem sublists_subset (h : tree.Stripped after) (hwf : tree.WellFormed) (id : NodeId) :
    after.sublists id ⊆ tree.sublists id := by
  refine sublists_subset_of_old hwf h.wellFormed (fun child hchild => ?_) h.parent?_old id
  rw [← h.isGroup_eq (h.lt_size_of_isGroup hchild)]
  exact hchild

theorem nestsWithin (h : tree.Stripped after) (hwf : tree.WellFormed) {room : Nat} {id : NodeId}
    (hnests : tree.nestsWithin room id = true) :
    after.nestsWithin room id = true :=
  nestsWithin_of_subset (h.sublists_subset hwf) hnests

theorem above_of_above (h : tree.Stripped after) (hwf : tree.WellFormed) {id other : NodeId}
    (hother : other < tree.size) (habove : after.Above id other) : tree.Above id other :=
  habove.of_old hwf h.parent?_old hother

end Stripped

def Exposed (tree : Tree) (id : NodeId) : Prop :=
  forall other, tree.AtOrAbove other id -> tree.isKind other .comment = false

theorem Stripped.exposed (h : tree.Stripped after) (hwf : tree.WellFormed) {id : NodeId}
    (hid : id < tree.size) (hexposed : tree.Exposed id) : after.Exposed id := by
  intro other hother
  have hold : tree.AtOrAbove other id := by
    rcases hother with heq | habove
    · exact Or.inl heq
    · exact Or.inr (h.above_of_above hwf hid habove)
  have hlt : other < tree.size := by
    rcases hold with rfl | habove
    · exact hid
    · exact lt_size_of_above hwf habove
  rw [h.isKind_eq hlt]
  exact hexposed other hold

theorem Exposed.child {child : NodeId} (h : tree.Exposed list)
    (hparent : tree.parent? child = some list) (hchild : tree.isKind child .comment = false) :
    tree.Exposed child := by
  intro other hother
  rcases hother with rfl | habove
  · exact hchild
  · exact h other (above_cases hparent habove)

/-!
# One comment
-/

theorem HoldsTrivia.tokens {id : NodeId} (h : tree.HoldsTrivia id) :
    tree.tokens id ≠ [] ∧ forall token, token ∈ tree.tokens id -> token.isTrivia = true := by
  constructor
  · intro hnil
    rcases List.exists_mem_of_ne_nil _ h.1 with ⟨leaf, hleaf⟩
    rcases tokenHas_iff.mp (h.2 leaf hleaf) with ⟨token, htoken, _⟩
    have hmem : token ∈ tree.tokens id := List.mem_filterMap.mpr ⟨leaf, hleaf, htoken⟩
    rw [hnil] at hmem
    cases hmem
  · intro token hmem
    rcases List.mem_filterMap.mp hmem with ⟨leaf, hleaf, htoken⟩
    rcases tokenHas_iff.mp (h.2 leaf hleaf) with ⟨other, hother, htrivia⟩
    rw [htoken] at hother
    cases hother
    exact htrivia

theorem HoldsTrivia.codeLeaves {id : NodeId} (h : tree.HoldsTrivia id) :
    tree.codeLeaves id = [] := by
  apply List.filter_eq_nil_iff.mpr
  intro leaf hleaf
  rw [h.2 leaf hleaf]
  exact Bool.false_ne_true

section

variable {place : List NodeId}
  (hplace : place = [] ∨ exists id, place = [id] ∧ tree.token? id = some Token.space)
include hplace

theorem tokens_place :
    place.flatMap tree.tokens = [] ∨ place.flatMap tree.tokens = [Token.space] := by
  rcases hplace with rfl | ⟨id, rfl, htoken⟩
  · exact Or.inl rfl
  · rw [List.flatMap_singleton, Tree.tokens, WellFormed.leaves_token htoken,
      List.filterMap_cons_some htoken]
    exact Or.inr rfl

theorem codeLeaves_place : place.flatMap tree.codeLeaves = [] := by
  rcases hplace with rfl | ⟨id, rfl, htoken⟩
  · rfl
  · rw [List.flatMap_singleton, codeLeaves, WellFormed.leaves_token htoken, List.filter_singleton,
      tokenHas, htoken]
    rfl

end

section

variable (hwf : tree.WellFormed)
include hwf

theorem stripped_of_relisted (hafter : after.WellFormed) (h : Relisted tree list after)
    (hexposed : tree.Exposed list) {front back : List NodeId} (place : List NodeId)
    {child : NodeId} (hchildren : tree.children list = front ++ child :: back)
    (hplaced : after.children list = front ++ place ++ back)
    (hchild : tree.HoldsTrivia child)
    (hplace : place = [] ∨ exists id, place = [id] ∧ after.token? id = some Token.space)
    (hnew : forall id, tree.size <= id -> id < after.size -> after.token? id = some Token.space)
    (hparent : forall id parent, id < tree.size -> after.parent? id = some parent ->
      tree.parent? id = some parent) : tree.Stripped after := by
  have hchildren' : tree.children list = front ++ [child] ++ back := by
    rw [hchildren, List.append_assoc, List.singleton_append]
  refine ⟨hafter, h.size_le, fun id hid => h.kind?_eq hid, fun id hid => h.token?_eq hid, hnew,
    hparent, ?_, ?_, ?_⟩
  · intro id hid
    apply h.leaves_outside hwf hafter
      (lt_size_of_isGroup (isGroup_iff_kind?.mpr ⟨_, eq_of_beq hid⟩))
    intro habove
    rw [hexposed id habove] at hid
    cases hid
  · intro id hid
    rcases h.filterMap_leaves hwf hafter hchildren' hplaced
        (fun leaf hleaf => h.token?_eq hleaf) hid with
      hsame | ⟨before, behind, htokens, htokens'⟩
    · rw [Tree.tokens, Tree.tokens, hsame]
    · rw [List.flatMap_singleton] at htokens
      rw [List.filterMap_flatMap] at htokens'
      rw [Tree.tokens, Tree.tokens, htokens, htokens']
      exact Relation.ReflTransGen.single
        (CommentCut.cut _ _ hchild.tokens.1 hchild.tokens.2 (tokens_place hplace))
  · intro id hid
    have hkeep : forall leaf, leaf < tree.size ->
        (!after.tokenHas leaf Token.isTrivia) = !tree.tokenHas leaf Token.isTrivia :=
      fun leaf hleaf => by rw [tokenHas_congr (h.token?_eq hleaf)]
    rcases h.filter_leaves hwf hafter hchildren' hplaced hkeep hid with
      hsame | ⟨before, behind, hcode, hcode'⟩
    · exact hsame
    · have hnone := hchild.codeLeaves
      have hnone' := codeLeaves_place hplace
      unfold codeLeaves at hnone hnone' ⊢
      rw [List.flatMap_singleton, hnone] at hcode
      rw [List.filter_flatMap, hnone'] at hcode'
      rw [hcode, hcode']

theorem stripped_removeAt (hexposed : tree.Exposed list) {idx : Nat} {child : NodeId}
    (hchild : tree.child? list idx = some child) (htrivia : tree.HoldsTrivia child) :
    tree.Stripped (tree.removeAt list idx) := by
  have h := removed_removeAt hwf hchild
  refine stripped_of_relisted hwf (h.wellFormed hwf) h.relisted hexposed []
    h.children_list ?_ htrivia (Or.inl rfl) ?_ ?_
  · rw [h.children_after_list, List.append_nil]
  · intro id hle hlt
    rw [h.size_eq] at hlt
    exact absurd hlt (Nat.not_lt_of_le hle)
  · intro id parent _ hparent
    rw [h.parent?_eq] at hparent
    split at hparent
    · cases hparent
    · exact hparent

theorem children_removeAt_insertBlank {idx : Nat} {child : NodeId} (value : Text)
    (hchild : tree.child? list idx = some child) :
    ((tree.removeAt list idx).insertBlank list idx value).children list =
      (tree.children list).take idx ++ tree.size :: (tree.children list).drop (idx + 1) := by
  have hremoved := removed_removeAt hwf hchild
  have hgroup : (tree.removeAt list idx).isGroup list = true := by
    rw [hremoved.relisted.isGroup_eq (lt_size_of_isGroup hremoved.isGroup_list)]
    exact hremoved.isGroup_list
  have h := inserted_insertAt hgroup idx ⟨.whitespace, value, none⟩
  have hlength : ((tree.children list).take idx).length = idx :=
    List.length_take_of_le (Nat.le_of_lt (child?_lt hchild))
  rw [insertBlank, h.children_after_list, hremoved.children_after_list, hremoved.size_eq,
    List.take_append_of_le_length (Nat.le_of_eq hlength.symm),
    List.take_of_length_le (Nat.le_of_eq hlength),
    List.drop_append_of_le_length (Nat.le_of_eq hlength.symm),
    List.drop_of_length_le (Nat.le_of_eq hlength), List.nil_append]

theorem stripped_removeAt_insertBlank (hexposed : tree.Exposed list) {idx : Nat}
    {child : NodeId} (hchild : tree.child? list idx = some child)
    (htrivia : tree.HoldsTrivia child) :
    tree.Stripped ((tree.removeAt list idx).insertBlank list idx [' ']) := by
  have hremoved := removed_removeAt hwf hchild
  have hmiddle := hremoved.wellFormed hwf
  have hgroup : (tree.removeAt list idx).isGroup list = true := by
    rw [hremoved.relisted.isGroup_eq (lt_size_of_isGroup hremoved.isGroup_list)]
    exact hremoved.isGroup_list
  have h : Inserted (tree.removeAt list idx) list Token.space _ _
      ((tree.removeAt list idx).insertBlank list idx [' ']) :=
    inserted_insertAt hgroup idx Token.space
  refine stripped_of_relisted hwf (h.wellFormed hmiddle) (hremoved.relisted.trans h.relisted)
    hexposed [tree.size] hremoved.children_list ?_ htrivia (Or.inr ⟨tree.size, rfl, ?_⟩) ?_ ?_
  · rw [children_removeAt_insertBlank hwf [' '] hchild, List.append_assoc]
    rfl
  · rw [← hremoved.size_eq]
    exact h.token?_new
  · intro id hle hlt
    rw [h.size_eq, hremoved.size_eq] at hlt
    have hid : id = (tree.removeAt list idx).size := by
      rw [hremoved.size_eq]
      omega
    rw [hid]
    exact h.token?_new
  · intro id parent hid hparent
    rw [h.parent?_eq, hremoved.size_eq, if_neg (Nat.ne_of_lt hid), hremoved.parent?_eq] at hparent
    split at hparent
    · cases hparent
    · exact hparent

end

/-!
# The comments of a list
-/

theorem CommentsApart.holdsTrivia (h : tree.CommentsApart) {id : NodeId}
    (hid : tree.isComment id = true) : tree.HoldsTrivia id := by
  unfold isComment at hid
  rw [Bool.or_eq_true] at hid
  rcases hid with hkind | htoken
  · exact h id hkind
  · rcases tokenHas_iff.mp htoken with ⟨token, hsome, hcomment⟩
    apply holdsTrivia_of_tokenHas
    refine tokenHas_iff.mpr ⟨token, hsome, ?_⟩
    unfold Token.isTrivia
    rw [hcomment, Bool.or_true]

theorem Stripped.isComment_eq (h : tree.Stripped after) {id : NodeId} (hid : id < tree.size) :
    after.isComment id = tree.isComment id := by
  unfold isComment
  rw [h.isKind_eq hid, tokenHas_congr (h.token?_eq id hid)]

theorem Stripped.isComment_new (h : tree.Stripped after) {id : NodeId} (hnew : tree.size <= id)
    (hid : id < after.size) : after.isComment id = false := by
  have htoken := h.token?_new id hnew hid
  have hgroup := isGroup_of_token? htoken
  unfold isGroup at hgroup
  unfold isComment isKind tokenHas
  rw [htoken]
  cases hkind : after.kind? id with
  | none =>
      rfl
  | some kind =>
      rw [hkind] at hgroup
      cases hgroup

theorem stripNextComment_spec {idx next : Nat} (hwf : tree.WellFormed)
    (hapart : tree.CommentsApart) (hexposed : tree.Exposed list)
    (h : stripNextComment list tree idx = some (after, next)) :
    exists place comment fill, tree.nextBy list idx tree.isComment = some (place, comment) ∧
      tree.Stripped after ∧ next = place + fill.length ∧
      after.children list =
        (tree.children list).take place ++ fill ++ (tree.children list).drop (place + 1) ∧
      forall id, id ∈ fill -> after.isComment id = false := by
  unfold stripNextComment at h
  split at h
  · cases h
  · rename_i place comment hnext
    rcases nextBy_some hnext with ⟨_, hchild, hcomment, _⟩
    have htrivia := hapart.holdsTrivia hcomment
    dsimp only at h
    split at h
    · cases h
      refine ⟨next, comment, [], hnext, stripped_removeAt hwf hexposed hchild htrivia, rfl, ?_, ?_⟩
      · rw [(removed_removeAt hwf hchild).children_after_list, List.append_nil]
      · intro id hid
        cases hid
    · cases h
      have hstripped := stripped_removeAt_insertBlank hwf hexposed hchild htrivia
      have hchildren := children_removeAt_insertBlank hwf [' '] hchild
      refine ⟨place, comment, [tree.size], hnext, hstripped, rfl, ?_, ?_⟩
      · rw [hchildren, List.append_assoc]
        rfl
      · intro id hid
        have hmem : tree.size ∈
            ((tree.removeAt list place).insertBlank list place [' ']).children list := by
          rw [hchildren]
          exact List.mem_append_right _ List.mem_cons_self
        rw [List.mem_singleton.mp hid]
        exact hstripped.isComment_new (Nat.le_refl _) (hstripped.wellFormed.child_lt_size hmem)

theorem stripNextComment_none {idx : Nat} (h : stripNextComment list tree idx = none) :
    tree.nextBy list idx tree.isComment = none := by
  unfold stripNextComment at h
  split at h
  · assumption
  · dsimp only at h
    split at h
    · cases h
    · cases h

section

variable {fill : List NodeId} {place : Nat} {comment : NodeId} (hwf : tree.WellFormed)
  (hstripped : tree.Stripped after) (hchild : tree.child? list place = some comment)
  (hchildren : after.children list =
    (tree.children list).take place ++ fill ++ (tree.children list).drop (place + 1))
  (hfill : forall id, id ∈ fill -> after.isComment id = false)
include hwf hstripped hchild hchildren hfill

theorem Stripped.not_isComment_before
    (hbefore : forall j id, j < place -> tree.child? list j = some id -> tree.isComment id = false)
    {j : Nat} {id : NodeId} (hj : j < place + fill.length) (hget : after.child? list j = some id) :
    after.isComment id = false := by
  have hlength : ((tree.children list).take place).length = place :=
    List.length_take_of_le (Nat.le_of_lt (child?_lt hchild))
  unfold child? at hget
  rw [hchildren, List.append_assoc] at hget
  by_cases hlt : j < place
  · rw [List.getElem?_append_left (by rw [hlength]; exact hlt),
      List.getElem?_take_of_lt hlt] at hget
    rw [hstripped.isComment_eq (hwf.child_lt_size (List.mem_of_getElem? hget))]
    exact hbefore j id hlt hget
  · rw [List.getElem?_append_right (by rw [hlength]; omega), hlength,
      List.getElem?_append_left (by omega)] at hget
    exact hfill id (List.mem_of_getElem? hget)

theorem Stripped.countP_isComment (hcomment : tree.isComment comment = true) :
    (after.children list).countP after.isComment + 1 =
      (tree.children list).countP tree.isComment := by
  have hcount : forall ids : List NodeId, (forall id, id ∈ ids -> id ∈ tree.children list) ->
      ids.countP after.isComment = ids.countP tree.isComment := by
    intro ids hids
    apply List.countP_congr
    intro id hmem
    rw [hstripped.isComment_eq (hwf.child_lt_size (hids id hmem))]
  have hnone : fill.countP after.isComment = 0 := by
    apply List.countP_eq_zero.mpr
    intro id hmem
    rw [hfill id hmem]
    exact Bool.false_ne_true
  have hsplit := congrArg (List.countP tree.isComment) (removed_removeAt hwf hchild).children_list
  rw [List.countP_append, List.countP_cons_of_pos hcomment] at hsplit
  rw [hchildren, List.countP_append, List.countP_append, hnone,
    hcount _ fun id => List.mem_of_mem_take, hcount _ fun id => List.mem_of_mem_drop, hsplit]
  omega

end

/-- The walk goes on after the children that are known to be no comments, and
takes out one of the other comments at each step. -/
theorem sweep_stripNextComment {budget idx : Nat} (hwf : tree.WellFormed)
    (hapart : tree.CommentsApart) (hexposed : tree.Exposed list)
    (hlist : tree.isGroup list = true)
    (hbefore : forall j id, j < idx -> tree.child? list j = some id -> tree.isComment id = false)
    (hbudget : (tree.children list).countP tree.isComment <= budget) :
    tree.Stripped (sweep (stripNextComment list) budget idx tree) ∧
      forall id, id ∈ (sweep (stripNextComment list) budget idx tree).children list ->
        (sweep (stripNextComment list) budget idx tree).isComment id = false := by
  induction budget generalizing tree idx with
  | zero =>
      refine ⟨Stripped.refl hwf, ?_⟩
      intro id hid
      exact Bool.eq_false_iff.mpr (List.countP_eq_zero.mp (Nat.le_zero.mp hbudget) id hid)
  | succ budget ih =>
      unfold sweep
      cases hstep : stripNextComment list tree idx with
      | none =>
          refine ⟨Stripped.refl hwf, ?_⟩
          intro id hid
          rcases List.mem_iff_getElem?.mp hid with ⟨j, hj⟩
          by_cases hlt : j < idx
          · exact hbefore j id hlt hj
          · exact nextBy_none (stripNextComment_none hstep) (Nat.le_of_not_lt hlt) hj
      | some result =>
          rcases result with ⟨middle, next⟩
          rcases stripNextComment_spec hwf hapart hexposed hstep with
            ⟨place, comment, fill, hnext, hstripped, hplace, hchildren, hfill⟩
          rcases nextBy_some hnext with ⟨_, hchild, hcomment, hbetween⟩
          have hid := lt_size_of_isGroup hlist
          have hlist' : middle.isGroup list = true := by
            rw [hstripped.isGroup_eq hid]
            exact hlist
          have hplain : forall j id, j < place -> tree.child? list j = some id ->
              tree.isComment id = false := by
            intro j id hj hget
            by_cases hlt : j < idx
            · exact hbefore j id hlt hget
            · exact hbetween j id (Nat.le_of_not_lt hlt) hj hget
          have hcount := hstripped.countP_isComment hwf hchild hchildren hfill hcomment
          have hrest := ih hstripped.wellFormed (hstripped.commentsApart hwf hapart)
            (hstripped.exposed hwf hid hexposed) hlist'
            (fun j id hj hget => hstripped.not_isComment_before hwf hchild hchildren hfill hplain
              (hplace ▸ hj) hget)
            (by omega)
          exact ⟨hstripped.trans hrest.1, hrest.2⟩

/-!
# All comments
-/

def CommentFree (tree : Tree) (id : NodeId) : Prop :=
  forall token, token ∈ tree.tokens id -> token.isComment = false

theorem Stripped.commentFree (h : tree.Stripped after) {id : NodeId} (hid : id < tree.size)
    (hfree : tree.CommentFree id) : after.CommentFree id :=
  not_isComment_of_cuts (h.cuts id hid) hfree

theorem stripped_foldl {visit : NodeId -> Tree -> Tree} {depth : Nat}
    (hvisit : forall (tree : Tree) list, tree.WellFormed -> tree.CommentsApart ->
      tree.Exposed list -> tree.isGroup list = true -> tree.nestsWithin depth list = true ->
      tree.Stripped (visit list tree) ∧ (visit list tree).CommentFree list)
    {ids : List NodeId} (hwf : tree.WellFormed) (hapart : tree.CommentsApart)
    (hids : forall id, id ∈ ids ->
      tree.Exposed id ∧ tree.isGroup id = true ∧ tree.nestsWithin depth id = true) :
    tree.Stripped (ids.foldl (fun tree id => visit id tree) tree) ∧
      forall id, id ∈ ids -> (ids.foldl (fun tree id => visit id tree) tree).CommentFree id := by
  induction ids generalizing tree with
  | nil =>
      refine ⟨Stripped.refl hwf, ?_⟩
      intro id hid
      cases hid
  | cons first rest ih =>
      rcases hids first List.mem_cons_self with ⟨hexposed, hgroup, hnests⟩
      rcases hvisit tree first hwf hapart hexposed hgroup hnests with ⟨hstripped, hfree⟩
      have hrest := ih hstripped.wellFormed (hstripped.commentsApart hwf hapart) (by
        intro id hid
        rcases hids id (List.mem_cons_of_mem _ hid) with ⟨hexposed', hgroup', hnests'⟩
        have hlt := lt_size_of_isGroup hgroup'
        refine ⟨hstripped.exposed hwf hlt hexposed', ?_, hstripped.nestsWithin hwf hnests'⟩
        rw [hstripped.isGroup_eq hlt]
        exact hgroup')
      refine ⟨hstripped.trans hrest.1, ?_⟩
      intro id hid
      rcases List.mem_cons.mp hid with rfl | hmem
      · exact hrest.1.commentFree
          (Nat.lt_of_lt_of_le (lt_size_of_isGroup hgroup) hstripped.size_le) hfree
      · exact hrest.2 id hmem

theorem stripCommentsWithin_spec (depth : Nat) (tree : Tree) (list : NodeId)
    (hwf : tree.WellFormed) (hapart : tree.CommentsApart) (hexposed : tree.Exposed list)
    (hlist : tree.isGroup list = true) (hnests : tree.nestsWithin depth list = true) :
    tree.Stripped (stripCommentsWithin depth list tree) ∧
      (stripCommentsWithin depth list tree).CommentFree list := by
  induction depth generalizing tree list with
  | zero =>
      cases hnests
  | succ depth ih =>
      unfold stripCommentsWithin
      extract_lets sublists visited
      have hvisited : tree.Stripped visited ∧
          forall id, id ∈ sublists -> visited.CommentFree id := by
        apply stripped_foldl ih hwf hapart
        intro id hid
        rcases List.mem_filter.mp hid with ⟨hsublist, hkind⟩
        rcases List.mem_filter.mp hsublist with ⟨hmem, hgroup⟩
        exact ⟨hexposed.child (hwf.parent?_of_mem hmem) (by simpa using hkind), hgroup,
          List.all_eq_true.mp hnests id hsublist⟩
      rcases hvisited with ⟨hstripped, hfree⟩
      have hid := lt_size_of_isGroup hlist
      have hlist' : visited.isGroup list = true := by
        rw [hstripped.isGroup_eq hid]
        exact hlist
      have hswept : visited.Stripped (visited.sweepList list (stripNextComment list)) ∧
          forall id, id ∈ (visited.sweepList list (stripNextComment list)).children list ->
            (visited.sweepList list (stripNextComment list)).isComment id = false := by
        apply sweep_stripNextComment hstripped.wellFormed (hstripped.commentsApart hwf hapart)
          (hstripped.exposed hwf hid hexposed) hlist'
        · intro j id hj
          cases hj
        · exact List.countP_le_length
      rcases hswept with ⟨hsweep, hplain⟩
      refine ⟨hstripped.trans hsweep, ?_⟩
      generalize visited.sweepList list (stripNextComment list) = after at hsweep hplain
      have hlist'' : after.isGroup list = true := by
        rw [hsweep.isGroup_eq (lt_size_of_isGroup hlist')]
        exact hlist'
      intro token htoken
      rw [hsweep.wellFormed.tokens_group hlist'', List.mem_flatMap] at htoken
      rcases htoken with ⟨child, hchild, hmem⟩
      have hcomment := hplain child hchild
      rw [isComment, Bool.or_eq_false_iff] at hcomment
      rcases isGroup_or_token? (hsweep.wellFormed.child_lt_size hchild) with
        hgroup | ⟨only, honly⟩
      · have hvisited := hsweep.sublists_subset hstripped.wellFormed list
          (List.mem_filter.mpr ⟨hchild, hgroup⟩)
        have hsublist := hstripped.sublists_subset hwf list hvisited
        have hlt := hwf.child_lt_size (List.mem_filter.mp hsublist).1
        have hlt' := Nat.lt_of_lt_of_le hlt hstripped.size_le
        have hkind := hcomment.1
        rw [hsweep.isKind_eq hlt', hstripped.isKind_eq hlt] at hkind
        have hold : child ∈ sublists := List.mem_filter.mpr ⟨hsublist, by rw [hkind]; rfl⟩
        exact hsweep.commentFree hlt' (hfree child hold) token hmem
      · unfold tokens at hmem
        rw [WellFormed.leaves_token honly, List.filterMap_cons_some honly] at hmem
        rw [List.mem_singleton.mp hmem]
        have hplain' := hcomment.2
        unfold tokenHas at hplain'
        rw [honly] at hplain'
        exact hplain'

end Tree

theorem Statement.exposed_root (s : Statement) (htop : s.tree.parent? s.root = none)
    (hkind : s.tree.isKind s.root .comment = false) : s.tree.Exposed s.root := by
  intro other hother
  rcases hother with rfl | habove
  · exact hkind
  · rcases Relation.TransGen.tail'_iff.mp habove with ⟨parent, _, hparent⟩
    rw [htop] at hparent
    cases hparent

theorem Statement.stripComments_spec {s : Statement} (hwf : s.tree.WellFormed)
    (hapart : s.tree.CommentsApart) (hroot : s.tree.isGroup s.root = true)
    (htop : s.tree.parent? s.root = none) (hkind : s.tree.isKind s.root .comment = false) :
    Relation.ReflTransGen CommentCut s.tokens s.stripComments.tokens ∧
      forall token, token ∈ s.stripComments.tokens -> token.isComment = false := by
  have hid := Tree.lt_size_of_isGroup hroot
  have hnests : s.tree.nestsWithin s.tree.size s.root = true :=
    hwf.nestsWithin_of_depth hid (Nat.le_add_left _ _)
  rcases Tree.stripCommentsWithin_spec s.tree.size s.tree s.root hwf hapart
    (s.exposed_root htop hkind) hroot hnests with ⟨hstripped, hfree⟩
  exact ⟨hstripped.cuts s.root hid, hfree⟩

/-- Stripping a statement leaves the leaves that are neither comments nor blanks
as they are, each with its token. -/
theorem Statement.codeLeaves_stripComments {s : Statement} (hwf : s.tree.WellFormed)
    (hapart : s.tree.CommentsApart) (hroot : s.tree.isGroup s.root = true)
    (htop : s.tree.parent? s.root = none) (hkind : s.tree.isKind s.root .comment = false) :
    s.stripComments.tree.codeLeaves s.root = s.tree.codeLeaves s.root ∧
      forall leaf, leaf ∈ s.tree.codeLeaves s.root ->
        s.stripComments.tree.token? leaf = s.tree.token? leaf := by
  have hid := Tree.lt_size_of_isGroup hroot
  have hnests : s.tree.nestsWithin s.tree.size s.root = true :=
    hwf.nestsWithin_of_depth hid (Nat.le_add_left _ _)
  rcases Tree.stripCommentsWithin_spec s.tree.size s.tree s.root hwf hapart
    (s.exposed_root htop hkind) hroot hnests with ⟨hstripped, _⟩
  refine ⟨hstripped.codeLeaves_eq s.root hid, ?_⟩
  intro leaf hleaf
  exact hstripped.token?_eq leaf (hwf.leaf_lt_size hid (List.mem_filter.mp hleaf).1)

end SqlLayout
