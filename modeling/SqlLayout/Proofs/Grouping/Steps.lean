import SqlLayout.Proofs.Grouping.Run

/-!
# The steps of grouping

A step of grouping may make an operator of a wildcard, and then groups a span.
It keeps a tree well-formed and keeps the leaves below a root together with
their tokens.  No series of steps comes back to the tree that it starts from.
-/

namespace SqlLayout

/-!
# Tokens
-/

/-- All that may become of a token is that a wildcard turns into an operator. -/
structure Token.Kept (token after : Token) : Prop where
  value_eq : after.value = token.value
  normalized_eq : after.normalized = token.normalized
  position_eq : after.position = token.position
  category_eq : after.category = token.category ∨
    token.category = .wildcard ∧ after.category = .operator

namespace Token.Kept

theorem refl (token : Token) : token.Kept token :=
  ⟨rfl, rfl, rfl, Or.inl rfl⟩

theorem trans {token middle after : Token} (h : token.Kept middle) (h' : middle.Kept after) :
    token.Kept after := by
  refine ⟨h'.value_eq.trans h.value_eq, h'.normalized_eq.trans h.normalized_eq,
    h'.position_eq.trans h.position_eq, ?_⟩
  rcases h'.category_eq with hsame | ⟨hwild, hop⟩
  · rw [hsame]
    exact h.category_eq
  · rcases h.category_eq with hsame | ⟨_, hop'⟩
    · exact Or.inr ⟨hsame.symm.trans hwild, hop⟩
    · rw [hop'] at hwild
      cases hwild

theorem of_operator {token : Token}
    (h : token.category = .operator ∨ token.category = .wildcard) :
    token.Kept { token with category := .operator } := by
  refine ⟨rfl, ?_, rfl, ?_⟩
  · unfold normalized isKeyword
    rcases h with h | h
    · rw [h]
    · rw [h]
      rfl
  · rcases h with h | h
    · exact Or.inl h.symm
    · exact Or.inr ⟨h, rfl⟩

theorem rel_trans {first second third : Option Token} (h : Option.Rel Kept first second)
    (h' : Option.Rel Kept second third) : Option.Rel Kept first third := by
  cases h with
  | none =>
      exact h'
  | some hkept =>
      cases h' with
      | some hkept' =>
          exact Option.Rel.some (hkept.trans hkept')

theorem rel_value {first second : Option Token} (h : Option.Rel Kept first second) :
    second.map Token.value = first.map Token.value := by
  cases h with
  | none =>
      rfl
  | some hkept =>
      exact congrArg some hkept.value_eq

end Token.Kept

namespace Tree

variable {tree tagged after : Tree}

def TokensKept (tree after : Tree) : Prop :=
  forall id, Option.Rel Token.Kept (tree.token? id) (after.token? id)

theorem TokensKept.of_token?_eq (h : forall id, after.token? id = tree.token? id) :
    tree.TokensKept after := by
  intro id
  rw [h id]
  cases tree.token? id with
  | none =>
      exact Option.Rel.none
  | some token =>
      exact Option.Rel.some (Token.Kept.refl token)

theorem TokensKept.trans {middle : Tree} (h : tree.TokensKept middle)
    (h' : middle.TokensKept after) : tree.TokensKept after :=
  fun id => Token.Kept.rel_trans (h id) (h' id)

theorem TokensKept.text_eq (h : tree.TokensKept after) (ids : List NodeId) :
    (ids.filterMap after.token?).flatMap Token.value =
      (ids.filterMap tree.token?).flatMap Token.value := by
  have hvalues : (fun id => (after.token? id).map Token.value) =
      fun id => (tree.token? id).map Token.value :=
    funext fun id => Token.Kept.rel_value (h id)
  rw [List.flatMap_def, List.flatMap_def, List.map_filterMap, List.map_filterMap, hvalues]

theorem TokensKept.forall₂ (h : tree.TokensKept after) (ids : List NodeId) :
    List.Forall₂ Token.Kept (ids.filterMap tree.token?) (ids.filterMap after.token?) := by
  induction ids with
  | nil =>
      exact List.Forall₂.nil
  | cons id rest ih =>
      have hid := h id
      rw [List.filterMap_cons, List.filterMap_cons]
      generalize tree.token? id = before, after.token? id = later at hid
      cases hid with
      | none =>
          exact ih
      | some hkept =>
          exact List.Forall₂.cons hkept ih

/-!
# Categories
-/

/-- The tree itself, or the tree with one more operator. -/
inductive Retagged (tree : Tree) : Tree -> Prop where
  | none : Retagged tree tree
  | operator {id : NodeId} :
      (tree.isCategory id .operator || tree.isCategory id .wildcard) = true ->
      Retagged tree (tree.modifyToken id fun token => { token with category := .operator })

namespace Retagged

theorem size_eq (h : tree.Retagged tagged) : tagged.size = tree.size := by
  cases h with
  | none =>
      rfl
  | operator _ =>
      exact size_modifyToken _ _

theorem parent?_eq (h : tree.Retagged tagged) (id : NodeId) :
    tagged.parent? id = tree.parent? id := by
  cases h with
  | none =>
      rfl
  | operator _ =>
      exact parent?_modifyToken _ _ _

theorem children_eq (h : tree.Retagged tagged) (id : NodeId) :
    tagged.children id = tree.children id := by
  cases h with
  | none =>
      rfl
  | operator _ =>
      exact children_modifyToken _ _ _

theorem isGroup_eq (h : tree.Retagged tagged) (id : NodeId) :
    tagged.isGroup id = tree.isGroup id := by
  cases h with
  | none =>
      rfl
  | operator _ =>
      exact isGroup_modifyToken _ _ _

theorem tokensKept (h : tree.Retagged tagged) : tree.TokensKept tagged := by
  cases h with
  | none =>
      exact TokensKept.of_token?_eq fun _ => rfl
  | @operator id hid =>
      intro other
      rw [token?_modifyToken]
      by_cases heq : other = id
      · rw [if_pos heq, heq]
        unfold isCategory category? at hid
        cases htoken : tree.token? id with
        | none =>
            exact Option.Rel.none
        | some token =>
            rw [htoken] at hid
            apply Option.Rel.some
            apply Token.Kept.of_operator
            simpa using hid
      · rw [if_neg heq]
        cases tree.token? other with
        | none =>
            exact Option.Rel.none
        | some token =>
            exact Option.Rel.some (Token.Kept.refl token)

theorem wellFormed (h : tree.Retagged tagged) (hwf : tree.WellFormed) : tagged.WellFormed :=
  hwf.congr h.children_eq h.parent?_eq

theorem above_iff (h : tree.Retagged tagged) (other id : NodeId) :
    tagged.Above other id <-> tree.Above other id := by
  unfold Above
  simp only [h.parent?_eq]

theorem leaves_eq (h : tree.Retagged tagged) (id : NodeId) :
    tagged.leaves id = tree.leaves id :=
  leaves_congr h.size_eq h.isGroup_eq h.children_eq id

end Retagged

/-!
# Steps
-/

def GroupStep (tree after : Tree) : Prop :=
  exists tagged, tree.Retagged tagged ∧ tagged.Regrouped after

namespace GroupStep

theorem wellFormed (hwf : tree.WellFormed) (h : tree.GroupStep after) : after.WellFormed := by
  rcases h with ⟨tagged, htag, hgroup⟩
  exact hgroup.wellFormed (htag.wellFormed hwf)

theorem tokensKept (h : tree.GroupStep after) : tree.TokensKept after := by
  rcases h with ⟨tagged, htag, hgroup⟩
  exact htag.tokensKept.trans (TokensKept.of_token?_eq hgroup.token?_eq)

theorem size_le (h : tree.GroupStep after) : tree.size <= after.size := by
  rcases h with ⟨tagged, htag, hgroup⟩
  have hle := hgroup.size_le
  rw [htag.size_eq] at hle
  exact hle

theorem isGroup_eq (h : tree.GroupStep after) {id : NodeId} (hid : id < tree.size) :
    after.isGroup id = tree.isGroup id := by
  rcases h with ⟨tagged, htag, hgroup⟩
  rw [← htag.size_eq] at hid
  rw [hgroup.isGroup_eq hid, htag.isGroup_eq]

section

variable (hwf : tree.WellFormed) (h : tree.GroupStep after)
include hwf h

theorem above_mono {other id : NodeId} (habove : tree.Above other id) :
    after.Above other id := by
  rcases h with ⟨tagged, htag, hgroup⟩
  exact hgroup.above_mono (htag.wellFormed hwf) ((htag.above_iff other id).mpr habove)

theorem exists_above_new : exists other id, after.Above other id ∧ ¬ tree.Above other id := by
  rcases h with ⟨tagged, htag, hgroup⟩
  rcases hgroup.exists_above_new (htag.wellFormed hwf) with ⟨other, id, hnew, hold⟩
  exact ⟨other, id, hnew, fun habove => hold ((htag.above_iff other id).mpr habove)⟩

variable {root : NodeId} (hid : root < tree.size) (hroot : tree.parent? root = none)
include hid hroot

theorem parent?_root : after.parent? root = none := by
  rcases h with ⟨tagged, htag, hgroup⟩
  apply hgroup.parent?_root (htag.wellFormed hwf)
  · rw [htag.size_eq]
    exact hid
  · rw [htag.parent?_eq, hroot]

theorem leaves_root : after.leaves root = tree.leaves root := by
  rcases h with ⟨tagged, htag, hgroup⟩
  rw [← htag.leaves_eq root]
  apply hgroup.leaves_root (htag.wellFormed hwf)
  · rw [htag.size_eq]
    exact hid
  · rw [htag.parent?_eq, hroot]

end

end GroupStep

/-!
# Series of steps
-/

theorem groupStep_keepsWellFormed : KeepsWellFormed GroupStep :=
  fun _ _ hwf h => GroupStep.wellFormed hwf h

theorem tokensKept_of_steps (h : Relation.ReflTransGen GroupStep tree after) :
    tree.TokensKept after := by
  induction h with
  | refl =>
      exact TokensKept.of_token?_eq fun _ => rfl
  | tail _ hlast ih =>
      exact ih.trans hlast.tokensKept

theorem root_of_steps (hwf : tree.WellFormed) (h : Relation.ReflTransGen GroupStep tree after)
    {root : NodeId} (hid : root < tree.size) (hroot : tree.parent? root = none) :
    root < after.size ∧ after.parent? root = none ∧ after.leaves root = tree.leaves root := by
  induction h with
  | refl =>
      exact ⟨hid, hroot, rfl⟩
  | tail hsteps hlast ih =>
      rcases ih with ⟨hlt, hparent, hleaves⟩
      have hmiddle := groupStep_keepsWellFormed.run hwf hsteps
      refine ⟨Nat.lt_of_lt_of_le hlt hlast.size_le,
        hlast.parent?_root hmiddle hlt hparent, ?_⟩
      rw [hlast.leaves_root hmiddle hlt hparent, hleaves]

theorem isGroup_of_steps (h : Relation.ReflTransGen GroupStep tree after) {id : NodeId}
    (hid : tree.isGroup id = true) : after.isGroup id = true := by
  induction h with
  | refl =>
      exact hid
  | tail _ hlast ih =>
      rw [hlast.isGroup_eq (lt_size_of_isGroup ih)]
      exact ih

theorem above_of_steps (hwf : tree.WellFormed) (h : Relation.ReflTransGen GroupStep tree after)
    {other id : NodeId} (habove : tree.Above other id) : after.Above other id := by
  induction h with
  | refl =>
      exact habove
  | tail hsteps hlast ih =>
      exact hlast.above_mono (groupStep_keepsWellFormed.run hwf hsteps) ih

theorem eq_of_steps_back {middle : Tree} (hwf : tree.WellFormed)
    (h : Relation.ReflTransGen GroupStep tree middle)
    (h' : Relation.ReflTransGen GroupStep middle tree) : middle = tree := by
  rcases Relation.ReflTransGen.cases_head h with heq | ⟨next, hfirst, hrest⟩
  · exact heq.symm
  · rcases hfirst.exists_above_new hwf with ⟨other, id, hnew, hold⟩
    have hback := above_of_steps (hfirst.wellFormed hwf) (hrest.trans h') hnew
    exact absurd hback hold

end Tree

/-!
# The passes take such steps
-/

theorem Move.retagged_tagged {tree : Tree} {list : NodeId} {cursor : Cursor} {move : Move}
    (h : move.Fits tree list cursor) : tree.Retagged (move.tagged tree) := by
  unfold tagged
  cases hretag : move.retag with
  | none =>
      exact Tree.Retagged.none
  | some pair =>
      rcases pair with ⟨id, category⟩
      rcases h.retag_operator id category hretag with ⟨hcategory, hop, _⟩
      rw [hcategory]
      exact Tree.Retagged.operator hop

theorem Pass.takes_groupStep {pass : Pass} (hsound : pass.Sound) :
    pass.Takes Tree.GroupStep := by
  intro tree list cursor move hwf hcursor hplan hspan
  have hfits := hsound tree list cursor move hcursor hplan
  have htag := Move.retagged_tagged hfits
  cases hmove : move.span with
  | none =>
      exact absurd hmove hspan
  | some span =>
      rcases hfits.span_inside span hmove with ⟨hstart, hstop, hextend⟩
      have hinside : span.stop < ((move.tagged tree).children list).length := by
        rw [htag.children_eq]
        exact hstop
      rcases Tree.groupTokens_regrouped span.kind (htag.wellFormed hwf) hstart hextend hinside with
        ⟨group, after, hok, hgroup⟩
      exact ⟨after, ⟨span, group, hmove, hok⟩, move.tagged tree, htag, hgroup⟩

theorem Pass.run_steps {pass : Pass} (hsound : pass.Sound) (limit room : Nat) (list : NodeId)
    {tree : Tree} (hwf : tree.WellFormed) :
    Grouping.Safe Tree.GroupStep limit tree (Grouping.exec (pass.run limit room list) tree) :=
  run_safe hsound (takes_groupStep hsound) Tree.groupStep_keepsWellFormed room list hwf

/-- Grouping takes steps and ends well, or because the nesting is too deep. -/
theorem Statement.groupInPlace_steps {s : Statement} (hwf : s.tree.WellFormed) (limit : Nat) :
    Grouping.Safe Tree.GroupStep limit s.tree
      ((s.groupInPlace limit).1, (s.groupInPlace limit).2.tree) :=
  groupInPlace_safe (fun pass hpass => Pass.takes_groupStep (Pass.all_sound pass hpass))
    Tree.groupStep_keepsWellFormed hwf limit

end SqlLayout
