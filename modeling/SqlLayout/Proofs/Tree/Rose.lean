import SqlLayout.Proofs.Statement
import SqlLayout.Proofs.Tree.Relist

/-!
# What stands at a node

The numbers of the nodes do not matter to what a tree says.  Without them there
stands a rose at every node: a token, or a kind with the roses of the children.
The rose at a node changes only if a node at or below it changes its content.
-/

namespace SqlLayout

inductive Rose where
  | token (token : Token)
  | group (kind : GroupKind) (children : List Rose)

namespace Tree

def roseWithin (tree : Tree) : Nat -> NodeId -> Rose
  | 0, _ => .group .statement []
  | depth + 1, id =>
      match tree.content? id with
      | some (.token token) => .token token
      | some (.group kind children) => .group kind (children.map (roseWithin tree depth))
      | none => .group .statement []

/-- The rose at a node. -/
def rose (tree : Tree) (id : NodeId) : Rose := tree.roseWithin tree.size id

variable {tree after : Tree} {id : NodeId}

theorem WellFormed.roseWithin_congr (h : tree.WellFormed) {n m : Nat} (hid : id < tree.size)
    (hn : tree.size <= h.depth id + n) (hm : tree.size <= h.depth id + m) :
    tree.roseWithin n id = tree.roseWithin m id := by
  refine h.levels_congr (fun n m id hsame => ?_) hid hn hm
  unfold roseWithin
  cases hcontent : tree.content? id with
  | none =>
      rfl
  | some content =>
      cases content with
      | token token =>
          rfl
      | group kind ids =>
          rw [children_of_content? hcontent] at hsame
          exact congrArg (Rose.group kind) (List.map_congr_left hsame)

theorem rose_of_token? {token : Token} (h : tree.token? id = some token) :
    tree.rose id = .token token := by
  have hlt := lt_size_of_token? h
  have hcontent : tree.content? id = some (.token token) := by
    unfold token? at h
    split at h
    · rename_i other hcontent
      cases h
      exact hcontent
    · cases h
  unfold rose
  cases hsize : tree.size with
  | zero =>
      rw [hsize] at hlt
      exact absurd hlt (Nat.not_lt_zero id)
  | succ n =>
      unfold roseWithin
      rw [hcontent]

theorem WellFormed.rose_of_kind? (h : tree.WellFormed) {kind : GroupKind}
    (hkind : tree.kind? id = some kind) :
    tree.rose id = .group kind ((tree.children id).map tree.rose) := by
  have hid := lt_size_of_content? (content?_of_kind? hkind)
  have hdepth := h.depth_lt_size hid
  have hunfold : tree.roseWithin (tree.size - 1 + 1) id =
      .group kind ((tree.children id).map (tree.roseWithin (tree.size - 1))) := by
    rw [roseWithin, content?_of_kind? hkind]
  rw [rose, show tree.size = tree.size - 1 + 1 by omega, hunfold]
  congr 1
  apply List.map_congr_left
  intro child hmem
  have hnext := h.depth_of_mem hmem
  exact h.roseWithin_congr (h.child_lt_size hmem) (by omega) (by omega)

theorem WellFormed.rose_eq_of_unchanged (hwf : tree.WellFormed) (hafter : after.WellFormed)
    (hid : id < tree.size)
    (h : forall other, tree.AtOrAbove id other -> after.content? other = tree.content? other) :
    after.rose id = tree.rose id := by
  induction id using hwf.induction_up with
  | step id ih =>
      rcases observers_congr (h id (Or.inl rfl)) with ⟨hkind, htoken, hchildren⟩
      rcases isGroup_or_token? hid with hgroup | ⟨token, hsome⟩
      · rcases isGroup_iff_kind?.mp hgroup with ⟨kind, hsome⟩
        rw [hwf.rose_of_kind? hsome, hafter.rose_of_kind? (hkind.trans hsome), hchildren]
        congr 1
        apply List.map_congr_left
        intro child hmem
        apply ih child hmem (hwf.child_lt_size hmem)
        intro other habove
        exact h other (Or.inr (habove.above_of_parent? (hwf.parent?_of_mem hmem)))
      · rw [rose_of_token? hsome, rose_of_token? (htoken.trans hsome)]

/-!
# Tests
-/

theorem rose_of_tokenHas {p : Token -> Bool} (h : tree.tokenHas id p = true) :
    exists token, tree.rose id = .token token ∧ p token = true := by
  rcases tokenHas_iff.mp h with ⟨token, htoken, hp⟩
  exact ⟨token, rose_of_token? htoken, hp⟩

theorem WellFormed.rose_of_isKind (h : tree.WellFormed) {kind : GroupKind}
    (hkind : tree.isKind id kind = true) :
    tree.rose id = .group kind ((tree.children id).map tree.rose) :=
  h.rose_of_kind? (beq_iff_eq.mp hkind)

theorem WellFormed.kind?_of_rose (h : tree.WellFormed) (hid : id < tree.size) {kind : GroupKind}
    {children : List Rose} (hrose : tree.rose id = .group kind children) :
    tree.kind? id = some kind ∧ children = (tree.children id).map tree.rose := by
  rcases isGroup_or_token? hid with hgroup | ⟨token, htoken⟩
  · rcases isGroup_iff_kind?.mp hgroup with ⟨other, hkind⟩
    rw [h.rose_of_kind? hkind, Rose.group.injEq] at hrose
    rcases hrose with ⟨rfl, rfl⟩
    exact ⟨hkind, rfl⟩
  · rw [rose_of_token? htoken] at hrose
    cases hrose

theorem WellFormed.token?_of_rose (h : tree.WellFormed) (hid : id < tree.size) {token : Token}
    (hrose : tree.rose id = .token token) : tree.token? id = some token := by
  rcases isGroup_or_token? hid with hgroup | ⟨other, htoken⟩
  · rcases isGroup_iff_kind?.mp hgroup with ⟨kind, hkind⟩
    rw [h.rose_of_kind? hkind] at hrose
    cases hrose
  · rw [rose_of_token? htoken, Rose.token.injEq] at hrose
    rw [htoken, hrose]

theorem rose_of_isCategory {category : Category} (h : tree.isCategory id category = true) :
    exists token, tree.rose id = .token token ∧ token.category = category := by
  rcases isCategory_iff.mp h with ⟨token, htoken, hcategory⟩
  exact ⟨token, rose_of_token? htoken, hcategory⟩

theorem WellFormed.rose_of_isKindIn (h : tree.WellFormed) {kinds : List GroupKind}
    (hkind : tree.isKindIn id kinds = true) :
    exists kind, kind ∈ kinds ∧ tree.rose id = .group kind ((tree.children id).map tree.rose) := by
  unfold isKindIn at hkind
  split at hkind
  · rename_i kind hsome
    exact ⟨kind, List.elem_iff.mp hkind, h.rose_of_kind? hsome⟩
  · cases hkind

end Tree

/-- A token that is a blank. -/
def Rose.isBlank : Rose -> Bool
  | .token t => t.isWhitespace
  | .group _ _ => false

theorem Rose.exists_of_isBlank {rose : Rose} (h : rose.isBlank = true) :
    exists token, rose = .token token ∧ token.isWhitespace = true := by
  cases rose with
  | token token =>
      exact ⟨token, rfl, h⟩
  | group kind children =>
      cases h

theorem Tree.WellFormed.isBlank_rose {tree : Tree} (h : tree.WellFormed) {id : NodeId}
    (hid : id < tree.size) : (tree.rose id).isBlank = tree.isWhitespace id := by
  rcases isGroup_or_token? hid with hgroup | ⟨token, htoken⟩
  · rcases isGroup_iff_kind?.mp hgroup with ⟨kind, hkind⟩
    rw [h.rose_of_kind? hkind, isWhitespace, tokenHas_of_isGroup hgroup]
    rfl
  · rw [rose_of_token? htoken, isWhitespace, tokenHas, htoken]
    rfl

/-!
# Nesting
-/

namespace Rose

/-- No path has more than so many groups, those of free kinds not counted. -/
inductive Nests (free : GroupKind -> Bool) : Nat -> Rose -> Prop where
  | token {n : Nat} {token : Token} : Nests free n (.token token)
  | free {n : Nat} {kind : GroupKind} {children : List Rose} :
      free kind = true -> (forall child, child ∈ children -> Nests free n child) ->
      Nests free n (.group kind children)
  | group {n : Nat} {kind : GroupKind} {children : List Rose} :
      (forall child, child ∈ children -> Nests free n child) ->
      Nests free (n + 1) (.group kind children)

variable {free : GroupKind -> Bool} {n m : Nat} {rose : Rose}

theorem Nests.mono (h : Nests free n rose) (hle : n <= m) : Nests free m rose := by
  induction h generalizing m with
  | token =>
      exact Nests.token
  | free hfree _ ih =>
      exact Nests.free hfree fun child hmem => ih child hmem hle
  | group _ ih =>
      cases m with
      | zero =>
          exact absurd hle (Nat.not_succ_le_zero _)
      | succ m =>
          exact Nests.group fun child hmem => ih child hmem (Nat.le_of_succ_le_succ hle)

end Rose

namespace Tree

variable {tree : Tree} {free : GroupKind -> Bool} {n : Nat} {id : NodeId}

/-- Nodes each of which is a child of the one before it. -/
def IsPath (tree : Tree) (path : List NodeId) : Prop :=
  path.IsChain fun parent child => child ∈ tree.children parent

/-- A group of a kind that is not free. -/
def counts (tree : Tree) (free : GroupKind -> Bool) (id : NodeId) : Bool :=
  (tree.kind? id).any fun kind => !free kind

theorem WellFormed.countP_le_of_nests (h : tree.WellFormed)
    (hnests : Rose.Nests free n (tree.rose id)) {path : List NodeId}
    (hpath : tree.IsPath (id :: path)) : (id :: path).countP (tree.counts free) <= n := by
  induction path generalizing n id with
  | nil =>
      rw [List.countP_singleton]
      split
      · rename_i hcounts
        rw [counts, Option.any_eq_true] at hcounts
        rcases hcounts with ⟨kind, hkind, hfree⟩
        rw [h.rose_of_kind? hkind] at hnests
        cases hnests with
        | free hkindFree _ =>
            rw [hkindFree] at hfree
            cases hfree
        | group _ =>
            exact Nat.succ_le_succ (Nat.zero_le _)
      · exact Nat.zero_le _
  | cons child rest ih =>
      rcases List.isChain_cons_cons.mp hpath with ⟨hmem, hrest⟩
      rcases content?_of_mem_children hmem with ⟨kind, hcontent⟩
      have hkind := kind?_of_content? hcontent
      rw [h.rose_of_kind? hkind] at hnests
      rw [List.countP_cons, counts, hkind, Option.any_some]
      cases hnests with
      | free hfree hall =>
          rw [hfree]
          exact ih (hall _ (List.mem_map_of_mem hmem)) hrest
      | group hall =>
          have hle := ih (hall _ (List.mem_map_of_mem hmem)) hrest
          split
          · exact Nat.succ_le_succ hle
          · exact Nat.le_succ_of_le hle

end Tree

/-!
# Flat statements
-/

theorem Statement.rose_ofTokens (tokens : List Token) :
    (ofTokens tokens).tree.rose (ofTokens tokens).root =
      .group .statement (tokens.map Rose.token) := by
  have hcontent := content?_ofTokens tokens tokens.length
  rw [if_pos rfl, ← root_ofTokens] at hcontent
  rw [(wellFormed_ofTokens tokens).rose_of_kind? (Tree.kind?_of_content? hcontent), root_ofTokens,
    children_ofTokens, if_pos rfl]
  congr 1
  apply List.ext_getElem?
  intro idx
  rw [List.getElem?_map, List.getElem?_map]
  rcases Nat.lt_or_ge idx tokens.length with hlt | hge
  · rw [List.getElem?_eq_getElem (by rw [List.length_range]; exact hlt), List.getElem_range,
      List.getElem?_eq_getElem hlt]
    apply congrArg some
    apply Tree.rose_of_token?
    rw [token?_ofTokens, List.getElem?_eq_getElem hlt]
  · rw [List.getElem?_eq_none (by rw [List.length_range]; exact hge), List.getElem?_eq_none hge]
    rfl

end SqlLayout
