import SqlLayout.Proofs.Grouping.OperandsAtRest
import SqlLayout.Proofs.Grouping.Pairing
import SqlLayout.Proofs.Grouping.Reached

/-!
# What the pass for aliases leaves behind

The walk joins the names after an expression to it and does not turn back.  An
expression that becomes an identifier in this way is a name that comes too late for the
one before it: the walk has passed that one already.
-/

namespace SqlLayout

open Grouping

/-!
# Aliases and those that come too late
-/

namespace Tree

/-- An expression at a position with an identifier after it. -/
def aliasAt (tree : Tree) (list : NodeId) (idx : Nat) : Bool :=
  (tree.child? list idx).any (Pass.isAliasable tree) &&
    (tree.next list idx true true).any fun hit => tree.isKind hit.2 .identifier

/-- An expression at a position with another one after it that is no identifier, but
has an identifier after it. -/
def lateAliasAt (tree : Tree) (list : NodeId) (idx : Nat) : Bool :=
  (tree.child? list idx).any (Pass.isAliasable tree) &&
    (tree.next list idx true true).any fun hit =>
      !tree.isKind hit.2 .identifier && tree.aliasAt list hit.1

end Tree

/-!
# The parts that children play
-/

/-- What a child is to the pass: an identifier, another expression or neither. -/
inductive AliasRole
  | name
  | operand
  | other
  deriving DecidableEq

namespace AliasRole

def namesNext : List AliasRole -> Bool
  | .name :: _ => true
  | _ => false

def namesLate : List AliasRole -> Bool
  | .operand :: rest => namesNext rest
  | _ => false

def somewhere (p : List AliasRole -> Bool) : List AliasRole -> Bool
  | [] => false
  | role :: rest => (role != .other && p rest) || somewhere p rest

/-- What one walk leaves of the roles. -/
def join : List AliasRole -> List AliasRole
  | [] => []
  | role :: rest => if role != .other && namesNext rest then join rest else role :: join rest

theorem join_cons_of_joins {role : AliasRole} {rest : List AliasRole} (hrole : role ≠ .other)
    (hrest : namesNext rest = true) : join (role :: rest) = join rest := by
  rw [join, if_pos (Bool.and_eq_true_iff.mpr ⟨bne_iff_ne.mpr hrole, hrest⟩)]

theorem namesNext_join (roles : List AliasRole) :
    namesNext (join roles) = (namesNext roles || namesLate roles) := by
  induction roles with
  | nil =>
      rfl
  | cons role rest ih =>
      unfold join
      split
      · rename_i hjoins
        rcases Bool.and_eq_true_iff.mp hjoins with ⟨hrole, hnext⟩
        rw [ih, hnext]
        cases role with
        | name =>
            rfl
        | operand =>
            exact hnext.symm
        | other =>
            cases hrole
      · rename_i hstays
        cases role with
        | name =>
            rfl
        | operand =>
            exact (Bool.eq_false_iff.mpr hstays).symm
        | other =>
            rfl

/-- Behind an expression there is a name after the walk exactly where one comes too
late. -/
theorem somewhere_join (roles : List AliasRole) :
    somewhere namesNext (join roles) = somewhere namesLate roles := by
  induction roles with
  | nil =>
      rfl
  | cons role rest ih =>
      have hlate : namesNext rest = true -> namesLate rest = false := by
        intro hnext
        cases rest with
        | nil =>
            rfl
        | cons first rest =>
            cases first with
            | name =>
                rfl
            | operand | other =>
                cases hnext
      unfold join
      split
      · rename_i hjoins
        rw [ih, somewhere, hlate (Bool.and_eq_true_iff.mp hjoins).2, Bool.and_false,
          Bool.false_or]
      · rename_i hstays
        have hstays := Bool.eq_false_iff.mpr hstays
        rw [somewhere, somewhere, ih, namesNext_join, Bool.and_or_distrib_left, hstays,
          Bool.false_or]

end AliasRole

open AliasRole

namespace Tree

variable {tree after : Tree} {list id : NodeId} {idx : Nat}

def aliasRole? (tree : Tree) (id : NodeId) : Option AliasRole :=
  if tree.isSkipped id true true then none
  else if tree.isKind id .identifier then some .name
  else if Pass.isAliasable tree id then some .operand
  else some .other

def aliasRoles (tree : Tree) (ids : List NodeId) : List AliasRole :=
  ids.filterMap tree.aliasRole?

theorem isAliasable_congr (hkind : after.kind? id = tree.kind? id)
    (htoken : after.token? id = tree.token? id) :
    Pass.isAliasable after id = Pass.isAliasable tree id := by
  unfold Pass.isAliasable isKindIn isA
  rw [hkind, tokenHas_congr htoken]

theorem aliasRole?_congr (hkind : after.kind? id = tree.kind? id)
    (htoken : after.token? id = tree.token? id) : after.aliasRole? id = tree.aliasRole? id := by
  unfold aliasRole?
  rw [isSkipped_congr hkind htoken, isAliasable_congr hkind htoken, isKind, hkind]
  rfl

theorem aliasRoles_congr {ids : List NodeId}
    (h : forall id, id ∈ ids -> after.kind? id = tree.kind? id ∧ after.token? id = tree.token? id) :
    after.aliasRoles ids = tree.aliasRoles ids :=
  List.filterMap_congr fun id hid => aliasRole?_congr (h id hid).1 (h id hid).2

theorem isSkipped_of_isAliasable (h : Pass.isAliasable tree id = true) :
    tree.isSkipped id true true = false := by
  unfold Pass.isAliasable at h
  unfold isSkipped isWhitespace isComment
  rcases Bool.or_eq_true_iff.mp h with hkind | hnumber
  · unfold isKindIn at hkind
    cases hsome : tree.kind? id with
    | none =>
        rw [hsome] at hkind
        cases hkind
    | some kind =>
        rw [hsome] at hkind
        have hgroup : tree.isGroup id = true := isGroup_iff_kind?.mpr ⟨kind, hsome⟩
        rw [tokenHas_of_isGroup hgroup, tokenHas_of_isGroup hgroup, isKind, hsome]
        cases kind with
        | comment =>
            cases hkind
        | _ =>
            rfl
  · rcases tokenHas_iff.mp hnumber with ⟨token, htoken, hisA⟩
    have hkind : tree.isKind id .comment = false := by
      apply Bool.eq_false_iff.mpr
      intro hkind
      have hgroup := isGroup_iff_kind?.mpr ⟨_, beq_iff_eq.mp hkind⟩
      rw [token?_eq_none_of_isGroup hgroup] at htoken
      cases htoken
    unfold tokenHas
    rw [hkind, htoken]
    unfold Token.isWhitespace Token.isComment
    dsimp only at hisA ⊢
    revert hisA
    cases token.category <;> decide

theorem isAliasable_of_identifier (h : tree.isKind id .identifier = true) :
    Pass.isAliasable tree id = true := by
  unfold Pass.isAliasable isKindIn
  rw [beq_iff_eq.mp h]
  rfl

theorem isAliasable_iff :
    Pass.isAliasable tree id = true <->
      exists role, tree.aliasRole? id = some role ∧ role ≠ .other := by
  unfold aliasRole?
  cases haliasable : Pass.isAliasable tree id with
  | true =>
      rw [isSkipped_of_isAliasable haliasable]
      cases tree.isKind id .identifier <;> simp
  | false =>
      have hkind : tree.isKind id .identifier = false := by
        apply Bool.eq_false_iff.mpr
        intro hkind
        rw [isAliasable_of_identifier hkind] at haliasable
        cases haliasable
      rw [hkind]
      cases tree.isSkipped id true true <;> simp

theorem aliasRole?_eq_name_iff :
    tree.aliasRole? id = some .name <-> tree.isKind id .identifier = true := by
  unfold aliasRole?
  cases hkind : tree.isKind id .identifier with
  | true =>
      rw [isSkipped_of_isAliasable (isAliasable_of_identifier hkind)]
      simp
  | false =>
      cases tree.isSkipped id true true <;> cases Pass.isAliasable tree id <;> simp

theorem somewhere_aliasRoles {p : List AliasRole -> Bool} {ids : List NodeId} :
    somewhere p (tree.aliasRoles ids) = true <->
      exists idx id, ids[idx]? = some id ∧ Pass.isAliasable tree id = true ∧
        p (tree.aliasRoles (ids.drop (idx + 1))) = true := by
  induction ids with
  | nil =>
      simp [aliasRoles, somewhere]
  | cons first rest ih =>
      have hlater : (exists idx id, (first :: rest)[idx]? = some id ∧
            Pass.isAliasable tree id = true ∧
            p (tree.aliasRoles ((first :: rest).drop (idx + 1))) = true) <->
          (Pass.isAliasable tree first = true ∧ p (tree.aliasRoles rest) = true) ∨
            exists idx id, rest[idx]? = some id ∧ Pass.isAliasable tree id = true ∧
              p (tree.aliasRoles (rest.drop (idx + 1))) = true := by
        constructor
        · rintro ⟨idx, id, hid, haliasable, hp⟩
          cases idx with
          | zero =>
              cases hid
              exact Or.inl ⟨haliasable, hp⟩
          | succ idx =>
              exact Or.inr ⟨idx, id, hid, haliasable, hp⟩
        · rintro (⟨haliasable, hp⟩ | ⟨idx, id, hid, haliasable, hp⟩)
          · exact ⟨0, first, rfl, haliasable, hp⟩
          · exact ⟨idx + 1, id, hid, haliasable, hp⟩
      rw [hlater, ← ih, isAliasable_iff]
      unfold aliasRoles
      rw [List.filterMap_cons]
      cases tree.aliasRole? first with
      | none =>
          simp
      | some role =>
          simp [somewhere]

theorem aliasRole?_of_skipped (h : tree.isSkipped id true true = true) :
    tree.aliasRole? id = none := by
  unfold aliasRole?
  rw [h, if_pos rfl]

theorem exists_aliasRole (h : tree.isSkipped id true true = false) :
    exists role, tree.aliasRole? id = some role := by
  unfold aliasRole?
  rw [h]
  cases tree.isKind id .identifier <;> cases Pass.isAliasable tree id <;> simp

theorem aliasRoles_of_firstFrom {ids : List NodeId} {start next : Nat}
    (h : firstFrom (fun id => !tree.isSkipped id true true) start ids = some (next, id)) :
    start <= next ∧ exists role, tree.aliasRole? id = some role ∧
      tree.aliasRoles ids = role :: tree.aliasRoles (ids.drop (next + 1 - start)) := by
  induction ids generalizing start with
  | nil =>
      cases h
  | cons first rest ih =>
      unfold firstFrom at h
      split at h
      · rename_i hcounts
        cases h
        rcases exists_aliasRole ((Bool.not_eq_true' _).mp hcounts) with ⟨role, hrole⟩
        refine ⟨Nat.le_refl _, role, hrole, ?_⟩
        rw [Nat.add_sub_cancel_left, List.drop_succ_cons, List.drop_zero]
        exact List.filterMap_cons_some hrole
      · rename_i hskipped
        rw [Bool.not_eq_true', Bool.not_eq_false] at hskipped
        rcases ih h with ⟨hle, role, hrole, hroles⟩
        refine ⟨Nat.le_of_succ_le hle, role, hrole, ?_⟩
        rw [show next + 1 - start = next + 1 - (start + 1) + 1 by omega, List.drop_succ_cons,
          ← hroles]
        exact List.filterMap_cons_none (aliasRole?_of_skipped hskipped)

theorem aliasRoles_of_next_none (h : tree.next list idx true true = none) :
    tree.aliasRoles ((tree.children list).drop (idx + 1)) = [] := by
  apply List.filterMap_eq_nil_iff.mpr
  intro id hid
  rcases List.mem_iff_getElem?.mp hid with ⟨offset, hoffset⟩
  rw [List.getElem?_drop] at hoffset
  exact aliasRole?_of_skipped (next_none h (by omega) hoffset)

theorem aliasRoles_of_next {next : Nat} (h : tree.next list idx true true = some (next, id)) :
    exists role, tree.aliasRole? id = some role ∧
      tree.aliasRoles ((tree.children list).drop (idx + 1)) =
        role :: tree.aliasRoles ((tree.children list).drop (next + 1)) := by
  rcases aliasRoles_of_firstFrom h with ⟨hle, role, hrole, hroles⟩
  refine ⟨role, hrole, ?_⟩
  rw [hroles, List.drop_drop, show idx + 1 + (next + 1 - (idx + 1)) = next + 1 by omega]

theorem aliasAt_iff :
    tree.aliasAt list idx = true <->
      exists id, tree.child? list idx = some id ∧ Pass.isAliasable tree id = true ∧
        namesNext (tree.aliasRoles ((tree.children list).drop (idx + 1))) = true := by
  unfold aliasAt
  rw [Bool.and_eq_true, Option.any_eq_true]
  cases hnext : tree.next list idx true true with
  | none =>
      rw [aliasRoles_of_next_none hnext]
      simp [namesNext]
  | some hit =>
      rcases hit with ⟨next, name⟩
      rcases aliasRoles_of_next hnext with ⟨role, hrole, hroles⟩
      have hkind : tree.isKind name .identifier = true <-> namesNext (role ::
          tree.aliasRoles ((tree.children list).drop (next + 1))) = true := by
        rw [← aliasRole?_eq_name_iff, hrole]
        cases role <;> simp [namesNext]
      rw [hroles, ← hkind]
      simp only [Option.any_some, ← and_assoc, exists_and_right]

theorem lateAliasAt_iff :
    tree.lateAliasAt list idx = true <->
      exists id, tree.child? list idx = some id ∧ Pass.isAliasable tree id = true ∧
        namesLate (tree.aliasRoles ((tree.children list).drop (idx + 1))) = true := by
  unfold lateAliasAt
  rw [Bool.and_eq_true, Option.any_eq_true]
  cases hnext : tree.next list idx true true with
  | none =>
      rw [aliasRoles_of_next_none hnext]
      simp [namesLate]
  | some hit =>
      rcases hit with ⟨next, expr⟩
      rcases aliasRoles_of_next hnext with ⟨role, hrole, hroles⟩
      have hchild : tree.child? list next = some expr := (next_some hnext).2.1
      have hlate : (!tree.isKind expr .identifier && tree.aliasAt list next) = true <->
          namesLate (role :: tree.aliasRoles ((tree.children list).drop (next + 1))) = true := by
        rw [Bool.and_eq_true, Bool.not_eq_true', ← Bool.not_eq_true, ← aliasRole?_eq_name_iff,
          aliasAt_iff]
        simp only [hchild, Option.some.injEq, exists_eq_left', isAliasable_iff, hrole]
        cases role <;> simp [namesLate]
      rw [hroles, ← hlate]
      simp only [Option.any_some, ← and_assoc, exists_and_right]

theorem exists_aliasAt_iff :
    (exists idx, tree.aliasAt list idx = true) <->
      somewhere namesNext (tree.aliasRoles (tree.children list)) = true := by
  simp only [aliasAt_iff, somewhere_aliasRoles]
  rfl

theorem exists_lateAliasAt_iff :
    (exists idx, tree.lateAliasAt list idx = true) <->
      somewhere namesLate (tree.aliasRoles (tree.children list)) = true := by
  simp only [lateAliasAt_iff, somewhere_aliasRoles]
  rfl

/-!
# The walk
-/

def rolesFrom (tree : Tree) (list : NodeId) (idx : Nat) : List AliasRole :=
  tree.aliasRoles ((tree.children list).take idx) ++
    join (tree.aliasRoles ((tree.children list).drop idx))

theorem rolesFrom_zero : tree.rolesFrom list 0 = join (tree.aliasRoles (tree.children list)) :=
  rfl

theorem rolesFrom_of_end (h : tree.childCount list <= idx) :
    tree.rolesFrom list idx = tree.aliasRoles (tree.children list) := by
  unfold rolesFrom
  rw [List.take_of_length_le h, List.drop_of_length_le h]
  exact List.append_nil _

theorem rolesFrom_succ
    (h : forall id, tree.child? list idx = some id -> Pass.isAliasable tree id = false ∨
      namesNext (tree.aliasRoles ((tree.children list).drop (idx + 1))) = false) :
    tree.rolesFrom list (idx + 1) = tree.rolesFrom list idx := by
  unfold rolesFrom
  cases hchild : tree.child? list idx with
  | none =>
      have hle := List.getElem?_eq_none_iff.mp hchild
      rw [List.take_of_length_le hle, List.take_of_length_le (Nat.le_succ_of_le hle),
        List.drop_of_length_le hle, List.drop_of_length_le (Nat.le_succ_of_le hle)]
  | some id =>
      have hstays := h id hchild
      have htake : (tree.children list).take (idx + 1) =
          (tree.children list).take idx ++ [id] := by
        unfold child? at hchild
        rw [List.take_add_one, hchild, Option.toList_some]
      rw [htake, drop_of_child? hchild, aliasRoles, aliasRoles, aliasRoles, aliasRoles,
        List.filterMap_append, List.append_assoc]
      congr 1
      cases hrole : tree.aliasRole? id with
      | none =>
          rw [List.filterMap_cons_none hrole, List.filterMap_cons_none hrole]
          rfl
      | some role =>
          rw [List.filterMap_cons_some hrole, List.filterMap_cons_some hrole, join, if_neg]
          · rfl
          · rw [Bool.and_eq_true]
            rintro ⟨hne, hnext⟩
            rcases hstays with hnot | hlast
            · rw [isAliasable_iff.mpr ⟨role, hrole, bne_iff_ne.mp hne⟩] at hnot
              cases hnot
            · exact Bool.eq_false_iff.mp hlast hnext

theorem rolesFrom_eq {stop : Nat} (hle : idx <= stop)
    (h : forall j id, idx <= j -> j < stop -> tree.child? list j = some id ->
      Pass.isAliasable tree id = false) :
    tree.rolesFrom list stop = tree.rolesFrom list idx := by
  induction stop, hle using Nat.le_induction with
  | base =>
      rfl
  | succ stop hle ih =>
      rw [rolesFrom_succ fun id hchild => Or.inl (h stop id hle (Nat.lt_succ_self stop) hchild)]
      exact ih fun j id hj hjStop => h j id hj (Nat.lt_succ_of_lt hjStop)

end Tree

namespace Pass

open Tree

variable {tree after : Tree} {list : NodeId}

theorem aliases_plan_cases {cursor : Cursor} {move : Move}
    (h : Pass.aliases.plan tree list cursor = some move) :
    exists expr id, tree.child? list expr = some id ∧ isAliasable tree id = true ∧
      tree.rolesFrom list expr = tree.rolesFrom list cursor.idx ∧
      ((move = goto (expr + 1) ∧
          namesNext (tree.aliasRoles ((tree.children list).drop (expr + 1))) = false) ∨
        exists name node, move = groupThen ⟨.identifier, expr, name, true⟩ expr ∧
          tree.next list expr true true = some (name, node) ∧
          tree.isKind node .identifier = true) := by
  unfold aliases at h
  dsimp only at h
  split at h
  · cases h
  · rename_i expr id hfound
    rcases nextBy_some hfound with ⟨hle, hchild, haliasable, hbetween⟩
    refine ⟨expr, id, hchild, haliasable, rolesFrom_eq hle ?_, ?_⟩
    · intro j other hj hjExpr hother
      exact hbetween j other hj hjExpr hother
    · split at h
      · rename_i name node hnext
        split at h
        · rename_i hkind
          cases h
          exact Or.inr ⟨name, node, rfl, hnext, hkind⟩
        · rename_i hkind
          cases h
          left
          refine ⟨rfl, ?_⟩
          rcases aliasRoles_of_next hnext with ⟨role, hrole, hroles⟩
          rw [hroles]
          cases role with
          | name =>
              exact absurd (aliasRole?_eq_name_iff.mp hrole) hkind
          | operand | other =>
              rfl
      · rename_i hnext
        cases h
        left
        rw [aliasRoles_of_next_none hnext]
        exact ⟨rfl, rfl⟩

theorem not_aliasable_of_end {cursor : Cursor}
    (h : Pass.aliases.plan tree list cursor = none ∨ tree.childCount list <= cursor.idx) {j : Nat}
    {id : NodeId} (hj : cursor.idx <= j) (hchild : tree.child? list j = some id) :
    isAliasable tree id = false := by
  rcases h with hplan | hcount
  · unfold aliases at hplan
    dsimp only at hplan
    split at hplan
    · rename_i hnone
      exact nextBy_none hnone hj hchild
    · split at hplan
      · split at hplan <;> cases hplan
      · cases hplan
  · exact absurd (child?_lt hchild) (by omega)

theorem rolesFrom_of_gathers {expr name : Nat} {id node group : NodeId} {move : Move}
    {front moved back : List NodeId} (hwf : tree.WellFormed) (hafter : after.WellFormed)
    (hg : move.Gathers list tree ⟨.identifier, expr, name, true⟩ front moved back group after)
    (hretag : move.retag = none) (hchild : tree.child? list expr = some id)
    (haliasable : isAliasable tree id = true)
    (hnext : tree.next list expr true true = some (name, node))
    (hkind : tree.isKind node .identifier = true) :
    after.rolesFrom list expr = tree.rolesFrom list expr := by
  have hsame : forall other, other ∈ after.children list -> other ≠ group ->
      after.kind? other = tree.kind? other ∧ after.token? other = tree.token? other := by
    intro other hmem hne
    have hobservers := observers_congr (hg.content?_child hwf hretag hmem hne)
    exact ⟨hobservers.1, hobservers.2.1⟩
  have hnodup := hafter.nodup_children list
  have hgroup : after.child? list expr = some group := hg.child?_start
  have hfront : after.aliasRoles ((after.children list).take expr) =
      tree.aliasRoles ((tree.children list).take expr) := by
    rw [← (hg.take_front (Nat.le_refl expr)).1]
    exact aliasRoles_congr fun other hmem =>
      hsame other (List.mem_of_mem_take hmem) (ne_of_mem_take hnodup hgroup hmem)
  have hbehind : after.aliasRoles ((after.children list).drop (expr + 1)) =
      tree.aliasRoles ((tree.children list).drop (name + 1)) := by
    have hdrop := (List.drop_sublist expr (after.children list)).nodup hnodup
    rw [drop_of_child? hgroup] at hdrop
    have hbehind : (after.children list).drop (expr + 1) =
        (tree.children list).drop (name + 1) := hg.drop_behind
    rw [← hbehind]
    refine aliasRoles_congr fun other hmem => hsame other (List.mem_of_mem_drop hmem) ?_
    rintro rfl
    exact (List.nodup_cons.mp hdrop).1 hmem
  have hnewRole : after.aliasRole? group = some .name :=
    aliasRole?_eq_name_iff.mpr (beq_iff_eq.mpr hg.kind?_group)
  rcases isAliasable_iff.mp haliasable with ⟨role, hrole, hne⟩
  rcases aliasRoles_of_next hnext with ⟨nameRole, hnameRole, hroles⟩
  cases hnameRole.symm.trans (aliasRole?_eq_name_iff.mpr hkind)
  have hafterRoles : after.aliasRoles ((after.children list).drop expr) =
      .name :: tree.aliasRoles ((tree.children list).drop (name + 1)) := by
    rw [drop_of_child? hgroup, ← hbehind]
    exact List.filterMap_cons_some hnewRole
  have htreeRoles : tree.aliasRoles ((tree.children list).drop expr) =
      role :: .name :: tree.aliasRoles ((tree.children list).drop (name + 1)) := by
    rw [drop_of_child? hchild, ← hroles]
    exact List.filterMap_cons_some hrole
  unfold rolesFrom
  rw [hfront, hafterRoles, htreeRoles, join_cons_of_joins hne rfl]

theorem aliasRoles_of_walk (hwf : tree.WellFormed) (hwalk : Pass.aliases.Walks list tree after) :
    after.aliasRoles (after.children list) = join (tree.aliasRoles (tree.children list)) := by
  have hsound := sound_of_seeker Seeker.aliases_plan Seeker.aliased_sound
  have htags := tagsChildren_of_seeker Seeker.aliases_plan
  have hstays := stays_of_seeker Seeker.aliases_plan
  have hskip : forall (next : Tree) (cursor : Cursor) (move : Move), next.WellFormed ->
      next.rolesFrom list cursor.idx = tree.rolesFrom list 0 ->
      Pass.aliases.plan next list cursor = some move -> move.span = none ->
      next.rolesFrom list move.cursor.idx = tree.rolesFrom list 0 := by
    intro next cursor move _ hinvariant hplan hspan
    rcases aliases_plan_cases hplan with
      ⟨expr, id, _, _, hroles, ⟨rfl, hlast⟩ | ⟨name, node, rfl, _⟩⟩
    · change next.rolesFrom list (expr + 1) = _
      rw [rolesFrom_succ fun _ _ => Or.inr hlast, hroles, hinvariant]
    · cases hspan
  have hgroup : forall (next later : Tree) (cursor : Cursor) (move : Move) (span : Span),
      next.WellFormed -> cursor.Ordered ->
      next.rolesFrom list cursor.idx = tree.rolesFrom list 0 ->
      Pass.aliases.plan next list cursor = some move -> move.span = some span ->
      move.Groups list next later ->
      later.rolesFrom list move.cursor.idx = tree.rolesFrom list 0 := by
    intro next later cursor move span hnext hcursor hinvariant hplan hspan hgroups
    have hfits := hsound next list cursor move hcursor hplan
    have hlater := Tree.groupStep_keepsWellFormed.run hnext
      (.single (groupStep_of_groups hsound hnext hcursor hplan hgroups))
    rcases aliases_plan_cases hplan with
      ⟨expr, id, hchild, haliasable, hroles, ⟨rfl, _⟩ | ⟨name, node, rfl, hfound, hkind⟩⟩
    · cases hspan
    · rcases hgroups.gathers hnext hfits with ⟨found, front, moved, back, group, hg⟩
      cases hg.span_eq
      change later.rolesFrom list expr = _
      rw [rolesFrom_of_gathers hnext hlater hg rfl hchild haliasable hfound hkind, hroles,
        hinvariant]
  rcases walks_rule hsound htags hstays hskip hgroup hwf rfl hwalk with ⟨last, hlast, hend⟩
  have hrest : after.rolesFrom list (max last.idx (after.childCount list)) =
      after.rolesFrom list last.idx :=
    rolesFrom_eq (Nat.le_max_left _ _) fun j id hj _ hchild => not_aliasable_of_end hend hj hchild
  rw [← rolesFrom_of_end (Nat.le_max_right last.idx _), hrest, hlast, rolesFrom_zero]

end Pass

/-!
# The run
-/

section

variable {limit room : Nat} {list other : NodeId} {tree after : Tree}

theorem Survey.aliases_makes : Survey.aliases.Makes .identifier :=
  makes_ofSeeker Seeker.aliases_plan Seeker.aliased_ofKind
    (regular_ofSeeker Seeker.aliases_plan (fun _ _ => rfl) (fun _ _ => rfl)
      (List.mem_of_getElem? (i := 14) rfl))

theorem Survey.aliases_acts (tree : Tree) (list : NodeId) (idx : Nat) :
    aliases.acts tree list idx = tree.aliasAt list idx := by
  change (true && Seeker.aliased.acts tree list idx) = _
  rw [Bool.true_and]
  unfold Seeker.acts Seeker.aliased Tree.aliasAt
  cases tree.child? list idx with
  | none =>
      rfl
  | some id =>
      dsimp only
      rw [Option.any_some]
      congr 1
      rcases tree.next list idx true true with _ | ⟨next, name⟩
      · rfl
      · dsimp only
        rw [Option.any_some]
        cases tree.isKind name .identifier <;> rfl

theorem Survey.aliases_local : Survey.aliases.Local := by
  intro tree after list hchildren hids idx
  rw [aliases_acts, aliases_acts]
  apply Bool.eq_iff_iff.mpr
  have hroles : forall ids, ids ⊆ tree.children list ->
      after.aliasRoles ids = tree.aliasRoles ids :=
    fun ids hsub => Tree.aliasRoles_congr fun id hid => hids id (hsub hid)
  rw [Tree.aliasAt_iff, Tree.aliasAt_iff, Tree.child?, Tree.child?, hchildren,
    hroles _ (List.drop_subset _ _)]
  constructor
  · rintro ⟨id, hchild, haliasable, hnext⟩
    have hsame := hids id (List.mem_of_getElem? hchild)
    exact ⟨id, hchild, Tree.isAliasable_congr hsame.1 hsame.2 ▸ haliasable, hnext⟩
  · rintro ⟨id, hchild, haliasable, hnext⟩
    have hsame := hids id (List.mem_of_getElem? hchild)
    exact ⟨id, hchild, Tree.isAliasable_congr hsame.1 hsame.2 ▸ haliasable, hnext⟩

theorem Tree.Untouched.aliasRoles_eq (h : tree.Untouched other after) (hwf : tree.WellFormed) :
    after.aliasRoles (after.children other) = tree.aliasRoles (tree.children other) := by
  rw [h.observers.2.2]
  exact aliasRoles_congr fun id hid =>
    ⟨(h.observers_child hwf hid).1, (h.observers_child hwf hid).2.1⟩

/-- In every list that a run comes to, it leaves of the roles what one walk joins them
to. -/
theorem Pass.aliasRoles_of_run (hwf : tree.WellFormed)
    (h : exec (Pass.aliases.run limit room list) tree = (.ok (), after))
    (hreach : Survey.aliases.Reaches tree list other) :
    after.aliasRoles (after.children other) = join (tree.aliasRoles (tree.children other)) := by
  have hmakes := Survey.aliases_makes
  rcases hmakes.run_at hwf h hreach with ⟨left, before, later, hbefore, hrun, hlater⟩
  have hbeforeWf := Tree.groupStep_keepsWellFormed.run hwf hbefore.steps
  rcases (hmakes.run_turn hbeforeWf hrun).1 with ⟨middle, hchanges, hchildren, hsame, hwalk⟩
  rw [hlater.aliasRoles_eq (hmakes.wellFormed_of_run hbeforeWf hrun),
    Pass.aliasRoles_of_walk (hchanges.wellFormed hbeforeWf) hwalk, hchildren,
    Tree.aliasRoles_congr hsame, hbefore.aliasRoles_eq hwf]

/-- A run leaves an expression with an identifier after it in just those of the lists
that it comes to in which an alias came too late, and another run changes nothing just
if there was none in the lists that are still reached. -/
theorem aliases_left_late (hwf : tree.WellFormed)
    (h : exec (Pass.aliases.run limit room list) tree = (.ok (), after)) :
    (forall other, Survey.aliases.Reaches tree list other ->
      ((exists idx, after.aliasAt other idx = true) <->
        exists idx, tree.lateAliasAt other idx = true)) ∧
    (exec (Pass.aliases.run limit room list) after = (.ok (), after) <->
      forall other, Survey.aliases.Reaches after list other ->
        forall idx, tree.lateAliasAt other idx = false) := by
  have hmakes := Survey.aliases_makes
  have hleft : forall other, Survey.aliases.Reaches tree list other ->
      ((exists idx, after.aliasAt other idx = true) <->
        exists idx, tree.lateAliasAt other idx = true) := by
    intro other hreach
    rw [Tree.exists_aliasAt_iff, Pass.aliasRoles_of_run hwf h hreach, somewhere_join,
      Tree.exists_lateAliasAt_iff]
  refine ⟨hleft, (hmakes.idle_after_run_iff Survey.aliases_local hwf h).trans ?_⟩
  refine forall_congr' fun other => imp_congr_right fun hreach => ?_
  have hnone := not_congr (hleft other (hmakes.reaches_of_run hwf h hreach))
  simpa only [not_exists, Bool.not_eq_true, Survey.aliases_acts] using hnone

end

/-- A name and its alias become one identifier, and no list is left to come to. -/
theorem aliases_left_late_none :
    exists s tree after, s = Statement.ofTokens [⟨.name, ['a'], some 0⟩,
        ⟨.whitespace, [' '], some 1⟩, ⟨.name, ['b'], some 2⟩] ∧
      exec (Pass.identifiers.run 1 1 s.root) s.tree = (.ok (), tree) ∧ tree.WellFormed ∧
      exec (Pass.aliases.run 1 1 s.root) tree = (.ok (), after) ∧ after ≠ tree ∧
      exec (Pass.aliases.run 1 1 s.root) after = (.ok (), after) := by
  have hrun : ends (fun tree =>
        ends (fun after => decide (after ≠ tree) &&
          (after.sublists 3).all fun id => after.isKind id .identifier)
          (exec (Pass.aliases.run 1 1 3) tree) &&
        (List.range (tree.childCount 3)).all fun idx => !tree.lateAliasAt 3 idx)
      (exec (Pass.identifiers.run 1 1 3) (Statement.ofTokens [⟨.name, ['a'], some 0⟩,
        ⟨.whitespace, [' '], some 1⟩, ⟨.name, ['b'], some 2⟩]).tree) = true := by
    decide
  rcases exists_of_ends hrun with ⟨tree, htree, hp⟩
  rcases Bool.and_eq_true_iff.mp hp with ⟨hagain, hlate⟩
  rcases exists_of_ends hagain with ⟨after, hafter, hq⟩
  rcases Bool.and_eq_true_iff.mp hq with ⟨hchanged, hclosed⟩
  have hwf := (Pass.changesWithin_of_run
    (Pass.sound_of_seeker Seeker.identifiers_plan Seeker.name_sound)
    (Pass.tagsChildren_of_seeker Seeker.identifiers_plan) (Statement.wellFormed_ofTokens _)
    htree).wellFormed (Statement.wellFormed_ofTokens _)
  refine ⟨_, tree, after, rfl, htree, hwf, hafter, of_decide_eq_true hchanged, ?_⟩
  apply (aliases_left_late hwf hafter).2.mpr
  intro other hreach idx
  rcases Relation.ReflTransGen.cases_head hreach with rfl | ⟨id, ⟨hid, hopens⟩, _⟩
  · rcases Nat.lt_or_ge idx (tree.childCount 3) with hlt | hge
    · exact (Bool.not_eq_true' _).mp (List.all_eq_true.mp hlate idx (List.mem_range.mpr hlt))
    · unfold Tree.lateAliasAt
      rw [Tree.child?, List.getElem?_eq_none hge]
      rfl
  · rw [Survey.aliases_makes.opens_iff, List.all_eq_true.mp hclosed id hid] at hopens
    cases hopens

/-- In `a 1 b` the number and its alias become an identifier behind `a`, and another run
joins that. -/
theorem aliases_leave_late_alias :
    exists s tree after, s = Statement.ofTokens [⟨.name, ['a'], some 0⟩,
        ⟨.whitespace, [' '], some 1⟩, ⟨.integer, ['1'], some 2⟩, ⟨.whitespace, [' '], some 3⟩,
        ⟨.name, ['b'], some 4⟩] ∧
      exec (Pass.identifiers.run 1 1 s.root) s.tree = (.ok (), tree) ∧ tree.WellFormed ∧
      exec (Pass.aliases.run 1 1 s.root) tree = (.ok (), after) ∧
      after.aliasAt s.root 0 = true ∧
      exec (Pass.aliases.run 1 1 s.root) after ≠ (.ok (), after) := by
  have hrun : ends (fun tree => ends (fun after => after.aliasAt 5 0 &&
        ends (fun again => decide (again ≠ after)) (exec (Pass.aliases.run 1 1 5) after))
        (exec (Pass.aliases.run 1 1 5) tree))
      (exec (Pass.identifiers.run 1 1 5) (Statement.ofTokens [⟨.name, ['a'], some 0⟩,
        ⟨.whitespace, [' '], some 1⟩, ⟨.integer, ['1'], some 2⟩, ⟨.whitespace, [' '], some 3⟩,
        ⟨.name, ['b'], some 4⟩]).tree) = true := by
    decide
  rcases exists_of_ends hrun with ⟨tree, htree, hp⟩
  rcases exists_of_ends hp with ⟨after, hafter, hq⟩
  rcases Bool.and_eq_true_iff.mp hq with ⟨halias, hagain⟩
  rcases exists_of_ends hagain with ⟨again, hexec, hchanged⟩
  have hwf := (Pass.changesWithin_of_run
    (Pass.sound_of_seeker Seeker.identifiers_plan Seeker.name_sound)
    (Pass.tagsChildren_of_seeker Seeker.identifiers_plan) (Statement.wellFormed_ofTokens _)
    htree).wellFormed (Statement.wellFormed_ofTokens _)
  refine ⟨_, tree, after, rfl, htree, hwf, hafter, halias, ?_⟩
  intro hidle
  change exec (Pass.aliases.run 1 1 5) after = _ at hidle
  rw [hexec] at hidle
  exact of_decide_eq_true hchanged (Prod.mk.inj hidle).2

end SqlLayout
