import SqlLayout.Proofs.Grouping.Depth
import SqlLayout.Proofs.Grouping.Merging
import SqlLayout.Proofs.Grouping.Resting

/-!
# Sums

The walk that makes operations goes from left to right, and each sign takes the
operation made so far as its left operand.  So a sum is nested as deep as it has
signs, although it has no bracket, and the next pass has no room for a long one.
-/

namespace SqlLayout

open Grouping Tree

namespace Token

def one : Token := { category := .integer, value := Text.of "1" }

def plus : Token := { category := .operator, value := Text.of "+" }

end Token

def addends : Nat -> List Token
  | 0 => []
  | n + 1 => Token.plus :: Token.one :: addends n

/-- A sum with so many signs. -/
def sumTokens (n : Nat) : List Token := Token.one :: addends n

theorem eq_of_mem_sumTokens {n : Nat} {t : Token} (h : t ∈ sumTokens n) :
    t = Token.one ∨ t = Token.plus := by
  induction n with
  | zero =>
      exact Or.inl (List.mem_singleton.mp h)
  | succ n ih =>
      unfold sumTokens addends at h
      rw [List.mem_cons, List.mem_cons] at h
      rcases h with heq | heq | hrest
      · exact Or.inl heq
      · exact Or.inr heq
      · exact ih hrest

namespace Rose

def sum : Nat -> Rose
  | 0 => .token .one
  | n + 1 => .group .operation [sum n, .token .plus, .token .one]

def summed (closed waiting : Nat) : List Rose := sum closed :: (addends waiting).map Rose.token

theorem isBlank_sum (n : Nat) : (sum n).isBlank = false := by
  cases n with
  | zero =>
      rfl
  | succ n =>
      rfl

end Rose

open Rose

/-!
# One sign
-/

section

variable {tree : Tree} {list : NodeId} {closed waiting : Nat} (hwf : tree.WellFormed)
include hwf

theorem isOperatorOperand_of_sum {id : NodeId} (hid : id < tree.size)
    (hrose : tree.rose id = sum closed) : BinaryRule.isOperatorOperand tree id = true := by
  unfold BinaryRule.isOperatorOperand
  cases closed with
  | zero =>
      have htoken := hwf.token?_of_rose hid hrose
      have hnumber : tree.isAIn id BinaryRule.operandCategories = true := by
        unfold isAIn tokenHas
        rw [htoken]
        decide
      rw [hnumber]
      rfl
  | succ n =>
      have hkind : tree.isKindIn id [.squareBrackets, .parenthesis, .function, .identifier,
          .operation, .typedLiteral] = true := by
        unfold isKindIn
        rw [(hwf.kind?_of_rose hid hrose).1]
        decide
      rw [hkind, Bool.or_true]
      rfl

variable (hroses : (tree.children list).map tree.rose = summed closed waiting)
include hroses

theorem exists_child_of_summed (idx : Nat) (rose : Rose)
    (h : (summed closed waiting)[idx]? = some rose) :
    exists id, tree.child? list idx = some id ∧ id < tree.size ∧ tree.rose id = rose := by
  rw [← hroses, List.getElem?_map] at h
  rcases Option.map_eq_some_iff.mp h with ⟨id, hchild, hrose⟩
  exact ⟨id, hchild, hwf.child_lt_size (List.mem_of_getElem? hchild), hrose⟩

theorem plan_at_sum : BinaryRule.operator.plan tree list {} =
    some (.skip { idx := 0, prev := some 0 }) := by
  rcases exists_child_of_summed hwf hroses 0 _ rfl with ⟨id, hchild, hid, hrose⟩
  have hblank := hwf.isBlank_rose hid
  rw [hrose, isBlank_sum] at hblank
  rcases @BinaryRule.plan_of_child .operator tree list {} id hchild with
    ⟨hwhite, _⟩ | ⟨_, _, start, stop, hspan, _⟩ | ⟨_, _, hplan⟩
  · rw [← hblank] at hwhite
    cases hwhite
  · cases hspan
  · exact hplan

omit hwf in
theorem plan_at_end (hwaiting : waiting = 0) {cursor : Cursor} (hidx : cursor.idx = 1) :
    BinaryRule.operator.plan tree list cursor = none := by
  apply BinaryRule.plan_of_end
  rw [hwaiting] at hroses
  have hget := congrArg (fun roses : List Rose => roses[1]?) hroses
  rw [List.getElem?_map] at hget
  rw [hidx]
  exact Option.map_eq_none_iff.mp hget

end

variable {tree after : Tree} {list : NodeId} {closed waiting : Nat} {cursor : Cursor} {move : Move}

theorem plan_at_sign (hwf : tree.WellFormed)
    (hroses : (tree.children list).map tree.rose = summed closed (waiting + 1))
    (hidx : cursor.idx = 1) (hprev : cursor.prev = some 0) :
    exists id, tree.child? list 1 = some id ∧ tree.rose id = .token .plus ∧
      BinaryRule.operator.plan tree list cursor = some
        { retag := some (id, .operator)
          span := some { kind := .operation, start := 0, stop := 2, extend := false }
          cursor := { idx := 1, prev := some 0 } } := by
  rcases exists_child_of_summed hwf hroses 0 _ rfl with ⟨left, hleft, hleftLt, hleftRose⟩
  rcases exists_child_of_summed hwf hroses 1 _ rfl with ⟨id, hchild, hid, hrose⟩
  rcases exists_child_of_summed hwf hroses 2 _ rfl with ⟨right, hright, hrightLt, hrightRose⟩
  have htoken := hwf.token?_of_rose hid hrose
  have hcounts : tree.isSkipped right true false = false := by
    rw [isSkipped, Bool.true_and, Bool.false_and, Bool.or_false, ← hwf.isBlank_rose hrightLt,
      hrightRose]
    rfl
  have hspan : BinaryRule.operator.span? tree list cursor.prev cursor.idx = some (0, 2) := by
    unfold BinaryRule.span?
    rw [hprev, hidx, next_of_child hright hcounts]
    dsimp only
    rw [hleft]
    refine if_pos (Bool.and_eq_true_iff.mpr ⟨?_, ?_⟩)
    · exact isOperatorOperand_of_sum hwf hleftLt hleftRose
    · exact @isOperatorOperand_of_sum tree 0 hwf right hrightLt hrightRose
  have hop : BinaryRule.operator.isOp tree id = true := by
    change (tree.isCategory id .operator || tree.isCategory id .wildcard) = true
    unfold isCategory category?
    rw [htoken]
    rfl
  rw [← hidx] at hchild
  refine ⟨id, hidx ▸ hchild, hrose, ?_⟩
  rcases BinaryRule.operator.plan_of_child hchild with
    ⟨hwhite, _⟩ | ⟨_, _, start, stop, hfound, hplan⟩ | ⟨_, hnone, _⟩
  · rw [← hwf.isBlank_rose hid, hrose] at hwhite
    cases hwhite
  · rw [hspan] at hfound
    cases hfound
    exact hplan
  · rw [hnone hop] at hspan
    cases hspan

theorem summed_of_groups (hwf : tree.WellFormed) (hfits : move.Fits tree list cursor)
    (hroses : (tree.children list).map tree.rose = summed closed (waiting + 1)) {id : NodeId}
    (hchild : tree.child? list 1 = some id) (hrose : tree.rose id = .token .plus)
    (hretag : move.retag = some (id, .operator))
    (hspan : move.span = some { kind := .operation, start := 0, stop := 2, extend := false })
    (hgroups : move.Groups list tree after) :
    (after.children list).map after.rose = summed (closed + 1) waiting := by
  have hsplit : (tree.children list).map tree.rose =
      [sum closed] ++ tree.rose id :: Rose.token .one :: (addends waiting).map Rose.token := by
    rw [hroses, hrose]
    rfl
  have htagged := @BinaryRule.roses_tagged .operator tree list cursor move id hwf hfits hretag _ _
    hsplit hchild
  rcases hgroups.regroups hwf hfits with ⟨span, hsome, _, hregroups⟩
  rw [hspan] at hsome
  cases hsome
  rcases hregroups.merged (Nat.zero_le 2) with
    ⟨front, first, rest, back, group, hcut, hfront, hrest, hmerged, hresult⟩
  dsimp only at hfront hrest hmerged
  have hnil : front = [] := List.eq_nil_of_length_eq_zero hfront
  rw [hnil] at hcut hrest hresult
  rw [htagged, hrose] at hcut
  rw [List.length_nil, Nat.zero_add] at hrest
  change [sum closed, Rose.token .plus, Rose.token .one] ++ (addends waiting).map Rose.token = _
    at hcut
  rcases List.append_inj hcut (by simp [hrest]) with ⟨hthree, hback⟩
  rw [List.nil_append, List.cons.injEq] at hthree
  rcases hthree with ⟨hfirst, htwo⟩
  rw [hresult, ← hback]
  cases hmerged with
  | wrapped _ =>
      rw [← hfirst, ← htwo]
      rfl
  | absorbed hextend _ =>
      cases hextend

/-!
# The walk
-/

/-- How far the walk is: it has grouped the first signs and stands at the next
one, or still at the first operand. -/
structure Summing (n : Nat) (list : NodeId) (tree : Tree) (cursor : Cursor) : Prop where
  kind : tree.kind? list = some .statement
  roses : exists closed waiting, closed + waiting = n ∧
    (tree.children list).map tree.rose = summed closed waiting
  place : cursor = {} ∨ cursor.idx = 1 ∧ cursor.prev = some 0

namespace Summing

variable {n : Nat}

theorem skip (hwf : tree.WellFormed) (h : Summing n list tree cursor)
    (hplan : BinaryRule.operator.plan tree list cursor = some move) (hnone : move.span = none) :
    Summing n list tree move.cursor := by
  rcases h with ⟨hkind, ⟨closed, waiting, hsum, hroses⟩, hplace⟩
  rcases hplace with rfl | ⟨hidx, hprev⟩
  · rw [plan_at_sum hwf hroses, Option.some.injEq] at hplan
    rw [← hplan]
    exact ⟨hkind, ⟨closed, waiting, hsum, hroses⟩, Or.inr ⟨rfl, rfl⟩⟩
  · cases waiting with
    | zero =>
        rw [plan_at_end hroses rfl hidx] at hplan
        cases hplan
    | succ waiting =>
        rcases plan_at_sign hwf hroses hidx hprev with ⟨id, _, _, hsign⟩
        rw [hsign, Option.some.injEq] at hplan
        rw [← hplan] at hnone
        cases hnone

theorem group (hwf : tree.WellFormed) (hfits : move.Fits tree list cursor)
    (h : Summing n list tree cursor)
    (hplan : BinaryRule.operator.plan tree list cursor = some move) {span : Span}
    (hspan : move.span = some span) (hgroups : move.Groups list tree after) :
    Summing n list after move.cursor := by
  rcases h with ⟨hkind, ⟨closed, waiting, hsum, hroses⟩, hplace⟩
  rcases hplace with rfl | ⟨hidx, hprev⟩
  · rw [plan_at_sum hwf hroses, Option.some.injEq] at hplan
    rw [← hplan] at hspan
    cases hspan
  · cases waiting with
    | zero =>
        rw [plan_at_end hroses rfl hidx] at hplan
        cases hplan
    | succ waiting =>
        rcases plan_at_sign hwf hroses hidx hprev with ⟨id, hchild, hrose, hsign⟩
        rw [hsign, Option.some.injEq] at hplan
        subst hplan
        rcases hgroups.regroups hwf hfits with ⟨_, _, hkind', _⟩
        have hafter := summed_of_groups hwf hfits hroses hchild hrose rfl rfl hgroups
        exact ⟨hkind'.trans hkind, ⟨closed + 1, waiting, by omega, hafter⟩, Or.inr ⟨rfl, rfl⟩⟩

theorem roses_of_end (hwf : tree.WellFormed) (h : Summing n list tree cursor)
    (hend : BinaryRule.operator.plan tree list cursor = none ∨
      tree.childCount list <= cursor.idx) :
    (tree.children list).map tree.rose = [sum n] := by
  rcases h with ⟨_, ⟨closed, waiting, rfl, hroses⟩, hplace⟩
  have hlength := congrArg List.length hroses
  rw [List.length_map] at hlength
  rcases hplace with rfl | ⟨hidx, hprev⟩
  · rcases hend with hplan | hcount
    · rw [plan_at_sum hwf hroses] at hplan
      cases hplan
    · rw [childCount, hlength] at hcount
      cases hcount
  · cases waiting with
    | zero =>
        exact hroses
    | succ waiting =>
        rcases hend with hplan | hcount
        · rcases plan_at_sign hwf hroses hidx hprev with ⟨id, _, _, hsign⟩
          rw [hsign] at hplan
          cases hplan
        · rw [hidx, childCount, hlength] at hcount
          unfold summed addends at hcount
          simp at hcount

end Summing

theorem sum_of_walks {n : Nat} (hsound : (Pass.binary .operator).Sound) (hwf : tree.WellFormed)
    (hkind : tree.kind? list = some .statement)
    (hroses : (tree.children list).map tree.rose = (sumTokens n).map Rose.token)
    (hwalk : (Pass.binary .operator).Walks list tree after) :
    after.kind? list = some .statement ∧ (after.children list).map after.rose = [sum n] := by
  have htags := Pass.tagsChildren_binary .operator
  have hstart : Summing n list tree {} := ⟨hkind, ⟨0, n, Nat.zero_add n, hroses⟩, Or.inl rfl⟩
  have hafter := (Pass.Walks.changesWithin hsound htags hwf hwalk).wellFormed hwf
  rcases Pass.walks_rule hsound htags (Pass.stays_binary .operator)
      (fun _ _ _ hwf hsumming hplan => hsumming.skip hwf hplan)
      (fun tree _ cursor move _ hwf hcursor hsumming hplan => hsumming.group hwf
        (hsound tree list cursor move hcursor hplan) hplan)
      hwf hstart hwalk with ⟨last, hlast, hend⟩
  exact ⟨hlast.kind, hlast.roses_of_end hafter hend⟩

/-!
# The pass after it
-/

theorem Grouping.exec_bind_error {alpha beta : Type} {m : Grouping alpha} {e : Error}
    (f : alpha -> Grouping beta) (h : (exec m tree).1 = .error e) :
    (exec (m >>= f) tree).1 = .error e := by
  rw [exec_bind]
  rcases hexec : exec m tree with ⟨e' | a, next⟩
  · rw [hexec] at h
    cases h
    rfl
  · rw [hexec] at h
    cases h

/-- A run that looks into operations has no room for a long sum. -/
theorem Pass.no_room_for_sum {pass : Pass}
    (henters : forall (tree : Tree) id, tree.kind? id = some .operation ->
      pass.enters tree id = true) (limit : Nat) {room n : Nat} (hwf : tree.WellFormed)
    {tokens : List Token}
    (hroses : (tree.children list).map tree.rose = sum n :: tokens.map Rose.token)
    (hroom : room <= n) :
    (exec (pass.run limit room list) tree).1 = .error (.nestingTooDeep limit) := by
  induction room generalizing n list tokens with
  | zero =>
      rfl
  | succ room ih =>
      cases n with
      | zero =>
          exact absurd hroom (Nat.not_succ_le_zero room)
      | succ n =>
          rcases List.map_eq_cons_iff.mp hroses with ⟨id, rest, hchildren, hrose, _⟩
          have hmem : id ∈ tree.children list := by
            rw [hchildren]
            exact List.mem_cons_self
          rcases hwf.kind?_of_rose (hwf.child_lt_size hmem) hrose with ⟨hkind, hbelow⟩
          have hfails := @ih id n [Token.plus, Token.one] hbelow.symm (Nat.le_of_succ_le_succ hroom)
          have hfirst : (tree.sublists list).filter (pass.enters tree) =
              id :: (rest.filter tree.isGroup).filter (pass.enters tree) := by
            unfold sublists
            rw [hchildren, List.filter_cons_of_pos (isGroup_iff_kind?.mpr ⟨_, hkind⟩),
              List.filter_cons_of_pos (henters tree id hkind)]
          unfold Pass.run
          rw [exec_get_bind, hfirst]
          apply exec_bind_error
          change (exec (pass.run limit room id >>= fun _ => List.forM _ _) tree).1 = _
          exact exec_bind_error _ hfails

/-!
# Whole statements
-/

/-- None of the passes before the one that makes operations looks for a number or
a sign. -/
theorem Survey.triggers_pass_over_sums :
    ((Survey.triggers.take 10).all fun pair =>
      !pair.2.token Token.one && !pair.2.token Token.plus &&
      !pair.2.kind .statement) = true := by
  decide

namespace Statement

theorem idle_before_operator {limit n : Nat} (hlimit : 0 < limit) :
    Idle ((Pass.all.take 10).forM fun pass =>
        pass.run limit limit (ofTokens (sumTokens n)).root)
      (ofTokens (sumTokens n)).tree := by
  apply @idle_of_lacks limit hlimit (sumTokens n) (Survey.triggers.take 10)
    (fun pair hpair => List.mem_of_mem_take hpair)
  intro pair hpair
  have hlacks := List.all_eq_true.mp Survey.triggers_pass_over_sums pair hpair
  simp only [Bool.and_eq_true, Bool.not_eq_true'] at hlacks
  refine ⟨hlacks.2, ?_⟩
  intro token htoken
  rcases eq_of_mem_sumTokens htoken with rfl | rfl
  · exact hlacks.1.1
  · exact hlacks.1.2

theorem group_sumTokens {limit n : Nat} (hlimit : 0 < limit) (hle : limit <= n) :
    (ofTokens (sumTokens n)).group limit = .error (.nestingTooDeep limit) := by
  rcases Nat.exists_eq_add_one_of_ne_zero (Nat.ne_of_gt hlimit) with ⟨room, rfl⟩
  have hwf := wellFormed_ofTokens (sumTokens n)
  have hkind := kind?_root_ofTokens (sumTokens n)
  have hregular : (Survey.ofRule .operator).Regular :=
    Survey.regular_ofRule (List.mem_of_getElem? (i := 10) rfl)
  have hroot := rose_ofTokens (sumTokens n)
  have hroses := hroot
  rw [hwf.rose_of_kind? hkind, Rose.group.injEq] at hroses
  have htokens : forall rose, rose ∈ (sumTokens n).map Rose.token -> exists t, rose = .token t := by
    intro rose hrose
    rcases List.mem_map.mp hrose with ⟨t, _, rfl⟩
    exact ⟨t, rfl⟩
  have hrests : forall rose, rose ∈ ((ofTokens (sumTokens n)).tree.children
      (ofTokens (sumTokens n)).root).map (ofTokens (sumTokens n)).tree.rose ->
      rose.Rests (Survey.ofRule .operator) := by
    rw [hroses.2]
    intro rose hrose
    rcases htokens rose hrose with ⟨t, rfl⟩
    exact Rests.token
  have hnests : Nests (fun _ => false) (room + 1)
      ((ofTokens (sumTokens n)).tree.rose (ofTokens (sumTokens n)).root) := by
    rw [hroot]
    apply Nests.group
    intro rose hrose
    rcases htokens rose hrose with ⟨t, rfl⟩
    exact Nests.token
  rcases hregular.run_over (room + 1) hwf hkind hrests hnests with
    ⟨middle, after, hexec, hchanges, hmiddle, hmiddleKind, hsame, hwalk⟩
  rcases sum_of_walks hregular.sound hmiddle hmiddleKind (hsame.trans hroses.2) hwalk with
    ⟨_, hsum⟩
  have hfails := @Pass.no_room_for_sum after _ .orderings ?_ (room + 1) (room + 1) n
    (hchanges.wellFormed hwf) [] hsum hle
  · apply group_error_of_exec
    change (exec ((Pass.all.take 10 ++ Pass.binary .operator :: .orderings ::
      Pass.all.drop 12).forM fun pass => pass.run _ _ _) _).1 = _
    rw [exec_forM_append, exec_bind, idle_before_operator hlimit]
    dsimp only
    change (exec ((Pass.binary .operator).run _ _ _ >>= fun _ => Pass.orderings.run _ _ _ >>=
      fun _ => List.forM _ _) _).1 = _
    change exec ((Pass.binary .operator).run _ _ _) _ = _ at hexec
    rw [exec_bind, hexec]
    exact exec_bind_error _ hfails
  · intro tree id hkind
    change (!tree.isKind id .identifier) = true
    rw [isKind, hkind]
    rfl

end Statement
end SqlLayout
