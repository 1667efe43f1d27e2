import SqlLayout.Proofs.Grouping.Depth
import SqlLayout.Proofs.Grouping.OperandsAtRest

/-!
# Stages of a flat statement

What the passes do to a statement whose children are all of some sort: each of
them makes children of the next sort of them.  The sorts up to the operations are
tokens, comments, and operands of some sort.
-/

namespace SqlLayout

open Grouping Tree

/-!
# Passes one after the other
-/

def Tree.Arranged (tree : Tree) (p : List Rose -> Prop) (list : NodeId) : Prop :=
  tree.kind? list = some .statement ∧ p ((tree.children list).map tree.rose)

def Rose.Every (p : Rose -> Prop) (roses : List Rose) : Prop := forall rose, rose ∈ roses -> p rose

def Tree.Stands (tree : Tree) (p : Rose -> Prop) (list : NodeId) : Prop :=
  tree.kind? list = some .statement ∧
    forall rose, rose ∈ (tree.children list).map tree.rose -> p rose

namespace Tree

variable {tree after : Tree} {list : NodeId}

theorem Arranged.nests {p : List Rose -> Prop} (h : tree.Arranged p list) (hwf : tree.WellFormed)
    {room : Nat} (hp : forall roses, p roses ->
      forall rose, rose ∈ roses -> Rose.Nests (fun _ => false) room rose) :
    Rose.Nests (fun _ => false) (room + 1) (tree.rose list) := by
  rw [hwf.rose_of_kind? h.1]
  exact Rose.Nests.group fun child hchild => hp _ h.2 child hchild

theorem WellFormed.arranged {q : List Rose -> Prop} (h : after.WellFormed)
    (hlist : list < after.size)
    (hroses : exists roses, after.rose list = .group .statement roses ∧ q roses) :
    after.Arranged q list := by
  rcases hroses with ⟨roses, hrose, hall⟩
  rcases h.kind?_of_rose hlist hrose with ⟨hkind, rfl⟩
  exact ⟨hkind, hall⟩

end Tree

/-- Runs of some passes succeed on a statement arranged in one way, and make one
arranged in another way of it. -/
def Pass.Arranges (limit : Nat) (p q : List Rose -> Prop) (passes : List Pass) : Prop :=
  forall (tree : Tree) list, tree.WellFormed -> tree.Arranged p list ->
    exists after, exec (passes.forM fun pass => pass.run limit limit list) tree = (.ok (), after) ∧
      tree.ChangesWithin list after ∧ after.Arranged q list

def Pass.Lead (limit : Nat) (p q : Rose -> Prop) (passes : List Pass) : Prop :=
  forall (tree : Tree) list, tree.WellFormed -> tree.Stands p list ->
    exists after, exec (passes.forM fun pass => pass.run limit limit list) tree = (.ok (), after) ∧
      tree.ChangesWithin list after ∧ after.Stands q list

namespace Pass

variable {limit : Nat}

section

variable {p q r : List Rose -> Prop} {first rest : List Pass}

theorem arranges_append (hfirst : Arranges limit p q first) (hrest : Arranges limit q r rest) :
    Arranges limit p r (first ++ rest) := by
  intro tree list hwf harranged
  rcases hfirst tree list hwf harranged with ⟨middle, hexec, hchanges, hmiddle⟩
  rcases hrest middle list (hchanges.wellFormed hwf) hmiddle with
    ⟨after, hexec', hchanges', hafter⟩
  refine ⟨after, ?_, hchanges'.trans hchanges hwf, hafter⟩
  rw [exec_forM_append, exec_bind, hexec]
  exact hexec'

theorem arranges_singleton {pass : Pass}
    (h : forall (tree : Tree) list, tree.WellFormed -> tree.Arranged p list ->
      exists after, exec (pass.run limit limit list) tree = (.ok (), after) ∧
        tree.ChangesWithin list after ∧ after.Arranged q list) : Arranges limit p q [pass] := by
  intro tree list hwf harranged
  rcases h tree list hwf harranged with ⟨after, hexec, hchanges, hafter⟩
  refine ⟨after, ?_, hchanges, hafter⟩
  change exec (pass.run limit limit list >>= fun _ => pure ()) tree = _
  rw [exec_bind, hexec]
  rfl

theorem Arranges.mono {p' q' : List Rose -> Prop} {passes : List Pass}
    (h : Arranges limit p q passes) (hp : forall roses, p' roses -> p roses)
    (hq : forall roses, q roses -> q' roses) : Arranges limit p' q' passes := by
  intro tree list hwf harranged
  rcases h tree list hwf ⟨harranged.1, hp _ harranged.2⟩ with ⟨after, hexec, hchanges, hafter⟩
  exact ⟨after, hexec, hchanges, hafter.1, hq _ hafter.2⟩

variable {room : Nat}
  (hnests : forall roses, p roses -> forall rose, rose ∈ roses ->
    Rose.Nests (fun _ => false) room rose)
  (hroom : room < limit)
include hnests hroom

/-- A pass that acts nowhere among the children and in them leaves the statement as
it is. -/
theorem arranges_of_still {survey : Survey} (hfaithful : survey.Faithful)
    (hstill : forall roses, p roses -> survey.Still roses)
    (hrests : forall roses, p roses -> forall rose, rose ∈ roses -> rose.Rests survey) :
    Arranges limit p p [survey.pass] := by
  apply arranges_singleton
  intro tree list hwf harranged
  refine ⟨tree, ?_, ChangesWithin.refl tree list, harranged⟩
  exact Survey.idle_of_rests hfaithful hwf limit (hwf.rose_of_kind? harranged.1)
    (lt_size_of_content? (content?_of_kind? harranged.1)) (hstill _ harranged.2)
    (hrests _ harranged.2) ((harranged.nests hwf hnests).mono hroom)

theorem arranges_of_lacks (pair : Survey × Trigger) (hmem : pair ∈ Survey.triggers)
    (hlacks : forall roses, p roses -> forall rose, rose ∈ roses -> rose.Lacks pair.2) :
    Arranges limit p p [pair.1.pass] := by
  have hneeds := Survey.triggers_needs pair hmem
  refine arranges_of_still hnests hroom
    (Survey.all_faithful _ (Survey.triggers_map_fst ▸ List.mem_map_of_mem hmem)) ?_ ?_
  · exact fun roses h => hneeds.still fun rose hrose => (hlacks roses h rose hrose).sets_eq_false
  · exact fun roses h rose hrose => hneeds.rests (hlacks roses h rose hrose)

theorem arranges_of_rests {survey : Survey} (hregular : survey.Regular)
    (hrests : forall roses, p roses -> forall rose, rose ∈ roses -> rose.Rests survey)
    (hwalks : forall (tree after : Tree) list, tree.WellFormed -> tree.Arranged p list ->
      survey.pass.Walks list tree after ->
      exists roses, after.rose list = .group .statement roses ∧ q roses) :
    Arranges limit p q [survey.pass] := by
  rcases Nat.exists_eq_add_of_lt hroom with ⟨more, rfl⟩
  apply arranges_singleton
  intro tree list hwf harranged
  rcases hregular.run_over (room + more + 1) hwf harranged.1 (hrests _ harranged.2)
      ((harranged.nests hwf hnests).mono (Nat.succ_le_succ (Nat.le_add_right room more))) with
    ⟨middle, after, hexec, hchanges, hmiddle, hkind, hroses, hwalk⟩
  refine ⟨after, hexec, hchanges, ?_⟩
  apply (hchanges.wellFormed hwf).arranged
  · exact Nat.lt_of_lt_of_le (lt_size_of_content? (content?_of_kind? harranged.1))
      (size_le_of_steps hchanges.steps)
  · exact hwalks middle after list hmiddle ⟨hkind, hroses ▸ harranged.2⟩ hwalk

end

end Pass

/-!
# Children of one sort
-/

open Rose

namespace Tree

variable {tree after : Tree} {list : NodeId} {p q : Rose -> Prop}

theorem Stands.nests (h : tree.Stands p list) (hwf : tree.WellFormed) {room : Nat}
    (hp : forall rose, p rose -> Rose.Nests (fun _ => false) room rose) :
    Rose.Nests (fun _ => false) (room + 1) (tree.rose list) :=
  Arranged.nests (p := Every p) h hwf fun _ hall rose hrose => hp rose (hall rose hrose)

theorem WellFormed.stands (h : after.WellFormed) (hlist : list < after.size)
    (hroses : exists roses, after.rose list = .group .statement roses ∧
      forall rose, rose ∈ roses -> q rose) : after.Stands q list :=
  h.arranged (q := Every q) hlist hroses

end Tree

namespace Pass

variable {limit : Nat}

variable {p q r : Rose -> Prop} {pass : Pass} {first rest : List Pass}

theorem lead_iff_arranges {passes : List Pass} :
    Lead limit p q passes <-> Arranges limit (Every p) (Every q) passes :=
  Iff.rfl

theorem lead_append (hfirst : Lead limit p q first) (hrest : Lead limit q r rest) :
    Lead limit p r (first ++ rest) :=
  arranges_append (lead_iff_arranges.mp hfirst) (lead_iff_arranges.mp hrest)

theorem lead_singleton
    (h : forall (tree : Tree) list, tree.WellFormed -> tree.Stands p list ->
      exists after, exec (pass.run limit limit list) tree = (.ok (), after) ∧
        tree.ChangesWithin list after ∧ after.Stands q list) : Lead limit p q [pass] :=
  arranges_singleton (p := Every p) (q := Every q) h

theorem Lead.mono {p' q' : Rose -> Prop} {passes : List Pass} (h : Lead limit p q passes)
    (hp : forall rose, p' rose -> p rose) (hq : forall rose, q rose -> q' rose) :
    Lead limit p' q' passes :=
  lead_iff_arranges.mpr <|
    (lead_iff_arranges.mp h).mono (fun _ hall rose hrose => hp rose (hall rose hrose))
      fun _ hall rose hrose => hq rose (hall rose hrose)

theorem lead_of_lacks (pair : Survey × Trigger) (hmem : pair ∈ Survey.triggers)
    (hlacks : forall rose, p rose -> rose.Lacks pair.2)
    (room : Nat) (hnests : forall rose, p rose -> Rose.Nests (fun _ => false) room rose)
    (hroom : room < limit) : Lead limit p p [pair.1.pass] :=
  arranges_of_lacks (p := Every p) (fun _ hall rose hrose => hnests rose (hall rose hrose)) hroom
    pair hmem fun _ hall rose hrose => hlacks rose (hall rose hrose)

theorem lead_of_rests {survey : Survey} (hregular : survey.Regular)
    (hrests : forall rose, p rose -> rose.Rests survey) (room : Nat)
    (hnests : forall rose, p rose -> Rose.Nests (fun _ => false) room rose) (hroom : room < limit)
    (hwalks : forall (tree after : Tree) list, tree.WellFormed -> tree.Stands p list ->
      survey.pass.Walks list tree after -> exists roses, after.rose list = .group .statement roses ∧
        forall rose, rose ∈ roses -> q rose) : Lead limit p q [survey.pass] :=
  arranges_of_rests (p := Every p) (q := Every q)
    (fun _ hall rose hrose => hnests rose (hall rose hrose)) hroom hregular
    (fun _ hall rose hrose => hrests rose (hall rose hrose)) hwalks

end Pass

/-!
# Children of a span
-/

namespace Tree

variable {tree : Tree} {list : NodeId} {front first rest back : List Rose}

theorem exists_child_of_getElem? {idx : Nat} {rose : Rose}
    (h : ((tree.children list).map tree.rose)[idx]? = some rose) :
    exists id, tree.child? list idx = some id ∧ rose = tree.rose id := by
  rw [List.getElem?_map] at h
  rcases Option.map_eq_some_iff.mp h with ⟨id, hchild, rfl⟩
  exact ⟨id, hchild, rfl⟩

theorem exists_child_of_mem_rest {head : Rose}
    (hroses : (tree.children list).map tree.rose = front ++ (head :: rest) ++ back) {rose : Rose}
    (hrose : rose ∈ rest) :
    exists idx id, front.length < idx ∧ idx <= front.length + rest.length ∧
      tree.child? list idx = some id ∧ rose = tree.rose id := by
  rcases List.mem_iff_getElem?.mp hrose with ⟨i, hi⟩
  have hbound := (List.getElem?_eq_some_iff.mp hi).1
  have hget : ((tree.children list).map tree.rose)[front.length + (i + 1)]? = some rose := by
    rw [hroses, List.append_assoc, List.getElem?_append_right (Nat.le_add_right _ _),
      Nat.add_sub_cancel_left, List.cons_append, List.getElem?_cons_succ,
      List.getElem?_append_left hbound]
    exact hi
  rcases exists_child_of_getElem? hget with ⟨id, hchild, heq⟩
  exact ⟨front.length + (i + 1), id, by omega, by omega, hchild, heq⟩

/-- From the last child that counts before a place up to the place there are only
blanks. -/
theorem mem_rest_of_prev {head : Rose} (hwf : tree.WellFormed)
    (hroses : (tree.children list).map tree.rose = front ++ (head :: rest) ++ back) {hit : Nat}
    {id other : NodeId} (hprev : tree.prev list hit true = some (front.length, other))
    (hrest : front.length + rest.length = hit) (hchild : tree.child? list hit = some id)
    {rose : Rose} (hrose : rose ∈ rest) : rose.isBlank = true ∨ rose = tree.rose id := by
  rcases exists_child_of_mem_rest hroses hrose with ⟨idx, below, hlt, hle, hbelow, rfl⟩
  rw [hrest] at hle
  rcases Nat.lt_or_eq_of_le hle with hbefore | rfl
  · left
    have hskipped := prev_between hprev hlt hbefore hbelow
    rw [hwf.isBlank_rose (hwf.child_lt_size (List.mem_of_getElem? hbelow))]
    simpa [isSkipped] using hskipped
  · right
    rw [hchild, Option.some.injEq] at hbelow
    rw [hbelow]

theorem rose_of_span_start {head : Rose}
    (hroses : (tree.children list).map tree.rose = front ++ (head :: rest) ++ back) {id : NodeId}
    (hchild : tree.child? list front.length = some id) : head = tree.rose id := by
  have hget := getElem?_roses hchild
  rw [hroses, List.append_assoc, List.getElem?_append_right (Nat.le_refl _), Nat.sub_self,
    List.cons_append, List.getElem?_cons_zero, Option.some.injEq] at hget
  exact hget

theorem next_split {pre post : List Rose} {op : Rose} (hwf : tree.WellFormed)
    (hroses : (tree.children list).map tree.rose = pre ++ op :: post) {next : Nat} {id : NodeId}
    (hnext : tree.next list pre.length true = some (next, id)) :
    exists blanks rest, post = blanks ++ tree.rose id :: rest ∧
      (forall rose, rose ∈ blanks -> rose.isBlank = true) ∧
        next = pre.length + 1 + blanks.length := by
  rcases next_some hnext with ⟨hlt, hchild, _⟩
  have hpost : forall i, ((tree.children list).map tree.rose)[pre.length + 1 + i]? = post[i]? := by
    intro i
    rw [hroses, Nat.add_assoc, List.getElem?_append_right (Nat.le_add_right _ _),
      Nat.add_sub_cancel_left, Nat.add_comm 1, List.getElem?_cons_succ]
  have hget := hpost (next - (pre.length + 1))
  rw [show pre.length + 1 + (next - (pre.length + 1)) = next by omega,
    getElem?_roses hchild] at hget
  rcases List.getElem?_eq_some_iff.mp hget.symm with ⟨hbound, hrose⟩
  refine ⟨post.take (next - (pre.length + 1)), post.drop (next - (pre.length + 1) + 1), ?_, ?_, ?_⟩
  · rw [← hrose, List.getElem_cons_drop, List.take_append_drop]
  · intro rose hmem
    rcases List.mem_iff_getElem?.mp hmem with ⟨i, hi⟩
    rw [List.getElem?_take] at hi
    split at hi
    · rename_i hlt'
      rw [← hpost] at hi
      rcases exists_child_of_getElem? hi with ⟨other, hother, rfl⟩
      have hskipped := next_between hnext (by omega) (by omega) hother
      rw [hwf.isBlank_rose (hwf.child_lt_size (List.mem_of_getElem? hother))]
      simpa [isSkipped] using hskipped
    · cases hi
  · rw [List.length_take_of_le (Nat.le_of_lt hbound)]
    omega

end Tree

/-- A span that ends with the next child behind the operator holds blanks and that
child behind it. -/
theorem BinaryRule.behind_of_next {tree : Tree} {list : NodeId}
    {front blanks behind back : List Rose} {left op : Rose} (hwf : tree.WellFormed)
    (hroses : (tree.children list).map tree.rose =
      front ++ left :: (blanks ++ op :: (behind ++ back))) {idx : Nat} {id : NodeId}
    (hidx : idx = front.length + 1 + blanks.length)
    (hnext : tree.next list idx true = some (idx + behind.length, id)) :
    exists blanks', behind = blanks' ++ [tree.rose id] ∧
      forall rose, rose ∈ blanks' -> rose.isBlank = true := by
  have hroses' : (tree.children list).map tree.rose =
      (front ++ left :: blanks) ++ op :: (behind ++ back) := by
    rw [hroses, List.append_assoc, List.cons_append]
  have hlength : (front ++ left :: blanks).length = idx := by
    rw [List.length_append, List.length_cons, hidx]
    omega
  rcases next_split hwf hroses' (hlength.symm ▸ hnext) with ⟨blanks', rest, hsplit, hblanks, hplace⟩
  rw [hlength] at hplace
  refine ⟨blanks', ?_, hblanks⟩
  rw [List.append_cons blanks'] at hsplit
  refine (List.append_inj hsplit ?_).1
  rw [List.length_append, List.length_singleton]
  omega

/-!
# Items
-/

/-- What the passes up to the operations make of a statement: tokens, comments,
and operands of some sort. -/
inductive Rose.Item (allowed : Token -> Prop) (operand : Rose -> Prop) : Rose -> Prop where
  | token {t : Token} : allowed t -> Item allowed operand (.token t)
  | comment {rose : Rose} : rose.IsComment -> Item allowed operand rose
  | operand {rose : Rose} : operand rose -> Item allowed operand rose

def Token.OpensNone (t : Token) : Prop :=
  forall kind : GroupKind, (kind.opening?.any t.hits) = false

namespace Rose

variable {allowed : Token -> Prop} {operand : Rose -> Prop} {rose : Rose}

theorem nests_of_tokens {kind : GroupKind} {children : List Rose}
    (h : forall child, child ∈ children -> exists t, child = Rose.token t) :
    Nests (fun _ => false) 1 (.group kind children) := by
  apply Nests.group
  intro child hchild
  rcases h child hchild with ⟨t, rfl⟩
  exact Nests.token

theorem IsComment.nests (h : rose.IsComment) : Nests (fun _ => false) 1 rose := by
  rcases h with ⟨children, rfl, htokens⟩
  apply nests_of_tokens
  intro child hchild
  rcases htokens child hchild with ⟨t, rfl, _⟩
  exact ⟨t, rfl⟩

theorem IsName.nests (h : rose.IsName) : Nests (fun _ => false) 1 rose := by
  rcases h with ⟨children, rfl, htokens, _⟩
  apply nests_of_tokens
  intro child hchild
  rcases htokens child hchild with ⟨t, rfl, _⟩
  exact ⟨t, rfl⟩

theorem IsLiteral.nests (h : rose.IsLiteral) : Nests (fun _ => false) 1 rose := by
  rcases id h with ⟨word, rest, rfl, _⟩
  apply nests_of_tokens
  intro child hchild
  rcases h.tokens hchild with ⟨t, rfl, _⟩
  exact ⟨t, rfl⟩

theorem Item.nests (h : Item allowed operand rose)
    (hoperand : forall rose, operand rose -> Nests (fun _ => false) 1 rose) :
    Nests (fun _ => false) 1 rose := by
  cases h with
  | token _ =>
      exact Nests.token
  | comment hcomment =>
      exact hcomment.nests
  | operand h =>
      exact hoperand rose h

theorem Item.mono {allowed' : Token -> Prop} {operand' : Rose -> Prop}
    (h : Item allowed operand rose) (hallowed : forall t, allowed t -> allowed' t)
    (hoperand : forall rose, operand rose -> operand' rose) : Item allowed' operand' rose := by
  cases h with
  | token ht =>
      exact Item.token (hallowed _ ht)
  | comment hcomment =>
      exact Item.comment hcomment
  | operand h =>
      exact Item.operand (hoperand rose h)

theorem Item.rests (pair : Survey × Trigger) (hpair : pair ∈ Survey.triggers.tail)
    (hoperand : forall rose, operand rose -> rose.Rests pair.1) (h : Item allowed operand rose) :
    rose.Rests pair.1 := by
  cases h with
  | token _ =>
      exact Rests.token
  | comment hcomment =>
      exact hcomment.rests hpair
  | operand h =>
      exact hoperand rose h

theorem IsComment.lacks_trigger (h : rose.IsComment) {pair : Survey × Trigger}
    (hpair : pair ∈ Survey.triggers.tail) (hkind : pair.2.kind .comment = false) :
    rose.Lacks pair.2 := by
  rcases h with ⟨children, rfl, htokens⟩
  apply Lacks.group hkind
  intro child hchild
  rcases htokens child hchild with ⟨t, rfl, ht⟩
  exact Lacks.token (Token.triggers_pass_over_trivia ht hpair)

end Rose

end SqlLayout
