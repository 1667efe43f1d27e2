import SqlLayout.Proofs.Grouping.Collecting
import SqlLayout.Proofs.Grouping.Pairing

/-!
# The bounds of WHERE clauses

A clause goes from its WHERE to a keyword that closes it, a semicolon, an END that closes
no CASE of the clause, the closing bracket or the end of the list.  The groups that the
pass makes keep to these bounds while the walk goes on, and no WHERE stays outside.
-/

namespace SqlLayout

open Grouping

/-!
# Words of a clause
-/

namespace Tree

variable {tree after : Tree} {list id : NodeId}

def isWhere (tree : Tree) (id : NodeId) : Bool := tree.isKeywordIn id [Text.of "WHERE"]

def isCase (tree : Tree) (id : NodeId) : Bool := tree.isKeywordIn id [Text.of "CASE"]

def isEnd (tree : Tree) (id : NodeId) : Bool := tree.isKeywordIn id [Text.of "END"]

/-- A keyword that closes a WHERE clause, or a semicolon. -/
def closesWhere (tree : Tree) (id : NodeId) : Bool :=
  tree.hits id Seeker.whereClosing || tree.isPunctuationIn id [[';']]

theorem not_hits_both {first second : TokenPattern} (hfirst : first.values.isEmpty = false)
    (hsecond : second.values.isEmpty = false)
    (hapart : forall v, v ∈ first.values -> forall w, w ∈ second.values ->
      Text.asciiLower v ≠ Text.asciiLower w)
    (h : tree.hits id first = true) : tree.hits id second = false := by
  apply Bool.eq_false_iff.mpr
  intro h'
  rcases tokenHas_iff.mp h with ⟨token, htoken, hhits⟩
  rcases tokenHas_iff.mp h' with ⟨_, hsame, hhits'⟩
  cases htoken.symm.trans hsame
  rw [Token.not_hits_both hfirst hsecond hapart hhits] at hhits'
  cases hhits'

theorem isWhere_apart (h : tree.isWhere id = true) :
    tree.isCase id = false ∧ tree.isEnd id = false ∧ tree.closesWhere id = false := by
  unfold closesWhere
  rw [Bool.or_eq_false_iff]
  exact ⟨not_hits_both rfl rfl (by decide) h, not_hits_both rfl rfl (by decide) h,
    not_hits_both rfl rfl (by decide) h, not_hits_both rfl rfl (by decide) h⟩

theorem isCase_apart (h : tree.isCase id = true) :
    tree.isEnd id = false ∧ tree.closesWhere id = false := by
  unfold closesWhere
  rw [Bool.or_eq_false_iff]
  exact ⟨not_hits_both rfl rfl (by decide) h, not_hits_both rfl rfl (by decide) h,
    not_hits_both rfl rfl (by decide) h⟩

theorem isEnd_apart (h : tree.isEnd id = true) : tree.closesWhere id = false := by
  unfold closesWhere
  rw [Bool.or_eq_false_iff]
  exact ⟨not_hits_both rfl rfl (by decide) h, not_hits_both rfl rfl (by decide) h⟩

theorem not_isA_punctuation_of_isWhere (h : tree.isWhere id = true) :
    tree.isA id .punctuation = false := by
  rcases tokenHas_iff.mp h with ⟨token, htoken, hhits⟩
  unfold isA tokenHas
  rw [htoken]
  dsimp only
  rw [Token.category_of_hits hhits]
  rfl

section

variable (hkept : tree.TokensKept after)
include hkept

theorem isKeywordIn_kept (words : List Text) (id : NodeId) :
    after.isKeywordIn id words = tree.isKeywordIn id words := by
  unfold isKeywordIn
  apply hkept.hits_eq
  exact ⟨nofun, nofun⟩

theorem isWhere_kept (id : NodeId) : after.isWhere id = tree.isWhere id :=
  isKeywordIn_kept hkept _ id

theorem isCase_kept : after.isCase = tree.isCase :=
  funext fun id => isKeywordIn_kept hkept _ id

theorem isEnd_kept : after.isEnd = tree.isEnd :=
  funext fun id => isKeywordIn_kept hkept _ id

theorem closesWhere_kept (id : NodeId) : after.closesWhere id = tree.closesWhere id := by
  unfold closesWhere isPunctuationIn
  rw [hkept.hits_eq (by decide), hkept.hits_eq (by decide)]

theorem isA_punctuation_kept (id : NodeId) :
    after.isA id .punctuation = tree.isA id .punctuation :=
  hkept.tokenHas_eq (fun _ _ hkept => hkept.test_eq (p := fun c => c.isA .punctuation) rfl) id

end

/-!
# The scan for the end
-/

/-- Children of a clause behind so many open CASEs. -/
structure WhereBody (tree : Tree) (cases : Nat) (ids : List NodeId) : Prop where
  goes_on : forall id, id ∈ ids -> tree.closesWhere id = false
  balanced : forall n,
    (ids.take n).countP tree.isEnd <= (ids.take n).countP tree.isCase + cases

namespace WhereBody

variable {cases : Nat} {rest : List NodeId}

theorem nil : tree.WhereBody cases [] :=
  ⟨fun _ hid => absurd hid List.not_mem_nil, fun n => by rw [List.take_nil]; exact Nat.zero_le _⟩

theorem cons {cases' : Nat} (h : tree.WhereBody cases' rest) (hid : tree.closesWhere id = false)
    (hcount : (if tree.isEnd id then 1 else 0) + cases' <=
      (if tree.isCase id then 1 else 0) + cases) : tree.WhereBody cases (id :: rest) := by
  refine ⟨List.forall_mem_cons.mpr ⟨hid, h.goes_on⟩, ?_⟩
  intro n
  cases n with
  | zero =>
      exact Nat.zero_le _
  | succ n =>
      have hrest := h.balanced n
      rw [List.take_succ_cons, List.countP_cons, List.countP_cons]
      omega

theorem kept (h : tree.WhereBody cases rest) (hkept : tree.TokensKept after) :
    after.WhereBody cases rest := by
  refine ⟨?_, ?_⟩
  · intro id hid
    rw [closesWhere_kept hkept]
    exact h.goes_on id hid
  · rw [isEnd_kept hkept, isCase_kept hkept]
    exact h.balanced

end WhereBody

theorem whereStop?_cons {cases start : Nat} {rest : List NodeId} :
    (exists cases', tree.closesWhere id = false ∧
        (if tree.isEnd id then 1 else 0) + cases' <= (if tree.isCase id then 1 else 0) + cases ∧
        Pass.whereStop? tree Seeker.whereClosing cases start (id :: rest) =
          Pass.whereStop? tree Seeker.whereClosing cases' (start + 1) rest) ∨
      ((tree.closesWhere id = true ∨ tree.isEnd id = true) ∧
        Pass.whereStop? tree Seeker.whereClosing cases start (id :: rest) = some start) := by
  generalize hstop : Pass.whereStop? tree Seeker.whereClosing cases start (id :: rest) = stop
  unfold Pass.whereStop? at hstop
  split at hstop
  · rename_i hcase
    rcases isCase_apart hcase with ⟨hend, hcloses⟩
    refine Or.inl ⟨cases + 1, hcloses, ?_, hstop.symm⟩
    rw [hend, if_neg Bool.false_ne_true, if_pos (show tree.isCase id = true from hcase)]
    omega
  · rename_i hcase
    split at hstop
    · rename_i hend
      split at hstop
      · exact Or.inr ⟨Or.inr hend, hstop.symm⟩
      · rename_i cases
        refine Or.inl ⟨cases, isEnd_apart hend, ?_, hstop.symm⟩
        rw [if_pos (show tree.isEnd id = true from hend)]
        omega
    · rename_i hend
      split at hstop
      · rename_i hcloses
        exact Or.inr ⟨Or.inl hcloses, hstop.symm⟩
      · rename_i hcloses
        refine Or.inl ⟨cases, Bool.eq_false_iff.mpr hcloses, ?_, hstop.symm⟩
        rw [if_neg (show ¬ tree.isEnd id = true from hend)]
        omega

theorem whereBody_of_whereStop? {cases start : Nat} {ids : List NodeId} :
    exists n, tree.WhereBody cases (ids.take n) ∧
      ((Pass.whereStop? tree Seeker.whereClosing cases start ids = none ∧ ids.length <= n) ∨
        exists id, Pass.whereStop? tree Seeker.whereClosing cases start ids = some (start + n) ∧
          ids[n]? = some id ∧ (tree.closesWhere id = true ∨ tree.isEnd id = true)) := by
  induction ids generalizing cases start with
  | nil =>
      exact ⟨0, WhereBody.nil, Or.inl ⟨rfl, Nat.le_refl _⟩⟩
  | cons id rest ih =>
      rcases @whereStop?_cons tree id cases start rest with
        ⟨cases', hgoes, hcount, hstep⟩ | ⟨hstops, hhere⟩
      · rcases @ih cases' (start + 1) with ⟨n, hbody, hend⟩
        refine ⟨n + 1, hbody.cons hgoes hcount, ?_⟩
        rw [hstep]
        rcases hend with ⟨hnone, hlength⟩ | ⟨other, hsome, hother, hstops⟩
        · exact Or.inl ⟨hnone, Nat.succ_le_succ hlength⟩
        · refine Or.inr ⟨other, ?_, hother, hstops⟩
          rw [hsome, show start + 1 + n = start + (n + 1) by omega]
      · exact ⟨0, WhereBody.nil, Or.inr ⟨id, hhere, rfl, hstops⟩⟩

/-- What may stand at a position behind a clause: a child that closes it, an END, or the
closing bracket. -/
def EndsWhere (tree : Tree) (list : NodeId) (idx : Nat) (id : NodeId) : Prop :=
  tree.closesWhere id = true ∨ tree.isEnd id = true ∨
    (tree.isKindIn list [.parenthesis, .squareBrackets] = true ∧
      idx + 1 = tree.childCount list ∧ tree.isA id .punctuation = true)

theorem whereLimit_cases {start : Nat} :
    Pass.whereLimit tree list start = tree.childCount list - 1 ∨
      (Pass.whereLimit tree list start = tree.childCount list - 2 ∧
        tree.isKindIn list [.parenthesis, .squareBrackets] = true ∧
        exists id, tree.child? list (tree.childCount list - 1) = some id ∧
          tree.isA id .punctuation = true) := by
  unfold Pass.whereLimit
  dsimp only
  cases hlast : tree.child? list (tree.childCount list - 1) with
  | none =>
      rw [Bool.and_false, if_neg Bool.false_ne_true]
      exact Or.inl rfl
  | some id =>
      dsimp only
      split
      · rename_i hcond
        rw [Bool.and_eq_true, Bool.and_eq_true] at hcond
        exact Or.inr ⟨rfl, hcond.1.1, id, rfl, hcond.2⟩
      · exact Or.inl rfl

/-- The clause from a position holds what may stand in one, and what comes next ends it. -/
theorem whereEnd_bounds {start : Nat} (hstart : tree.child? list start = some id) {stop : Nat}
    (hstop : Pass.whereEnd tree Seeker.whereClosing list start = stop) :
    tree.WhereBody 0 (((tree.children list).take (stop + 1)).drop (start + 1)) ∧
      forall next, tree.child? list (stop + 1) = some next ->
        tree.EndsWhere list (stop + 1) next := by
  rcases Seeker.whereLimit_spec hstart with ⟨hle, hlt⟩
  generalize hbody : ((tree.children list).take (Pass.whereLimit tree list start + 1)).drop
    (start + 1) = body
  have hlength : body.length = Pass.whereLimit tree list start - start := by
    rw [← hbody, List.length_drop, List.length_take_of_le hlt]
    omega
  have htake : forall n, start + n <= Pass.whereLimit tree list start ->
      ((tree.children list).take (start + n + 1)).drop (start + 1) = body.take n := by
    intro n hn
    rw [← hbody, List.drop_take, List.drop_take, List.take_take]
    congr 1
    omega
  have hchild : forall n, n < body.length -> body[n]? = tree.child? list (start + n + 1) := by
    intro n hn
    rw [← hbody, List.getElem?_drop, List.getElem?_take_of_lt (by omega)]
    unfold child?
    congr 1
    omega
  unfold Pass.whereEnd at hstop
  dsimp only at hstop
  rw [hbody] at hstop
  rcases @whereBody_of_whereStop? tree 0 (start + 1) body with
    ⟨n, hclause, ⟨hnone, hend⟩ | ⟨other, hsome, hother, hstops⟩⟩
  · rw [hnone] at hstop
    dsimp only at hstop
    subst hstop
    rw [List.take_of_length_le hend] at hclause
    refine ⟨hbody ▸ hclause, ?_⟩
    intro next hnext
    have hinside := child?_lt hnext
    rcases @whereLimit_cases tree list start with hlast | ⟨hlast, hbracketed, id, hid, hmark⟩
    · omega
    · rw [show Pass.whereLimit tree list start + 1 = tree.childCount list - 1 by omega] at hnext
      cases hid.symm.trans hnext
      exact Or.inr (Or.inr ⟨hbracketed, by omega, hmark⟩)
  · rw [hsome] at hstop
    dsimp only at hstop
    have hn : n < body.length := (List.getElem?_eq_some_iff.mp hother).1
    rw [show stop = start + n by omega, htake n (by omega), ← hchild n hn]
    refine ⟨hclause, ?_⟩
    intro next hnext
    cases hother.symm.trans hnext
    rcases hstops with hcloses | hends
    · exact Or.inl hcloses
    · exact Or.inr (Or.inl hends)

end Tree

/-!
# What a span does to positions
-/

namespace Move.Gathers

variable {tree after : Tree} {list : NodeId} {move : Move} {span : Span}
  {front moved back : List NodeId} {group : NodeId}
  (h : move.Gathers list tree span front moved back group after)
include h

theorem childCount_eq :
    after.childCount list + span.stop = tree.childCount list + span.start := by
  have hstart := h.start_eq
  have hstop := h.stop_eq
  unfold Tree.childCount
  rw [h.children_list, h.children_eq, List.length_append, List.length_cons, List.length_append,
    List.length_append]
  omega

theorem child?_behind {idx : Nat} (hle : span.start <= span.stop) (hidx : span.start < idx) :
    after.child? list idx = tree.child? list (idx + (span.stop - span.start)) := by
  have hget := congrArg (fun ids => ids[idx - (span.start + 1)]?) h.drop_behind
  rw [List.getElem?_drop, List.getElem?_drop] at hget
  unfold Tree.child?
  rw [show idx = span.start + 1 + (idx - (span.start + 1)) by omega, hget]
  congr 1
  omega

theorem child?_new (hextend : span.extend = false) {idx : Nat} {id : NodeId}
    (hchild : after.child? group idx = some id) :
    tree.child? list (span.start + idx) = some id ∧ span.start + idx <= span.stop := by
  have hchildren := (h.new_of_not_extend hextend).2
  have hstop := h.stop_eq
  have hstart := h.start_eq
  unfold Tree.child? at hchild
  rw [hchildren] at hchild
  have hlt := (List.getElem?_eq_some_iff.mp hchild).1
  rw [h.moved_eq, List.getElem?_drop, List.getElem?_take_of_lt (by omega)] at hchild
  exact ⟨hchild, by omega⟩

end Move.Gathers

/-!
# Groups that keep to their bounds
-/

namespace Tree

/-- A clause begins with WHERE, holds nothing that ends it and is followed by what does. -/
structure WhereBounded (tree : Tree) (group : NodeId) : Prop where
  body : exists word rest, tree.children group = word :: rest ∧ tree.isWhere word = true ∧
    tree.WhereBody 0 rest
  ends : forall list idx next, tree.child? list idx = some group ->
    tree.child? list (idx + 1) = some next -> tree.EndsWhere list (idx + 1) next

variable {tree after : Tree} {list other id : NodeId} {idx : Nat}

theorem EndsWhere.kept {idx' : Nat} (h : tree.EndsWhere list idx id) (hkept : tree.TokensKept after)
    (hbracket : tree.isKindIn list [.parenthesis, .squareBrackets] = true ->
      idx + 1 = tree.childCount list -> tree.isA id .punctuation = true ->
      after.isKindIn other [.parenthesis, .squareBrackets] = true ∧
        idx' + 1 = after.childCount other) : after.EndsWhere other idx' id := by
  unfold EndsWhere
  rw [closesWhere_kept hkept, isEnd_kept hkept, isA_punctuation_kept hkept]
  rcases h with hcloses | hends | ⟨hbracketed, hlast, hmark⟩
  · exact Or.inl hcloses
  · exact Or.inr (Or.inl hends)
  · rcases hbracket hbracketed hlast hmark with ⟨hbracketed', hlast'⟩
    exact Or.inr (Or.inr ⟨hbracketed', hlast', hmark⟩)

theorem not_endsWhere_of_isWhere (h : tree.isWhere id = true) : ¬ tree.EndsWhere list idx id := by
  rcases isWhere_apart h with ⟨_, hend, hcloses⟩
  rintro (hsome | hsome | ⟨_, _, hsome⟩)
  · rw [hcloses] at hsome
    cases hsome
  · rw [hend] at hsome
    cases hsome
  · rw [not_isA_punctuation_of_isWhere h] at hsome
    cases hsome

theorem isKindIn_congr {kinds : List GroupKind} (h : after.kind? id = tree.kind? id) :
    after.isKindIn id kinds = tree.isKindIn id kinds := by
  unfold isKindIn
  rw [h]

section

variable {move : Move} {front moved back : List NodeId} {group : NodeId} {start stop : Nat}
  (hg : move.Gathers list tree ⟨.whereClause, start, stop, false⟩ front moved back group after)
  (hle : start <= stop) (hkept : tree.TokensKept after) (hchild : tree.child? list start = some id)
  (hword : tree.isWhere id = true)
  (hstop : Pass.whereEnd tree Seeker.whereClosing list start = stop)
include hg hle hkept hchild hword hstop

theorem whereBounded_new (hafter : after.WellFormed) : after.WhereBounded group := by
  rcases whereEnd_bounds hchild hstop with ⟨hbody, hends⟩
  refine ⟨⟨id, _, ?_, ?_, hbody.kept hkept⟩, ?_⟩
  · have hchildren := (hg.new_of_not_extend rfl).2
    have htake : ((tree.children list).take (stop + 1))[start]? = some id := by
      rw [List.getElem?_take_of_lt (Nat.lt_succ_of_le hle)]
      exact hchild
    rw [hchildren, hg.moved_eq]
    dsimp only
    rw [List.drop_eq_getElem?_toList_append, htake]
    rfl
  · rw [isWhere_kept hkept]
    exact hword
  · intro parent idx next hgroup hnext
    have hplace : after.child? list start = some group := hg.child?_start
    have hparent := hafter.parent?_of_mem (List.mem_of_getElem? hgroup)
    cases hparent.symm.trans (hafter.parent?_of_mem (List.mem_of_getElem? hplace))
    cases (List.getElem?_inj (child?_lt hplace) (hafter.nodup_children list)).mp
      (hplace.trans hgroup.symm)
    have hcount := hg.childCount_eq
    rw [hg.child?_behind hle (Nat.lt_succ_self start)] at hnext
    dsimp only at hcount hnext
    rw [show start + 1 + (stop - start) = stop + 1 by omega] at hnext
    refine (hends next hnext).kept hkept fun hbracketed hlast _ => ?_
    exact ⟨(isKindIn_congr hg.kind?_list).trans hbracketed, by omega⟩

section

variable {old next : NodeId}
  (hends : forall idx next, tree.child? list idx = some old ->
    tree.child? list (idx + 1) = some next -> tree.EndsWhere list (idx + 1) next)
include hends

omit hle hword in
theorem endsWhere_in_group (hold : after.child? group idx = some old)
    (hnext : after.child? group (idx + 1) = some next) :
    after.EndsWhere group (idx + 1) next := by
  rcases hg.child?_new rfl hold with ⟨hold', _⟩
  rcases hg.child?_new rfl hnext with ⟨hnext', hnextLe⟩
  dsimp only at hold' hnext' hnextLe
  have hinside := child?_lt hchild
  refine (hends (start + idx) next hold' hnext').kept hkept ?_
  -- A mark at the end of brackets is not in the span.
  intro hbracketed hlast hmark
  have hlimit : Pass.whereLimit tree list start < start + (idx + 1) :=
    Seeker.whereLimit_lt_of_mark hbracketed hlast hnext' hmark (by omega)
  have hendLe := Seeker.whereEnd_le Seeker.whereClosing hchild
  omega

omit hstop in
/-- What comes after an older clause in the list still ends it; it is not the WHERE of the
new one. -/
theorem endsWhere_in_list (hnew : old ≠ group) (hold : after.child? list idx = some old)
    (hnext : after.child? list (idx + 1) = some next) : after.EndsWhere list (idx + 1) next := by
  have hinside := child?_lt hchild
  rcases Nat.lt_trichotomy idx start with hbefore | rfl | hbehind
  · rw [hg.child?_front hbefore] at hold
    rcases Nat.lt_or_eq_of_le (Nat.succ_le_of_lt hbefore) with hlt | heq
    · rw [hg.child?_front hlt] at hnext
      refine (hends idx next hold hnext).kept hkept fun _ hlast _ => ?_
      omega
    · rw [← heq] at hchild
      exact absurd (hends idx id hold hchild) (not_endsWhere_of_isWhere hword)
  · have hplace : after.child? list idx = some group := hg.child?_start
    cases hplace.symm.trans hold
    exact absurd rfl hnew
  · have hcount := hg.childCount_eq
    rw [hg.child?_behind hle hbehind] at hold
    rw [hg.child?_behind hle (show start < idx + 1 by omega)] at hnext
    dsimp only at hcount hold hnext
    rw [Nat.add_right_comm] at hnext
    refine (hends _ next hold hnext).kept hkept fun hbracketed hlast _ => ?_
    exact ⟨(isKindIn_congr hg.kind?_list).trans hbracketed, by omega⟩

end

/-- The clauses that have been grouped before keep to their bounds, whether they stand in
the list, in the new group or elsewhere. -/
theorem WhereBounded.gathers (hretag : move.retag = none) {old : NodeId} (hlist : old ≠ list)
    (hnew : old ≠ group) (h : tree.WhereBounded old) : after.WhereBounded old := by
  have hother : forall node, node ≠ list -> node ≠ group ->
      after.kind? node = tree.kind? node ∧ after.children node = tree.children node := by
    intro node hne hne'
    have hobservers := observers_congr (hg.content?_other node hne hne' fun category hsome => by
      rw [hretag] at hsome
      cases hsome)
    exact ⟨hobservers.1, hobservers.2.2⟩
  rcases h.body with ⟨word, rest, hchildren, hisWhere, hbody⟩
  refine ⟨⟨word, rest, ?_, ?_, hbody.kept hkept⟩, ?_⟩
  · rw [(hother old hlist hnew).2, hchildren]
  · rw [isWhere_kept hkept]
    exact hisWhere
  · intro parent idx next hold hnext
    by_cases hgroup : parent = group
    · subst hgroup
      exact endsWhere_in_group hg hkept hchild hstop (h.ends list) hold hnext
    · by_cases hsame : parent = list
      · subst hsame
        exact endsWhere_in_list hg hle hkept hchild hword (h.ends parent) hnew hold hnext
      · rcases hother parent hsame hgroup with ⟨hkind, hinner⟩
        unfold child? at hold hnext
        rw [hinner] at hold hnext
        refine (h.ends parent idx next hold hnext).kept hkept fun hbracketed hlast _ => ?_
        refine ⟨(isKindIn_congr hkind).trans hbracketed, ?_⟩
        unfold childCount
        rw [hinner]
        exact hlast

end

end Tree

/-!
# The pass
-/

namespace Pass

open Tree

variable {tree after : Tree} {list id : NodeId} {limit room : Nat}

theorem whereClauses_plan_eq {cursor : Cursor} :
    whereClauses.plan tree list cursor =
      (tree.nextBy list cursor.idx tree.isWhere).map fun hit => groupThen
        ⟨.whereClause, hit.1, whereEnd tree Seeker.whereClosing list hit.1, false⟩ (hit.1 + 1) := by
  rw [Seeker.whereClauses_plan]
  unfold Seeker.plan
  change _ = (tree.nextBy list cursor.idx (Seeker.whereWord.accepts tree)).map _
  cases tree.nextBy list cursor.idx (Seeker.whereWord.accepts tree) with
  | none =>
      rfl
  | some hit =>
      rfl

theorem whereClauses_plan_cases {cursor : Cursor} {move : Move}
    (h : whereClauses.plan tree list cursor = some move) :
    exists start word, tree.child? list start = some word ∧ tree.isWhere word = true ∧
      (forall j other, cursor.idx <= j -> j < start -> tree.child? list j = some other ->
        tree.isWhere other = false) ∧
      move = groupThen
        ⟨.whereClause, start, whereEnd tree Seeker.whereClosing list start, false⟩ (start + 1) := by
  rw [whereClauses_plan_eq] at h
  rcases Option.map_eq_some_iff.mp h with ⟨⟨start, word⟩, hfound, heq⟩
  rcases nextBy_some hfound with ⟨_, hchild, hword, hbetween⟩
  exact ⟨start, word, hchild, hword, hbetween, heq.symm⟩

theorem whereClauses_keep_bounds :
    whereClauses.Keeps
      (fun tree => forall id, tree.kind? id = some .whereClause -> tree.WhereBounded id)
      (· ≠ .whereClause) (fun _ _ _ => True) where
  enters := by
    rintro tree id kind henters hkind rfl
    change (!tree.isKind id .whereClause) = true at henters
    rw [Tree.isKind, hkind] at henters
    cases henters
  start := fun _ _ => trivial
  skip := fun _ _ _ _ _ _ _ _ => trivial
  visit := by
    intro tree list cursor move id _ hplan hvisit
    rw [stays_of_seeker Seeker.whereClauses_plan tree list cursor move hplan] at hvisit
    cases hvisit
  span := by
    intro tree after list host cursor move span hwf hcursor hholds hhost hsuits _ hplan hspan
      hgroups
    have hsound := sound_of_seeker Seeker.whereClauses_plan Seeker.whereWord_sound
    have hfits := hsound tree list cursor move hcursor hplan
    have hstep := groupStep_of_groups hsound hwf hcursor hplan hgroups
    rcases whereClauses_plan_cases hplan with ⟨start, word, hchild, hword, _, rfl⟩
    rcases hgroups.gathers hwf hfits with ⟨found, front, moved, back, group, hg⟩
    cases hg.span_eq
    have hle := (Seeker.whereEnd_spec Seeker.whereClosing hchild).1
    refine ⟨?_, trivial⟩
    intro old hold
    by_cases hnew : old = group
    · subst hnew
      exact whereBounded_new hg hle hstep.tokensKept hchild hword rfl (hstep.wellFormed hwf)
    · have hlist : old ≠ list := by
        rintro rfl
        rw [hg.kind?_list, hhost] at hold
        cases hold
        exact hsuits rfl
      have hcontent := hg.content?_other old hlist hnew fun _ hsome => by cases hsome
      rw [(observers_congr hcontent).1] at hold
      exact (hholds old hold).gathers hg hle hstep.tokensKept hchild hword rfl rfl hlist hnew

theorem eq_of_run_of_token {pass : Pass} (htoken : tree.isGroup list = false)
    (h : exec (pass.run limit room list) tree = (.ok (), after)) : after = tree := by
  have hchildren : tree.children list = [] := by
    apply List.eq_nil_iff_forall_not_mem.mpr
    intro id hid
    rw [isGroup_of_mem_children hid] at htoken
    cases htoken
  have hcount : tree.childCount list = 0 := List.length_eq_zero_iff.mpr hchildren
  cases room with
  | zero =>
      cases h
  | succ room =>
      unfold Pass.run at h
      rw [exec_get_bind, sublists, hchildren] at h
      rcases exec_bind_eq_ok h with ⟨middle, hentered, hwalk⟩
      cases hentered
      rw [exec_get_bind, hcount] at hwalk
      split at hwalk
      · cases hwalk
        rfl
      · cases hwalk
        rfl

end Pass

theorem Seeker.whereWord_collects : whereWord.Collects .whereClause
    fun token => token.isKeywordIn [Text.of "WHERE"] where
  kept := fun _ _ hkept => hkept.hits_eq nofun nofun
  refuses := fun _ _ h => h
  leaves := by
    intro tree list idx id _ hspan
    cases hspan
  takes := by
    intro tree list idx id span next hspan
    cases hspan
    exact ⟨rfl, rfl, rfl, rfl⟩

section

variable {limit room : Nat} {list : NodeId} {tree after : Tree}

theorem Survey.whereClauses_makes :
    (ofSeeker .whereClauses (some .whereClause) .whereWord).Makes .whereClause :=
  makes_ofSeeker Seeker.whereClauses_plan Seeker.whereWord_ofKind
    (regular_ofSeeker Seeker.whereClauses_plan (fun _ _ => rfl) (fun _ _ => rfl)
      (List.mem_of_getElem? (i := 4) rfl))

theorem Pass.whereWords_of_run (hwf : tree.WellFormed)
    (hfree : forall id, tree.isKind id .whereClause = false)
    (h : exec (Pass.whereClauses.run limit room list) tree = (.ok (), after)) {id : NodeId}
    (hbelow : after.Above list id) (hword : after.isWhere id = true) :
    exists group, after.kind? group = some .whereClause ∧ after.Above group id := by
  have hchanges := Survey.whereClauses_makes.changesWithin_of_run hwf h
  rw [Tree.isWhere_kept (Tree.tokensKept_of_steps hchanges.steps)] at hword
  rcases Tree.tokenHas_iff.mp hword with ⟨token, htoken, _⟩
  rw [hchanges.above_iff hwf (Tree.lt_size_of_token? htoken)] at hbelow
  rcases Survey.housed_of_run Seeker.whereClauses_plan Seeker.whereWord_collects
    Survey.whereClauses_makes hwf h hbelow hword with ⟨group, hgroup, hmem⟩ | ⟨group, hgroup, _⟩
  · exact ⟨group, beq_iff_eq.mp hgroup,
      Tree.above_of_parent? ((hchanges.wellFormed hwf).parent?_of_mem hmem)⟩
  · rw [hfree group] at hgroup
    cases hgroup

theorem Pass.whereBounded_of_run (hwf : tree.WellFormed)
    (hfree : forall id, tree.isKind id .whereClause = false)
    (h : exec (Pass.whereClauses.run limit room list) tree = (.ok (), after)) {id : NodeId}
    (hkind : after.kind? id = some .whereClause) : after.WhereBounded id := by
  have hstart : forall id, tree.kind? id = some .whereClause -> tree.WhereBounded id := by
    intro id hsome
    have hnot := hfree id
    rw [Tree.isKind, hsome] at hnot
    cases hnot
  cases hhost : tree.kind? list with
  | none =>
      have htoken : tree.isGroup list = false := by
        unfold Tree.isGroup
        rw [hhost]
        rfl
      rw [eq_of_run_of_token htoken h] at hkind ⊢
      exact hstart id hkind
  | some host =>
      have hsuits : host ≠ .whereClause := by
        rintro rfl
        have hnot := hfree list
        rw [Tree.isKind, hhost] at hnot
        cases hnot
      exact whereClauses_keep_bounds.run
        (sound_of_seeker Seeker.whereClauses_plan Seeker.whereWord_sound)
        (tagsChildren_of_seeker Seeker.whereClauses_plan) hwf hhost hsuits hstart h id hkind

/-- After a run on a tree without clauses every WHERE below the list is inside of one.
Each clause begins with its WHERE; none of its other children closes a clause, none is a
semicolon, and nowhere in it are there more ENDs than CASEs.  What comes next closes a
clause, is a semicolon or an END, or is the mark at the end of a list in brackets. -/
theorem where_clauses_bounded (hwf : tree.WellFormed)
    (hfree : forall id, tree.isKind id .whereClause = false)
    (h : exec (Pass.whereClauses.run limit room list) tree = (.ok (), after)) :
    (forall id, after.Above list id -> after.isWhere id = true ->
      exists group, after.isKind group .whereClause = true ∧ after.Above group id) ∧
    forall group, after.isKind group .whereClause = true ->
      (exists word rest, after.children group = word :: rest ∧ after.isWhere word = true ∧
        forall id, id ∈ rest -> after.closesWhere id = false) ∧
      (forall n, ((after.children group).take n).countP after.isEnd <=
        ((after.children group).take n).countP after.isCase) ∧
      forall parent idx next, after.child? parent idx = some group ->
        after.child? parent (idx + 1) = some next -> after.EndsWhere parent (idx + 1) next := by
  refine ⟨?_, ?_⟩
  · intro id hbelow hword
    rcases Pass.whereWords_of_run hwf hfree h hbelow hword with ⟨group, hkind, habove⟩
    exact ⟨group, beq_iff_eq.mpr hkind, habove⟩
  · intro group hkind
    have hbounded := Pass.whereBounded_of_run hwf hfree h (beq_iff_eq.mp hkind)
    rcases hbounded.body with ⟨word, rest, hchildren, hword, hbody⟩
    rcases Tree.isWhere_apart hword with ⟨hcase, hend, _⟩
    refine ⟨⟨word, rest, hchildren, hword, hbody.goes_on⟩, ?_, hbounded.ends⟩
    intro n
    rw [hchildren]
    cases n with
    | zero =>
        exact Nat.zero_le _
    | succ n =>
        have hbalanced := hbody.balanced n
        rw [List.take_succ_cons, List.countP_cons, List.countP_cons, hcase, hend]
        exact hbalanced

end

/-- In `where case end limit` the END closes the CASE and LIMIT the clause. -/
theorem where_clauses_bounded_limit :
    exists s after, s = Statement.ofTokens [⟨.keyword, Text.of "where", some 0⟩,
        ⟨.keyword, Text.of "case", some 5⟩, ⟨.keyword, Text.of "end", some 9⟩,
        ⟨.keyword, Text.of "limit", some 12⟩] ∧
      exec (Pass.whereClauses.run 1 1 s.root) s.tree = (.ok (), after) ∧
      (exists group, after.isKind group .whereClause = true ∧ after.Above group 0) ∧
      after.children 5 = [0, 1, 2] ∧ after.EndsWhere s.root 1 3 := by
  have hrun : ends (fun after => decide (after.children 5 = [0, 1, 2]) &&
        decide (after.children 4 = [5, 3]) && after.isKind 5 .whereClause &&
        decide (after.parent? 0 = some 5) && decide (after.parent? 5 = some 4) && after.isWhere 0)
      (exec (Pass.whereClauses.run 1 1 4) (Statement.ofTokens
        [⟨.keyword, Text.of "where", some 0⟩, ⟨.keyword, Text.of "case", some 5⟩,
          ⟨.keyword, Text.of "end", some 9⟩, ⟨.keyword, Text.of "limit", some 12⟩]).tree) =
        true := by
    decide
  rcases exists_of_ends hrun with ⟨after, hexec, hp⟩
  simp only [Bool.and_eq_true, decide_eq_true_eq] at hp
  rcases hp with ⟨⟨⟨⟨⟨hinner, hlist⟩, hkind⟩, hword⟩, hgroup⟩, hwhere⟩
  rcases where_clauses_bounded (Statement.wellFormed_ofTokens _)
      (fun id => Statement.isKind_ofTokens _ id nofun) hexec with ⟨hwords, hgroups⟩
  have habove : after.Above 4 0 :=
    (Tree.above_of_parent? hgroup).trans (Tree.above_of_parent? hword)
  refine ⟨_, after, rfl, hexec, hwords 0 habove hwhere, hinner, ?_⟩
  apply (hgroups 5 hkind).2.2 4 0 3
  · rw [Tree.child?, hlist]
    rfl
  · rw [Tree.child?, hlist]
    rfl

end SqlLayout
