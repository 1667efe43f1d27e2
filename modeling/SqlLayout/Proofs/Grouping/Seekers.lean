import SqlLayout.Grouping.Scans
import SqlLayout.Proofs.Tree.Search

/-!
# Passes that look for a child

Eight passes have one shape: they search the list for the next child of a sort
and group it with what stands around it, or go on after it.  A seeker is what
tells one of them from the others.
-/

namespace SqlLayout

/-- The sort of child that a pass looks for, and the span that it makes of one,
with the position to go on at. -/
structure Seeker where
  accepts : Tree -> NodeId -> Bool
  span? : Tree -> NodeId -> Nat -> NodeId -> Option (Span × Nat)

namespace Seeker

def plan (seeker : Seeker) (tree : Tree) (list : NodeId) (cursor : Cursor) : Option Move :=
  match tree.nextBy list cursor.idx (seeker.accepts tree) with
  | none => none
  | some (idx, id) =>
      match seeker.span? tree list idx id with
      | some (span, next) => some (Pass.groupThen span next)
      | none => some (Pass.goto (idx + 1))

def acts (seeker : Seeker) (tree : Tree) (list : NodeId) (idx : Nat) : Bool :=
  match tree.child? list idx with
  | some id => seeker.accepts tree id && (seeker.span? tree list idx id).isSome
  | none => false

def Sound (seeker : Seeker) : Prop :=
  forall tree list idx id span next, tree.child? list idx = some id ->
    seeker.span? tree list idx id = some (span, next) ->
    span.start <= span.stop ∧ span.stop < tree.childCount list ∧
      (span.extend = true -> span.start < span.stop) ∧ idx + span.start < next + span.stop

/-!
# The seekers
-/

def comment : Seeker where
  accepts := fun tree id => tree.isA id .comment
  span? := fun tree list idx _ =>
    some (⟨.comment, idx, Pass.commentRunEnd tree list idx, false⟩, idx + 1)

def call : Seeker where
  accepts := fun tree id => tree.isA id .name
  span? := fun tree list idx _ =>
    match tree.next list idx true with
    | some (parens, id) =>
        if tree.isKind id .parenthesis then some (⟨.function, idx, parens, false⟩, idx + 1)
        else none
    | none => none

def whereClosing : TokenPattern := GroupKind.whereClause.closing?.getD ⟨.keyword, []⟩

def whereWord : Seeker where
  accepts := fun tree id => tree.isKeywordIn id [Text.of "WHERE"]
  span? := fun tree list idx _ =>
    some (⟨.whereClause, idx, Pass.whereEnd tree whereClosing list idx, false⟩, idx + 1)

def name : Seeker where
  accepts := fun _ _ => true
  span? := fun tree _ idx id =>
    if tree.isCategory id .name || tree.isCategory id .doubleQuoted then
      some (⟨.identifier, idx, idx, false⟩, idx + 1)
    else none

def typeWord : Seeker where
  accepts := fun _ _ => true
  span? := fun tree list idx id =>
    (Pass.typedLiteralEnd? tree list idx id).map fun stop =>
      (⟨.typedLiteral, idx, stop, false⟩, idx + 1)

def ordering : Seeker where
  accepts := fun tree id => tree.isCategory id .order
  span? := fun tree list idx _ =>
    match tree.prev list idx true with
    | some (prev, id) =>
        if tree.isKind id .identifier || tree.isA id .number then
          some (⟨.identifier, prev, idx, true⟩, prev + 1)
        else none
    | none => none

def aliased : Seeker where
  accepts := Pass.isAliasable
  span? := fun tree list idx _ =>
    match tree.next list idx true true with
    | some (name, id) =>
        if tree.isKind id .identifier then some (⟨.identifier, idx, name, true⟩, idx) else none
    | none => none

def trailingComment : Seeker where
  accepts := fun tree id => tree.isKind id .comment
  span? := fun tree list idx _ =>
    if !tree.isKind list .statement && idx + 1 == tree.childCount list then none
    else
      match tree.prev list idx true with
      | some (prev, id) =>
          (Pass.commentHost? tree id).map fun kind => (⟨kind, prev, idx, true⟩, prev + 1)
      | none => none

/-!
# The plans of the passes
-/

theorem nextBy_true (tree : Tree) (list : NodeId) (start : Nat) :
    tree.nextBy list start (fun _ => true) =
      (tree.child? list start).map fun id => (start, id) := by
  unfold Tree.nextBy Tree.child?
  rw [← List.head?_drop]
  cases (tree.children list).drop start with
  | nil =>
      rfl
  | cons id rest =>
      rfl

theorem comments_plan : Pass.comments.plan = comment.plan := rfl

theorem functions_plan : Pass.functions.plan = call.plan := by
  funext tree list cursor
  unfold Pass.functions plan call
  dsimp only
  rcases tree.nextBy list cursor.idx (fun id => tree.isA id .name) with _ | ⟨idx, id⟩
  · rfl
  · dsimp only
    rcases tree.next list idx true with _ | ⟨other, node⟩
    · rfl
    · dsimp only
      cases tree.isKind node .parenthesis with
      | true =>
          rfl
      | false =>
          rfl

theorem whereClauses_plan : Pass.whereClauses.plan = whereWord.plan := rfl

theorem identifiers_plan : Pass.identifiers.plan = name.plan := by
  funext tree list cursor
  unfold Pass.identifiers plan name
  dsimp only
  rw [nextBy_true]
  cases tree.child? list cursor.idx with
  | none =>
      rfl
  | some id =>
      dsimp only [Option.map_some]
      split
      · rfl
      · rfl

theorem typedLiterals_plan : Pass.typedLiterals.plan = typeWord.plan := by
  funext tree list cursor
  unfold Pass.typedLiterals plan typeWord
  dsimp only
  rw [nextBy_true]
  cases tree.child? list cursor.idx with
  | none =>
      rfl
  | some id =>
      dsimp only [Option.map_some]
      cases Pass.typedLiteralEnd? tree list cursor.idx id with
      | none =>
          rfl
      | some stop =>
          rfl

theorem orderings_plan : Pass.orderings.plan = ordering.plan := by
  funext tree list cursor
  unfold Pass.orderings plan ordering
  dsimp only
  rcases tree.nextBy list cursor.idx (fun id => tree.isCategory id .order) with _ | ⟨idx, id⟩
  · rfl
  · dsimp only
    rcases tree.prev list idx true with _ | ⟨other, node⟩
    · rfl
    · dsimp only
      cases tree.isKind node .identifier || tree.isA node .number with
      | true =>
          rfl
      | false =>
          rfl

theorem aliases_plan : Pass.aliases.plan = aliased.plan := by
  funext tree list cursor
  unfold Pass.aliases plan aliased
  dsimp only
  rcases tree.nextBy list cursor.idx (Pass.isAliasable tree) with _ | ⟨idx, id⟩
  · rfl
  · dsimp only
    rcases tree.next list idx true true with _ | ⟨other, node⟩
    · rfl
    · dsimp only
      cases tree.isKind node .identifier with
      | true =>
          rfl
      | false =>
          rfl

theorem trailingComments_plan : Pass.trailingComments.plan = trailingComment.plan := by
  funext tree list cursor
  unfold Pass.trailingComments plan trailingComment
  dsimp only
  rcases tree.nextBy list cursor.idx (fun id => tree.isKind id .comment) with _ | ⟨idx, id⟩
  · rfl
  · dsimp only
    cases !tree.isKind list .statement && idx + 1 == tree.childCount list with
    | true =>
        rcases tree.prev list idx true with _ | ⟨prev, node⟩
        · rfl
        · dsimp only
          cases Pass.commentHost? tree node with
          | none =>
              rfl
          | some kind =>
              rfl
    | false =>
        rcases tree.prev list idx true with _ | ⟨prev, node⟩
        · rfl
        · dsimp only
          cases Pass.commentHost? tree node with
          | none =>
              rfl
          | some kind =>
              rfl

/-!
# The spans
-/

section

variable {tree : Tree} {list id : NodeId} {idx next : Nat} {span : Span}

theorem call_span (h : call.span? tree list idx id = some (span, next)) :
    exists parens group, tree.next list idx true = some (parens, group) ∧
      tree.isKind group .parenthesis = true ∧ span = ⟨.function, idx, parens, false⟩ ∧
      next = idx + 1 := by
  unfold call at h
  dsimp only at h
  split at h
  · rename_i parens group hnext
    split at h
    · rename_i hkind
      cases h
      exact ⟨parens, group, hnext, hkind, rfl, rfl⟩
    · cases h
  · cases h

theorem name_span (h : name.span? tree list idx id = some (span, next)) :
    (tree.isCategory id .name || tree.isCategory id .doubleQuoted) = true ∧
      span = ⟨.identifier, idx, idx, false⟩ ∧ next = idx + 1 := by
  unfold name at h
  dsimp only at h
  split at h
  · rename_i hname
    cases h
    exact ⟨hname, rfl, rfl⟩
  · cases h

theorem ordering_span (h : ordering.span? tree list idx id = some (span, next)) :
    exists prev host, tree.prev list idx true = some (prev, host) ∧
      (tree.isKind host .identifier || tree.isA host .number) = true ∧
      span = ⟨.identifier, prev, idx, true⟩ ∧ next = prev + 1 := by
  unfold ordering at h
  dsimp only at h
  split at h
  · rename_i prev host hprev
    split at h
    · rename_i hhost
      cases h
      exact ⟨prev, host, hprev, hhost, rfl, rfl⟩
    · cases h
  · cases h

theorem aliased_span (h : aliased.span? tree list idx id = some (span, next)) :
    exists place other, tree.next list idx true true = some (place, other) ∧
      tree.isKind other .identifier = true ∧ span = ⟨.identifier, idx, place, true⟩ ∧
      next = idx := by
  unfold aliased at h
  dsimp only at h
  split at h
  · rename_i place other hnext
    split at h
    · rename_i hkind
      cases h
      exact ⟨place, other, hnext, hkind, rfl, rfl⟩
    · cases h
  · cases h

end

/-!
# The spans lie in the list
-/

theorem commentRunEnd_spec {tree : Tree} {list : NodeId} {start : Nat} {id : NodeId}
    (hstart : tree.child? list start = some id) :
    start <= Pass.commentRunEnd tree list start ∧
      Pass.commentRunEnd tree list start < tree.childCount list := by
  have hlt := Tree.child?_lt hstart
  unfold Pass.commentRunEnd
  dsimp only
  split
  · rename_i stop other hstop
    rcases Tree.nextBy_some hstop with ⟨hle, hchild, _, _⟩
    have := Tree.child?_lt hchild
    omega
  · split
    · rename_i idx other hlast
      rcases Tree.lastFrom_some hlast with ⟨hle, hget, _⟩
      rw [List.getElem?_drop] at hget
      have hlt' := (List.getElem?_eq_some_iff.mp hget).1
      unfold Tree.childCount
      omega
    · exact ⟨Nat.le_refl _, hlt⟩

theorem comment_sound : comment.Sound := by
  intro tree list idx id span next hchild hspan
  cases hspan
  rcases commentRunEnd_spec hchild with ⟨hle, hlt⟩
  refine ⟨hle, hlt, by simp, ?_⟩
  dsimp only
  omega

theorem call_sound : call.Sound := by
  intro tree list idx id span next hchild hspan
  rcases call_span hspan with ⟨parens, node, hnext, _, rfl, rfl⟩
  rcases Tree.next_some hnext with ⟨hlt, hnode, _⟩
  have hinside := Tree.child?_lt hnode
  refine ⟨by dsimp only; omega, hinside, by simp, ?_⟩
  dsimp only
  omega

theorem whereStop?_spec {tree : Tree} {closing : TokenPattern} {ids : List NodeId}
    {cases start stop : Nat} (h : Pass.whereStop? tree closing cases start ids = some stop) :
    start <= stop ∧ stop < start + ids.length := by
  induction ids generalizing cases start with
  | nil =>
      cases h
  | cons id rest ih =>
      have hstep : forall {cases : Nat},
          Pass.whereStop? tree closing cases (start + 1) rest = some stop ->
          start <= stop ∧ stop < start + (rest.length + 1) := by
        intro cases hrest
        have := ih hrest
        omega
      unfold Pass.whereStop? at h
      rw [List.length_cons]
      split at h
      · exact hstep h
      · split at h
        · split at h
          · cases h
            omega
          · exact hstep h
        · split at h
          · cases h
            omega
          · exact hstep h

theorem whereLimit_spec {tree : Tree} {list : NodeId} {start : Nat} {id : NodeId}
    (hstart : tree.child? list start = some id) :
    start <= Pass.whereLimit tree list start ∧
      Pass.whereLimit tree list start < tree.childCount list := by
  have hlt := Tree.child?_lt hstart
  unfold Pass.whereLimit
  dsimp only
  cases tree.child? list (tree.childCount list - 1) with
  | none =>
      rw [Bool.and_false, if_neg Bool.false_ne_true]
      omega
  | some last =>
      dsimp only
      split
      · rename_i hcond
        simp only [Bool.and_eq_true, decide_eq_true_eq] at hcond
        omega
      · omega

theorem whereEnd_spec {tree : Tree} (closing : TokenPattern) {list : NodeId} {start : Nat}
    {id : NodeId} (hstart : tree.child? list start = some id) :
    start <= Pass.whereEnd tree closing list start ∧
      Pass.whereEnd tree closing list start < tree.childCount list := by
  rcases whereLimit_spec hstart with ⟨hle, hlt⟩
  unfold Pass.whereEnd
  dsimp only
  split
  · rename_i stop hstop
    have hspec := whereStop?_spec hstop
    rw [List.length_drop, List.length_take] at hspec
    unfold Tree.childCount at hlt ⊢
    omega
  · exact ⟨hle, hlt⟩

theorem whereWord_sound : whereWord.Sound := by
  intro tree list idx id span next hchild hspan
  cases hspan
  rcases whereEnd_spec whereClosing hchild with ⟨hle, hlt⟩
  refine ⟨hle, hlt, by simp, ?_⟩
  dsimp only
  omega

theorem name_sound : name.Sound := by
  intro tree list idx id span next hchild hspan
  have hinside := Tree.child?_lt hchild
  rcases name_span hspan with ⟨_, rfl, rfl⟩
  refine ⟨Nat.le_refl _, hinside, by simp, ?_⟩
  dsimp only
  omega

theorem typedLiteralEnd?_spec {tree : Tree} {list : NodeId} {idx stop : Nat} {id : NodeId}
    (h : Pass.typedLiteralEnd? tree list idx id = some stop) :
    idx < stop ∧ stop < tree.childCount list := by
  unfold Pass.typedLiteralEnd? at h
  split at h
  · split at h
    · cases h
    · rename_i literal string hliteral
      rcases Tree.next_some hliteral with ⟨hlt, hchild, _⟩
      have hinside := Tree.child?_lt hchild
      split at h
      · cases h
      · split at h
        · split at h
          · rename_i unit word hunit
            rcases Tree.next_some hunit with ⟨hltUnit, hchildUnit, _⟩
            have hinsideUnit := Tree.child?_lt hchildUnit
            split at h
            · cases h
              omega
            · cases h
              omega
          · cases h
            omega
        · cases h
          omega
  · cases h

theorem typeWord_sound : typeWord.Sound := by
  intro tree list idx id span next hchild hspan
  rcases Option.map_eq_some_iff.mp hspan with ⟨stop, hstop, hpair⟩
  cases hpair
  rcases typedLiteralEnd?_spec hstop with ⟨hlt, hinside⟩
  refine ⟨Nat.le_of_lt hlt, hinside, by simp, ?_⟩
  dsimp only
  omega

theorem ordering_sound : ordering.Sound := by
  intro tree list idx id span next hchild hspan
  have hinside := Tree.child?_lt hchild
  rcases ordering_span hspan with ⟨prev, node, hprev, _, rfl, rfl⟩
  rcases Tree.prev_some hprev with ⟨hlt, _, _⟩
  refine ⟨Nat.le_of_lt hlt, hinside, fun _ => hlt, ?_⟩
  dsimp only
  omega

theorem aliased_sound : aliased.Sound := by
  intro tree list idx id span next hchild hspan
  rcases aliased_span hspan with ⟨name, node, hnext, _, rfl, rfl⟩
  rcases Tree.next_some hnext with ⟨hlt, hnode, _⟩
  have hinside := Tree.child?_lt hnode
  refine ⟨Nat.le_of_lt hlt, hinside, fun _ => hlt, ?_⟩
  dsimp only
  omega

theorem trailingComment_span {tree : Tree} {list : NodeId} {idx next : Nat} {id : NodeId}
    {span : Span} (h : trailingComment.span? tree list idx id = some (span, next)) :
    exists prev other kind, tree.prev list idx true = some (prev, other) ∧
      Pass.commentHost? tree other = some kind ∧ span = ⟨kind, prev, idx, true⟩ ∧
      next = prev + 1 := by
  unfold trailingComment at h
  dsimp only at h
  split at h
  · cases h
  · split at h
    · rename_i prev other hprev
      rcases Option.map_eq_some_iff.mp h with ⟨kind, hhost, heq⟩
      cases heq
      exact ⟨prev, other, kind, hprev, hhost, rfl, rfl⟩
    · cases h

theorem trailingComment_sound : trailingComment.Sound := by
  intro tree list idx id span next hchild hspan
  have hinside := Tree.child?_lt hchild
  rcases trailingComment_span hspan with ⟨prev, node, kind, hprev, _, rfl, rfl⟩
  rcases Tree.prev_some hprev with ⟨hlt, _, _⟩
  refine ⟨Nat.le_of_lt hlt, hinside, fun _ => hlt, ?_⟩
  dsimp only
  omega

end Seeker
end SqlLayout
