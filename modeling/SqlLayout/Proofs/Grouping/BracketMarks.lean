import SqlLayout.Proofs.Grouping.BracketEnds
import SqlLayout.Proofs.Grouping.Merging

/-!
# Only marks take brackets

An operator is grouped with its neighbours.  Those of most operators have to be
operands, while the marks of casts, aliases and assignments take a bracket as well.
-/

namespace SqlLayout

/-!
# Constructs around an operator
-/

def Tree.BlanksSince (tree : Tree) (list : NodeId) (cursor : Cursor) : Prop :=
  forall prev, cursor.prev = some prev -> forall idx id, prev < idx -> idx < cursor.idx ->
    tree.child? list idx = some id -> tree.isWhitespace id = true

namespace BinaryRule

/-- A rule whose operands are no brackets, but for operators that take any. -/
structure Spares (rule : BinaryRule) : Prop where
  kind : forall opening closing, ¬ rule.kind.Delimits opening closing
  first : forall tree op id, rule.isOp tree op = true -> rule.acceptsPrev tree id = true ->
    tree.isBracket id = false ∨ tree.tokenHas op Token.takesAny = true
  last : forall tree list prev idx op start stop id, tree.child? list idx = some op ->
    rule.isOp tree op = true ->
    rule.acceptsNext tree ((tree.next list idx true).map Prod.snd) = true ->
    rule.span tree list ⟨prev, idx, (tree.next list idx true).map Prod.fst⟩ = (start, stop) ->
    tree.child? list stop = some id ->
    tree.isBracket id = false ∨
      (tree.tokenHas op Token.takesAny = true ∧ tree.next list idx true = some (stop, id))

variable {rule : BinaryRule} {tree : Tree} {list : NodeId} {cursor : Cursor}

/-- The operator stands behind the opening bracket that it takes, and before the closing
one. -/
theorem Spares.span (h : rule.Spares) (hsound : rule.Sound) (hcursor : cursor.Ordered)
    (hblanks : tree.BlanksSince list cursor) {op : NodeId} {start stop : Nat}
    (hop : tree.child? list cursor.idx = some op) (hisOp : rule.isOp tree op = true)
    (hspan : rule.span? tree list cursor.prev cursor.idx = some (start, stop)) :
    Span.Spares ⟨rule.kind, start, stop, rule.extend⟩ tree list := by
  rcases span?_accepts hspan with ⟨prev, left, hprev, hleft, hacceptsPrev, hacceptsNext, hspan⟩
  have hlt := hcursor.prev_lt prev hprev
  have hinside := Tree.child?_lt hop
  rcases hsound tree list prev cursor.idx start stop hlt hinside hspan with ⟨rfl, _, _⟩
  refine ⟨fun _ => h.kind, ?_, ?_, ?_⟩
  · intro opening closing hdelimits
    exact absurd hdelimits (h.kind opening closing)
  · intro host opening closing id _ hdelimits hzero hid hhits
    cases hleft.symm.trans hid
    rcases h.first tree op left hisOp hacceptsPrev with hplain | hmark
    · rw [Tree.isBracket_of_hits hdelimits (Or.inl hhits)] at hplain
      cases hplain
    · rcases exists_items_between hleft hop hlt with ⟨middle, heq, hmiddle⟩
      dsimp only at hzero
      rw [hzero, List.take_zero, List.nil_append] at heq
      refine ⟨left, middle, op, _, heq, ?_, hmark⟩
      intro other hother
      rcases hmiddle other hother with ⟨k, hprevLt, hkLt, hchild⟩
      exact hblanks start hprev k other hprevLt hkLt hchild
  · intro host opening closing id _ hdelimits hcount hid hhits
    dsimp only at hcount hid
    rcases h.last tree list start cursor.idx op start stop id hop hisOp hacceptsNext hspan hid with
      hplain | ⟨hmark, hnext⟩
    · rw [Tree.isBracket_of_hits hdelimits (Or.inr hhits)] at hplain
      cases hplain
    · rcases exists_items_between hop hid (Tree.next_some hnext).1 with ⟨middle, heq, hmiddle⟩
      rw [hcount, Tree.childCount, List.drop_length] at heq
      refine ⟨_, op, middle, id, heq, ?_, hmark⟩
      intro other hother
      rcases hmiddle other hother with ⟨k, hop, hk, hchild⟩
      have hskipped := Tree.next_between hnext hop hk hchild
      unfold Tree.isSkipped at hskipped
      rw [Bool.true_and, Bool.false_and, Bool.or_false] at hskipped
      exact hskipped

end BinaryRule

/-- The last child that counts is there and no blank, and only blanks follow it. -/
structure Tree.SolidSince (tree : Tree) (list : NodeId) (cursor : Cursor) : Prop where
  solid : forall prev, cursor.prev = some prev ->
    exists id, tree.child? list prev = some id ∧ tree.isWhitespace id = false
  blanks : tree.BlanksSince list cursor

theorem Move.Groups.isGroup_start {tree after : Tree} {list : NodeId} {cursor : Cursor}
    {move : Move} {span : Span} (hwf : tree.WellFormed) (hfits : move.Fits tree list cursor)
    (h : move.Groups list tree after) (hspan : move.span = some span) :
    exists group, after.child? list span.start = some group ∧ after.isGroup group = true := by
  have htag := Move.retagged_tagged hfits
  rcases h.cases hwf hfits with ⟨other, front, moved, back, hother, _, hstart, _, hgrouped⟩
  cases hspan.symm.trans hother
  have hplace : forall group, after.children list = front ++ group :: back ->
      after.child? list span.start = some group := by
    intro group hafter
    unfold Tree.child?
    rw [hafter, ← hstart, List.getElem?_append_right (Nat.le_refl _), Nat.sub_self,
      List.getElem?_cons_zero]
  rcases hgrouped with ⟨hwrapped, _⟩ | ⟨group, rest, _, _, hkind, habsorbed⟩
  · exact ⟨_, hplace _ hwrapped.children_after_list,
      Tree.isGroup_iff_kind?.mpr ⟨_, Tree.kind?_of_content? hwrapped.content?_new⟩⟩
  · exact ⟨group, hplace group habsorbed.children_after_list, Tree.isGroup_iff_kind?.mpr
      ⟨_, Tree.kind?_of_content? (habsorbed.content?_group _ hkind)⟩⟩

theorem Move.Groups.solidSince {tree after : Tree} {list : NodeId} {cursor : Cursor} {move : Move}
    {span : Span} (hwf : tree.WellFormed) (hfits : move.Fits tree list cursor)
    (h : move.Groups list tree after) (hspan : move.span = some span)
    (hcursor : move.cursor = { idx := span.start + 1, prev := some span.start }) :
    after.SolidSince list move.cursor := by
  rw [hcursor]
  refine ⟨?_, ?_⟩
  · intro prev hprev
    cases hprev
    rcases h.isGroup_start hwf hfits hspan with ⟨group, hplace, hisGroup⟩
    exact ⟨group, hplace, Tree.tokenHas_of_isGroup hisGroup _⟩
  · intro prev hprev idx other hlt hle _
    cases hprev
    exact absurd (Nat.le_of_lt_succ hle) (Nat.not_le_of_lt hlt)

/-- A property that the spans of a rule keep in lists of suitable kinds, if it is known what
stands before the operator. -/
theorem Pass.keeps_of_rule_in {rule : BinaryRule} (hpass : (Pass.binary rule).Sound)
    {holds : Tree -> Prop} {suits : GroupKind -> Prop}
    (hsuits : forall kind, kind ≠ rule.kind -> suits kind)
    (h : forall (tree after : Tree) (list : NodeId) (host : GroupKind) (cursor : Cursor)
      (move : Move) (op : NodeId) (start stop : Nat), tree.WellFormed -> cursor.Ordered ->
      holds tree -> tree.kind? list = some host -> suits host ->
      tree.SolidSince list cursor -> tree.child? list cursor.idx = some op ->
      rule.isOp tree op = true ->
      rule.span? tree list cursor.prev cursor.idx = some (start, stop) ->
      move.Fits tree list cursor -> move.span = some ⟨rule.kind, start, stop, rule.extend⟩ ->
      move.Groups list tree after -> holds after) :
    (Pass.binary rule).Keeps holds suits Tree.SolidSince where
  enters := by
    intro tree id kind henters hkind
    apply hsuits
    rintro rfl
    change (!tree.isKind id rule.kind) = true at henters
    rw [Tree.isKind, hkind, beq_self_eq_true] at henters
    cases henters
  start := fun _ _ => ⟨nofun, nofun⟩
  skip := by
    intro tree list cursor move hknown hmove _ hspan
    change rule.plan tree list cursor = some move at hmove
    rcases BinaryRule.does_of_plan hmove with ⟨id, hchild, hdoes⟩
    cases hdoes with
    | blank hblank =>
        refine ⟨hknown.solid, ?_⟩
        intro prev hprev idx other hlt hle hother
        rcases Nat.lt_or_eq_of_le (Nat.le_of_lt_succ hle) with hbefore | rfl
        · exact hknown.blanks prev hprev idx other hlt hbefore hother
        · cases hchild.symm.trans hother
          exact hblank
    | group _ _ _ =>
        cases hspan
    | past hsolid _ =>
        refine ⟨?_, ?_⟩
        · intro prev hprev
          cases hprev
          exact ⟨id, hchild, hsolid⟩
        · intro prev hprev idx other hlt hle _
          cases hprev
          exact absurd (Nat.le_of_lt_succ hle) (Nat.not_le_of_lt hlt)
  visit := by
    intro tree list cursor move id _ hmove hvisit
    rw [stays_binary rule tree list cursor move hmove] at hvisit
    cases hvisit
  span := by
    intro tree after list host cursor move span hwf hcursor hholds hhost hsuit hknown hmove hspan
      hgroups
    have hfits := hpass tree list cursor move hcursor hmove
    change rule.plan tree list cursor = some move at hmove
    rcases BinaryRule.does_of_plan hmove with ⟨id, hchild, hdoes⟩
    cases hdoes with
    | blank _ =>
        cases hspan
    | @group start stop _ hop hoperands =>
        cases hspan
        exact ⟨h tree after list host cursor _ id start stop hwf hcursor hholds hhost hsuit hknown
          hchild hop hoperands hfits rfl hgroups, hgroups.solidSince hwf hfits rfl rfl⟩
    | past _ _ =>
        cases hspan

theorem Pass.keeps_of_rule {rule : BinaryRule} (hpass : (Pass.binary rule).Sound)
    {holds : Tree -> Prop}
    (h : forall (tree after : Tree) (list : NodeId) (cursor : Cursor) (move : Move) (op : NodeId)
      (start stop : Nat), tree.WellFormed -> cursor.Ordered -> holds tree ->
      tree.SolidSince list cursor -> tree.child? list cursor.idx = some op ->
      rule.isOp tree op = true ->
      rule.span? tree list cursor.prev cursor.idx = some (start, stop) ->
      move.Fits tree list cursor -> move.span = some ⟨rule.kind, start, stop, rule.extend⟩ ->
      move.Groups list tree after -> holds after) :
    (Pass.binary rule).Keeps holds (fun _ => True) Tree.SolidSince :=
  keeps_of_rule_in hpass (fun _ _ => trivial)
    fun tree after list _ cursor move op start stop hwf hcursor hholds _ _ =>
      h tree after list cursor move op start stop hwf hcursor hholds

theorem Pass.keeps_binary {rule : BinaryRule} (hsound : rule.Sound)
    (hpass : (Pass.binary rule).Sound) (h : rule.Spares) :
    (Pass.binary rule).Keeps Tree.BracketsKept (fun _ => True) Tree.SolidSince := by
  apply keeps_of_rule hpass
  intro tree after list cursor move op start stop hwf hcursor hkept hknown hchild hop hoperands
    hfits hspan hgroups
  exact hgroups.bracketsKept hwf hfits hspan
    (h.span hsound hcursor hknown.blanks hchild hop hoperands) hkept

namespace BinaryRule

theorem last_of_some? {rule : BinaryRule} {p : Tree -> NodeId -> Bool}
    (hspan : rule.span = fromPrevToNext) (haccepts : rule.acceptsNext = some? p) {tree : Tree}
    {list : NodeId} {prev idx start stop : Nat} {id : NodeId}
    (hnext : rule.acceptsNext tree ((tree.next list idx true).map Prod.snd) = true)
    (heq : rule.span tree list ⟨prev, idx, (tree.next list idx true).map Prod.fst⟩ = (start, stop))
    (hid : tree.child? list stop = some id) :
    p tree id = true ∧ tree.next list idx true = some (stop, id) := by
  rw [haccepts] at hnext
  rw [hspan] at heq
  rcases hfound : tree.next list idx true with _ | ⟨next, other⟩
  · rw [hfound] at hnext
    cases hnext
  · rw [hfound] at hnext heq
    cases heq
    cases (Tree.next_some hfound).2.1.symm.trans hid
    exact ⟨hnext, rfl⟩

theorem spares_of_operands {rule : BinaryRule} {p : Tree -> NodeId -> Bool}
    (hkind : forall opening closing, ¬ rule.kind.Delimits opening closing)
    (hspan : rule.span = fromPrevToNext) (hprev : rule.acceptsPrev = p)
    (hnext : rule.acceptsNext = some? p)
    (hp : forall tree id, p tree id = true -> tree.isBracket id = false) : rule.Spares where
  kind := hkind
  first := by
    intro tree op id _ haccepts
    rw [hprev] at haccepts
    exact Or.inl (hp tree id haccepts)
  last := by
    intro tree list prev idx op start stop id _ _ haccepts heq hid
    exact Or.inl (hp tree id (last_of_some? hspan hnext haccepts heq hid).1)

theorem not_isBracket_of_operand {tree : Tree} {id : NodeId} {categories : List Category}
    {kinds : List GroupKind} {words : List Text}
    (h : (tree.isAIn id categories || tree.isKindIn id kinds || tree.isKeywordIn id words) = true)
    (hcategories : categories.any Category.punctuation.isA = false) :
    tree.isBracket id = false := by
  rcases Bool.or_eq_true_iff.mp h with h | hword
  · rcases Bool.or_eq_true_iff.mp h with hcategory | hkind
    · exact Tree.not_isBracket_of_isAIn hcategory hcategories
    · exact Tree.not_isBracket_of_isKindIn hkind
  · exact Tree.not_isBracket_of_hits hword nofun

theorem not_isBracket_of_qualifier {tree : Tree} {id : NodeId} {categories : List Category}
    {kinds : List GroupKind}
    (h : (tree.isKindIn id kinds || tree.isAIn id categories) = true)
    (hcategories : categories.any Category.punctuation.isA = false) :
    tree.isBracket id = false := by
  rcases Bool.or_eq_true_iff.mp h with hkind | hcategory
  · exact Tree.not_isBracket_of_isKindIn hkind
  · exact Tree.not_isBracket_of_isAIn hcategory hcategories

theorem not_isBracket_of_listItem {tree : Tree} {id : NodeId} (h : isListItem tree id = true) :
    tree.isBracket id = false := by
  unfold isListItem at h
  rcases Bool.or_eq_true_iff.mp h with h | hcategory
  · rcases Bool.or_eq_true_iff.mp h with hkind | hword
    · exact Tree.not_isBracket_of_isKindIn hkind
    · exact Tree.not_isBracket_of_isCategory hword nofun
  · exact Tree.not_isBracket_of_isAIn hcategory rfl

theorem operator_spares : operator.Spares :=
  spares_of_operands (GroupKind.not_delimits nofun nofun) rfl rfl rfl
    fun _ _ h => not_isBracket_of_operand h rfl

theorem comparison_spares : comparison.Spares :=
  spares_of_operands (GroupKind.not_delimits nofun nofun) rfl rfl rfl
    fun _ _ h => not_isBracket_of_operand h rfl

theorem identifierList_spares : identifierList.Spares :=
  spares_of_operands (GroupKind.not_delimits nofun nofun) rfl rfl rfl
    fun _ _ => not_isBracket_of_listItem

theorem period_spares : period.Spares where
  kind := GroupKind.not_delimits nofun nofun
  first := fun _ _ _ _ haccepts => Or.inl (not_isBracket_of_qualifier haccepts rfl)
  last := by
    intro tree list prev idx op start stop id hop hisOp _ hspan hid
    left
    have hplain : stop = idx -> tree.isBracket id = false := by
      rintro rfl
      cases hop.symm.trans hid
      exact Tree.not_isBracket_of_mark hisOp (by decide)
    unfold period at hspan
    dsimp only at hspan
    rcases hnext : tree.next list idx true with _ | ⟨next, other⟩
    · rw [hnext] at hspan
      cases hspan
      exact hplain rfl
    · rw [hnext] at hspan
      dsimp only [Option.map_some] at hspan
      rw [(Tree.next_some hnext).2.1] at hspan
      dsimp only at hspan
      split at hspan
      · rename_i hqualified
        cases hspan
        cases (Tree.next_some hnext).2.1.symm.trans hid
        exact not_isBracket_of_qualifier hqualified rfl
      · cases hspan
        exact hplain rfl

theorem subscript_spares : subscript.Spares where
  kind := GroupKind.not_delimits nofun nofun
  first := fun _ _ _ _ haccepts => Or.inl (not_isBracket_of_qualifier haccepts rfl)
  last := by
    intro tree list prev idx op start stop id hop hisOp _ hspan hid
    left
    cases hspan
    cases hop.symm.trans hid
    exact Tree.not_isBracket_of_isKind hisOp

theorem takesAny_of_isOp {tree : Tree} {op : NodeId}
    (h : typecast.isOp tree op = true ∨ aliasWithAs.isOp tree op = true ∨
      assignment.isOp tree op = true) : tree.tokenHas op Token.takesAny = true := by
  rcases h with h | h | h
  · rcases Tree.tokenHas_iff.mp h with ⟨token, htoken, hhits⟩
    refine Tree.tokenHas_iff.mpr ⟨token, htoken, ?_⟩
    unfold Token.takesAny Token.isPunctuationIn
    rw [hhits]
    rfl
  · rcases Bool.and_eq_true_iff.mp h with ⟨hkeyword, hword⟩
    rcases Tree.tokenHas_iff.mp hkeyword with ⟨token, htoken, hhas⟩
    refine Tree.tokenHas_iff.mpr ⟨token, htoken, ?_⟩
    unfold Tree.normalized at hword
    rw [htoken] at hword
    unfold Token.takesAny
    rw [hhas, hword, Bool.true_and, Bool.or_true, Bool.true_or]
  · rcases Tree.tokenHas_iff.mp h with ⟨token, htoken, hhits⟩
    refine Tree.tokenHas_iff.mpr ⟨token, htoken, ?_⟩
    unfold Token.takesAny
    rw [hhits, Bool.or_true]

theorem typecast_spares : typecast.Spares where
  kind := GroupKind.not_delimits nofun nofun
  first := fun _ _ _ hisOp _ => Or.inr (takesAny_of_isOp (Or.inl hisOp))
  last := by
    intro tree list prev idx op start stop id hop hisOp haccepts hspan hid
    have hmark := takesAny_of_isOp (Or.inl hisOp)
    unfold typecast at haccepts hspan
    dsimp only at haccepts hspan
    rcases hnext : tree.next list idx true with _ | ⟨next, other⟩
    · rw [hnext] at haccepts
      cases haccepts
    · have hplain : stop = next ->
          tree.tokenHas op Token.takesAny = true ∧ some (next, other) = some (stop, id) := by
        rintro rfl
        cases (Tree.next_some hnext).2.1.symm.trans hid
        exact ⟨hmark, rfl⟩
      rw [hnext] at hspan
      dsimp only [Option.map_some] at hspan
      split at hspan
      · rename_i order word horder
        split at hspan
        · rename_i hcategory
          cases hspan
          cases (Tree.next_some horder).2.1.symm.trans hid
          exact Or.inl (Tree.not_isBracket_of_isCategory hcategory nofun)
        · cases hspan
          exact Or.inr (hplain rfl)
      · cases hspan
        exact Or.inr (hplain rfl)

theorem aliasWithAs_spares : aliasWithAs.Spares where
  kind := GroupKind.not_delimits nofun nofun
  first := fun _ _ _ hisOp _ => Or.inr (takesAny_of_isOp (Or.inr (Or.inl hisOp)))
  last := by
    intro tree list prev idx op start stop id _ hisOp haccepts hspan hid
    exact Or.inr ⟨takesAny_of_isOp (Or.inr (Or.inl hisOp)),
      (last_of_some? rfl rfl haccepts hspan hid).2⟩

theorem assignment_spares : assignment.Spares where
  kind := GroupKind.not_delimits nofun nofun
  first := fun _ _ _ hisOp _ => Or.inr (takesAny_of_isOp (Or.inr (Or.inr hisOp)))
  last := by
    intro tree list prev idx op start stop id _ hisOp haccepts hspan hid
    have hmark := takesAny_of_isOp (Or.inr (Or.inr hisOp))
    unfold assignment at haccepts hspan
    dsimp only at haccepts hspan
    split at hspan
    · rename_i semicolon other hfound
      cases hspan
      rcases Tree.nextBy_some hfound with ⟨_, hchild, hpunctuation, _⟩
      cases hchild.symm.trans hid
      exact Or.inl (Tree.not_isBracket_of_mark hpunctuation (by decide))
    · rcases hnext : tree.next list idx true with _ | ⟨next, other⟩
      · rw [hnext] at haccepts
        cases haccepts
      · rw [hnext] at hspan
        cases hspan
        cases (Tree.next_some hnext).2.1.symm.trans hid
        exact Or.inr ⟨hmark, rfl⟩

end BinaryRule

end SqlLayout
