import SqlLayout.Proofs.Grouping.LeadingKeyword
import SqlLayout.Proofs.Grouping.WhereBounds

/-!
# The sides of comparisons

The pass for comparisons groups an operator with the operands before and behind it.  Of the
later passes only the one for trailing comments changes such a group: it puts comments
behind the right operand, or takes some that stand there into the child before them.
-/

namespace SqlLayout

open Grouping

/-!
# Groups of comparisons
-/

namespace Tree

variable {tree after : Tree} {list id : NodeId} {place next : Nat}

/-- An operator at a place, operands at the beginning and at a later place, only blanks
between them, and blanks and comments behind, the last of which is a comment. -/
structure Compares (tree : Tree) (id : NodeId) (place next : Nat) : Prop where
  op : exists op, tree.child? id place = some op ∧ tree.isCategory op .comparison = true
  left : exists left, tree.child? id 0 = some left ∧
    BinaryRule.isComparisonOperand tree left = true
  right : exists right, tree.child? id next = some right ∧
    BinaryRule.isComparisonOperand tree right = true
  place_pos : 0 < place
  place_lt : place < next
  blanks : forall idx other, 0 < idx -> idx < next -> idx ≠ place ->
    tree.child? id idx = some other -> tree.isWhitespace other = true
  behind : forall idx other, next < idx -> tree.child? id idx = some other ->
    tree.isCode other = false
  last : forall other, (tree.children id).getLast? = some other -> tree.isWhitespace other = false

def ComparisonsKept (tree : Tree) : Prop :=
  forall id, tree.isKind id .comparison = true -> exists place next, tree.Compares id place next

theorem isCode_of_isComparisonOperand (h : BinaryRule.isComparisonOperand tree id = true) :
    tree.isCode id = true := by
  rcases Bool.or_eq_true_iff.mp h with h | hnull
  · rcases Bool.or_eq_true_iff.mp h with hcategory | hkind
    · exact isCode_of_test (p := fun c => BinaryRule.operandCategories.any c.isA) hcategory rfl
    · exact isCode_of_isKindIn hkind rfl
  · exact isCode_of_hits hnull rfl

theorem isComment_of_not_isCode (hcode : tree.isCode id = false)
    (hsolid : tree.isWhitespace id = false) : tree.isComment id = true := by
  have hskipped := isSkipped_eq_not_isCode tree id
  unfold isSkipped at hskipped
  rw [hsolid, hcode] at hskipped
  exact hskipped

theorem not_isComment_of_isCode (hcode : tree.isCode id = true) : tree.isComment id = false := by
  have hskipped := isSkipped_eq_not_isCode tree id
  unfold isSkipped at hskipped
  rw [hcode, Bool.true_and, Bool.true_and, Bool.not_true, Bool.or_eq_false_iff] at hskipped
  exact hskipped.2

theorem not_isComment_of_isWhitespace (h : tree.isWhitespace id = true) :
    tree.isComment id = false := by
  rcases tokenHas_iff.mp h with ⟨token, htoken, hblank⟩
  unfold isComment tokenHas
  rw [isKind_of_token? htoken, htoken]
  dsimp only
  unfold Token.isWhitespace at hblank
  unfold Token.isComment
  revert hblank
  cases token.category <;> decide

section

variable (hsteps : Relation.ReflTransGen GroupStep tree after)
include hsteps

theorem isComparisonOperand_of_steps (hid : id < tree.size) :
    BinaryRule.isComparisonOperand after id = BinaryRule.isComparisonOperand tree id := by
  have hkept := tokensKept_of_steps hsteps
  have hcategory : after.isAIn id BinaryRule.operandCategories =
      tree.isAIn id BinaryRule.operandCategories :=
    hkept.tokenHas_eq (fun _ _ hkept =>
      hkept.test_eq (p := fun c => BinaryRule.operandCategories.any c.isA) rfl) id
  unfold BinaryRule.isComparisonOperand
  rw [hcategory, isKindIn_congr (kind?_of_steps hsteps hid)]
  congr 1
  change after.hits id ⟨.keyword, [Text.of "NULL"]⟩ = tree.hits id ⟨.keyword, [Text.of "NULL"]⟩
  exact hkept.hits_eq ⟨by decide, by decide⟩ id

theorem isCategory_comparison_of_steps (id : NodeId) :
    after.isCategory id .comparison = tree.isCategory id .comparison := by
  rw [isCategory_eq_tokenHas, isCategory_eq_tokenHas]
  exact (tokensKept_of_steps hsteps).tokenHas_eq
    (fun _ _ hkept => hkept.test_eq (p := fun c => c == .comparison) rfl) id

theorem Compares.of_front (h : tree.Compares id place next) (hwf : tree.WellFormed)
    (hfront : forall idx, idx <= next -> after.child? id idx = tree.child? id idx)
    (hbehind : forall idx other, next < idx -> after.child? id idx = some other ->
      after.isCode other = false)
    (hlast : forall other, (after.children id).getLast? = some other ->
      after.isWhitespace other = false) : after.Compares id place next where
  op := by
    rcases h.op with ⟨op, hop, hcategory⟩
    refine ⟨op, (hfront place (Nat.le_of_lt h.place_lt)).trans hop, ?_⟩
    rw [isCategory_comparison_of_steps hsteps]
    exact hcategory
  left := by
    rcases h.left with ⟨left, hleft, hoperand⟩
    refine ⟨left, (hfront 0 (Nat.zero_le next)).trans hleft, ?_⟩
    rw [isComparisonOperand_of_steps hsteps (hwf.child_lt_size (List.mem_of_getElem? hleft))]
    exact hoperand
  right := by
    rcases h.right with ⟨right, hright, hoperand⟩
    refine ⟨right, (hfront next (Nat.le_refl next)).trans hright, ?_⟩
    rw [isComparisonOperand_of_steps hsteps (hwf.child_lt_size (List.mem_of_getElem? hright))]
    exact hoperand
  place_pos := h.place_pos
  place_lt := h.place_lt
  blanks := by
    intro idx other hpos hlt hne hother
    rw [hfront idx (Nat.le_of_lt hlt)] at hother
    rw [(tokensKept_of_steps hsteps).isWhitespace_eq]
    exact h.blanks idx other hpos hlt hne hother
  behind := hbehind
  last := hlast

theorem Compares.of_children (h : tree.Compares id place next) (hwf : tree.WellFormed)
    (hchildren : after.children id = tree.children id) : after.Compares id place next := by
  have hsame : forall idx, after.child? id idx = tree.child? id idx := by
    intro idx
    unfold child?
    rw [hchildren]
  apply h.of_front hsteps hwf (fun idx _ => hsame idx)
  · intro idx other hlt hother
    rw [hsame] at hother
    rw [isCode_of_steps hsteps (hwf.child_lt_size (List.mem_of_getElem? hother))]
    exact h.behind idx other hlt hother
  · intro other hother
    rw [hchildren] at hother
    rw [(tokensKept_of_steps hsteps).isWhitespace_eq]
    exact h.last other hother

end

namespace Compares

variable (h : tree.Compares id place next)
include h

theorem cases {idx : Nat} {other : NodeId} (hother : tree.child? id idx = some other) :
    BinaryRule.isComparisonOperand tree other = true ∨
      tree.isCategory other .comparison = true ∨
      (tree.isCode other = false ∧ (tree.isWhitespace other = true ∨ next < idx)) := by
  rcases Nat.lt_trichotomy idx next with hlt | rfl | hgt
  · rcases Nat.eq_zero_or_pos idx with rfl | hpos
    · rcases h.left with ⟨left, hleft, hoperand⟩
      cases hleft.symm.trans hother
      exact Or.inl hoperand
    · by_cases hplace : idx = place
      · subst hplace
        rcases h.op with ⟨op, hop, hcategory⟩
        cases hop.symm.trans hother
        exact Or.inr (Or.inl hcategory)
      · have hblank := h.blanks idx other hpos hlt hplace hother
        refine Or.inr (Or.inr ⟨?_, Or.inl hblank⟩)
        apply not_isCode_of_isTrivia
        apply tokenHas_isTrivia_of_run
        rw [hblank, Bool.or_true]
  · rcases h.right with ⟨right, hright, hoperand⟩
    cases hright.symm.trans hother
    exact Or.inl hoperand
  · exact Or.inr (Or.inr ⟨h.behind idx other hgt hother, Or.inr hgt⟩)

theorem not_hits {pattern : TokenPattern}
    (hcategory : pattern.category = .punctuation ∨ pattern.category = .keyword)
    (hvalues : pattern.values.isEmpty = false)
    (hnull : forall v, v ∈ pattern.values ->
      Text.asciiLower v ≠ Text.asciiLower (Text.of "NULL")) {idx : Nat}
    {other : NodeId} (hother : tree.child? id idx = some other) :
    tree.hits other pattern = false := by
  apply Bool.eq_false_iff.mpr
  intro hhits
  have hcode : tree.isCode other = true := by
    apply isCode_of_hits hhits
    rcases hcategory with heq | heq
    · rw [heq]
      rfl
    · rw [heq]
      rfl
  rcases tokenHas_iff.mp hhits with ⟨token, htoken, hreads⟩
  have hnamed : token.category = .punctuation ∨ token.category = .keyword := by
    rw [Token.category_of_hits hreads]
    exact hcategory
  rcases h.cases hother with hoperand | hop | ⟨hnot, _⟩
  · rcases Bool.or_eq_true_iff.mp hoperand with hoperand | hword
    · rcases Bool.or_eq_true_iff.mp hoperand with hnamedOperand | hkind
      · unfold isAIn tokenHas at hnamedOperand
        rw [htoken] at hnamedOperand
        dsimp only at hnamedOperand
        rcases hnamed with heq | heq
        · rw [heq] at hnamedOperand
          cases hnamedOperand
        · rw [heq] at hnamedOperand
          cases hnamedOperand
      · unfold isKindIn at hkind
        split at hkind
        · rename_i kind hsome
          rw [token?_eq_none_of_isGroup (isGroup_iff_kind?.mpr ⟨kind, hsome⟩)] at htoken
          cases htoken
        · cases hkind
    · have hnot : tree.hits other ⟨.keyword, [Text.of "NULL"]⟩ = false := by
        apply not_hits_both hvalues rfl _ hhits
        intro v hv w hw
        rw [List.mem_singleton.mp hw]
        exact hnull v hv
      rw [Tree.isKeywordIn, hnot] at hword
      cases hword
  · unfold isCategory category? at hop
    rw [htoken, Option.map_some, beq_iff_eq, Option.some.injEq] at hop
    rw [hop] at hnamed
    rcases hnamed with heq | heq
    · cases heq
    · cases heq
  · rw [hnot] at hcode
    cases hcode

theorem next_lt : next < tree.childCount id := by
  rcases h.right with ⟨right, hright, _⟩
  exact child?_lt hright

theorem exists_right : exists right, tree.right? id = some right ∧
    tree.isWhitespace right = false ∧
    (tree.isComment right = true <->
      exists child, child ∈ tree.children id ∧ tree.isComment child = true) := by
  have hnext := h.next_lt
  rcases hright : tree.child? id (tree.childCount id - 1) with _ | right
  · have hle := List.getElem?_eq_none_iff.mp hright
    unfold childCount at hle hnext
    omega
  · have hlast : (tree.children id).getLast? = some right := by
      rw [List.getLast?_eq_getElem?]
      exact hright
    have hsolid := h.last right hlast
    have hmem := List.mem_of_getElem? hright
    refine ⟨right, hlast, hsolid, fun hcomment => ⟨right, hmem, hcomment⟩, ?_⟩
    rintro ⟨child, hchild, hcomment⟩
    rcases List.mem_iff_getElem?.mp hchild with ⟨idx, hidx⟩
    -- A comment stands behind the right operand, so that this one is not the last child.
    have hbehind : next < idx := by
      rcases h.cases hidx with hoperand | hop | ⟨_, hblank | hlt⟩
      · rw [not_isComment_of_isCode (isCode_of_isComparisonOperand hoperand)] at hcomment
        cases hcomment
      · rw [not_isComment_of_isCode (isCode_of_isCategory hop (by decide))] at hcomment
        cases hcomment
      · rw [not_isComment_of_isWhitespace hblank] at hcomment
        cases hcomment
      · exact hlt
    have hlt := child?_lt hidx
    exact isComment_of_not_isCode (h.behind _ right (by omega) hright) hsolid

end Compares
end Tree

/-!
# One span
-/

namespace Move.Gathers

variable {tree after : Tree} {list : NodeId} {cursor : Cursor} {move : Move} {span : Span}
  {front moved back : List NodeId} {group : NodeId}
  (hg : move.Gathers list tree span front moved back group after)
  (hfits : move.Fits tree list cursor) (hwf : tree.WellFormed) (hstep : tree.GroupStep after)
include hg hfits hwf hstep

theorem compares_other {id : NodeId} {place next : Nat} (h : tree.Compares id place next)
    (hlist : id ≠ list) (hgroup : id ≠ group) : after.Compares id place next := by
  rcases h.op with ⟨op, hop, _⟩
  have hcontent := hg.content?_other id hlist hgroup
    (hfits.retag_ne (Tree.isGroup_of_mem_children (List.mem_of_getElem? hop)))
  exact h.of_children (.single hstep) hwf (Tree.observers_congr hcontent).2.2

theorem comparisonsKept (hkind : span.kind ≠ .comparison)
    (hlist : tree.isKind list .comparison = false) (h : tree.ComparisonsKept) :
    after.ComparisonsKept := by
  intro id hid
  have hgroup : id ≠ group := by
    rintro rfl
    rw [Tree.isKind, hg.kind?_group, beq_iff_eq, Option.some.injEq] at hid
    exact hkind hid
  have hne : id ≠ list := by
    rintro rfl
    rw [Tree.isKind, hg.kind?_list] at hid
    rw [Tree.isKind, hid] at hlist
    cases hlist
  have hcontent := hg.content?_other id hne hgroup
    (hfits.retag_ne_after hstep (Tree.isGroup_iff_kind?.mpr ⟨_, beq_iff_eq.mp hid⟩))
  rw [Tree.isKind, (Tree.observers_congr hcontent).1] at hid
  rcases h id hid with ⟨place, next, hcompares⟩
  exact ⟨place, next, hg.compares_other hfits hwf hstep hcompares hne hgroup⟩

omit hfits hwf hstep in
theorem child?_of_new (hextend : span.extend = false) {idx : Nat} (hidx : span.start <= idx)
    (hstop : idx <= span.stop) :
    after.child? group (idx - span.start) = tree.child? list idx := by
  unfold Tree.child?
  rw [(hg.new_of_not_extend hextend).2, hg.moved_eq, List.getElem?_drop, Nat.add_sub_cancel' hidx,
    List.getElem?_take_of_lt (Nat.lt_succ_of_le hstop)]

omit hfits hwf hstep in
theorem childCount_new (hextend : span.extend = false) :
    after.childCount group = span.stop + 1 - span.start := by
  unfold Tree.childCount
  rw [(hg.new_of_not_extend hextend).2, ← hg.stop_eq, ← hg.start_eq, Nat.add_sub_cancel_left]

omit hfits in
theorem compares_new (hextend : span.extend = false) {place : Nat} {left op right : NodeId}
    (hleft : tree.child? list span.start = some left)
    (hop : tree.child? list place = some op)
    (hright : tree.child? list span.stop = some right) (hstart : span.start < place)
    (hstop : place < span.stop) (hleftFits : BinaryRule.isComparisonOperand tree left = true)
    (hopFits : tree.isCategory op .comparison = true)
    (hrightFits : BinaryRule.isComparisonOperand tree right = true)
    (hblanks : forall idx other, span.start < idx -> idx < span.stop -> idx ≠ place ->
      tree.child? list idx = some other -> tree.isWhitespace other = true) :
    after.Compares group (place - span.start) (span.stop - span.start) := by
  have hsteps : Relation.ReflTransGen Tree.GroupStep tree after := .single hstep
  have hlt : forall {idx id}, tree.child? list idx = some id -> id < tree.size :=
    fun h => hwf.child_lt_size (List.mem_of_getElem? h)
  have hplace : forall {idx}, span.start <= idx -> idx <= span.stop ->
      after.child? group (idx - span.start) = tree.child? list idx := fun h h' =>
        hg.child?_of_new hextend h h'
  have hend : after.child? group (span.stop - span.start) = some right := by
    rw [hplace (by omega) (Nat.le_refl _)]
    exact hright
  have hcount := hg.childCount_new hextend
  constructor
  · refine ⟨op, ?_, ?_⟩
    · rw [hplace (Nat.le_of_lt hstart) (Nat.le_of_lt hstop)]
      exact hop
    · rw [Tree.isCategory_comparison_of_steps hsteps]
      exact hopFits
  · refine ⟨left, ?_, ?_⟩
    · rw [← Nat.sub_self span.start, hplace (Nat.le_refl _) (by omega)]
      exact hleft
    · rw [Tree.isComparisonOperand_of_steps hsteps (hlt hleft)]
      exact hleftFits
  · refine ⟨right, hend, ?_⟩
    rw [Tree.isComparisonOperand_of_steps hsteps (hlt hright)]
    exact hrightFits
  · omega
  · omega
  · intro idx other hpos hbefore hne hother
    have hshift := @hplace (span.start + idx) (by omega) (by omega)
    rw [Nat.add_sub_cancel_left] at hshift
    rw [hshift] at hother
    rw [(Tree.tokensKept_of_steps hsteps).isWhitespace_eq]
    exact hblanks (span.start + idx) other (by omega) (by omega) (by omega) hother
  · intro idx other hbehind hother
    have hinside := Tree.child?_lt hother
    omega
  · intro other hother
    rw [List.getLast?_eq_getElem?] at hother
    have hsame : (after.children group).length - 1 = span.stop - span.start := by
      rw [← Tree.childCount, hcount]
      omega
    rw [hsame] at hother
    cases hend.symm.trans hother
    rw [(Tree.tokensKept_of_steps hsteps).isWhitespace_eq]
    exact Tree.not_isWhitespace_of_isCode (Tree.isCode_of_isComparisonOperand hrightFits)

end Move.Gathers

/-!
# The passes from comparisons on
-/

theorem Tree.ComparisonsKept.not_isKind {tree : Tree} {list : NodeId} (h : tree.ComparisonsKept)
    {pattern : TokenPattern}
    (hcategory : pattern.category = .punctuation ∨ pattern.category = .keyword)
    (hvalues : pattern.values.isEmpty = false)
    (hnull : forall v, v ∈ pattern.values ->
      Text.asciiLower v ≠ Text.asciiLower (Text.of "NULL")) {idx : Nat} {mark : NodeId}
    (hmark : tree.child? list idx = some mark) (hhits : tree.hits mark pattern = true) :
    tree.isKind list .comparison = false := by
  apply Bool.eq_false_iff.mpr
  intro hlist
  rcases h list hlist with ⟨place, next, hcompares⟩
  rw [hcompares.not_hits hcategory hvalues hnull hmark] at hhits
  cases hhits

namespace Pass

theorem keeps_comparisons_of_comparison :
    (Pass.binary .comparison).Keeps Tree.ComparisonsKept (· ≠ .comparison) Tree.SolidSince := by
  have hsound : BinaryRule.comparison.Sound := BinaryRule.fromPrevToNext_sound rfl
  apply keeps_of_rule_in (all_sound _ (List.mem_of_getElem? (i := 16) rfl)) fun _ h => h
  intro tree after list host cursor move op start stop hwf hcursor hkept hhost hsuit hknown hop
    hisOp hoperands hfits hspan hgroups
  have hstep := hgroups.groupStep hwf hfits
  rcases hgroups.gathers hwf hfits with ⟨span, front, moved, back, group, hg⟩
  cases hspan.symm.trans hg.span_eq
  rcases BinaryRule.span?_accepts hoperands with
    ⟨prev, left, hprev, hleft, hacceptsPrev, hacceptsNext, hfound⟩
  have hlt := hcursor.prev_lt prev hprev
  rcases hsound tree list prev cursor.idx start stop hlt (Tree.child?_lt hop) hfound with
    ⟨rfl, _, hinside⟩
  have hlist : tree.isKind list .comparison = false := by
    rw [Tree.isKind, hhost, beq_eq_false_iff_ne]
    exact fun heq => hsuit (Option.some.inj heq)
  intro id hid
  by_cases hgroup : id = group
  · subst hgroup
    have hright := List.getElem?_eq_getElem hinside
    rcases BinaryRule.last_of_some? rfl rfl hacceptsNext hfound hright with ⟨haccepted, hnext⟩
    have hbefore := (Tree.next_some hnext).1
    refine ⟨_, _, hg.compares_new hwf hstep rfl hleft hop hright hlt hbefore hacceptsPrev hisOp
      haccepted ?_⟩
    intro idx other hstart hstop hne hother
    rcases Nat.lt_or_gt_of_ne hne with hidx | hidx
    · exact hknown.blanks start hprev idx other hstart hidx hother
    · have hskipped := Tree.next_between hnext hidx hstop hother
      unfold Tree.isSkipped at hskipped
      rw [Bool.true_and, Bool.false_and, Bool.or_false] at hskipped
      exact hskipped
  · have hne : id ≠ list := by
      rintro rfl
      rw [Tree.isKind, hg.kind?_list] at hid
      rw [Tree.isKind, hid] at hlist
      cases hlist
    have hcontent := hg.content?_other id hne hgroup
      (hfits.retag_ne_after hstep (Tree.isGroup_iff_kind?.mpr ⟨_, beq_iff_eq.mp hid⟩))
    rw [Tree.isKind, (Tree.observers_congr hcontent).1] at hid
    rcases hkept id hid with ⟨place, next, hcompares⟩
    exact ⟨place, next, hg.compares_other hfits hwf hstep hcompares hne hgroup⟩

theorem keeps_comparisons_of_identifierList :
    (Pass.binary .identifierList).Keeps Tree.ComparisonsKept (fun _ => True) Tree.SolidSince := by
  apply keeps_of_rule (all_sound _ (List.mem_of_getElem? (i := 18) rfl))
  intro tree after list cursor move op start stop hwf _ hkept _ hop hisOp _ hfits hspan hgroups
  rcases hgroups.gathers hwf hfits with ⟨span, front, moved, back, group, hg⟩
  cases hspan.symm.trans hg.span_eq
  exact hg.comparisonsKept hfits hwf (hgroups.groupStep hwf hfits) nofun
    (hkept.not_isKind (Or.inl rfl) rfl (by decide) hop hisOp) hkept

theorem keeps_comparisons_of_pairs {kind : GroupKind} {opening closing : TokenPattern}
    (hopening : kind.opening? = some opening) (hclosing : kind.closing? = some closing)
    (hkind : kind ≠ .comparison) (hword : closing.category = .keyword)
    (hvalues : closing.values.isEmpty = false)
    (hnull : forall v, v ∈ closing.values ->
      Text.asciiLower v ≠ Text.asciiLower (Text.of "NULL")) :
    (Pass.pairs kind).Keeps Tree.ComparisonsKept (· ≠ kind) (Tree.OpensWait opening) := by
  apply keeps_of_pairs hopening hclosing
  intro tree after list cursor move start first last hwf hkept _ _ _ _ hlast hcloses hfits hspan
    hgroups
  rcases hgroups.gathers hwf hfits with ⟨span, front, moved, back, group, hg⟩
  cases hspan.symm.trans hg.span_eq
  exact hg.comparisonsKept hfits hwf (hgroups.groupStep hwf hfits) hkind
    (hkept.not_isKind (Or.inr hword) hvalues hnull hlast hcloses) hkept

end Pass

/-!
# Comments behind a comparison
-/

theorem Seeker.trailingComment_not_last {tree : Tree} {list : NodeId} {idx next : Nat}
    {id : NodeId} {span : Span}
    (h : trailingComment.span? tree list idx id = some (span, next))
    (hlist : tree.isKind list .statement = false) : idx + 1 ≠ tree.childCount list := by
  intro hlast
  unfold trailingComment at h
  dsimp only at h
  rw [hlist, Bool.not_false, Bool.true_and, if_pos (beq_iff_eq.mpr hlast)] at h
  cases h

theorem Tree.Compares.lt_of_isKind {tree : Tree} {id : NodeId} {place next : Nat}
    (h : tree.Compares id place next) {idx : Nat} {comment : NodeId}
    (hcomment : tree.child? id idx = some comment)
    (hkind : tree.isKind comment .comment = true) : next < idx := by
  have hgroup := isGroup_iff_kind?.mpr ⟨_, beq_iff_eq.mp hkind⟩
  rcases h.cases hcomment with hoperand | hop | ⟨_, hblank | hlt⟩
  · have hcode := isCode_of_isComparisonOperand hoperand
    rw [not_isCode_of_isKind hkind] at hcode
    cases hcode
  · rw [isCategory_of_isGroup hgroup] at hop
    cases hop
  · rw [isWhitespace, tokenHas_of_isGroup hgroup] at hblank
    cases hblank
  · exact hlt

namespace Move.Gathers

variable {tree after : Tree} {list : NodeId} {cursor : Cursor} {move : Move}
  {front moved back : List NodeId} {host comment : NodeId} {prev idx next : Nat}
  {kind : GroupKind}
  (hg : move.Gathers list tree ⟨kind, prev, idx, true⟩ front moved back host after)
  (hprev : tree.prev list idx true = some (prev, host))
  (hcomment : tree.child? list idx = some comment)
  (hkind : tree.isKind comment .comment = true)
include hg hprev hcomment hkind

theorem exists_joined (hhost : tree.isKind host kind = true) :
    exists rest, moved = host :: rest ∧ after.children host = tree.children host ++ rest ∧
      (forall id, id ∈ rest -> tree.isCode id = false) ∧ rest.getLast? = some comment := by
  have hlt := (Tree.prev_some hprev).1
  have hplace : forall j,
      moved[j]? = if prev + j <= idx then tree.child? list (prev + j) else none := by
    intro j
    rw [hg.moved_eq, List.getElem?_drop]
    dsimp only
    split
    · exact List.getElem?_take_of_lt (by omega)
    · rw [List.getElem?_eq_none_iff]
      exact Nat.le_trans (List.length_take_le _ _) (by omega)
  have hsize := Tree.lt_size_of_isGroup (Tree.isGroup_iff_kind?.mpr ⟨_, beq_iff_eq.mp hhost⟩)
  rcases hg.first_of_lt_size hsize with ⟨_, rest, hmoved, hchildren⟩
  refine ⟨rest, hmoved, hchildren, ?_, ?_⟩
  · intro id hid
    rcases List.mem_iff_getElem?.mp hid with ⟨j, hj⟩
    have hget := hplace (j + 1)
    rw [hmoved, List.getElem?_cons_succ, hj] at hget
    split at hget
    · rename_i hle
      rcases Nat.lt_or_eq_of_le hle with hbefore | heq
      · have hskipped := Tree.prev_between hprev (by omega) hbefore hget.symm
        apply Tree.not_isCode_of_isTrivia
        apply Tree.tokenHas_isTrivia_of_run
        simpa [Tree.isSkipped] using Or.inr hskipped
      · rw [heq] at hget
        cases hget.trans hcomment
        exact Tree.not_isCode_of_isKind hkind
    · cases hget
  · have hlength := hg.stop_eq
    have hstart := hg.start_eq
    dsimp only at hlength hstart
    have hget := hplace (idx - prev)
    rw [if_pos (by omega), show prev + (idx - prev) = idx by omega, hcomment, hmoved] at hget
    rw [hmoved, List.length_cons] at hlength
    rw [List.getLast?_eq_getElem?]
    rw [show idx - prev = rest.length - 1 + 1 by omega, List.getElem?_cons_succ] at hget
    exact hget

variable (hwf : tree.WellFormed) (hstep : tree.GroupStep after)
include hwf hstep

theorem compares_host {place next : Nat} (h : tree.Compares host place next)
    (hhost : tree.isKind host kind = true) : after.Compares host place next := by
  rcases hg.exists_joined hprev hcomment hkind hhost with ⟨rest, hmoved, hchildren, hrest, hlast⟩
  have hsteps : Relation.ReflTransGen Tree.GroupStep tree after := .single hstep
  have hlt := h.next_lt
  apply h.of_front hsteps hwf
  · intro j hj
    unfold Tree.child?
    rw [hchildren]
    exact List.getElem?_append_left (Nat.lt_of_le_of_lt hj hlt)
  · intro j other hj hother
    unfold Tree.child? at hother
    rw [hchildren] at hother
    by_cases hinside : j < (tree.children host).length
    · rw [List.getElem?_append_left hinside] at hother
      rw [Tree.isCode_of_steps hsteps (hwf.child_lt_size (List.mem_of_getElem? hother))]
      exact h.behind j other hj hother
    · rw [List.getElem?_append_right (Nat.le_of_not_lt hinside)] at hother
      have hmem := List.mem_of_getElem? hother
      have hold : other < tree.size := by
        have hchild : other ∈ tree.children list := by
          rw [hg.children_eq, hmoved]
          simp [hmem]
        exact hwf.child_lt_size hchild
      rw [Tree.isCode_of_steps hsteps hold]
      exact hrest other hmem
  · intro other hother
    rw [hchildren, List.getLast?_append, hlast, Option.some_or, Option.some.injEq] at hother
    rw [← hother]
    exact Tree.tokenHas_of_isGroup (Tree.isGroup_of_steps hsteps
      (Tree.isGroup_iff_kind?.mpr ⟨_, beq_iff_eq.mp hkind⟩)) _

theorem compares_list {place next : Nat} (h : tree.Compares list place next)
    (hlast : idx + 1 ≠ tree.childCount list) :
    after.Compares list place next := by
  have hsteps : Relation.ReflTransGen Tree.GroupStep tree after := .single hstep
  have hle : next <= prev := by
    apply Nat.le_of_not_lt
    intro hlt
    rcases h.right with ⟨right, hright, hoperand⟩
    have hskipped := Tree.prev_between hprev hlt (h.lt_of_isKind hcomment hkind) hright
    unfold Tree.isSkipped at hskipped
    rw [Bool.true_and, Bool.false_and, Bool.or_false, Tree.not_isWhitespace_of_isCode
      (Tree.isCode_of_isComparisonOperand hoperand)] at hskipped
    cases hskipped
  have hchild : forall j, j <= prev -> after.child? list j = tree.child? list j := by
    intro j hj
    rcases Nat.lt_or_eq_of_le hj with hlt | rfl
    · exact hg.child?_front hlt
    · exact hg.child?_start.trans (Tree.prev_some hprev).2.1.symm
  apply h.of_front hsteps hwf fun j hj => hchild j (Nat.le_trans hj hle)
  · intro j other hj hother
    have hold : exists k, next < k ∧ tree.child? list k = some other := by
      rcases Nat.lt_or_ge prev j with hlt | hge
      · rw [hg.child?_behind (Nat.le_of_lt (Tree.prev_some hprev).1) hlt] at hother
        exact ⟨_, by omega, hother⟩
      · rw [hchild j hge] at hother
        exact ⟨j, hj, hother⟩
    rcases hold with ⟨k, hk, hother⟩
    rw [Tree.isCode_of_steps hsteps (hwf.child_lt_size (List.mem_of_getElem? hother))]
    exact h.behind k other hk hother
  · intro other hother
    rw [(Tree.tokensKept_of_steps hsteps).isWhitespace_eq]
    apply h.last
    have hback : back ≠ [] := by
      rintro rfl
      apply hlast
      unfold Tree.childCount
      rw [hg.children_eq, List.append_nil, List.length_append, hg.stop_eq]
    rw [hg.children_list, List.append_cons, List.getLast?_append_of_ne_nil _ hback] at hother
    rw [hg.children_eq, List.getLast?_append_of_ne_nil _ hback]
    exact hother

end Move.Gathers

theorem Pass.keeps_comparisons_of_trailingComments :
    Pass.trailingComments.Keeps Tree.ComparisonsKept (fun _ => True) (fun _ _ _ => True) := by
  apply keeps_of_seeker (List.mem_of_getElem? (i := 17) rfl) Seeker.trailingComments_plan
  intro tree after list cursor move idx next comment group span front moved back hwf hkept hcomment
    haccepts hfound hfits hstep hg
  rcases Seeker.trailingComment_span hfound with ⟨prev, host, kind, hprev, hhostKind, rfl, _⟩
  have hhost := isKind_of_commentHost? hhostKind
  have hjoins : group = host := by
    rcases hg.exists_moved (Nat.le_of_lt (Tree.prev_some hprev).1) (Tree.prev_some hprev).2.1 with
      ⟨rest, hmoved⟩
    exact hg.joins_first rfl host rest hmoved hhost
  subst hjoins
  intro id hid
  by_cases hgroup : id = group
  · subst hgroup
    rw [Tree.isKind, hg.kind?_group] at hid
    have heq : kind = .comparison := Option.some.inj (beq_iff_eq.mp hid)
    subst heq
    rcases hkept id hhost with ⟨place, next, hcompares⟩
    exact ⟨place, next, hg.compares_host hprev hcomment haccepts hwf hstep hcompares hhost⟩
  · by_cases hlist : id = list
    · subst hlist
      rw [Tree.isKind, hg.kind?_list] at hid
      rcases hkept id hid with ⟨place, next, hcompares⟩
      refine ⟨place, next, hg.compares_list hprev hcomment haccepts hwf hstep hcompares ?_⟩
      apply Seeker.trailingComment_not_last hfound
      rw [Tree.isKind, beq_iff_eq.mp hid]
      rfl
    · have hcontent := hg.content?_other id hlist hgroup
        (hfits.retag_ne_after hstep (Tree.isGroup_iff_kind?.mpr ⟨_, beq_iff_eq.mp hid⟩))
      rw [Tree.isKind, (Tree.observers_congr hcontent).1] at hid
      rcases hkept id hid with ⟨place, next, hcompares⟩
      exact ⟨place, next, hg.compares_other hfits hwf hstep hcompares hlist hgroup⟩

/-!
# Statements
-/

namespace Pass

theorem drop_keep_comparisons : forall pass, pass ∈ Pass.all.drop 17 ->
    exists suits known, pass.Keeps Tree.ComparisonsKept suits known ∧ suits .statement := by
  intro pass hpass
  unfold Pass.all at hpass
  simp only [List.drop_succ_cons, List.drop_zero, List.mem_cons, List.not_mem_nil, or_false]
    at hpass
  rcases hpass with rfl | rfl | rfl | rfl | rfl
  · exact ⟨_, _, keeps_comparisons_of_trailingComments, trivial⟩
  · exact ⟨_, _, keeps_comparisons_of_identifierList, trivial⟩
  · exact ⟨_, _, keeps_comparisons_of_pairs rfl rfl nofun rfl rfl (by decide), nofun⟩
  · exact ⟨_, _, keeps_comparisons_of_pairs rfl rfl nofun rfl rfl (by decide), nofun⟩
  · exact ⟨_, _, keeps_comparisons_of_pairs rfl rfl nofun rfl rfl (by decide), nofun⟩

end Pass

namespace Statement

theorem not_isKind_of_forM {kind : GroupKind} (hkind : kind ≠ .statement) {passes : List Pass}
    (hpasses : passes ⊆ Pass.all) (havoids : forall pass, pass ∈ passes -> pass.Avoids kind)
    {tokens : List Token} {limit : Nat} {root : NodeId} {after : Tree}
    (h : exec (passes.forM fun pass => pass.run limit limit root) (ofTokens tokens).tree =
      (.ok (), after)) (id : NodeId) : after.isKind id kind = false := by
  have hkeeps : KeepsWellFormed (Tree.StepAvoiding kind) :=
    fun _ _ hwf hstep => hstep.1.wellFormed hwf
  have hsafe : Safe (Tree.StepAvoiding kind) limit (ofTokens tokens).tree
      (exec (passes.forM fun pass => pass.run limit limit root) (ofTokens tokens).tree) := by
    apply forM_safe hkeeps _ (wellFormed_ofTokens tokens)
    intro pass hpass tree htree
    have hsound := Pass.all_sound pass (hpasses hpass)
    exact Pass.run_safe hsound (Pass.takes_stepAvoiding hsound (havoids pass hpass)) hkeeps limit
      root htree
  rw [h] at hsafe
  exact Tree.not_isKind_of_steps hsafe.steps (isKind_ofTokens tokens id hkind)

theorem comparisonsKept_of_group {tokens : List Token} {limit : Nat} {s : Statement}
    (h : (ofTokens tokens).group limit = .ok s) : s.tree.ComparisonsKept := by
  rcases exists_turn 16 rfl h with ⟨before, later, hturn⟩
  have hmem : Pass.binary .comparison ∈ Pass.all := List.mem_of_getElem? (i := 16) rfl
  have hfree := not_isKind_of_forM (by decide : GroupKind.comparison ≠ .statement)
    (List.take_subset 16 _)
    (Pass.take_avoids (by decide)) hturn.front
  have hnone : before.ComparisonsKept := by
    intro id hid
    rw [hfree id] at hid
    cases hid
  have hkept := Pass.keeps_comparisons_of_comparison.run (Pass.all_sound _ hmem)
    (Pass.all_tagsChildren _ hmem) hturn.before_wellFormed hturn.before_root (by decide) hnone
    hturn.run
  refine Pass.holds_of_forM ?_ hturn.later_wellFormed hturn.later_root hkept hturn.back
  intro pass hpass
  have hlast := List.drop_subset 17 _ hpass
  exact ⟨Pass.all_sound pass hlast, Pass.all_tagsChildren pass hlast,
    Pass.drop_keep_comparisons pass hpass⟩

end Statement

/-- The first child of a comparison in a parsed statement is an operand, and an operator
stands between it and the last one.  The last one is an operand too, unless comments stand
in the group, and then it is one of them. -/
theorem comparison_sides {sql : Text} {options : LexerOptions} {limit : Nat}
    {statements : List Statement} (h : parse sql options limit = .ok statements)
    {s : Statement} (hs : s ∈ statements) {id : NodeId}
    (hkind : s.tree.isKind id .comparison = true) :
    exists left right place op, s.tree.left? id = some left ∧ s.tree.right? id = some right ∧
      s.tree.child? id place = some op ∧ s.tree.isCategory op .comparison = true ∧
      0 < place ∧ place + 1 < s.tree.childCount id ∧
      s.tree.isWhitespace left = false ∧ s.tree.isComment left = false ∧
      s.tree.isWhitespace right = false ∧
      (s.tree.isComment right = true <->
        exists child, child ∈ s.tree.children id ∧ s.tree.isComment child = true) := by
  rcases parse_ok h with ⟨config, _, hgroups⟩
  rcases exists_of_mem_forall₂ hgroups hs with ⟨flat, hflat, hgroup⟩
  rcases exists_of_mem_splitStatements hflat with ⟨tokens, _, rfl⟩
  rcases Statement.comparisonsKept_of_group hgroup id hkind with ⟨place, next, hcompares⟩
  rcases hcompares.left with ⟨left, hleft, hleftFits⟩
  rcases hcompares.op with ⟨op, hop, hopFits⟩
  have hleftCode := Tree.isCode_of_isComparisonOperand hleftFits
  have hnext := hcompares.next_lt
  have hplace := hcompares.place_lt
  rcases hcompares.exists_right with ⟨right, hright, hsolid, hcomment⟩
  refine ⟨left, right, place, op, ?_, hright, hop, hopFits, hcompares.place_pos, by omega,
    Tree.not_isWhitespace_of_isCode hleftCode, Tree.not_isComment_of_isCode hleftCode, hsolid,
    hcomment⟩
  unfold Tree.left?
  rw [List.head?_eq_getElem?]
  exact hleft

/-- Two names with an equals sign between them. -/
theorem comparison_sides_equation :
    exists statements s, parse (Text.of "a=b") {} defaultMaxDepth = .ok statements ∧
      s ∈ statements ∧ s.tree.isKind 6 .comparison = true ∧
      exists left right place op, s.tree.left? 6 = some left ∧ s.tree.right? 6 = some right ∧
        s.tree.child? 6 place = some op ∧ s.tree.isCategory op .comparison = true ∧
        0 < place ∧ place + 1 < s.tree.childCount 6 ∧
        s.tree.isWhitespace left = false ∧ s.tree.isComment left = false ∧
        s.tree.isWhitespace right = false ∧
        (s.tree.isComment right = true <->
          exists child, child ∈ s.tree.children 6 ∧ s.tree.isComment child = true) := by
  have htokens : tokenize ⟨.generic, Vocabulary.ofDialect .generic⟩ (Text.of "a=b") =
      [⟨.name, ['a'], some 0⟩, ⟨.comparison, ['='], some 1⟩, ⟨.name, ['b'], some 2⟩] := by
    decide +kernel
  rcases exists_parsed (p := fun s => s.tree.isKind 6 .comparison) htokens
    (by decide +kernel) with ⟨statements, s, hparse, hs, hkind⟩
  exact ⟨statements, s, hparse, hs, hkind, comparison_sides hparse hs hkind⟩

/-- A comment behind a comparison is taken into it and becomes its last child. -/
theorem comparison_right_comment :
    ¬ forall (sql : Text) (statements : List Statement) (s : Statement) (id : NodeId),
      parse sql {} defaultMaxDepth = .ok statements -> s ∈ statements ->
      s.tree.isKind id .comparison = true ->
      exists right, s.tree.right? id = some right ∧ s.tree.isWhitespace right = false ∧
        s.tree.isComment right = false := by
  have htokens : tokenize ⟨.generic, Vocabulary.ofDialect .generic⟩ (Text.of "a=b/*c*/") =
      [⟨.name, ['a'], some 0⟩, ⟨.comparison, ['='], some 1⟩, ⟨.name, ['b'], some 2⟩,
       ⟨.blockComment, Text.of "/*c*/", some 3⟩] := by
    decide +kernel
  rcases exists_parsed (p := fun s => s.tree.isKind 8 .comparison &&
      (s.tree.right? 8).all s.tree.isComment)
    htokens (by decide +kernel) with ⟨statements, s, hparse, hs, hfound⟩
  rcases Bool.and_eq_true_iff.mp hfound with ⟨hkind, hcomment⟩
  intro hall
  rcases hall _ statements s 8 hparse hs hkind with ⟨right, hright, _, hplain⟩
  rw [hright, Option.all_some, hplain] at hcomment
  cases hcomment

end SqlLayout
