import SqlLayout.Proofs.Grouping.SettledPairs

/-!
# Pairing with a stack and with a counter

The pass for pairs keeps a stack of positions in a list that gets shorter under it; the
scan for a closing token counts depths in the list as it was.  An opening token that is
the `k`-th on the stack waits for the depth to come down from `k + 1`, so both find the
same partners.
-/

namespace SqlLayout

open Grouping

/-!
# The scan
-/

namespace Tree

variable {isOpen isClose : NodeId -> Bool} {depth idx : Nat} {id : NodeId} {rest : List NodeId}

theorem closingFrom_of_open (h : isOpen id = true) :
    closingFrom isOpen isClose depth idx (id :: rest) =
      closingFrom isOpen isClose (depth + 1) (idx + 1) rest := by
  rw [closingFrom, if_pos h]

theorem closingFrom_of_other (h : isOpen id = false) (h' : isClose id = false) :
    closingFrom isOpen isClose depth idx (id :: rest) =
      closingFrom isOpen isClose depth (idx + 1) rest := by
  rw [closingFrom, h, h', if_neg Bool.false_ne_true, if_neg Bool.false_ne_true]

theorem closingFrom_of_last (h : isOpen id = false) (h' : isClose id = true) :
    closingFrom isOpen isClose 1 idx (id :: rest) = some idx := by
  rw [closingFrom, h, h', if_neg Bool.false_ne_true, if_pos rfl, if_pos (Nat.le_refl 1)]

theorem closingFrom_of_close (h : isOpen id = false) (h' : isClose id = true) :
    closingFrom isOpen isClose (depth + 2) idx (id :: rest) =
      closingFrom isOpen isClose (depth + 1) (idx + 1) rest := by
  rw [closingFrom, h, h', if_neg Bool.false_ne_true, if_pos rfl, if_neg (by omega),
    show depth + 2 - 1 = depth + 1 by omega]

end Tree

/-!
# Opening and closing tokens
-/

theorem Token.not_hits_both {t : Token} {first second : TokenPattern}
    (hfirst : first.values.isEmpty = false) (hsecond : second.values.isEmpty = false)
    (hapart : forall v, v ∈ first.values -> forall w, w ∈ second.values ->
      Text.asciiLower v ≠ Text.asciiLower w)
    (h : t.hits first = true) : t.hits second = false := by
  apply Bool.eq_false_iff.mpr
  intro h'
  unfold Token.hits at h h'
  rw [Bool.and_eq_true, hfirst, Bool.false_or] at h
  rw [Bool.and_eq_true, hsecond, Bool.false_or] at h'
  rcases h with ⟨_, hvalue⟩
  rcases h' with ⟨_, hvalue'⟩
  split at hvalue
  · rename_i hkeyword
    rw [if_pos hkeyword] at hvalue'
    rcases List.any_eq_true.mp hvalue with ⟨v, hv, hsame⟩
    rcases List.any_eq_true.mp hvalue' with ⟨w, hw, hsame'⟩
    exact hapart v hv w hw ((beq_iff_eq.mp hsame).symm.trans (beq_iff_eq.mp hsame'))
  · rename_i hkeyword
    rw [if_neg hkeyword] at hvalue'
    exact hapart _ (List.elem_iff.mp hvalue) _ (List.elem_iff.mp hvalue') rfl

section

variable {kind : GroupKind} {opening closing : TokenPattern}
  (hopening : kind.opening? = some opening) (hclosing : kind.closing? = some closing)
include hopening hclosing

theorem GroupKind.closing_of_opening {t : Token} (h : t.hits opening = true) :
    t.hits closing = false := by
  cases kind with
  | parenthesis | squareBrackets | caseBlock | beginBlock | forBlock | ifBlock | whereClause =>
      cases hopening
      cases hclosing
      exact Token.not_hits_both rfl rfl (by decide) h
  | _ =>
      cases hopening

theorem GroupKind.not_blank {t : Token} (h : t.hits opening = true ∨ t.hits closing = true) :
    t.isWhitespace = false := by
  have hcategory : t.category = .keyword ∨ t.category = .punctuation := by
    rcases GroupKind.delimits_or_words hopening hclosing with hdelimits | ⟨hword, hword'⟩
    · right
      have hbracket := hdelimits.isBracket_of_hits h
      exact (Token.hits_punctuation_iff.mp hbracket).1
    · left
      rcases h with h | h
      · exact (beq_iff_eq.mp (Bool.and_eq_true_iff.mp h).1).trans hword
      · exact (beq_iff_eq.mp (Bool.and_eq_true_iff.mp h).1).trans hword'
  unfold Token.isWhitespace
  rcases hcategory with h | h
  · rw [h]
    rfl
  · rw [h]
    rfl

theorem Tree.opensPair_iff {tree : Tree} {id : NodeId} :
    tree.opensPair opening id = tree.hits id opening := by
  unfold opensPair isWhitespace hits tokenHas
  cases tree.token? id with
  | none =>
      rfl
  | some t =>
      dsimp only
      cases hhits : t.hits opening with
      | false =>
          rw [Bool.and_false]
      | true =>
          rw [GroupKind.not_blank hopening hclosing (Or.inl hhits)]
          rfl

theorem Tree.shutsPair_iff {tree : Tree} {id : NodeId} :
    tree.shutsPair opening closing id = tree.hits id closing := by
  unfold shutsPair isWhitespace hits tokenHas
  cases tree.token? id with
  | none =>
      rfl
  | some t =>
      dsimp only
      cases hhits : t.hits closing with
      | false =>
          rw [Bool.and_false]
      | true =>
          have hopens : t.hits opening = false := by
            apply Bool.eq_false_iff.mpr
            intro hopens
            rw [GroupKind.closing_of_opening hopening hclosing hopens] at hhits
            cases hhits
          rw [GroupKind.not_blank hopening hclosing (Or.inr hhits), hopens]
          rfl

end

/-!
# The walk
-/

namespace Move.Gathers

variable {tree after : Tree} {list : NodeId} {move : Move} {span : Span}
  {front moved back : List NodeId} {group : NodeId}
  (h : move.Gathers list tree span front moved back group after)
include h

theorem ends_of_new (hstart : span.start <= span.stop) (hextend : span.extend = false) :
    (after.children group).head? = tree.child? list span.start ∧
      (after.children group).getLast? = tree.child? list span.stop := by
  have hchildren := (h.new_of_not_extend hextend).2
  have hstartEq := h.start_eq
  have hstopEq := h.stop_eq
  have hget : forall i, i < moved.length -> tree.child? list (front.length + i) = moved[i]? := by
    intro i hi
    unfold Tree.child?
    rw [h.children_eq, List.append_assoc, List.getElem?_append_right (Nat.le_add_right _ _),
      Nat.add_sub_cancel_left, List.getElem?_append_left hi]
  rw [hchildren, List.head?_eq_getElem?, List.getLast?_eq_getElem?, ← hget _ (by omega),
    ← hget _ (by omega)]
  exact ⟨by rw [Nat.add_zero, hstartEq], by congr 1; omega⟩

/-- Groups that are neither the list nor the one that takes the span keep their
content. -/
theorem kept_of_new (hextend : span.extend = false)
    (hretag : move.retag = none) {id : NodeId} {kind : GroupKind}
    (hkind : tree.kind? id = some kind) (hlist : id ≠ list) :
    after.kind? id = some kind ∧ after.children id = tree.children id := by
  have hlt := Tree.lt_size_of_isGroup (Tree.isGroup_iff_kind?.mpr ⟨kind, hkind⟩)
  have hne : id ≠ group := by
    rintro rfl
    exact absurd (h.new_of_not_extend hextend).1 (Nat.ne_of_lt hlt)
  have hobservers := Tree.observers_congr
    (h.content?_other id hlist hne fun category hsome => by rw [hretag] at hsome; cases hsome)
  exact ⟨hobservers.1.trans hkind, hobservers.2.2⟩

end Move.Gathers

namespace Pass

variable {kind : GroupKind} {opening closing : TokenPattern} {tree : Tree} {list : NodeId}

def countFrom (opening closing : TokenPattern) (tree : Tree) (list : NodeId) (depth idx : Nat) :
    Option Nat :=
  Tree.closingFrom (fun id => tree.hits id opening) (fun id => tree.hits id closing) depth idx
    ((tree.children list).drop idx)

section

variable {depth idx : Nat} {id : NodeId} (hchild : tree.child? list idx = some id)
include hchild

theorem countFrom_of_open (h : tree.hits id opening = true) :
    countFrom opening closing tree list depth idx =
      countFrom opening closing tree list (depth + 1) (idx + 1) := by
  unfold countFrom
  rw [Tree.drop_of_child? hchild, Tree.closingFrom_of_open h]

theorem countFrom_of_other (h : tree.hits id opening = false) (h' : tree.hits id closing = false) :
    countFrom opening closing tree list depth idx =
      countFrom opening closing tree list depth (idx + 1) := by
  unfold countFrom
  rw [Tree.drop_of_child? hchild, Tree.closingFrom_of_other h h']

theorem countFrom_of_last (h : tree.hits id opening = false) (h' : tree.hits id closing = true) :
    countFrom opening closing tree list 1 idx = some idx := by
  unfold countFrom
  rw [Tree.drop_of_child? hchild, Tree.closingFrom_of_last h h']

theorem countFrom_of_close (h : tree.hits id opening = false) (h' : tree.hits id closing = true) :
    countFrom opening closing tree list (depth + 2) idx =
      countFrom opening closing tree list (depth + 1) (idx + 1) := by
  unfold countFrom
  rw [Tree.drop_of_child? hchild, Tree.closingFrom_of_close h h']

end

def Waits (opening closing : TokenPattern) (start : Tree) (list : NodeId) (tree : Tree)
    (opens : List Nat) (passed idx : Nat) (id : NodeId) : Prop :=
  exists place pos, opens[place]? = some pos ∧ tree.child? list pos = some id ∧
    start.findClosing? list idx opening closing =
      countFrom opening closing start list (place + 1) passed

def Paired (kind : GroupKind) (opening closing : TokenPattern) (start : Tree) (list : NodeId)
    (tree : Tree) (idx : Nat) (id : NodeId) : Prop :=
  exists stop last group, start.findClosing? list idx opening closing = some stop ∧
    start.child? list stop = some last ∧ group ≠ list ∧ tree.kind? group = some kind ∧
    (tree.children group).head? = some id ∧ (tree.children group).getLast? = some last

/-- How far a walk is that has started with a list of tokens. -/
structure PairingAt (kind : GroupKind) (opening closing : TokenPattern) (start : Tree)
    (list : NodeId) (tree : Tree) (cursor : Cursor) (passed : Nat) : Prop where
  steps : Relation.ReflTransGen Tree.GroupStep start tree
  drop_eq : (tree.children list).drop cursor.idx = (start.children list).drop passed
  waits_or_paired : forall idx id, idx < passed -> start.child? list idx = some id ->
    start.hits id opening = true ->
    Waits opening closing start list tree cursor.opens passed idx id ∨
      Paired kind opening closing start list tree idx id

variable {start after : Tree} {cursor : Cursor} {passed : Nat} {id : NodeId}

theorem PairingAt.past {opens : List Nat}
    (h : PairingAt kind opening closing start list tree cursor passed)
    (hchild : tree.child? list cursor.idx = some id) (hstart : start.child? list passed = some id)
    (hopen : start.hits id opening = true -> opens = cursor.idx :: cursor.opens)
    (hother : start.hits id opening = false -> opens = cursor.opens ∧
      (start.hits id closing = true -> cursor.opens = [])) :
    PairingAt kind opening closing start list tree
      (Move.skip { cursor with opens := opens }).cursor (passed + 1) := by
  refine ⟨h.steps, ?_, ?_⟩
  · have htail := congrArg List.tail h.drop_eq
    rw [List.tail_drop, List.tail_drop] at htail
    exact htail
  · intro idx other hidx hotherChild hhits
    dsimp only [Move.skip]
    rcases Nat.lt_or_eq_of_le (Nat.le_of_lt_succ hidx) with hearlier | rfl
    · rcases h.waits_or_paired idx other hearlier hotherChild hhits with
        ⟨place, pos, hplace, hpos, hcount⟩ | hpaired
      · left
        cases hid : start.hits id opening with
        | true =>
            refine ⟨place + 1, pos, ?_, hpos, ?_⟩
            · rw [hopen hid, List.getElem?_cons_succ]
              exact hplace
            · rw [hcount, countFrom_of_open hstart hid]
        | false =>
            rcases hother hid with ⟨hopens, hshuts⟩
            have hclosing : start.hits id closing = false := by
              apply Bool.eq_false_iff.mpr
              intro hclose
              rw [hshuts hclose] at hplace
              cases hplace
            refine ⟨place, pos, ?_, hpos, ?_⟩
            · rw [hopens]
              exact hplace
            · rw [hcount, countFrom_of_other hstart hid hclosing]
      · exact Or.inr hpaired
    · cases hstart.symm.trans hotherChild
      left
      refine ⟨0, cursor.idx, ?_, hchild, ?_⟩
      · rw [hopen hhits, List.getElem?_cons_zero]
      · change countFrom opening closing start list 0 idx = _
        rw [countFrom_of_open hstart hhits]

theorem PairingAt.shut {begin : Nat} {opens : List Nat} {group : NodeId}
    {front moved back : List NodeId} {move : Move}
    (h : PairingAt kind opening closing start list tree cursor passed)
    (hcursor : cursor.Ordered) (hstep : tree.GroupStep after) (hretag : move.retag = none)
    (hg : move.Gathers list tree ⟨kind, begin, cursor.idx, false⟩ front moved back group after)
    (hnew : group ≠ list) (hwaiting : cursor.opens = begin :: opens)
    (hchild : tree.child? list cursor.idx = some id) (hstart : start.child? list passed = some id)
    (hopen : start.hits id opening = false) (hclose : start.hits id closing = true) :
    PairingAt kind opening closing start list after { idx := begin + 1, opens := opens }
      (passed + 1) := by
  have hordered := hcursor.opens_lt
  rw [hwaiting, List.pairwise_cons, List.pairwise_cons] at hordered
  rcases hordered with ⟨hlt, hbefore, _⟩
  refine ⟨h.steps.tail hstep, ?_, ?_⟩
  · have htail := congrArg List.tail h.drop_eq
    rw [List.tail_drop, List.tail_drop] at htail
    exact hg.drop_behind.trans htail
  · intro idx other hidx hotherChild hhits
    rcases Nat.lt_or_eq_of_le (Nat.le_of_lt_succ hidx) with hearlier | rfl
    · rcases h.waits_or_paired idx other hearlier hotherChild hhits with
        ⟨place, pos, hplace, hpos, hcount⟩ | ⟨stop, last, old, hfound, hlast, hne, hkind, hends⟩
      · rw [hwaiting] at hplace
        cases place with
        | zero =>
            cases hplace
            rcases hg.ends_of_new (Nat.le_of_lt (hlt _ List.mem_cons_self)) rfl with
              ⟨hhead, hend⟩
            right
            refine ⟨passed, id, group, ?_, hstart, hnew, hg.kind?_group, hhead.trans hpos,
              hend.trans hchild⟩
            rw [hcount, countFrom_of_last hstart hopen hclose]
        | succ place =>
            rw [List.getElem?_cons_succ] at hplace
            left
            refine ⟨place, pos, hplace, ?_, ?_⟩
            · rw [hg.child?_front (hbefore pos (List.mem_of_getElem? hplace))]
              exact hpos
            · rw [hcount, countFrom_of_close hstart hopen hclose]
      · right
        rcases hg.kept_of_new rfl hretag hkind hne with ⟨hkind', hchildren⟩
        refine ⟨stop, last, old, hfound, hlast, hne, hkind', ?_⟩
        rw [hchildren]
        exact hends
    · cases hstart.symm.trans hotherChild
      rw [hopen] at hhits
      cases hhits

variable (hopening : kind.opening? = some opening) (hclosing : kind.closing? = some closing)
  {limit room : Nat} {move : Move}
include hopening hclosing

theorem PairingAt.moved (hstart : start.WellFormed)
    (htokens : forall id, id ∈ start.children list -> start.isGroup id = false)
    (hwf : tree.WellFormed) (hcursor : cursor.Ordered)
    (h : PairingAt kind opening closing start list tree cursor passed)
    (hplan : (Pass.pairs kind).plan tree list cursor = some move)
    (hmoved : Moved ((Pass.pairs kind).run limit room) list move tree after) :
    PairingAt kind opening closing start list after move.cursor (passed + 1) := by
  have hsound := pairs_sound kind
  have hfits := hsound tree list cursor move hcursor hplan
  rcases pairMoved_of_moved hopening hclosing hplan hmoved with ⟨id, hchild, hdone⟩
  -- The child at the place is the next token of the list as it was.
  have hidStart : start.child? list passed = some id := by
    have hget := congrArg List.head? h.drop_eq
    rw [List.head?_drop, List.head?_drop] at hget
    exact hget.symm.trans hchild
  have hidMem := List.mem_of_getElem? hidStart
  have htoken : tree.isGroup id = false := by
    rw [Tree.isGroup_congr (Tree.kind?_of_steps h.steps (hstart.child_lt_size hidMem))]
    exact htokens id hidMem
  have htests := pairTests_kept hopening hclosing (Tree.tokensKept_of_steps h.steps) id
  rw [Tree.opensPair_iff hopening hclosing, Tree.opensPair_iff hopening hclosing,
    Tree.shutsPair_iff hopening hclosing, Tree.shutsPair_iff hopening hclosing] at htests
  cases hdone with
  | past _ hopen hshut =>
      rw [Tree.opensPair_iff hopening hclosing, htests.1] at hopen
      rw [Tree.shutsPair_iff hopening hclosing, htests.2] at hshut
      exact h.past hchild hidStart (fun hhits => by rw [hopen] at hhits; cases hhits)
        fun _ => ⟨rfl, hshut⟩
  | opens _ hopen _ =>
      rw [Tree.opensPair_iff hopening hclosing, htests.1] at hopen
      exact h.past hchild hidStart (fun _ => rfl) fun hhits => by rw [hopen] at hhits; cases hhits
  | into hgroup _ _ =>
      rw [htoken] at hgroup
      cases hgroup
  | @shuts _ begin opens _ _ hshut hwaiting hmove hgroups =>
      subst hmove
      rw [Tree.shutsPair_iff hopening hclosing, htests.2] at hshut
      have hopen : start.hits id opening = false := by
        apply Bool.eq_false_iff.mpr
        intro hopens
        rcases Tree.tokenHas_iff.mp hopens with ⟨token, htoken, hhits⟩
        rcases Tree.tokenHas_iff.mp hshut with ⟨_, hsame, hhits'⟩
        cases htoken.symm.trans hsame
        rw [GroupKind.closing_of_opening hopening hclosing hhits] at hhits'
        cases hhits'
      rcases hgroups.gathers hwf hfits with ⟨span, front, moved, back, group, hg⟩
      cases hg.span_eq
      have hnew : group ≠ list := by
        rintro rfl
        have hlt := Tree.lt_size_of_mem_children (List.mem_of_getElem? hchild)
        exact absurd (hg.new_of_not_extend rfl).1 (Nat.ne_of_lt hlt)
      exact h.shut hcursor (groupStep_of_groups hsound hwf hcursor hplan hgroups) rfl hg hnew
        hwaiting hchild hidStart hopen hshut

/-- After a run the scan has found the partner of every opening token, or there is none
and the token is where it was. -/
theorem pairs_waits_or_paired (hstart : start.WellFormed)
    (htokens : forall id, id ∈ start.children list -> start.isGroup id = false)
    (h : exec ((Pass.pairs kind).run limit (room + 1) list) start = (.ok (), after)) {idx : Nat}
    (hchild : start.child? list idx = some id) (hhits : start.hits id opening = true) :
    (start.findClosing? list idx opening closing = none ∧ id ∈ after.children list) ∨
      Paired kind opening closing start list after idx id := by
  have hsound := pairs_sound kind
  have htags := tagsChildren_pairs kind
  rw [exec_pairs_run hopening hclosing] at h
  have hbegin : PairingAt kind opening closing start list start {} 0 :=
    ⟨.refl, rfl, fun _ _ hlt => absurd hlt (Nat.not_lt_zero _)⟩
  have hmoves : forall (tree after : Tree) (cursor : Cursor) (move : Move), tree.WellFormed ->
      cursor.Ordered ->
      (exists passed, PairingAt kind opening closing start list tree cursor passed) ->
      (Pass.pairs kind).plan tree list cursor = some move ->
      Moved ((Pass.pairs kind).run limit room) list move tree after ->
      exists passed, PairingAt kind opening closing start list after move.cursor passed := by
    rintro tree after cursor move hwf hcursor ⟨passed, hat⟩ hplan hmoved
    exact ⟨passed + 1, hat.moved hopening hclosing hstart htokens hwf hcursor hplan hmoved⟩
  rcases walk_rule hsound htags
      (fun id _ hwf => run_changesWithin hsound htags limit room id hwf) hmoves hstart
      (Cursor.ordered_at 0) (Nat.le_add_left _ _) ⟨0, hbegin⟩ h with
    ⟨last, ⟨passed, hat⟩, hend⟩
  -- The walk has come to the end of both lists.
  have hcount := childCount_le_of_pairs_end hopening hclosing hend
  have hrest : (start.children list).drop passed = [] := by
    rw [← hat.drop_eq]
    exact List.drop_eq_nil_iff.mpr hcount
  have hpassed : idx < passed := by
    rcases List.getElem?_eq_some_iff.mp hchild with ⟨hlt, _⟩
    exact Nat.lt_of_lt_of_le hlt (List.drop_eq_nil_iff.mp hrest)
  rcases hat.waits_or_paired idx id hpassed hchild hhits with
    ⟨place, pos, _, hpos, hcountFrom⟩ | hpaired
  · left
    refine ⟨?_, List.mem_of_getElem? hpos⟩
    rw [hcountFrom]
    unfold countFrom
    rw [hrest]
    rfl
  · exact Or.inr hpaired

theorem not_last_of_waiting (hstart : start.WellFormed)
    (h : exec ((Pass.pairs kind).run limit (room + 1) list) start = (.ok (), after))
    {last : NodeId} (hopen : start.hits id opening = true) (hclose : start.hits last closing = true)
    (hhead : (after.children list).head? = some id) :
    (after.children list).getLast? ≠ some last := by
  intro hend
  have hchanges := changesWithin_of_run (pairs_sound kind) (tagsChildren_pairs kind) hstart h
  have htests := pairTests_kept hopening hclosing (Tree.tokensKept_of_steps hchanges.steps)
  rw [← Tree.opensPair_iff hopening hclosing, ← (htests id).1] at hopen
  rw [← Tree.shutsPair_iff hopening hclosing, ← (htests last).2] at hclose
  rw [List.head?_eq_getElem?] at hhead
  rw [List.getLast?_eq_getElem?] at hend
  rcases Nat.eq_zero_or_pos ((after.children list).length - 1) with hzero | hpos
  · -- The token would open and close.
    rw [hzero, hhead] at hend
    cases hend
    unfold Tree.shutsPair at hclose
    unfold Tree.opensPair at hopen
    simp only [Bool.and_eq_true, Bool.not_eq_true'] at hopen hclose
    rw [hopen.2] at hclose
    cases hclose.1.2
  · have hrests := (pairs_settled hopening hclosing hstart h fun id _ _ hwf hexec =>
      pairs_run_again hopening hclosing hwf hexec).1 ((after.children list).length - 1)
    rw [closesPair_iff.mpr ⟨last, hend, hclose, 0, id, hpos, hhead, hopen⟩] at hrests
    cases hrests

end Pass

/-- The pass for pairs groups a list of tokens as the scan that counts depths pairs them:
an opening and a closing token are the ends of one group just if the scan from the first
comes to the second, and an opening token without a partner stays in the list. -/
theorem pairs_agree_with_scan {kind : GroupKind} {opening closing : TokenPattern}
    (hopening : kind.opening? = some opening) (hclosing : kind.closing? = some closing)
    {limit room : Nat} {list : NodeId} {tree after : Tree} (hwf : tree.WellFormed)
    (htokens : forall id, id ∈ tree.children list -> tree.isGroup id = false)
    (h : exec ((Pass.pairs kind).run limit room list) tree = (.ok (), after)) :
    (forall i j first last, tree.child? list i = some first -> tree.hits first opening = true ->
      tree.child? list j = some last -> tree.hits last closing = true ->
      ((exists group, after.isKind group kind = true ∧
          (after.children group).head? = some first ∧
          (after.children group).getLast? = some last) <->
        tree.findClosing? list i opening closing = some j)) ∧
    (forall i first, tree.child? list i = some first -> tree.hits first opening = true ->
      tree.findClosing? list i opening closing = none -> first ∈ after.children list) := by
  cases room with
  | zero =>
      cases h
  | succ room =>
      refine ⟨?_, ?_⟩
      · intro i j first last hfirst hopen hlast hclose
        have hafter := (Pass.changesWithin_of_run (Pass.pairs_sound kind)
          (Pass.tagsChildren_pairs kind) hwf h).wellFormed hwf
        rcases Pass.pairs_waits_or_paired hopening hclosing hwf htokens h hfirst hopen with
          ⟨hnone, hmem⟩ | ⟨stop, end', own, hfound, hstop, _, hkind, hhead, hend⟩
        · refine ⟨?_, fun hsome => by rw [hnone] at hsome; cases hsome⟩
          rintro ⟨group, _, hhead, hend⟩
          have hparent := hafter.parent?_of_mem (List.mem_of_mem_head? hhead)
          cases hparent.symm.trans (hafter.parent?_of_mem hmem)
          exact absurd hend
            (Pass.not_last_of_waiting hopening hclosing hwf h hopen hclose hhead)
        · constructor
          · rintro ⟨group, _, hhead', hend'⟩
            have hparent := hafter.parent?_of_mem (List.mem_of_mem_head? hhead')
            cases hparent.symm.trans (hafter.parent?_of_mem (List.mem_of_mem_head? hhead))
            cases hend.symm.trans hend'
            have hlt := (List.getElem?_eq_some_iff.mp hstop).1
            rw [hfound, (List.getElem?_inj hlt (hwf.nodup_children list)).mp
              (hstop.trans hlast.symm)]
          · intro hsome
            cases hfound.symm.trans hsome
            cases hstop.symm.trans hlast
            exact ⟨own, beq_iff_eq.mpr hkind, hhead, hend⟩
      · intro i first hfirst hopen hnone
        rcases Pass.pairs_waits_or_paired hopening hclosing hwf htokens h hfirst hopen with
          ⟨_, hmem⟩ | ⟨_, _, _, hfound, _⟩
        · exact hmem
        · rw [hnone] at hfound
          cases hfound

/-- In `( ( ) ) (` there are two pairs, one in the other, and an opening token alone. -/
theorem pairs_agree_with_scan_nested :
    exists s after, s = Statement.ofTokens [⟨.punctuation, ['('], some 0⟩,
        ⟨.punctuation, ['('], some 1⟩, ⟨.punctuation, [')'], some 2⟩,
        ⟨.punctuation, [')'], some 3⟩, ⟨.punctuation, ['('], some 4⟩] ∧
      exec ((Pass.pairs .parenthesis).run 1 1 s.root) s.tree = (.ok (), after) ∧
      (exists group, after.isKind group .parenthesis = true ∧
        (after.children group).head? = some 0 ∧ (after.children group).getLast? = some 3) ∧
      (exists group, after.isKind group .parenthesis = true ∧
        (after.children group).head? = some 1 ∧ (after.children group).getLast? = some 2) ∧
      4 ∈ after.children s.root := by
  have hrun : ends (fun _ => true) (exec ((Pass.pairs .parenthesis).run 1 1 5)
      (Statement.ofTokens [⟨.punctuation, ['('], some 0⟩,
        ⟨.punctuation, ['('], some 1⟩, ⟨.punctuation, [')'], some 2⟩,
        ⟨.punctuation, [')'], some 3⟩, ⟨.punctuation, ['('], some 4⟩]).tree) = true := by
    decide
  rcases exists_of_ends hrun with ⟨after, hexec, _⟩
  rcases pairs_agree_with_scan rfl rfl (Statement.wellFormed_ofTokens _) (by decide) hexec
    with ⟨hpairs, halone⟩
  exact ⟨_, after, rfl, hexec,
    (hpairs 0 3 0 3 rfl (by decide) rfl (by decide)).mpr (by decide),
    (hpairs 1 2 1 2 rfl (by decide) rfl (by decide)).mpr (by decide),
    halone 4 4 rfl (by decide) (by decide)⟩

end SqlLayout
