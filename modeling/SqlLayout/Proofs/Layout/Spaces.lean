import SqlLayout.Proofs.Grouping.Frames
import SqlLayout.Proofs.Layout.StrippingBlanks
import SqlLayout.Proofs.Tree.Traversals

/-!
# What stripping makes of a blank

A blank that follows another child of its list becomes one space.  It goes only if a
comma follows in a list of identifiers, or if it is the second child of a parenthesis or
the last but one, whatever the first and the last child are.
-/

namespace SqlLayout
namespace Tree

variable {tree middle after : Tree} {list left blank child : NodeId} {front rest : List NodeId}

/-!
# Taking out other blanks
-/

theorem behind_removeAt {idx : Nat} (hwf : tree.WellFormed)
    (h : tree.children list = front ++ left :: blank :: rest)
    (hleft : tree.isWhitespace left = false) (hchild : tree.child? list idx = some child)
    (hgone : tree.isWhitespace child = true) (hne : child ≠ blank) :
    exists front' rest', (tree.removeAt list idx).children list =
      front' ++ left :: blank :: rest' := by
  have hremoved := removed_removeAt hwf hchild
  have hleft' : child ≠ left := by
    rintro rfl
    rw [hgone] at hleft
    cases hleft
  rw [hremoved.children_after_list]
  have hsplit := hremoved.children_list
  generalize (tree.children list).take idx = before at hsplit
  generalize (tree.children list).drop (idx + 1) = behind at hsplit
  rw [h] at hsplit
  rcases List.append_eq_append_iff.mp hsplit with ⟨later, rfl, heq⟩ | ⟨later, rfl, heq⟩
  · -- The child is the first one of the two, the second, or comes after both.
    cases later with
    | nil =>
        cases heq
        exact absurd rfl hleft'
    | cons first later =>
        cases later with
        | nil =>
            cases heq
            exact absurd rfl hne
        | cons second later =>
            cases heq
            exact ⟨front, later ++ behind, by simp⟩
  · cases later with
    | nil =>
        cases heq
        exact absurd rfl hleft'
    | cons first later =>
        cases heq
        exact ⟨before ++ later, rest, by simp⟩

theorem behind_removeBlanks {positions : List Nat} (hwf : tree.WellFormed)
    (h : tree.children list = front ++ left :: blank :: rest)
    (hleft : tree.isWhitespace left = false)
    (hsorted : positions.Pairwise fun right left => left < right)
    (hblanks : forall idx, idx ∈ positions -> exists child, tree.child? list idx = some child ∧
      tree.isWhitespace child = true ∧ child ≠ blank) :
    exists front' rest',
      (positions.foldl (fun (tree : Tree) idx => tree.removeAt list idx) tree).children list =
        front' ++ left :: blank :: rest' := by
  induction positions generalizing tree front rest with
  | nil =>
      exact ⟨front, rest, h⟩
  | cons position positions ih =>
      rcases hblanks position List.mem_cons_self with ⟨child, hchild, hgone, hne⟩
      have hfirst := strippedAt_removeAt hwf hchild hgone
      rcases behind_removeAt hwf h hleft hchild hgone hne with ⟨front', rest', h'⟩
      rw [List.pairwise_cons] at hsorted
      refine ih hfirst.wellFormed h' ((hfirst.isWhitespace_eq left).trans hleft) hsorted.2 ?_
      intro idx hidx
      rcases hblanks idx (List.mem_cons_of_mem _ hidx) with ⟨other, hother, hblank, hne'⟩
      refine ⟨other, ?_, (hfirst.isWhitespace_eq other).trans hblank, hne'⟩
      rw [child?_removeAt_left hwf hchild (hsorted.1 idx hidx)]
      exact hother

theorem behind_removeBeforeCommas (hwf : tree.WellFormed)
    (h : tree.children list = front ++ left :: blank :: rest)
    (hleft : tree.isWhitespace left = false)
    (hcomma : forall next, rest.head? = some next -> tree.isPunctuationIn next [[',']] = false) :
    exists front' rest',
      ((tree.blanksBeforeCommas list).reverse.foldl
        (fun (tree : Tree) idx => tree.removeAt list idx) tree).children list =
        front' ++ left :: blank :: rest' := by
  apply behind_removeBlanks hwf h hleft
    (List.pairwise_reverse.mpr (pairwise_blanksBeforeCommas tree list))
  intro idx hidx
  rcases mem_blanksBeforeCommas (List.mem_reverse.mp hidx) with
    ⟨child, comma, hchild, hnext, hgone, hmark⟩
  refine ⟨child, hchild, hgone, ?_⟩
  rintro rfl
  have hplace : (tree.children list)[front.length + 1]? = some child := by
    rw [h, List.getElem?_append_right (Nat.le_add_right _ 1), Nat.add_sub_cancel_left]
    rfl
  have hidx : idx = front.length + 1 :=
    (List.getElem?_inj (child?_lt hchild) (hwf.nodup_children list)).mp
      (hchild.trans hplace.symm)
  subst hidx
  have hhead : rest.head? = some comma := by
    unfold child? at hnext
    rw [h, List.getElem?_append_right (by omega)] at hnext
    rw [List.head?_eq_getElem?, ← hnext]
    have hsub : front.length + 1 + 1 - front.length = 2 := by omega
    rw [hsub]
    rfl
  rw [hcomma comma hhead] at hmark
  cases hmark

theorem children_removeBlank (hwf : tree.WellFormed) (idx : Nat) :
    (tree.removeBlank list idx).children list =
      if tree.childHas list idx tree.isWhitespace then (tree.children list).eraseIdx idx
      else tree.children list := by
  unfold removeBlank
  split
  · rename_i hblank
    rcases childHas_iff.mp hblank with ⟨child, hchild, _⟩
    exact children_removeAt hwf hchild
  · rfl

theorem children_removeSecond (hwf : tree.WellFormed)
    (h : tree.children list = front ++ left :: blank :: rest)
    (hleft : tree.isWhitespace left = false) (hblank : tree.isWhitespace blank = true) :
    (front = [] -> (tree.removeBlank list 1).children list = left :: rest) ∧
      (front ≠ [] -> exists front', front' ≠ [] ∧
        (tree.removeBlank list 1).children list = front' ++ left :: blank :: rest) := by
  rw [children_removeBlank hwf]
  have hsecond : forall {id : NodeId}, (tree.children list)[1]? = some id ->
      tree.childHas list 1 tree.isWhitespace = tree.isWhitespace id := by
    intro id hid
    unfold childHas child?
    rw [hid]
  cases front with
  | nil =>
      refine ⟨fun _ => ?_, fun hne => absurd rfl hne⟩
      rw [if_pos (by rw [hsecond (by rw [h]; rfl), hblank]), h]
      rfl
  | cons first front =>
      refine ⟨nofun, fun _ => ?_⟩
      cases front with
      | nil =>
          refine ⟨[first], List.cons_ne_nil _ _, ?_⟩
          rw [if_neg (by rw [hsecond (by rw [h]; rfl), hleft]; exact Bool.false_ne_true), h]
      | cons second front =>
          rw [h]
          split
          · exact ⟨first :: front, List.cons_ne_nil _ _, rfl⟩
          · exact ⟨first :: second :: front, List.cons_ne_nil _ _, rfl⟩

theorem children_removeLastButOne (hwf : tree.WellFormed)
    (h : tree.children list = front ++ left :: blank :: rest)
    (hleft : tree.isWhitespace left = false) (hblank : tree.isWhitespace blank = true) :
    (rest.length = 1 ->
        blank ∉ (tree.removeBlank list (tree.childCount list - 2)).children list) ∧
      (rest.length ≠ 1 -> exists rest',
        (tree.removeBlank list (tree.childCount list - 2)).children list =
          front ++ left :: blank :: rest') := by
  have hcount : tree.childCount list - 2 = front.length + rest.length := by
    unfold childCount
    rw [h, List.length_append, List.length_cons, List.length_cons]
    omega
  have hnodup := hwf.nodup_children list
  rw [h] at hnodup
  have hplace : forall {id : NodeId}, (left :: blank :: rest)[rest.length]? = some id ->
      tree.childHas list (front.length + rest.length) tree.isWhitespace =
        tree.isWhitespace id := by
    intro id hid
    unfold childHas child?
    rw [h, List.getElem?_append_right (Nat.le_add_right _ _), Nat.add_sub_cancel_left, hid]
  rw [hcount, children_removeBlank hwf, h, List.eraseIdx_append_of_length_le (Nat.le_add_right _ _),
    Nat.add_sub_cancel_left]
  cases rest with
  | nil =>
      refine ⟨nofun, fun _ => ⟨[], ?_⟩⟩
      rw [if_neg (by rw [hplace rfl, hleft]; exact Bool.false_ne_true)]
  | cons next rest =>
      cases rest with
      | nil =>
          refine ⟨fun _ => ?_, fun hne => absurd rfl hne⟩
          rw [if_pos (by rw [hplace rfl, hblank])]
          change blank ∉ front ++ left :: [next]
          grind
      | cons last rest =>
          refine ⟨nofun, fun _ => ?_⟩
          split
          · exact ⟨(next :: last :: rest).eraseIdx rest.length, rfl⟩
          · exact ⟨next :: last :: rest, rfl⟩

theorem children_stripInside (hwf : tree.WellFormed) (hlist : tree.isGroup list = true)
    (h : tree.children list = front ++ left :: blank :: rest)
    (hleft : tree.isWhitespace left = false) (hblank : tree.isWhitespace blank = true) :
    (front = [] ∨ rest.length = 1 -> blank ∉ (tree.stripInside list).children list) ∧
      (¬ (front = [] ∨ rest.length = 1) -> exists front' rest',
        (tree.stripInside list).children list = front' ++ left :: blank :: rest') := by
  have hfirst := strips_removeBlank list 1 tree hwf hlist
  have hsecond := children_removeSecond hwf h hleft hblank
  unfold stripInside
  dsimp only
  dsimp only at hfirst
  generalize tree.removeBlank list 1 = first at hfirst hsecond ⊢
  by_cases hfront : front = []
  · -- The blank is gone, and what goes later does not bring it back.
    have hgone : blank ∉ first.children list := by
      have hnodup := hwf.nodup_children list
      rw [h, hfront] at hnodup
      rw [hsecond.1 hfront]
      grind
    refine ⟨fun _ => ?_, fun hno => absurd (Or.inl hfront) hno⟩
    split
    · rw [children_removeBlank hfirst.wellFormed]
      split
      · exact fun hmem => hgone (List.mem_of_mem_eraseIdx hmem)
      · exact hgone
    · exact hgone
  · rcases hsecond.2 hfront with ⟨front', hne, h'⟩
    have hcount : 2 < first.childCount list := by
      have hpos := List.length_pos_iff.mpr hne
      unfold childCount
      rw [h', List.length_append, List.length_cons, List.length_cons]
      omega
    rw [if_pos hcount]
    have hlast := children_removeLastButOne hfirst.wellFormed h'
      ((hfirst.isWhitespace_eq left).trans hleft) ((hfirst.isWhitespace_eq blank).trans hblank)
    refine ⟨fun hinside => hlast.1 (hinside.resolve_left hfront), fun hno => ?_⟩
    rcases hlast.2 fun hone => hno (Or.inr hone) with ⟨rest', h''⟩
    exact ⟨front', rest', h''⟩

/-!
# Collapsing
-/

theorem isWhitespace_setValue (tree : Tree) (id other : NodeId) (value : Text) :
    (tree.setValue id value).isWhitespace other = tree.isWhitespace other := by
  unfold isWhitespace tokenHas setValue
  rw [token?_modifyToken]
  by_cases hother : other = id
  · rw [if_pos hother, hother]
    cases tree.token? id with
    | none =>
        rfl
    | some token =>
        rfl
  · rw [if_neg hother]

theorem children_collapseBlanks (afterBlank : Bool) (ids : List NodeId) :
    (tree.collapseBlanks afterBlank ids).children list = tree.children list := by
  induction ids generalizing tree afterBlank with
  | nil =>
      rfl
  | cons id rest ih =>
      unfold collapseBlanks
      split
      · rw [ih]
        exact children_modifyToken id _ list
      · exact ih false

theorem token?_collapseBlanks (afterBlank : Bool) {ids : List NodeId} {id : NodeId}
    (hid : id ∉ ids) : (tree.collapseBlanks afterBlank ids).token? id = tree.token? id := by
  induction ids generalizing tree afterBlank with
  | nil =>
      rfl
  | cons first rest ih =>
      rw [List.mem_cons, not_or] at hid
      unfold collapseBlanks
      split
      · rw [ih true hid.2, setValue, token?_modifyToken, if_neg hid.1]
      · exact ih false hid.2

theorem value_collapseBlanks (afterBlank : Bool) (hleft : tree.isWhitespace left = false)
    (hblank : tree.isWhitespace blank = true)
    (hnodup : (front ++ left :: blank :: rest).Nodup) :
    ((tree.collapseBlanks afterBlank (front ++ left :: blank :: rest)).token? blank).map
      Token.value = some [' '] := by
  induction front generalizing tree afterBlank with
  | nil =>
      rcases tokenHas_iff.mp hblank with ⟨token, htoken, _⟩
      have hlater : blank ∉ rest := by
        grind
      rw [List.nil_append, collapseBlanks, if_neg (by rw [hleft]; exact Bool.false_ne_true),
        collapseBlanks, if_pos hblank, if_neg Bool.false_ne_true,
        token?_collapseBlanks true hlater, setValue, token?_modifyToken, if_pos rfl, htoken]
      rfl
  | cons first front ih =>
      rw [List.cons_append] at hnodup
      have hrest := (List.nodup_cons.mp hnodup).2
      rw [List.cons_append, collapseBlanks]
      split
      · apply ih true _ _ hrest
        · rw [isWhitespace_setValue]
          exact hleft
        · rw [isWhitespace_setValue]
          exact hblank
      · exact ih false hleft hblank hrest

/-!
# One list
-/

def SpacesIn (tree : Tree) (list : NodeId) (after : Tree) : Prop :=
  forall front left blank rest, tree.children list = front ++ left :: blank :: rest ->
    tree.isWhitespace left = false -> tree.isWhitespace blank = true ->
    (forall next, rest.head? = some next -> tree.isPunctuationIn next [[',']] = false) ->
    (tree.isKind list .parenthesis = true ∧ (front = [] ∨ rest.length = 1) ->
      blank ∉ after.children list) ∧
    (¬ (tree.isKind list .parenthesis = true ∧ (front = [] ∨ rest.length = 1)) ->
      blank ∈ after.children list ∧ (after.token? blank).map Token.value = some [' '])

theorem children_stripOfKind (hwf : tree.WellFormed) (hlist : tree.isGroup list = true)
    (h : tree.children list = front ++ left :: blank :: rest)
    (hleft : tree.isWhitespace left = false) (hblank : tree.isWhitespace blank = true)
    (hcomma : forall next, rest.head? = some next -> tree.isPunctuationIn next [[',']] = false) :
    (tree.isKind list .parenthesis = true ∧ (front = [] ∨ rest.length = 1) ->
        blank ∉ (stripOfKind list tree).children list) ∧
      (¬ (tree.isKind list .parenthesis = true ∧ (front = [] ∨ rest.length = 1)) ->
        exists front' rest', (stripOfKind list tree).children list =
          front' ++ left :: blank :: rest') := by
  unfold stripOfKind isKind
  split
  · rename_i hkind
    rw [hkind]
    exact ⟨nofun, fun _ => behind_removeBeforeCommas hwf h hleft hcomma⟩
  · rename_i hkind
    rw [hkind]
    have hinside := children_stripInside hwf hlist h hleft hblank
    exact ⟨fun hno => hinside.1 hno.2, fun hno => hinside.2 fun hends => hno ⟨rfl, hends⟩⟩
  · rename_i hparenthesis
    refine ⟨fun hno => absurd (eq_of_beq hno.1) hparenthesis, fun _ => ⟨front, rest, h⟩⟩

theorem spacesIn_stripChildren (hwf : tree.WellFormed) (hlist : tree.isGroup list = true) :
    tree.SpacesIn list (stripChildren list tree) := by
  intro front left blank rest h hleft hblank hcomma
  have hstripped := strips_stripOfKind list tree hwf hlist
  have hkind := children_stripOfKind hwf hlist h hleft hblank hcomma
  unfold stripChildren
  dsimp only
  generalize stripOfKind list tree = middle at hstripped hkind ⊢
  rw [children_collapseBlanks]
  refine ⟨hkind.1, fun hno => ?_⟩
  rcases hkind.2 hno with ⟨front', rest', h'⟩
  have hnodup := hstripped.wellFormed.nodup_children list
  rw [h'] at hnodup ⊢
  refine ⟨by simp, value_collapseBlanks true ?_ ?_ hnodup⟩
  · exact (hstripped.isWhitespace_eq left).trans hleft
  · exact (hstripped.isWhitespace_eq blank).trans hblank

/-!
# All lists
-/

theorem SpacesIn.congr {start finish : Tree} {id : NodeId} (h : middle.SpacesIn id after)
    (hkind : middle.kind? id = start.kind? id) (hchildren : middle.children id = start.children id)
    (htokens : forall child, child ∈ start.children id -> middle.token? child = start.token? child)
    (hchildren' : finish.children id = after.children id)
    (htokens' : forall child, child ∈ start.children id ->
      finish.token? child = after.token? child) :
    start.SpacesIn id finish := by
  intro front left blank rest hsplit hleft hblank hcomma
  have hmem : forall child, child ∈ front ++ left :: blank :: rest -> child ∈ start.children id :=
    fun child hchild => hsplit ▸ hchild
  have hleft' : middle.isWhitespace left = false :=
    (tokenHas_congr (htokens left (hmem left (by simp))) _).trans hleft
  have hblank' : middle.isWhitespace blank = true :=
    (tokenHas_congr (htokens blank (hmem blank (by simp))) _).trans hblank
  have hresult := h front left blank rest (hchildren.trans hsplit) hleft' hblank' (by
    intro next hnext
    have hin : next ∈ rest := List.mem_of_head? hnext
    refine Eq.trans ?_ (hcomma next hnext)
    exact tokenHas_congr (htokens next (hmem next (by simp [hin]))) _)
  unfold isKind at hresult ⊢
  rw [hkind] at hresult
  rw [hchildren', htokens' blank (hmem blank (by simp))]
  exact hresult

theorem spacesIn_foldl {visit : NodeId -> Tree -> Tree} {room : Nat}
    (hvisit : forall id, StripsBelow id (visit id))
    (hspaces : forall (tree : Tree) (id below : NodeId), tree.WellFormed ->
      tree.isGroup id = true -> tree.nestsWithin room id = true -> tree.AtOrAbove id below ->
      tree.isGroup below = true -> tree.SpacesIn below (visit id tree))
    {ids : List NodeId} (hwf : tree.WellFormed) (hnodup : ids.Nodup)
    (hids : forall id, id ∈ ids -> tree.parent? id = some list ∧ tree.isGroup id = true ∧
      tree.nestsWithin room id = true)
    {id below : NodeId} (hmem : id ∈ ids) (hbelow : tree.AtOrAbove id below)
    (hgroup : tree.isGroup below = true) :
    tree.SpacesIn below (ids.foldl (fun tree id => visit id tree) tree) := by
  induction ids generalizing tree with
  | nil =>
      cases hmem
  | cons first rest ih =>
      rcases List.nodup_cons.mp hnodup with ⟨hfresh, hnodup⟩
      rcases hids first List.mem_cons_self with ⟨hparent, hfirst, hnests⟩
      have hedit := hvisit first tree hwf hfirst
      -- Two of the groups have nothing below them in common.
      have happart : forall other node, other ∈ first :: rest -> other ≠ id ->
          tree.AtOrAbove id node -> ¬ tree.AtOrAbove other node := by
        intro other node hother hne hnode hnode'
        exact hne (hwf.eq_of_children_above (hwf.mem_of_parent? (hids other hother).1)
          (hwf.mem_of_parent? (hids id hmem).1) hnode' hnode)
      have hchild : forall child, child ∈ tree.children below -> tree.AtOrAbove id child :=
        fun child hin => hbelow.trans (Or.inr (above_of_parent? (hwf.parent?_of_mem hin)))
      rw [List.foldl_cons]
      by_cases heq : id = first
      · subst heq
        have hlater := strippedAt_foldl hvisit hedit.wellFormed fun other hother =>
          hedit.reblanked.isGroup_of_isGroup (hids other (List.mem_cons_of_mem _ hother)).2.1
        have hsame : forall node, tree.AtOrAbove id node ->
            (rest.foldl (fun tree id => visit id tree) (visit id tree)).content? node =
              (visit id tree).content? node := by
          intro node hnode
          apply hlater.content?_eq
          rintro ⟨other, hother, hnode'⟩
          exact happart other node (List.mem_cons_of_mem _ hother)
            (fun hsame => hfresh (hsame ▸ hother)) hnode (hedit.atOrAbove_of_atOrAbove hnode')
        refine (hspaces tree id below hwf hfirst hnests hbelow hgroup).congr rfl rfl
          (fun _ _ => rfl) (observers_congr (hsame below hbelow)).2.2 ?_
        intro child hin
        exact (observers_congr (hsame child (hchild child hin))).2.1
      · have hin : id ∈ rest := (List.mem_cons.mp hmem).resolve_left heq
        have hsame : forall node, tree.AtOrAbove id node ->
            (visit first tree).content? node = tree.content? node :=
          fun node hnode => hedit.content?_eq node
            (happart first node List.mem_cons_self (Ne.symm heq) hnode)
        have hkept := hedit.atOrAbove_of_solid hwf (tokenHas_of_isGroup hgroup _) hbelow
        refine SpacesIn.congr (ih hedit.wellFormed hnodup ?_ hin hkept
            (hedit.reblanked.isGroup_of_isGroup hgroup))
          (observers_congr (hsame below hbelow)).1 (observers_congr (hsame below hbelow)).2.2 ?_
          rfl fun _ _ => rfl
        · intro other hother
          rcases hids other (List.mem_cons_of_mem _ hother) with ⟨hparent', hgroup', hnests'⟩
          refine ⟨?_, hedit.reblanked.isGroup_of_isGroup hgroup', hedit.nestsWithin hwf hnests'⟩
          rw [hedit.parent?_solid other (tokenHas_of_isGroup hgroup' _)]
          exact hparent'
        · intro child hin
          exact (observers_congr (hsame child (hchild child hin))).2.1

theorem token?_foldl_sublists {visit : NodeId -> Tree -> Tree}
    (hvisit : forall id, StripsBelow id (visit id)) (hwf : tree.WellFormed) (list : NodeId) :
    ((tree.sublists list).foldl (fun tree id => visit id tree) tree).kind? list =
        tree.kind? list ∧
      ((tree.sublists list).foldl (fun tree id => visit id tree) tree).children list =
        tree.children list ∧
      forall child, child ∈ tree.children list ->
        ((tree.sublists list).foldl (fun tree id => visit id tree) tree).token? child =
          tree.token? child := by
  have hgroups : forall id, id ∈ tree.sublists list -> tree.isGroup id = true :=
    fun _ hid => isGroup_of_mem_sublists hid
  have hedit := strippedAt_foldl hvisit hwf hgroups
  generalize (tree.sublists list).foldl (fun tree id => visit id tree) tree = after at hedit ⊢
  have hsame : after.content? list = tree.content? list := by
    apply hedit.content?_eq
    rintro ⟨id, hid, hbelow⟩
    exact hwf.not_atOrAbove_list (List.mem_filter.mp hid).1 hbelow
  rcases observers_congr hsame with ⟨hkind, _, hchildren⟩
  refine ⟨hkind, hchildren, ?_⟩
  intro child hchild
  by_cases hgroup : tree.isGroup child = true
  · rw [token?_eq_none_of_isGroup hgroup,
      token?_eq_none_of_isGroup (hedit.reblanked.isGroup_of_isGroup hgroup)]
  · refine (observers_congr (hedit.content?_eq child ?_)).2.1
    rintro ⟨id, hid, hbelow⟩
    have heq : id = child := hwf.eq_of_children_above (List.mem_filter.mp hid).1 hchild hbelow
      (Or.inl rfl)
    exact hgroup (heq ▸ isGroup_of_mem_sublists hid)

theorem WellFormed.exists_sublist_above {id : NodeId} (hwf : tree.WellFormed)
    (habove : tree.Above list id) (hgroup : tree.isGroup id = true) :
    exists sublist, sublist ∈ tree.sublists list ∧ tree.AtOrAbove sublist id := by
  induction habove with
  | @single id hparent =>
      exact ⟨id, List.mem_filter.mpr ⟨hwf.mem_of_parent? hparent, hgroup⟩, Or.inl rfl⟩
  | tail _ hparent ih =>
      rcases ih (isGroup_of_mem_children (hwf.mem_of_parent? hparent)) with
        ⟨sublist, hsublist, hbelow⟩
      exact ⟨sublist, hsublist, hbelow.trans (Or.inr (above_of_parent? hparent))⟩

theorem spacesIn_stripBlanksWithin (depth : Nat) (tree : Tree) (list id : NodeId)
    (hwf : tree.WellFormed) (hlist : tree.isGroup list = true)
    (hnests : tree.nestsWithin depth list = true) (hbelow : tree.AtOrAbove list id)
    (hgroup : tree.isGroup id = true) :
    tree.SpacesIn id (stripBlanksWithin depth false list tree) := by
  induction depth generalizing tree list id with
  | zero =>
      cases hnests
  | succ depth ih =>
      have hvisit := fun id => strips_stripBlanksWithin depth false id
      have hown := token?_foldl_sublists hvisit hwf list
      have hbelow' := strips_sublists hvisit list tree hwf hlist
      have hspaces : forall sublist, sublist ∈ tree.sublists list ->
          tree.AtOrAbove sublist id -> tree.SpacesIn id ((tree.sublists list).foldl
            (fun tree sublist => stripBlanksWithin depth false sublist tree) tree) := by
        intro sublist hsublist habove
        have hids : forall other, other ∈ tree.sublists list -> tree.parent? other = some list ∧
            tree.isGroup other = true ∧ tree.nestsWithin depth other = true :=
          fun other hother => ⟨hwf.parent?_of_mem (List.mem_filter.mp hother).1,
            isGroup_of_mem_sublists hother, List.all_eq_true.mp hnests other hother⟩
        exact spacesIn_foldl hvisit ih hwf ((hwf.nodup_children list).filter _) hids hsublist
          habove hgroup
      rw [stripBlanksWithin_succ]
      dsimp only at hbelow'
      generalize (tree.sublists list).foldl
        (fun tree sublist => stripBlanksWithin depth false sublist tree) tree = visited
        at hown hbelow' hspaces ⊢
      have hstripped := strips_stripChildren list visited hbelow'.wellFormed
        (hbelow'.reblanked.isGroup_of_isGroup hlist)
      rcases hbelow with rfl | habove
      · exact (spacesIn_stripChildren hbelow'.wellFormed
          (hbelow'.reblanked.isGroup_of_isGroup hlist)).congr hown.1 hown.2.1 hown.2.2 rfl
          fun _ _ => rfl
      · rcases hwf.exists_sublist_above habove hgroup with ⟨sublist, hsublist, habove'⟩
        have hne : id ≠ list := by
          rintro rfl
          exact hwf.not_above_self id habove
        have hid : (stripChildren list visited).content? id = visited.content? id := by
          apply hstripped.content?_eq
          rintro (heq | ⟨_, hblank⟩)
          · exact hne heq
          · rw [hbelow'.isWhitespace_eq, show tree.isWhitespace id = false from
              tokenHas_of_isGroup hgroup _] at hblank
            cases hblank
        refine (hspaces sublist hsublist habove').congr rfl rfl (fun _ _ => rfl)
          (observers_congr hid).2.2 ?_
        intro child hchild
        have hparent := hwf.parent?_of_mem hchild
        refine (observers_congr (hstripped.content?_eq child ?_)).2.1
        rintro (rfl | ⟨hparent', _⟩)
        · exact hwf.not_above_self _ (habove.tail hparent)
        · have hlist' := hbelow'.parent?_old _ _ hparent'
          rw [hparent] at hlist'
          exact hne (Option.some.inj hlist')

end Tree
end SqlLayout
