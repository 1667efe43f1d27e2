import Mathlib.Data.List.Chain
import SqlLayout.Proofs.Grouping.FirstChildren
import SqlLayout.Proofs.Layout.BlankTokens
import SqlLayout.Proofs.Layout.Filters
import SqlLayout.Proofs.Layout.Spaces

/-!
# Stripping keeps tokens apart

Two leaves with blanks between them are one space apart after the blanks are stripped,
except next to brackets and before commas.  It is children that are taken for brackets:
where a group stands in the place of one, the space next to it is lost.
-/

namespace SqlLayout

namespace Tree

variable {tree after : Tree} {list left blank right : NodeId} {front rest back : List NodeId}

theorem children_stripBlanksWithin {depth : Nat} (hwf : tree.WellFormed)
    (hkind : tree.kind? list = some .statement) :
    (stripBlanksWithin depth false list tree).children list = tree.children list := by
  cases depth with
  | zero =>
      rfl
  | succ depth =>
      have hown := token?_foldl_sublists
        (fun id => strips_stripBlanksWithin depth false id) hwf list
      rw [stripBlanksWithin_succ]
      generalize (tree.sublists list).foldl
        (fun tree sublist => stripBlanksWithin depth false sublist tree) tree = visited at hown ⊢
      unfold stripChildren stripOfKind
      rw [hown.1, hkind]
      dsimp only
      rw [children_collapseBlanks, hown.2.1]

theorem blank_of_stripBlanksWithin {depth : Nat} {root : NodeId} (hwf : tree.WellFormed)
    (hroot : tree.kind? root = some .statement) (hnests : tree.nestsWithin (depth + 1) root = true)
    (hbelow : tree.AtOrAbove root list) (h : tree.children list = front ++ left :: blank :: rest)
    (hleft : tree.isWhitespace left = false) (hblank : tree.isWhitespace blank = true)
    (hcomma : forall next, rest.head? = some next -> tree.isPunctuationIn next [[',']] = false)
    (hlast : list = root -> rest ≠ []) :
    (tree.isKind list .parenthesis = true ∧ (front = [] ∨ rest.length = 1) ->
      blank ∉ (stripBlanksWithin (depth + 1) true root tree).children list) ∧
    (¬ (tree.isKind list .parenthesis = true ∧ (front = [] ∨ rest.length = 1)) ->
      blank ∈ (stripBlanksWithin (depth + 1) true root tree).children list ∧
        ((stripBlanksWithin (depth + 1) true root tree).token? blank).map Token.value =
          some [' ']) := by
  have hgroup : tree.isGroup root = true := isGroup_iff_kind?.mpr ⟨_, hroot⟩
  have hmem : blank ∈ tree.children list := by
    rw [h]
    simp
  have hinner := spacesIn_stripBlanksWithin (depth + 1) tree root list hwf hgroup hnests hbelow
    (isGroup_of_mem_children hmem) front left blank rest h hleft hblank hcomma
  have hown : (stripBlanksWithin (depth + 1) false root tree).children root =
      tree.children root := children_stripBlanksWithin hwf hroot
  have hedit := strips_stripBlanksWithin (depth + 1) false root tree hwf hgroup
  rw [stripBlanksWithin_root]
  generalize stripBlanksWithin (depth + 1) false root tree = inner at hinner hown hedit ⊢
  unfold removeBlank
  split
  · rename_i hlastBlank
    rcases childHas_iff.mp hlastBlank with ⟨child, hchild, _⟩
    have hremoved := removed_removeAt hedit.wellFormed hchild
    have htoken : (inner.removeAt root (inner.childCount root - 1)).token? blank =
        inner.token? blank := by
      apply hremoved.relisted.token?_eq
      rw [hedit.size_eq]
      exact hwf.child_lt_size hmem
    rw [htoken]
    by_cases hlist : list = root
    · subst hlist
      refine ⟨fun hno => ?_, fun hno => ⟨?_, (hinner.2 hno).2⟩⟩
      · rw [isKind, hroot] at hno
        cases hno.1
      · -- The last child comes from `rest`, so it is not the blank.
        have hne : child ≠ blank := by
          rintro rfl
          have hnodup := hwf.nodup_children list
          unfold child? childCount at hchild
          rw [hown, h] at hchild
          rw [h] at hnodup
          rw [← List.getLast?_eq_getElem?, List.getLast?_append, List.getLast?_cons_cons,
            List.getLast?_cons_of_ne_nil (hlast rfl)] at hchild
          cases hend : rest.getLast? with
          | none =>
              exact hlast rfl (List.getLast?_eq_none_iff.mp hend)
          | some last =>
              rw [hend] at hchild
              cases hchild
              have hin := List.mem_of_getLast? hend
              grind
        have hin := (hinner.2 hno).1
        rw [hremoved.children_list] at hin
        rw [hremoved.children_after_list]
        simp only [List.mem_append, List.mem_cons] at hin ⊢
        rcases hin with hin | rfl | hin
        · exact Or.inl hin
        · exact absurd rfl hne
        · exact Or.inr hin
    · rw [(observers_congr (hremoved.content?_other list hlist)).2.2]
      exact hinner
  · exact hinner

/-!
# Leaves beside a blank
-/

theorem split_eq_of_nodup {front back front' back' : List NodeId} {id : NodeId}
    (hnodup : (front ++ id :: back).Nodup)
    (h : front ++ id :: back = front' ++ id :: back') : front = front' ∧ back = back' := by
  have hfresh : id ∉ front ∧ id ∉ back := by
    grind
  rcases (List.append_cons_inj_of_notMem hfresh.1 hfresh.2).mp h with ⟨hfront, _, hback⟩
  exact ⟨hfront, hback⟩

/-- The leaves around a blank are those of the children around it, and then those around
its list. -/
theorem WellFormed.leaves_beside (hwf : tree.WellFormed) {root : NodeId}
    (hroot : root < tree.size) (hbelow : tree.AtOrAbove root list)
    (hblank : tree.isWhitespace blank = true)
    (hleaves : tree.leaves root = front ++ left :: blank :: right :: back)
    {before behind : List NodeId} (h : tree.children list = before ++ blank :: behind) :
    exists front' back', tree.leaves root = front' ++ tree.leaves list ++ back' ∧
      front ++ [left] = front' ++ before.flatMap tree.leaves ∧
      right :: back = behind.flatMap tree.leaves ++ back' := by
  have hmem : blank ∈ tree.children list := by
    rw [h]
    simp
  have hgroup := isGroup_of_mem_children hmem
  rcases tokenHas_iff.mp hblank with ⟨token, htoken, _⟩
  rcases hwf.leaves_between hgroup hbelow with ⟨front', back', haround⟩
  refine ⟨front', back', haround, ?_⟩
  have hnodup := hwf.nodup_leaves hroot
  rw [hwf.leaves_group hgroup, h, List.flatMap_append, List.flatMap_cons,
    WellFormed.leaves_token htoken] at haround
  have hsplit : (front ++ [left]) ++ blank :: right :: back =
      (front' ++ before.flatMap tree.leaves) ++ blank :: (behind.flatMap tree.leaves ++ back') := by
    rw [List.append_assoc, List.singleton_append, ← hleaves, haround]
    simp only [List.append_assoc, List.cons_append, List.nil_append]
  rw [hleaves, ← List.singleton_append (x := left), ← List.append_assoc] at hnodup
  exact split_eq_of_nodup hnodup hsplit

theorem eq_of_token_before {front' before : List NodeId} {child : NodeId} {token : Token}
    (hchild : tree.token? child = some token)
    (h : front ++ [left] = front' ++ (before ++ [child]).flatMap tree.leaves) : child = left := by
  rw [List.flatMap_append, List.flatMap_singleton, WellFormed.leaves_token hchild,
    ← List.append_assoc] at h
  exact (List.singleton_inj.mp (List.append_inj_right' h rfl)).symm

theorem eq_of_token_behind {behind back' : List NodeId} {child : NodeId} {token : Token}
    (hchild : tree.token? child = some token)
    (h : right :: back = (child :: behind).flatMap tree.leaves ++ back') : child = right := by
  rw [List.flatMap_cons, WellFormed.leaves_token hchild] at h
  exact (List.cons.inj h).1.symm

/-- A blank between two leaves stands in some list behind a child that is not blank.
Neither a comma nor the end of the statement follows it. -/
theorem WellFormed.exists_list_of_blank (hwf : tree.WellFormed) {root : NodeId}
    (hroot : tree.isGroup root = true) (hbegins : tree.GroupsBeginSolid)
    (hleaves : tree.leaves root = front ++ left :: blank :: right :: back)
    (hleft : tree.isWhitespace left = false) (hblank : tree.isWhitespace blank = true)
    (hright : tree.isPunctuationIn right [[',']] = false) :
    exists list before child behind, tree.AtOrAbove root list ∧
      tree.children list = before ++ child :: blank :: behind ∧
      tree.isWhitespace child = false ∧
      (forall next, behind.head? = some next -> tree.isPunctuationIn next [[',']] = false) ∧
      (list = root -> behind ≠ []) := by
  have hid := lt_size_of_isGroup hroot
  have hin : blank ∈ tree.leaves root := by
    rw [hleaves]
    simp
  rcases hwf.atOrAbove_of_mem_leaves hid hin with ⟨rfl | habove, htoken⟩
  · rw [hroot] at htoken
    cases htoken
  rcases Relation.TransGen.tail'_iff.mp habove with ⟨list, hpath, hparent⟩
  have hmem := hwf.mem_of_parent? hparent
  have hgroup := isGroup_of_mem_children hmem
  have hbelow : tree.AtOrAbove root list := by
    rcases Relation.reflTransGen_iff_eq_or_transGen.mp hpath with rfl | hpath
    · exact Or.inl rfl
    · exact Or.inr hpath
  rcases List.append_of_mem hmem with ⟨before, behind, hchildren⟩
  rcases hwf.leaves_beside hid hbelow hblank hleaves hchildren with
    ⟨front', back', haround, hfront, hback⟩
  -- Around the leaves of the root there are none.
  have hnone : list = root -> front' = [] ∧ back' = [] := by
    rintro rfl
    have hlength := congrArg List.length haround
    rw [List.length_append, List.length_append] at hlength
    exact ⟨List.length_eq_zero_iff.mp (by omega), List.length_eq_zero_iff.mp (by omega)⟩
  rcases List.eq_nil_or_concat before with rfl | ⟨before, child, rfl⟩
  · exfalso
    rcases hbelow with rfl | hupper
    · rw [(hnone rfl).1] at hfront
      simp at hfront
    · rcases Relation.TransGen.tail'_iff.mp hupper with ⟨upper, _, hupper⟩
      rcases hbegins upper list (hwf.mem_of_parent? hupper) hgroup with ⟨first, hfirst, hsolid⟩
      unfold child? at hfirst
      rw [hchildren] at hfirst
      cases hfirst
      rw [hsolid] at hblank
      cases hblank
  · rw [List.concat_eq_append] at hchildren hfront
    refine ⟨list, before, child, behind, hbelow, ?_, ?_, ?_, ?_⟩
    · rw [hchildren, List.append_assoc]
      rfl
    · apply Bool.eq_false_iff.mpr
      intro hwhite
      rcases tokenHas_iff.mp hwhite with ⟨token, htoken, _⟩
      rw [eq_of_token_before htoken hfront, hleft] at hwhite
      cases hwhite
    · intro next hnext
      apply Bool.eq_false_iff.mpr
      intro hcomma
      rcases tokenHas_iff.mp hcomma with ⟨token, htoken, _⟩
      rcases List.head?_eq_some_iff.mp hnext with ⟨later, rfl⟩
      rw [eq_of_token_behind htoken hback, hright] at hcomma
      cases hcomma
    · rintro hlist rfl
      rw [(hnone hlist).2] at hback
      cases hback

/-!
# Groups in the place of brackets
-/

/-- A blank of a parenthesis beside a group that stands where the bracket should be: the
blank is the second child, or the last but one. -/
def AtTakenBracket (tree : Tree) (blank : NodeId) : Prop :=
  exists list bracket rest, tree.isKind list .parenthesis = true ∧
    tree.isGroup bracket = true ∧
    (tree.children list = bracket :: blank :: rest ∨
      tree.children list = rest ++ [blank, bracket])

/-- Where the leaves beside a blank are no brackets, the ends of the parenthesis next to it
are groups. -/
theorem atTakenBracket_iff (hwf : tree.WellFormed) {root : NodeId} (hroot : root < tree.size)
    (hbrackets : tree.BracketsKept) (hbelow : tree.AtOrAbove root list)
    (hleaves : tree.leaves root = front ++ left :: blank :: right :: back)
    (hblank : tree.isWhitespace blank = true)
    (hopening : tree.isPunctuationIn left [['(']] = false)
    (hclosing : tree.isPunctuationIn right [[')']] = false)
    {before behind : List NodeId} {child : NodeId}
    (hchildren : tree.children list = before ++ child :: blank :: behind) :
    tree.AtTakenBracket blank <->
      tree.isKind list .parenthesis = true ∧ (before = [] ∨ behind.length = 1) := by
  have hmem : blank ∈ tree.children list := by
    rw [hchildren]
    simp
  have hsplit : tree.children list = (before ++ [child]) ++ blank :: behind := by
    rw [hchildren, List.append_assoc]
    rfl
  have hnodup := hwf.nodup_children list
  rw [hsplit] at hnodup
  constructor
  · rintro ⟨other, bracket, rest, hkind, _, hends⟩
    have hmem' : blank ∈ tree.children other := by
      rcases hends with hends | hends
      · rw [hends]
        simp
      · rw [hends]
        simp
    have hsame : other = list :=
      Option.some.inj ((hwf.parent?_of_mem hmem').symm.trans (hwf.parent?_of_mem hmem))
    subst hsame
    refine ⟨hkind, hends.imp (fun hfirst => ?_) (fun hlast => ?_)⟩
    · have hfirst' : (before ++ [child]) ++ blank :: behind = [bracket] ++ blank :: rest :=
        hsplit.symm.trans hfirst
      have hlength := congrArg List.length (split_eq_of_nodup hnodup hfirst').1
      rw [List.length_append] at hlength
      exact List.length_eq_zero_iff.mp (Nat.succ.inj hlength)
    · rw [(split_eq_of_nodup hnodup (hsplit.symm.trans hlast)).2]
      rfl
  · rintro ⟨hkind, hends⟩
    rcases hwf.leaves_beside hroot hbelow hblank hleaves hsplit with
      ⟨front', back', _, hfront, hback⟩
    rcases hbrackets list .parenthesis ⟨.punctuation, [['(']]⟩ ⟨.punctuation, [[')']]⟩
      (eq_of_beq hkind) ⟨Or.inl rfl, rfl, rfl⟩ with
      ⟨⟨first, inner, last, hlist, hopens, hcloses⟩, _, _⟩
    rw [hwf.leaves_group (isGroup_of_mem_children hmem), hchildren] at hlist
    -- A token at an end is the bracket, and it stands next to the blank.
    rcases hends with rfl | hone
    · refine ⟨list, child, behind, hkind, ?_, Or.inl hchildren⟩
      have hin : child ∈ tree.children list := by
        rw [hchildren]
        simp
      rcases isGroup_or_token? (hwf.child_lt_size hin) with hgroup | ⟨token, htoken⟩
      · exact hgroup
      · rw [List.nil_append, List.flatMap_cons, WellFormed.leaves_token htoken] at hlist
        rw [← (List.cons.inj hlist).1, eq_of_token_before htoken hfront] at hopens
        exact absurd hopens (Bool.eq_false_iff.mp hopening)
    · rcases List.length_eq_one_iff.mp hone with ⟨bracket, rfl⟩
      refine ⟨list, bracket, before ++ [child], hkind, ?_, Or.inr (by rw [hchildren]; simp)⟩
      have hin : bracket ∈ tree.children list := by
        rw [hchildren]
        simp
      rcases isGroup_or_token? (hwf.child_lt_size hin) with hgroup | ⟨token, htoken⟩
      · exact hgroup
      · have hends :
            before ++ [child, blank, bracket] = (before ++ [child, blank]) ++ [bracket] := by
          rw [List.append_assoc]
          rfl
        rw [hends, List.flatMap_append, List.flatMap_singleton, WellFormed.leaves_token htoken,
          ← List.cons_append] at hlist
        have hsame := List.singleton_inj.mp (List.append_inj_right' hlist rfl)
        rw [← hsame, eq_of_token_behind htoken hback] at hcloses
        exact absurd hcloses (Bool.eq_false_iff.mp hclosing)

/-!
# Leaves that stay
-/

theorem exists_split_of_sublist {front back ids : List NodeId} {id : NodeId}
    (h : ids.Sublist (front ++ id :: back)) (hmem : id ∈ ids)
    (hnodup : (front ++ id :: back).Nodup) :
    exists front' back', ids = front' ++ id :: back' ∧ front'.Sublist front ∧
      back'.Sublist back := by
  have hfresh : id ∉ front ∧ id ∉ back := by
    grind
  rcases List.sublist_append_iff.mp h with ⟨front', later, rfl, hfront, hlater⟩
  have hin : id ∈ later :=
    (List.mem_append.mp hmem).resolve_left fun hin => hfresh.1 (hfront.subset hin)
  rcases List.sublist_cons_iff.mp hlater with hback | ⟨back', rfl, hback⟩
  · exact absurd (hback.subset hin) hfresh.2
  · exact ⟨front', back', rfl, hfront, hback⟩

/-- The text of some leaves. -/
def textOf (tree : Tree) (ids : List NodeId) : Text :=
  (ids.filterMap tree.token?).flatMap Token.value

/-- Leaves that are not blank stay, and between two of them at most the blank that was
there. -/
theorem Reblanked.exists_between {root : NodeId} (h : tree.Reblanked after)
    (hwf : tree.WellFormed) (hsize : after.size = tree.size) (hroot : root < tree.size)
    (hleaves : tree.leaves root = front ++ left :: blank :: right :: back)
    (hleft : tree.isWhitespace left = false) (hright : tree.isWhitespace right = false) :
    exists front' between back', after.leaves root = front' ++ left :: (between ++ right :: back') ∧
      (between = [blank] ∧ blank ∈ after.leaves root ∨
        between = [] ∧ blank ∉ after.leaves root) := by
  have hnodup := hwf.nodup_leaves hroot
  have hroot' : root < after.size := by
    rw [hsize]
    exact hroot
  have hsublist := h.leaves_sublist root hroot
  rw [List.filter_eq_self.mpr] at hsublist
  · have hkept : forall leaf, leaf ∈ tree.leaves root -> tree.isWhitespace leaf = false ->
        leaf ∈ after.leaves root := by
      intro leaf hmem hsolid
      have hin : leaf ∈ tree.solidLeaves root :=
        List.mem_filter.mpr ⟨hmem, by rw [hsolid]; rfl⟩
      rw [← h.solidLeaves_eq root hroot] at hin
      exact (List.mem_filter.mp hin).1
    have hin := hkept left (by rw [hleaves]; simp) hleft
    have hin' := hkept right (by rw [hleaves]; simp) hright
    have hnodup' := h.wellFormed.nodup_leaves hroot'
    rw [hleaves] at hnodup hsublist
    rcases exists_split_of_sublist hsublist hin hnodup with ⟨front', later, heq, hfront, hlater⟩
    rw [heq] at hin' hnodup' ⊢
    have hinLater : right ∈ later := by
      have hne : right ∉ front ∧ right ≠ left := by
        grind
      have hnot : right ∉ front' := fun hmem => hne.1 (hfront.subset hmem)
      simpa [hnot, hne.2] using hin'
    have hrest : ([blank] ++ right :: back).Nodup :=
      (List.nodup_cons.mp (hnodup.sublist (List.sublist_append_right front _))).2
    have hlater' : later.Sublist ([blank] ++ right :: back) := hlater
    rcases exists_split_of_sublist hlater' hinLater hrest with
      ⟨between, back', rfl, hbetween, hback⟩
    refine ⟨front', between, back', rfl, ?_⟩
    rcases List.sublist_singleton.mp hbetween with rfl | rfl
    · refine Or.inr ⟨rfl, ?_⟩
      have hfresh : blank ∉ front ∧ blank ≠ left ∧ blank ≠ right ∧ blank ∉ back := by
        grind
      have hnot : blank ∉ front' := fun hmem => hfresh.1 (hfront.subset hmem)
      have hnot' : blank ∉ back' := fun hmem => hfresh.2.2.2 (hback.subset hmem)
      simp [hnot, hnot', hfresh.2.1, hfresh.2.2.1]
    · exact Or.inl ⟨rfl, by simp⟩
  · intro leaf hmem
    rw [decide_eq_true_eq, ← hsize]
    exact h.wellFormed.leaf_lt_size hroot' hmem

theorem StrippedAt.mem_leaves_iff {touched : NodeId -> Prop} {root : NodeId}
    (h : tree.StrippedAt touched after) (hwf : tree.WellFormed)
    (hroot : tree.isGroup root = true) (hbelow : tree.AtOrAbove root list)
    (hmem : blank ∈ tree.children list) (htoken : tree.isGroup blank = false) :
    blank ∈ after.leaves root <-> blank ∈ after.children list := by
  have hid := lt_size_of_isGroup hroot
  have hlt := hwf.child_lt_size hmem
  have htoken' : after.isGroup blank = false := (h.reblanked.isGroup_eq hlt).trans htoken
  constructor
  · intro hleaf
    rcases (h.wellFormed.atOrAbove_of_mem_leaves (h.size_eq ▸ hid) hleaf).1 with rfl | habove
    · rw [hroot] at htoken
      cases htoken
    · rcases Relation.TransGen.tail'_iff.mp habove with ⟨parent, _, hparent⟩
      have hold := h.parent?_old _ _ hparent
      rw [hwf.parent?_of_mem hmem] at hold
      cases hold
      exact h.wellFormed.mem_of_parent? hparent
  · intro hchild
    have hgroup := isGroup_of_mem_children hmem
    have hlist := h.atOrAbove_of_solid hwf (tokenHas_of_isGroup hgroup _) hbelow
    exact h.wellFormed.mem_leaves_of_atOrAbove (h.size_eq ▸ hlt) htoken'
      (hlist.trans (Or.inr (above_of_parent? (h.wellFormed.parent?_of_mem hchild))))

end Tree

/-!
# Parsed statements
-/

theorem Statement.not_blank_behind_blank {s : Statement} (hapart : Token.BlanksApart s.tokens)
    {front back : List NodeId} {first second : NodeId}
    (hleaves : s.tree.leaves s.root = front ++ first :: second :: back)
    (hfirst : s.tree.isWhitespace first = true) : s.tree.isWhitespace second = false := by
  apply Bool.eq_false_iff.mpr
  intro hsecond
  rcases Tree.tokenHas_iff.mp hfirst with ⟨token, htoken, hblank⟩
  rcases Tree.tokenHas_iff.mp hsecond with ⟨next, hnext, hblank'⟩
  unfold Token.BlanksApart tokens Tree.tokens at hapart
  rw [hleaves, List.filterMap_append, List.filterMap_cons_some htoken,
    List.filterMap_cons_some hnext] at hapart
  have hsolid := (List.isChain_cons_cons.mp hapart.right_of_append).1 hblank
  rw [hblank'] at hsolid
  cases hsolid

theorem Statement.exists_one_blank {s : Statement} (hapart : Token.BlanksApart s.tokens)
    {front blanks back : List NodeId} (hleaves : s.tree.leaves s.root = front ++ (blanks ++ back))
    (hne : blanks ≠ [])
    (hblanks : forall blank, blank ∈ blanks -> s.tree.isWhitespace blank = true) :
    exists blank, blanks = [blank] := by
  rcases List.exists_cons_of_ne_nil hne with ⟨blank, others, rfl⟩
  cases others with
  | nil =>
      exact ⟨blank, rfl⟩
  | cons second others =>
      have hsolid := not_blank_behind_blank hapart hleaves (hblanks blank List.mem_cons_self)
      rw [hblanks second (by simp)] at hsolid
      cases hsolid

/-- Where blanks stand between two leaves, one space is left between them after stripping,
or nothing.  The left leaf being no opening bracket, the right one no closing bracket and
no comma, there is nothing left if and only if the blank stands in a parenthesis beside a
group that took a bracket. -/
theorem stripBlanks_separates_iff {sql : Text} {options : LexerOptions} {limit : Nat}
    {statements : List Statement} (hparse : parse sql options limit = .ok statements)
    {s : Statement} (hs : s ∈ statements) {front blanks back : List NodeId} {left right : NodeId}
    (hleaves : s.tree.leaves s.root = front ++ left :: (blanks ++ right :: back))
    (hne : blanks ≠ []) (hblanks : forall blank, blank ∈ blanks -> s.tree.isWhitespace blank = true)
    (hleft : s.tree.isWhitespace left = false) (hright : s.tree.isWhitespace right = false)
    (hopening : s.tree.isPunctuationIn left [['(']] = false)
    (hclosing : s.tree.isPunctuationIn right [[')']] = false)
    (hcomma : s.tree.isPunctuationIn right [[',']] = false) :
    exists front' between back',
      s.stripBlanks.tree.leaves s.root = front' ++ left :: (between ++ right :: back') ∧
      (s.stripBlanks.tree.textOf between = [' '] ∨ s.stripBlanks.tree.textOf between = []) ∧
      (s.stripBlanks.tree.textOf between = [' '] <->
        forall blank, blank ∈ blanks -> ¬ s.tree.AtTakenBracket blank) := by
  rcases parse_ok hparse with ⟨config, _, hgroups⟩
  rcases exists_of_mem_forall₂ hgroups hs with ⟨flat, hflat, hgroup⟩
  rcases exists_of_mem_splitStatements hflat with ⟨tokens, _, rfl⟩
  rcases Statement.wellFormed_of_group hgroup with ⟨hwf, hroot⟩
  have hkind := Statement.kind?_root_of_group hgroup
  have hid := Tree.lt_size_of_isGroup hroot
  -- There is one blank, which has its place in some list.
  rcases Statement.exists_one_blank (blanksApart_of_parse hparse hs)
    (hleaves.trans (List.append_assoc front [left] _).symm) hne hblanks with ⟨blank, rfl⟩
  have hblank := hblanks blank List.mem_cons_self
  rcases hwf.exists_list_of_blank hroot (Statement.groupsBeginSolid_of_group hgroup) hleaves hleft
    hblank hcomma with ⟨list, before, child, behind, hbelow, hchildren, hchild, hnext, hlast⟩
  have htaken := Tree.atTakenBracket_iff hwf hid
    (Statement.holds_of_group Pass.all_keep_brackets (Statement.bracketsKept_ofTokens tokens)
      hgroup) hbelow hleaves hblank hopening hclosing hchildren
  -- What becomes of it there decides what is left between the two.
  have hin : blank ∈ s.tree.children list := by
    rw [hchildren]
    simp
  rcases Nat.exists_eq_add_one_of_ne_zero (Nat.ne_of_gt (Nat.zero_lt_of_lt hid)) with
    ⟨depth, hdepth⟩
  have hnests : s.tree.nestsWithin (depth + 1) s.root = true :=
    hwf.nestsWithin_of_depth hid (by omega)
  have hfate := Tree.blank_of_stripBlanksWithin hwf hkind hnests hbelow hchildren hchild hblank
    hnext hlast
  have hedit := Tree.strips_stripBlanksWithin (depth + 1) true s.root s.tree hwf hroot
  have htoken : s.tree.isGroup blank = false := by
    rcases Tree.tokenHas_iff.mp hblank with ⟨token, htoken, _⟩
    exact Tree.isGroup_of_token? htoken
  have hleaf := hedit.mem_leaves_iff hwf hroot hbelow hin htoken
  rcases hedit.reblanked.exists_between hwf hedit.size_eq hid hleaves hleft hright with
    ⟨front', between, back', hafter, hbetween⟩
  unfold Statement.stripBlanks
  dsimp only
  rw [hdepth]
  refine ⟨front', between, back', hafter, ?_⟩
  generalize Tree.stripBlanksWithin (depth + 1) true s.root s.tree = stripped
    at hfate hleaf hbetween ⊢
  rw [← htaken] at hfate
  by_cases hplace : s.tree.AtTakenBracket blank
  · rcases hbetween with ⟨_, hstays⟩ | ⟨rfl, _⟩
    · exact absurd (hleaf.mp hstays) (hfate.1 hplace)
    · exact ⟨Or.inr rfl, nofun, fun hfree => absurd hplace (hfree blank List.mem_cons_self)⟩
  · rcases hfate.2 hplace with ⟨hstays, hvalue⟩
    rcases hbetween with ⟨rfl, _⟩ | ⟨_, hgone⟩
    · have hspace : stripped.textOf [blank] = [' '] := by
        rcases Option.map_eq_some_iff.mp hvalue with ⟨token, htoken, hspace⟩
        unfold Tree.textOf
        rw [List.filterMap_cons_some htoken, List.filterMap_nil, List.flatMap_singleton, hspace]
      refine ⟨Or.inl hspace, fun _ other hother => ?_, fun _ => hspace⟩
      rw [List.mem_singleton.mp hother]
      exact hplace
    · exact absurd (hleaf.mpr hstays) hgone

/-- Two blanks between names in brackets become one space. -/
theorem stripBlanks_separates_iff_names :
    exists statements s, parse (Text.of "(a  b)") {} defaultMaxDepth = .ok statements ∧
      s ∈ statements ∧ s.tree.leaves s.root = [0, 1, 2, 3, 4] ∧
      s.stripBlanks.text = Text.of "(a b)" ∧
      exists front' between back',
        s.stripBlanks.tree.leaves s.root = front' ++ 1 :: (between ++ 3 :: back') ∧
        (s.stripBlanks.tree.textOf between = [' '] ∨ s.stripBlanks.tree.textOf between = []) ∧
        (s.stripBlanks.tree.textOf between = [' '] <->
          forall blank, blank ∈ [2] -> ¬ s.tree.AtTakenBracket blank) := by
  have htokens : tokenize ⟨.generic, Vocabulary.ofDialect .generic⟩ (Text.of "(a  b)") =
      [⟨.punctuation, ['('], some 0⟩, ⟨.name, ['a'], some 1⟩,
       ⟨.whitespace, [' ', ' '], some 2⟩, ⟨.name, ['b'], some 4⟩,
       ⟨.punctuation, [')'], some 5⟩] := by
    decide +kernel
  rcases exists_parsed (p := fun s => s.tree.leaves s.root == [0, 1, 2, 3, 4] &&
      s.stripBlanks.text == Text.of "(a b)" &&
      s.tree.isWhitespace 2 && !s.tree.isWhitespace 1 && !s.tree.isWhitespace 3 &&
      !s.tree.isPunctuationIn 1 [['(']] && !s.tree.isPunctuationIn 3 [[')']] &&
      !s.tree.isPunctuationIn 3 [[',']])
    htokens (by decide +kernel) with ⟨statements, s, hparse, hs, hfound⟩
  simp only [Bool.and_eq_true, beq_iff_eq, Bool.not_eq_true'] at hfound
  rcases hfound with
    ⟨⟨⟨⟨⟨⟨⟨hleaves, htext⟩, hblank⟩, hleft⟩, hright⟩, hopening⟩, hclosing⟩, hcomma⟩
  have hplaces : s.tree.leaves s.root = [0] ++ 1 :: ([2] ++ 3 :: [4]) := hleaves
  exact ⟨statements, s, hparse, hs, hleaves, htext,
    stripBlanks_separates_iff hparse hs hplaces (List.cons_ne_nil _ _)
      (fun blank hmem => by rw [List.mem_singleton.mp hmem]; exact hblank)
      hleft hright hopening hclosing hcomma⟩

/-- The mark of a cast takes the bracket before it, and the space between a name and a
keyword goes as if it stood beside the bracket. -/
theorem stripBlanks_joins_words :
    ¬ forall (sql : Text) (statements : List Statement) (s : Statement)
      (front blanks back : List NodeId) (left right : NodeId),
      parse sql {} defaultMaxDepth = .ok statements -> s ∈ statements ->
      s.tree.leaves s.root = front ++ left :: (blanks ++ right :: back) -> blanks ≠ [] ->
      (forall blank, blank ∈ blanks -> s.tree.isWhitespace blank = true) ->
      s.tree.isWhitespace left = false -> s.tree.isWhitespace right = false ->
      s.tree.isPunctuationIn left [['(']] = false ->
      s.tree.isPunctuationIn right [[')']] = false ->
      s.tree.isPunctuationIn right [[',']] = false ->
      exists front' between back',
        s.stripBlanks.tree.leaves s.root = front' ++ left :: (between ++ right :: back') ∧
        s.stripBlanks.tree.textOf between = [' '] := by
  have htokens : tokenize ⟨.generic, Vocabulary.ofDialect .generic⟩ (Text.of "(::a and b)") =
      [⟨.punctuation, ['('], some 0⟩, ⟨.punctuation, [':', ':'], some 1⟩, ⟨.name, ['a'], some 3⟩,
       ⟨.whitespace, [' '], some 4⟩, ⟨.keyword, Text.of "and", some 5⟩,
       ⟨.whitespace, [' '], some 8⟩, ⟨.name, ['b'], some 9⟩, ⟨.punctuation, [')'], some 10⟩] := by
    decide +kernel
  rcases exists_parsed (p := fun s => s.tree.leaves s.root == [0, 1, 2, 3, 4, 5, 6, 7] &&
      s.stripBlanks.tree.leaves s.root == [0, 1, 2, 4, 5, 6, 7] &&
      s.tree.isWhitespace 3 && !s.tree.isWhitespace 2 && !s.tree.isWhitespace 4 &&
      !s.tree.isPunctuationIn 2 [['(']] && !s.tree.isPunctuationIn 4 [[')']] &&
      !s.tree.isPunctuationIn 4 [[',']])
    htokens (by decide +kernel) with ⟨statements, s, hparse, hs, hfound⟩
  simp only [Bool.and_eq_true, beq_iff_eq, Bool.not_eq_true'] at hfound
  rcases hfound with
    ⟨⟨⟨⟨⟨⟨⟨hleaves, hstripped⟩, hblank⟩, hleft⟩, hright⟩, hopening⟩, hclosing⟩, hcomma⟩
  intro hall
  rcases hall _ statements s [0, 1] [3] [5, 6, 7] 2 4 hparse hs hleaves (List.cons_ne_nil _ _)
    (fun blank hmem => by rw [List.mem_singleton.mp hmem]; exact hblank) hleft hright hopening
    hclosing hcomma with ⟨front', between, back', hafter, hspace⟩
  rw [hstripped] at hafter
  have hsplit : [0, 1] ++ 2 :: [4, 5, 6, 7] = front' ++ 2 :: (between ++ 4 :: back') := hafter
  have hlater := (Tree.split_eq_of_nodup (by decide) hsplit).2
  have hnone : [] = between :=
    (Tree.split_eq_of_nodup (by decide) (show [] ++ 4 :: [5, 6, 7] = between ++ 4 :: back' from
      hlater)).1
  rw [← hnone] at hspace
  cases hspace

end SqlLayout
