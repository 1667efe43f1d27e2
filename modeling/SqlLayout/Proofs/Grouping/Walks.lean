import SqlLayout.Proofs.Grouping.Frames

/-!
# Invariants of a walk

A walk along a list is followed by an invariant of the tree and the place: if
each move keeps it, it holds where the walk ends, which is at the end of the list
or where the pass finds nothing more.
-/

namespace SqlLayout

open Grouping Tree

theorem Move.Fits.exists_child {tree : Tree} {list : NodeId} {cursor : Cursor} {move : Move}
    (h : move.Fits tree list cursor) : exists id, tree.child? list cursor.idx = some id := by
  apply Option.ne_none_iff_exists'.mp
  intro hnone
  exact Nat.not_le_of_lt h.inside (List.getElem?_eq_none_iff.mp hnone)

namespace Pass

variable {pass : Pass} (hsound : pass.Sound) {limit : Nat} {list : NodeId}

/-- What a move that succeeds has done. -/
inductive Moved (visit : NodeId -> Grouping Unit) (list : NodeId) (move : Move)
    (tree after : Tree) : Prop where
  | skip : move.visit = none -> move.span = none -> after = tree -> Moved visit list move tree after
  | visit {id : NodeId} : move.visit = some id -> id ∈ tree.children list ->
      exec (visit id) tree = (.ok (), after) -> Moved visit list move tree after
  | span {span : Span} : move.span = some span -> move.Groups list tree after ->
      Moved visit list move tree after

include hsound

theorem moved_of_perform {visit : NodeId -> Grouping Unit} {tree after : Tree} {cursor : Cursor}
    {move : Move} (hwf : tree.WellFormed) (hcursor : cursor.Ordered)
    (hplan : pass.plan tree list cursor = some move)
    (h : exec (perform visit list move) tree = (.ok (), after)) :
    Moved visit list move tree after := by
  have hfits := hsound tree list cursor move hcursor hplan
  cases hspan : move.span with
  | none =>
      have hretag := hfits.retag_eq_none hspan
      cases hvisit : move.visit with
      | none =>
          rw [exec_perform_skip hvisit hretag hspan] at h
          cases h
          exact Moved.skip hvisit hspan rfl
      | some id =>
          rw [exec_perform_visit hvisit hretag hspan] at h
          exact Moved.visit hvisit (List.mem_of_getElem? (hfits.visit_child id hvisit).1) h
  | some span =>
      have hne : move.span ≠ none := by simp [hspan]
      rcases takes_groupStep hsound tree list cursor move hwf hcursor hplan hne with
        ⟨result, hgroups, _⟩
      rw [exec_perform_span (hfits.visit_eq_none hne) hgroups] at h
      cases h
      exact Moved.span hspan hgroups

theorem childCount_of_moved {visit : NodeId -> Grouping Unit}
    (hvisit : forall id (tree : Tree), tree.WellFormed ->
      tree.ChangesWithin id (exec (visit id) tree).2)
    {tree after : Tree} {cursor : Cursor} {move : Move} (hwf : tree.WellFormed)
    (hcursor : cursor.Ordered) (hplan : pass.plan tree list cursor = some move)
    (h : Moved visit list move tree after) :
    after.childCount list + cursor.idx < tree.childCount list + move.cursor.idx := by
  have hfits := hsound tree list cursor move hcursor hplan
  have hadvances := hfits.advances
  have hskip : move.span = none -> after.children list = tree.children list ->
      after.childCount list + cursor.idx < tree.childCount list + move.cursor.idx := by
    intro hspan hchildren
    rw [hspan] at hadvances
    unfold Tree.childCount
    rw [hchildren]
    exact Nat.add_lt_add_left hadvances _
  cases h with
  | skip _ hspan heq =>
      exact hskip hspan (by rw [heq])
  | @visit id hsome hmem hexec =>
      have hchanges := hvisit id tree hwf
      rw [hexec] at hchanges
      exact hskip (hfits.visit_child id hsome).2 (hchanges.children_upper hwf hmem)
  | span hspan hgroups =>
      rcases hgroups.cases hwf hfits with
        ⟨found, front, moved, back, hfound, hchildren, hstart, hstop, hcases⟩
      rw [hspan] at hfound
      cases hfound
      rw [hspan] at hadvances
      dsimp only at hadvances
      have hcount : after.childCount list = front.length + back.length + 1 := by
        unfold Tree.childCount
        rcases hcases with ⟨hwrapped, _⟩ | ⟨group, rest, _, _, _, habsorbed⟩
        · rw [hwrapped.children_after_list, List.length_append, List.length_cons]
          rfl
        · rw [habsorbed.children_after_list, List.length_append, List.length_cons]
          rfl
      have hbefore : tree.childCount list = front.length + moved.length + back.length := by
        unfold Tree.childCount
        rw [hchildren, List.length_append, List.length_append]
      omega

variable (htags : pass.TagsChildren)
include htags

/-- An invariant that every move keeps holds where a walk ends. -/
theorem walk_rule {visit : NodeId -> Grouping Unit} {invariant : Tree -> Cursor -> Prop}
    (hvisit : forall id (tree : Tree), tree.WellFormed ->
      tree.ChangesWithin id (exec (visit id) tree).2)
    (hmove : forall (tree after : Tree) (cursor : Cursor) (move : Move), tree.WellFormed ->
      cursor.Ordered -> invariant tree cursor -> pass.plan tree list cursor = some move ->
      Moved visit list move tree after -> invariant after move.cursor)
    {budget : Nat} {tree after : Tree} {cursor : Cursor} (hwf : tree.WellFormed)
    (hcursor : cursor.Ordered) (hbudget : tree.childCount list <= cursor.idx + budget)
    (hstart : invariant tree cursor)
    (h : exec (walk visit list pass.plan budget cursor) tree = (.ok (), after)) :
    exists last, invariant after last ∧
      (pass.plan after list last = none ∨ after.childCount list <= last.idx) := by
  induction budget generalizing tree cursor with
  | zero =>
      cases h
      exact ⟨cursor, hstart, Or.inr hbudget⟩
  | succ budget ih =>
      unfold walk at h
      rw [exec_get_bind] at h
      cases hplan : pass.plan tree list cursor with
      | none =>
          rw [hplan] at h
          cases h
          exact ⟨cursor, hstart, Or.inl hplan⟩
      | some move =>
          rw [hplan] at h
          dsimp only at h
          rw [exec_bind] at h
          have hchanges := perform_changesWithin hsound htags hvisit hwf hcursor hplan
          rcases hexec : exec (perform visit list move) tree with ⟨e | u, next⟩
          · rw [hexec] at h
            cases h
          · rw [hexec] at h hchanges
            have hmoved := moved_of_perform hsound hwf hcursor hplan hexec
            have hordered := (hsound tree list cursor move hcursor hplan).ordered
            have hcount := childCount_of_moved hsound hvisit hwf hcursor hplan hmoved
            have hnext : next.childCount list <= move.cursor.idx + budget := by
              omega
            exact ih (hchanges.wellFormed hwf) hordered hnext
              (hmove tree next cursor move hwf hcursor hstart hplan hmoved) h

theorem walk_ok {visit : NodeId -> Grouping Unit} {invariant : Tree -> Cursor -> Prop}
    (hvisit : forall id (tree : Tree), tree.WellFormed ->
      tree.ChangesWithin id (exec (visit id) tree).2)
    (hmove : forall (tree after : Tree) (cursor : Cursor) (move : Move), tree.WellFormed ->
      cursor.Ordered -> invariant tree cursor -> pass.plan tree list cursor = some move ->
      Moved visit list move tree after -> invariant after move.cursor)
    (hstays : forall (tree : Tree) (cursor : Cursor) (move : Move), tree.WellFormed ->
      cursor.Ordered -> invariant tree cursor -> pass.plan tree list cursor = some move ->
      move.visit = none)
    {budget : Nat} {tree : Tree} {cursor : Cursor} (hwf : tree.WellFormed)
    (hcursor : cursor.Ordered) (hbudget : tree.childCount list <= cursor.idx + budget)
    (hstart : invariant tree cursor) :
    exists after last, exec (walk visit list pass.plan budget cursor) tree = (.ok (), after) ∧
      invariant after last ∧
      (pass.plan after list last = none ∨ after.childCount list <= last.idx) := by
  have hok : forall (budget : Nat) (tree : Tree) (cursor : Cursor), tree.WellFormed ->
      cursor.Ordered -> invariant tree cursor ->
      (exec (walk visit list pass.plan budget cursor) tree).1 = .ok () := by
    intro budget
    induction budget with
    | zero =>
        intro _ _ _ _ _
        rfl
    | succ budget ih =>
        intro tree cursor hwf hcursor hinvariant
        unfold walk
        rw [exec_get_bind]
        cases hplan : pass.plan tree list cursor with
        | none =>
            rfl
        | some move =>
            have hfits := hsound tree list cursor move hcursor hplan
            have hvisit := hstays tree cursor move hwf hcursor hinvariant hplan
            dsimp only
            rw [exec_bind]
            by_cases hspan : move.span = none
            · rw [exec_perform_skip hvisit (hfits.retag_eq_none hspan) hspan]
              exact ih tree move.cursor hwf hfits.ordered
                (hmove tree tree cursor move hwf hcursor hinvariant hplan
                  (Moved.skip hvisit hspan rfl))
            · rcases takes_groupStep hsound tree list cursor move hwf hcursor hplan hspan with
                ⟨after, hgroups, hstep⟩
              rcases Option.ne_none_iff_exists'.mp hspan with ⟨span, hsome⟩
              rw [exec_perform_span hvisit hgroups]
              exact ih after move.cursor (hstep.wellFormed hwf) hfits.ordered
                (hmove tree after cursor move hwf hcursor hinvariant hplan
                  (Moved.span hsome hgroups))
  rcases hexec : exec (walk visit list pass.plan budget cursor) tree with ⟨result, after⟩
  have hresult := hok budget tree cursor hwf hcursor hstart
  rw [hexec] at hresult
  dsimp only at hresult
  subst hresult
  rcases walk_rule hsound htags hvisit hmove hwf hcursor hbudget hstart hexec with
    ⟨last, hlast, hend⟩
  exact ⟨after, last, rfl, hlast, hend⟩

end Pass

/-!
# The roses around a place
-/

namespace Tree

variable {tree after : Tree} {list id : NodeId} {left right : List Rose}

theorem exists_rose_cons (h : (tree.children list).map tree.rose = left ++ right)
    (hchild : tree.child? list left.length = some id) :
    exists rest, right = tree.rose id :: rest := by
  have hget : (left ++ right)[left.length]? = some (tree.rose id) := by
    rw [← h, List.getElem?_map]
    unfold child? at hchild
    rw [hchild]
    rfl
  rw [List.getElem?_append_right (Nat.le_refl _), Nat.sub_self] at hget
  cases right with
  | nil =>
      cases hget
  | cons head rest =>
      rw [List.getElem?_cons_zero, Option.some.injEq] at hget
      exact ⟨rest, by rw [hget]⟩

theorem exists_roses_around {idx : Nat} (hchild : tree.child? list idx = some id) :
    exists left right, (tree.children list).map tree.rose = left ++ tree.rose id :: right ∧
      left.length = idx := by
  have hlt := child?_lt hchild
  have hle : idx <= (tree.children list).length := Nat.le_of_lt hlt
  refine ⟨((tree.children list).take idx).map tree.rose,
    ((tree.children list).drop (idx + 1)).map tree.rose, ?_, ?_⟩
  · rw [← List.map_cons, ← List.map_append, ← drop_of_child? hchild, List.take_append_drop]
  · rw [List.length_map, List.length_take_of_le hle]

theorem WellFormed.roses_of_siblings (hwf : tree.WellFormed)
    (h : forall other, other ∈ tree.children list -> other ≠ id ->
      after.rose other = tree.rose other)
    (hroses : (tree.children list).map tree.rose = left ++ tree.rose id :: right)
    (hchild : tree.child? list left.length = some id) :
    (tree.children list).map after.rose = left ++ after.rose id :: right := by
  rcases List.map_eq_append_iff.mp hroses with ⟨front, behind, hsplit, hfront, hbehind⟩
  rcases List.map_eq_cons_iff.mp hbehind with ⟨other, back, rfl, _, hback⟩
  have hid : other = id := by
    unfold child? at hchild
    rw [hsplit, ← hfront, List.length_map, List.getElem?_append_right (Nat.le_refl _),
      Nat.sub_self, List.getElem?_cons_zero, Option.some.injEq] at hchild
    exact hchild
  subst hid
  have hnodup := hwf.nodup_children list
  rw [hsplit] at hnodup
  have hsame : forall ids : List NodeId,
      (forall below, below ∈ ids -> below ∈ tree.children list ∧ below ≠ other) ->
      ids.map after.rose = ids.map tree.rose := fun ids hids =>
    List.map_congr_left fun below hbelow => h below (hids below hbelow).1 (hids below hbelow).2
  rw [hsplit, List.map_append, List.map_cons, hsame front, hsame back, hfront, hback]
  · intro below hbelow
    refine ⟨by rw [hsplit]; simp [hbelow], ?_⟩
    rintro rfl
    grind
  · intro below hbelow
    refine ⟨by rw [hsplit]; simp [hbelow], ?_⟩
    rintro rfl
    grind

theorem ChangesWithin.roses_upper (hwf : tree.WellFormed) (h : tree.ChangesWithin id after)
    (hroses : (tree.children list).map tree.rose = left ++ tree.rose id :: right)
    (hchild : tree.child? list left.length = some id) :
    (after.children list).map after.rose = left ++ after.rose id :: right := by
  have hmem : id ∈ tree.children list := List.mem_of_getElem? hchild
  rw [h.children_upper hwf hmem]
  exact hwf.roses_of_siblings (fun other hother hne => h.rose_sibling hwf hmem hother hne)
    hroses hchild

end Tree

theorem cut_middle {left right front moved back : List Rose}
    (h : left ++ right = front ++ moved ++ back) (hstart : front.length <= left.length)
    (hstop : left.length <= front.length + moved.length) :
    exists before behind, left = front ++ before ∧ right = behind ++ back ∧
      moved = before ++ behind := by
  have hfront : left = front ++ left.drop front.length := by
    have htake := congrArg (List.take front.length) h
    rw [List.take_append_of_le_length hstart, List.append_assoc, List.take_left] at htake
    exact (List.take_append_drop _ _).symm.trans (by rw [htake])
  rw [hfront, List.append_assoc, List.append_assoc] at h
  rcases List.append_eq_append_iff.mp (List.append_cancel_left h).symm with
    ⟨extra, hbefore, hback⟩ | ⟨behind, hmoved, hright⟩
  · -- The place is at the end of the middle.
    have hnil : extra = [] := by
      apply List.eq_nil_of_length_eq_zero
      have hlength := congrArg List.length hbefore
      rw [List.length_drop, List.length_append] at hlength
      omega
    rw [hnil, List.append_nil] at hbefore
    rw [hnil, List.nil_append] at hback
    exact ⟨moved, [], by rw [← hbefore, ← hfront], by simp [hback], by simp⟩
  · exact ⟨left.drop front.length, behind, hfront, hright, hmoved⟩

theorem Span.Regroups.cut {span : Span} {left right roses : List Rose}
    (h : span.Regroups (left ++ right) roses) (hstart : span.start <= left.length)
    (hstop : left.length <= span.stop + 1) :
    exists front before behind back group, left = front ++ before ∧ right = behind ++ back ∧
      front.length = span.start ∧ before.length + behind.length + span.start = span.stop + 1 ∧
      roses = front ++ group :: back ∧
      ((group = .group span.kind (before ++ behind) ∧
          (span.extend = true -> forall inner rest,
            before ++ behind ≠ .group span.kind inner :: rest)) ∨
        exists inner rest, span.extend = true ∧ before ++ behind = .group span.kind inner :: rest ∧
          group = .group span.kind (inner ++ rest)) := by
  generalize hwhole : left ++ right = whole at h
  cases h with
  | @wraps front moved back hfront hmoved hother =>
      rcases cut_middle hwhole (by omega) (by omega) with
        ⟨before, behind, hleft, hright, rfl⟩
      rw [List.length_append] at hmoved
      exact ⟨front, before, behind, back, _, hleft, hright, hfront, by omega, rfl,
        Or.inl ⟨rfl, hother⟩⟩
  | @absorbs front inner moved back hextend hfront hmoved =>
      have hsame : left ++ right = front ++ .group span.kind inner :: moved ++ back := by
        rw [hwhole, List.append_assoc, List.cons_append]
      rcases cut_middle hsame (by omega) (by rw [List.length_cons]; omega) with
        ⟨before, behind, hleft, hright, hcut⟩
      have hlength := congrArg List.length hcut
      rw [List.length_cons, List.length_append] at hlength
      exact ⟨front, before, behind, back, _, hleft, hright, hfront, by omega, rfl,
        Or.inr ⟨inner, moved, hextend, hcut.symm, rfl⟩⟩

end SqlLayout
