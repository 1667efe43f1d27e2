import SqlLayout.Proofs.Grouping.RunLists

/-!
# One list for a run

A run of names with commas between them is grouped into one list, however its blanks and
comments stand, if no comment stands behind a comma.  A comment that does is taken for an
item: the list ends with it, and the name behind it stands apart.
-/

namespace SqlLayout

open Grouping Tree

/-!
# Tokens of a run
-/

namespace Token

variable {t : Token}

theorem isTrivia_of_category (h : t.isTrivia = true) :
    t.category ≠ .punctuation ∧ t.category ≠ .keyword ∧ t.category ≠ .wildcard := by
  unfold isTrivia isWhitespace isComment at h
  revert h
  cases t.category <;> decide

namespace InRun

theorem ne_wildcard (h : t.InRun) : t.category ≠ .wildcard := by
  rcases h with htrivia | hcomma | hname
  · exact (isTrivia_of_category htrivia).2.2
  · rw [category_of_isComma hcomma]
    decide
  · rw [hname]
    decide

theorem opensNone (h : t.InRun) : t.OpensNone := by
  have hother : t.category ≠ .punctuation -> t.category ≠ .keyword -> t.OpensNone := by
    intro hpunctuation hkeyword
    apply opensNone_of_opensGroup
    exact Bool.or_eq_false_iff.mpr
      ⟨hits_eq_false_of_ne hpunctuation, hits_eq_false_of_ne hkeyword⟩
  rcases h with htrivia | hcomma | hname
  · exact hother (isTrivia_of_category htrivia).1 (isTrivia_of_category htrivia).2.1
  · apply opensNone_of_opensGroup
    rcases t with ⟨category, value, position⟩
    rcases isComma_iff.mp hcomma with ⟨hcategory, hvalue⟩
    dsimp only at hcategory hvalue
    subst hcategory hvalue
    rfl
  · apply hother
    · rw [hname]
      decide
    · rw [hname]
      decide

end InRun
end Token

namespace CommaRun

theorem inRun (run : CommaRun) {t : Token} (ht : t ∈ run.tokens) : t.InRun := by
  rcases List.mem_cons.mp ht with rfl | hrest
  · exact Or.inr (Or.inr run.isName)
  · rcases List.mem_flatMap.mp hrest with ⟨item, _, hitem⟩
    rw [RunItem.tokens, List.mem_append, List.mem_cons, List.mem_append, List.mem_singleton]
      at hitem
    rcases hitem with hbefore | rfl | hbehind | rfl
    · exact Or.inl (item.before_isTrivia t hbefore)
    · exact Or.inr (Or.inl item.isComma)
    · exact Or.inl (item.behind_isTrivia t hbehind)
    · exact Or.inr (Or.inr item.isName)

theorem isClear_iff {run : CommaRun} :
    run.isClear = true <->
      forall item, item ∈ run.rest -> forall t, t ∈ item.behind -> t.isComment = false := by
  unfold isClear RunItem.isClear
  simp only [List.all_eq_true, Bool.not_eq_true']

theorem rest_ne_of_tokens (run : CommaRun) {first : Rose} {rest : List Rose}
    (hfirst : first.IsNamed) (htokens : Rose.tokensOf (first :: rest) = run.tokens) :
    rest ≠ [] := by
  rintro rfl
  rcases hfirst.2 with ⟨name, trivia, hname, _, htrivia⟩
  rcases List.exists_cons_of_ne_nil run.rest_ne with ⟨item, items, hitems⟩
  rw [Rose.tokensOf, hname, Rose.tokensOf, List.append_nil, tokens, List.cons.injEq] at htokens
  have hcomma : item.comma ∈ trivia := by
    rw [htokens.2, hitems, List.flatMap_cons, RunItem.tokens]
    simp
  have hnone := Token.isTrivia_of_isComma item.isComma
  rw [htrivia _ hcomma] at hnone
  cases hnone

/-- Two names with a comma between them, and blanks and comments behind the comma. -/
def twoNames (behind : List Token) (h : forall t, t ∈ behind -> t.isTrivia = true) : CommaRun where
  first := ⟨.name, ['a'], none⟩
  rest := [{
    before := []
    comma := ⟨.punctuation, [','], none⟩
    behind := behind
    name := ⟨.name, ['b'], none⟩
    before_isTrivia := by simp
    isComma := rfl
    behind_isTrivia := h
    isName := rfl }]
  isName := rfl
  rest_ne := by simp

end CommaRun

/-!
# One list
-/

namespace Rose

variable {front blanks roses : List Rose} {cur : Rose}

theorem countP_pos_of_hasMark {rose : Rose} (h : rose.HasMark) (hrose : rose ∈ roses) :
    0 < (tokensOf roses).countP fun t => !t.isTrivia := by
  rcases h with ⟨t, ht, htrivia⟩
  refine List.countP_pos_iff.mpr ⟨t, (infix_tokensOf hrose).subset ht, ?_⟩
  rw [htrivia]
  rfl

theorem countP_lt_of_marks (hcur : cur.HasMark)
    (hfront : exists rose, rose ∈ front ∧ rose.HasMark) {rose : Rose}
    (hrose : rose ∈ front ++ cur :: blanks) :
    (rose.tokens.countP fun t => !t.isTrivia) <
      (tokensOf (front ++ cur :: blanks)).countP fun t => !t.isTrivia := by
  rcases hfront with ⟨mark, hmark, hmarked⟩
  rcases List.append_of_mem hrose with ⟨left, right, hsplit⟩
  rw [hsplit, tokensOf_append, tokensOf, List.countP_append, List.countP_append]
  rcases List.append_eq_append_iff.mp hsplit with ⟨more, rfl, _⟩ | ⟨more, rfl, hmore⟩
  · have hpos := countP_pos_of_hasMark hmarked (List.mem_append_left more hmark)
    omega
  · cases more with
    | nil =>
        have hpos := countP_pos_of_hasMark hmarked hmark
        rw [List.append_nil] at hpos
        omega
    | cons head more =>
        rw [List.cons_append, List.cons.injEq] at hmore
        have hpos := countP_pos_of_hasMark hcur (List.mem_append_right more
          (List.mem_cons_self (a := cur) (l := blanks)))
        rw [← hmore.2] at hpos
        omega

theorem one_list_of_isNameList (hcur : cur.IsNameList)
    (hblanks : forall rose, rose ∈ blanks -> rose.isBlank = true) :
    (innerOf (cur :: blanks)).filter (sets { kind := (· == .identifierList) }) = [cur] ∧
      cur.tokens.filter (fun t => !t.isTrivia) =
        (tokensOf (cur :: blanks)).filter fun t => !t.isTrivia := by
  rcases hcur.group with ⟨children, rfl, hchildren⟩
  have hsets :
      (Rose.group .identifierList children).sets { kind := (· == .identifierList) } = true := rfl
  refine ⟨?_, ?_⟩
  · rw [innerOf, Rose.inner, List.filter_cons, if_pos hsets, List.filter_append,
      filter_innerOf_of_lacks fun rose hrose => (hchildren rose hrose).2,
      filter_innerOf_of_lacks fun rose hrose => (fitsList_of_isBlank (hblanks rose hrose)).2]
    rfl
  · have hnone : (tokensOf blanks).filter (fun t => !t.isTrivia) = [] := by
      apply List.filter_eq_nil_iff.mpr
      intro t ht
      rw [isTrivia_of_mem_tokensOf (fun rose hrose => Or.inl (hblanks rose hrose)) ht]
      exact Bool.false_ne_true
    rw [tokensOf, List.filter_append, hnone, List.append_nil]

end Rose

namespace CommaRun

open Rose

variable {run : CommaRun}

theorem inOneList_iff {s : Statement} (hwf : s.tree.WellFormed) (hroot : s.root < s.tree.size) :
    run.InOneList s <-> exists list,
      (s.tree.rose s.root).inner.filter (sets { kind := (· == .identifierList) }) = [list] ∧
        list.tokens.filter (fun t => !t.isTrivia) = run.marks := by
  rw [← hwf.groups_descendants hroot]
  constructor
  · rintro ⟨id, hfilter, hmarks⟩
    have hid : id ∈ s.tree.descendants s.root :=
      (List.mem_filter.mp (hfilter ▸ List.mem_singleton_self id)).1
    refine ⟨s.tree.rose id, by rw [hfilter]; rfl, ?_⟩
    rw [hwf.tokens_rose (hwf.descendant_lt_size hroot hid)]
    exact hmarks
  · rintro ⟨list, hfilter, hmarks⟩
    rcases List.map_eq_singleton_iff.mp hfilter with ⟨id, hid, rfl⟩
    have hmem : id ∈ s.tree.descendants s.root :=
      (List.mem_filter.mp (hid ▸ List.mem_singleton_self id)).1
    rw [hwf.tokens_rose (hwf.descendant_lt_size hroot hmem)] at hmarks
    exact ⟨id, hid, hmarks⟩

theorem inOneList_iff_isClear {s : Statement} {roses : List Rose} (hwf : s.tree.WellFormed)
    (hroot : s.root < s.tree.size) (hrose : s.tree.rose s.root = .group .statement roses)
    (htokens : tokensOf roses = run.tokens) (hlisted : ListedAt run.isClear roses []) :
    run.InOneList s <-> run.isClear = true := by
  rw [inOneList_iff hwf hroot, hrose, Rose.inner]
  rcases hlisted.ends with ⟨front, cur, blanks, rfl, hblanks, hcur, _, hends⟩
  have hmarks : run.marks = (tokensOf (front ++ cur :: blanks)).filter fun t => !t.isTrivia := by
    rw [htokens, run.filter_tokens]
  constructor
  · rintro ⟨list, hfilter, hlist⟩
    rcases hends with ⟨hclear, _⟩ | ⟨_, hfront⟩
    · exact hclear
    · -- The list is at or below one rose, which does not have all marks.
      have hmem : list ∈ innerOf (front ++ cur :: blanks) :=
        (List.mem_filter.mp (hfilter ▸ List.mem_singleton_self list)).1
      rw [innerOf_eq_flatMap, List.mem_flatMap] at hmem
      rcases hmem with ⟨rose, hmem, hlow⟩
      have hinfix : list.tokens <:+: rose.tokens := by
        rcases List.mem_cons.mp hlow with rfl | hinner
        · exact List.infix_refl _
        · exact infix_of_mem_inner rose hinner
      have hle := hinfix.sublist.countP_le (p := fun t => !t.isTrivia)
      have hlt := countP_lt_of_marks hcur.hasMark hfront hmem
      rw [hmarks] at hlist
      have hsame := congrArg List.length hlist
      rw [← List.countP_eq_length_filter, ← List.countP_eq_length_filter] at hsame
      omega
  · intro hclear
    rcases hends with ⟨_, rfl, hlist⟩ | ⟨hnot, _⟩
    · rcases one_list_of_isNameList hlist hblanks with ⟨hfilter, hsame⟩
      exact ⟨cur, hfilter, hsame.trans hmarks.symm⟩
    · rw [hclear] at hnot
      cases hnot

end CommaRun

/-!
# All passes
-/

namespace Statement

open Rose

theorem exists_group_of_commaRun (run : CommaRun) {limit : Nat} (hlimit : 4 <= limit) :
    exists after roses, (ofTokens run.tokens).group limit = .ok after ∧ after.tree.WellFormed ∧
      after.root < after.tree.size ∧ after.tree.rose after.root = .group .statement roses ∧
      tokensOf roses = run.tokens ∧ ListedAt run.isClear roses [] := by
  have hwf := wellFormed_ofTokens run.tokens
  have hone : 1 < limit := by omega
  have htokens : forall {after : Tree}, after.WellFormed ->
      Relation.ReflTransGen GroupStep (ofTokens run.tokens).tree after ->
      after.kind? (ofTokens run.tokens).root = some .statement ->
      tokensOf ((after.children (ofTokens run.tokens).root).map after.rose) = run.tokens := by
    intro after hafter hsteps hkind
    have hsame := tokens_eq_of_steps hsteps fun t ht => (run.inRun ht).ne_wildcard
    rw [hafter.rose_of_kind? hkind] at hsame
    exact hsame
  -- The comments and the names are grouped.
  rcases Pass.run_parts_lead hone _ _ hwf (stands_ofTokens fun t ht => run.inRun ht) with
    ⟨first, hfirst, hchanges, hparts⟩
  have hwf₁ := hchanges.wellFormed hwf
  have hlisting := listing_of_tokens holdRun_remark hparts.2
    (htokens hwf₁ hchanges.steps hparts.1)
  -- The comments behind the names go into their groups.
  rcases Pass.run_hosts_lead hone first _ hwf₁ ⟨hparts.1, hparts.2, _, hlisting⟩ with
    ⟨second, hsecond, hchanges₂, hkind₂, hhosts, hapart⟩
  have hwf₂ := hchanges₂.wellFormed hwf₁
  have hsteps₂ := hchanges.steps.trans hchanges₂.steps
  have htokens₂ := htokens hwf₂ hsteps₂ hkind₂
  have hrun : Rose.Run run.isClear
      ((second.children (ofTokens run.tokens).root).map second.rose) := by
    refine ⟨hhosts, ?_⟩
    rcases listing_of_tokens holdRun_remarks hhosts htokens₂ with ⟨head, rest, hroses, hhead, hrest⟩
    rw [hroses] at hapart htokens₂
    exact ⟨head, rest, hroses, hhead, run.rest_ne_of_tokens hhead htokens₂,
      @Continued.of_apart _ _ hrest [] head hhead hapart⟩
  -- The list is made, and the passes behind it find nothing.
  rcases Pass.run_lists_lead (by omega : 2 < limit) run.isClear second _ hwf₂ ⟨hkind₂, hrun⟩ with
    ⟨third, hthird, hchanges₃, hkind₃, hlisted⟩
  have hwf₃ := hchanges₃.wellFormed hwf₂
  have htokens₃ := htokens hwf₃ (hsteps₂.trans hchanges₃.steps) hkind₃
  have hblocks : Pass.Arranges limit
      (fun roses => ListedAt run.isClear roses [] ∧ tokensOf roses = run.tokens)
      (fun roses => ListedAt run.isClear roses [] ∧ tokensOf roses = run.tokens)
      (Pass.all.drop 19) := by
    refine Pass.blocks_arrange ?_ (fun _ h => h.1.nests) (by omega : 3 < limit)
    intro roses h rose hrose t ht
    apply (run.inRun _).opensNone
    rw [← h.2]
    exact (infix_tokensOf hrose).subset ht
  rcases hblocks third _ hwf₃ ⟨hkind₃, hlisted, htokens₃⟩ with
    ⟨last, hlast, hchanges₄, hkind₄, hlisted₄, htokens₄⟩
  refine ⟨{ ofTokens run.tokens with tree := last }, _, group_ok_iff_exec.mpr ⟨?_, rfl⟩,
    hchanges₄.wellFormed hwf₃, lt_size_of_content? (content?_of_kind? hkind₄),
    (hchanges₄.wellFormed hwf₃).rose_of_kind? hkind₄, htokens₄, hlisted₄⟩
  change exec ((Pass.all.take 14 ++ ((Pass.all.drop 14).take 4 ++
    ([Pass.binary .identifierList] ++ Pass.all.drop 19))).forM
      fun pass => pass.run limit limit (ofTokens run.tokens).root) _ = _
  rw [exec_forM_append, exec_bind, hfirst]
  dsimp only
  rw [exec_forM_append, exec_bind, hsecond]
  dsimp only
  rw [exec_forM_append, exec_bind, hthird]
  exact hlast

/-- The names of a run and its commas are in one list, the only one of the statement, if and
only if no comment stands behind a comma. -/
theorem one_list_iff_no_comment_behind_comma (run : CommaRun) {limit : Nat} (hlimit : 4 <= limit) :
    exists after, (ofTokens run.tokens).group limit = .ok after ∧
      (run.InOneList after <->
        forall item, item ∈ run.rest -> forall t, t ∈ item.behind -> t.isComment = false) := by
  rcases exists_group_of_commaRun run hlimit with
    ⟨after, roses, hgroup, hwf, hroot, hrose, htokens, hlisted⟩
  refine ⟨after, hgroup, ?_⟩
  rw [CommaRun.inOneList_iff_isClear hwf hroot hrose htokens hlisted, CommaRun.isClear_iff]

theorem one_list_of_blank_behind_comma :
    4 <= defaultMaxDepth ∧ exists after,
      (ofTokens (CommaRun.twoNames [⟨.whitespace, [' '], none⟩] (by decide)).tokens).group =
          .ok after ∧
        (CommaRun.twoNames [⟨.whitespace, [' '], none⟩] (by decide)).InOneList after := by
  refine ⟨by decide, ?_⟩
  rcases one_list_iff_no_comment_behind_comma
      (.twoNames [⟨.whitespace, [' '], none⟩] (by decide)) (by decide : 4 <= defaultMaxDepth) with
    ⟨after, hgroup, hlist⟩
  exact ⟨after, hgroup, hlist.mpr (by decide)⟩

/-- A comment between a comma and the name behind it ends the list. -/
theorem comment_behind_comma_ends_list :
    ¬ forall run : CommaRun, exists after,
      (ofTokens run.tokens).group = .ok after ∧ run.InOneList after := by
  intro h
  have hrun := h (.twoNames [⟨.blockComment, Text.of "/*c*/", none⟩] (by decide))
  generalize htwo : CommaRun.twoNames [⟨.blockComment, Text.of "/*c*/", none⟩] _ = run at hrun
  rcases hrun with ⟨after, hgroup, hlist⟩
  rcases exists_group_of_commaRun run (by decide : 4 <= defaultMaxDepth) with
    ⟨other, roses, hother, hwf, hroot, hrose, htokens, hlisted⟩
  rw [hgroup, Except.ok.injEq] at hother
  subst hother
  have hclear := (CommaRun.inOneList_iff_isClear hwf hroot hrose htokens hlisted).mp hlist
  rw [← htwo] at hclear
  revert hclear
  decide

end Statement
end SqlLayout
