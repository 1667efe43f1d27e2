import SqlLayout.Proofs.Grouping.BracketMarks
import SqlLayout.Proofs.Parsing

/-!
# Brackets of parsed statements

Pairs take the brackets of their own kind, but not those of the list around them.  So
no pass takes a bracket but for a mark, and in a parsed statement a bracket is a child
of its group unless a mark stands next to it.
-/

namespace SqlLayout

/-!
# Matching pairs
-/

def Tree.OpensWait (opening : TokenPattern) (tree : Tree) (list : NodeId) (cursor : Cursor) :
    Prop :=
  forall idx, idx ∈ cursor.opens ->
    exists id, tree.child? list idx = some id ∧ tree.hits id opening = true

theorem GroupKind.delimits_or_words {kind : GroupKind} {opening closing : TokenPattern}
    (hopening : kind.opening? = some opening) (hclosing : kind.closing? = some closing) :
    kind.Delimits opening closing ∨
      (opening.category = .keyword ∧ closing.category = .keyword) := by
  cases kind with
  | parenthesis =>
      exact Or.inl ⟨Or.inl rfl, hopening, hclosing⟩
  | squareBrackets =>
      exact Or.inl ⟨Or.inr rfl, hopening, hclosing⟩
  | caseBlock | beginBlock | forBlock | ifBlock | whereClause =>
      cases hopening
      cases hclosing
      exact Or.inr ⟨rfl, rfl⟩
  | _ =>
      cases hopening

theorem GroupKind.opening_category {kind : GroupKind} {opening closing : TokenPattern}
    (hopening : kind.opening? = some opening) (hclosing : kind.closing? = some closing) :
    opening.category ≠ .operator ∧ opening.category ≠ .wildcard := by
  rcases delimits_or_words hopening hclosing with hdelimits | ⟨hword, _⟩
  · exact hdelimits.category_ne.1
  · rw [hword]
    exact ⟨nofun, nofun⟩

theorem Tree.exists_token_of_hits {tree : Tree} {id : NodeId} {pattern other : TokenPattern}
    (h : tree.hits id pattern = true) (h' : tree.hits id other = true) :
    exists token : Token, token.hits pattern = true ∧ token.hits other = true := by
  rcases tokenHas_iff.mp h with ⟨token, htoken, hhits⟩
  rcases tokenHas_iff.mp h' with ⟨same, hsame, hhits'⟩
  cases htoken.symm.trans hsame
  exact ⟨token, hhits, hhits'⟩

theorem Pass.pair_spares {kind : GroupKind} {opening closing : TokenPattern}
    (hopening : kind.opening? = some opening) (hclosing : kind.closing? = some closing)
    {tree : Tree} {list : NodeId} {start stop : Nat} {first last : NodeId}
    (hlt : start < stop) (hfirst : tree.child? list start = some first)
    (hopens : tree.hits first opening = true) (hlast : tree.child? list stop = some last)
    (hcloses : tree.hits last closing = true) (hhost : tree.kind? list ≠ some kind) :
    Span.Spares ⟨kind, start, stop, false⟩ tree list := by
  rcases GroupKind.delimits_or_words hopening hclosing with hdelimits | ⟨hword, hword'⟩
  · refine ⟨nofun, ?_, ?_, ?_⟩
    · rintro opening' closing' ⟨_, hopening', hclosing'⟩
      cases hopening.symm.trans hopening'
      cases hclosing.symm.trans hclosing'
      exact ⟨hlt, ⟨first, hfirst, hopens⟩, last, hlast, hcloses⟩
    · intro host opening' closing' id hkind hother _ hid hhits
      cases hfirst.symm.trans hid
      have hne : host ≠ kind := fun heq => hhost (heq ▸ hkind)
      rcases Tree.exists_token_of_hits hopens hhits with ⟨token, hboth⟩
      exact absurd hboth (hdelimits.not_hits hother hne).1
    · intro host opening' closing' id hkind hother _ hid hhits
      cases hlast.symm.trans hid
      have hne : host ≠ kind := fun heq => hhost (heq ▸ hkind)
      rcases Tree.exists_token_of_hits hcloses hhits with ⟨token, hboth⟩
      exact absurd hboth (hdelimits.not_hits hother hne).2
  · apply Span.Spares.of_ends
    · rintro opening' closing' hdelimits
      cases hopening.symm.trans hdelimits.opening_eq
      rcases hdelimits.cases with ⟨_, rfl, _⟩ | ⟨_, rfl, _⟩
      · cases hword
      · cases hword
    · intro id hid
      cases hfirst.symm.trans hid
      exact Tree.not_isBracket_of_hits hopens (by rw [hword]; nofun)
    · intro id hid
      cases hlast.symm.trans hid
      exact Tree.not_isBracket_of_hits hcloses (by rw [hword']; nofun)

theorem Move.Groups.child?_before {tree after : Tree} {list : NodeId} {cursor : Cursor}
    {move : Move} {span : Span} (hwf : tree.WellFormed) (hfits : move.Fits tree list cursor)
    (h : move.Groups list tree after) (hspan : move.span = some span) :
    tree.TokensKept after ∧
      forall idx, idx < span.start -> after.child? list idx = tree.child? list idx := by
  have htag := Move.retagged_tagged hfits
  rcases h.cases hwf hfits with
    ⟨other, front, moved, back, hother, hchildren, hstart, _, hgrouped⟩
  cases hspan.symm.trans hother
  have hfront : forall group, after.children list = front ++ group :: back ->
      forall idx, idx < span.start -> after.child? list idx = tree.child? list idx := by
    intro group hafter idx hlt
    rw [← hstart] at hlt
    unfold Tree.child?
    rw [hafter, hchildren, List.append_assoc, List.getElem?_append_left hlt,
      List.getElem?_append_left hlt]
  rcases hgrouped with ⟨hwrapped, _⟩ | ⟨group, rest, _, _, _, habsorbed⟩
  · exact ⟨htag.tokensKept.trans (Tree.TokensKept.of_token?_eq hwrapped.token?_eq),
      hfront _ hwrapped.children_after_list⟩
  · exact ⟨htag.tokensKept.trans (Tree.TokensKept.of_token?_eq habsorbed.token?_eq),
      hfront _ habsorbed.children_after_list⟩

theorem Tree.OpensWait.kept {opening : TokenPattern} {tree after : Tree} {list : NodeId}
    {cursor later : Cursor} (h : tree.OpensWait opening list cursor)
    (hcategory : opening.category ≠ .operator ∧ opening.category ≠ .wildcard)
    (hkept : tree.TokensKept after) (hopens : later.opens ⊆ cursor.opens)
    (hchild : forall idx, idx ∈ later.opens -> after.child? list idx = tree.child? list idx) :
    after.OpensWait opening list later := by
  intro idx hidx
  rcases h idx (hopens hidx) with ⟨id, hid, hhits⟩
  refine ⟨id, ?_, ?_⟩
  · rw [hchild idx hidx]
    exact hid
  · rw [hkept.hits_eq hcategory]
    exact hhits

namespace Pass

variable {kind : GroupKind} {opening closing : TokenPattern}
  (hopening : kind.opening? = some opening) (hclosing : kind.closing? = some closing)
include hopening hclosing

theorem pairs_move {tree : Tree} {list : NodeId} {cursor : Cursor} {move : Move}
    (h : (Pass.pairs kind).plan tree list cursor = some move) :
    exists id, tree.child? list cursor.idx = some id ∧
      PairDoes kind opening closing tree cursor id move := by
  rw [pairs_plan hopening hclosing] at h
  exact pairDoes_of_planPair h

/-- A property that the spans of a pass for pairs keep, each from an opening token to a
closing one.  The pass looks into groups of other kinds, and it knows which opening tokens
wait. -/
theorem keeps_of_pairs {holds : Tree -> Prop}
    (h : forall (tree after : Tree) (list : NodeId) (cursor : Cursor) (move : Move) (start : Nat)
      (first last : NodeId), tree.WellFormed -> holds tree ->
      tree.kind? list ≠ some kind -> start < cursor.idx ->
      tree.child? list start = some first -> tree.hits first opening = true ->
      tree.child? list cursor.idx = some last -> tree.hits last closing = true ->
      move.Fits tree list cursor -> move.span = some ⟨kind, start, cursor.idx, false⟩ ->
      move.Groups list tree after -> holds after) :
    (Pass.pairs kind).Keeps holds (· ≠ kind) (Tree.OpensWait opening) where
  enters := by
    intro tree id other henters
    cases henters
  start := by
    intro tree list idx hidx
    cases hidx
  skip := by
    intro tree list cursor move hknown hmove hvisit hspan
    rcases pairs_move hopening hclosing hmove with ⟨id, hchild, hdoes⟩
    cases hdoes with
    | past _ _ _ =>
        exact hknown
    | into _ _ =>
        cases hvisit
    | opens _ hopens _ =>
        have hhits := (Bool.and_eq_true_iff.mp hopens).2
        exact List.forall_mem_cons.mpr ⟨⟨id, hchild, hhits⟩, hknown⟩
    | shuts _ _ _ =>
        cases hspan
  visit := by
    intro tree list cursor move id hknown hmove hvisit
    rcases pairs_move hopening hclosing hmove with ⟨other, hchild, hdoes⟩
    cases hdoes with
    | into hgroup hkind =>
        cases hvisit
        rcases Tree.isGroup_iff_kind?.mp hgroup with ⟨found, hfound⟩
        refine ⟨⟨found, hfound, ?_⟩, ?_⟩
        · rintro rfl
          rw [Tree.isKind, hfound, beq_self_eq_true] at hkind
          cases hkind
        · intro after hkept hchildren
          refine hknown.kept (GroupKind.opening_category hopening hclosing) hkept
            (List.Subset.refl _) ?_
          intro idx _
          unfold Tree.child?
          rw [hchildren]
    | past _ _ _ => cases hvisit
    | opens _ _ _ => cases hvisit
    | shuts _ _ _ => cases hvisit
  span := by
    intro tree after list host cursor move span hwf hcursor hholds hhost hsuits hknown hmove hspan
      hgroups
    have hfits := pairs_sound kind tree list cursor move hcursor hmove
    rcases pairs_move hopening hclosing hmove with ⟨id, hchild, hdoes⟩
    cases hdoes with
    | @shuts start opens _ hshuts hwaits =>
        cases hspan
        have hcloses := (Bool.and_eq_true_iff.mp hshuts).2
        have hordered := hcursor.opens_lt
        rw [hwaits, List.pairwise_cons, List.pairwise_cons] at hordered
        rcases hordered with ⟨hlt, hbefore, _⟩
        have hstart : start ∈ cursor.opens := by
          rw [hwaits]
          exact List.mem_cons_self
        rcases hknown start hstart with ⟨first, hfirst, hopens⟩
        have hother : tree.kind? list ≠ some kind := by
          rw [hhost]
          exact fun heq => hsuits (Option.some.inj heq)
        rcases hgroups.child?_before hwf hfits rfl with ⟨htokens, hsame⟩
        refine ⟨h tree after list cursor _ start first id hwf hholds hother
          (hlt start List.mem_cons_self) hfirst hopens hchild hcloses hfits rfl hgroups, ?_⟩
        refine hknown.kept (GroupKind.opening_category hopening hclosing) htokens ?_ ?_
        · rw [hwaits]
          exact List.subset_cons_self _ _
        · exact fun idx hidx => hsame idx (hbefore idx hidx)
    | past _ _ _ => cases hspan
    | into _ _ => cases hspan
    | opens _ _ _ => cases hspan

theorem keeps_pairs :
    (Pass.pairs kind).Keeps Tree.BracketsKept (· ≠ kind) (Tree.OpensWait opening) := by
  apply keeps_of_pairs hopening hclosing
  intro tree after list cursor move start first last hwf hkept hother hlt hfirst hopens hlast
    hcloses hfits hspan hgroups
  exact hgroups.bracketsKept hwf hfits hspan
    (pair_spares hopening hclosing hlt hfirst hopens hlast hcloses hother) hkept

end Pass

/-!
# All passes
-/

theorem Pass.all_keep_brackets : forall pass, pass ∈ Pass.all ->
    exists suits known, pass.Keeps Tree.BracketsKept suits known ∧ suits .statement := by
  have hseeker : forall {pass : Pass} {seeker : Seeker}, pass.plan = seeker.plan ->
      seeker.Sound -> seeker.Spares ->
      exists suits known, pass.Keeps Tree.BracketsKept suits known ∧ suits .statement :=
    fun hplan hsound hspares =>
      ⟨_, _, keeps_brackets_of_seeker hplan (sound_of_seeker hplan hsound) hspares, trivial⟩
  have hbinary : forall {rule : BinaryRule}, rule.Sound -> rule.retag = none -> rule.Spares ->
      exists suits known, (Pass.binary rule).Keeps Tree.BracketsKept suits known ∧
        suits .statement :=
    fun hsound hretag hspares =>
      ⟨_, _, keeps_binary hsound (binary_sound hsound hretag) hspares, trivial⟩
  intro pass hpass
  unfold Pass.all at hpass
  simp only [List.mem_cons, List.not_mem_nil, or_false] at hpass
  rcases hpass with rfl | rfl | rfl | rfl | rfl | rfl | rfl | rfl | rfl | rfl | rfl | rfl | rfl |
    rfl | rfl | rfl | rfl | rfl | rfl | rfl | rfl | rfl
  · exact hseeker Seeker.comments_plan Seeker.comment_sound Seeker.comment_spares
  · exact ⟨_, _, keeps_pairs rfl rfl, nofun⟩
  · exact ⟨_, _, keeps_pairs rfl rfl, nofun⟩
  · exact hseeker Seeker.functions_plan Seeker.call_sound Seeker.call_spares
  · exact hseeker Seeker.whereClauses_plan Seeker.whereWord_sound Seeker.whereWord_spares
  · exact ⟨_, _, keeps_pairs rfl rfl, nofun⟩
  · exact hbinary BinaryRule.period_sound rfl BinaryRule.period_spares
  · exact hbinary BinaryRule.subscript_sound rfl BinaryRule.subscript_spares
  · exact hseeker Seeker.identifiers_plan Seeker.name_sound Seeker.name_spares
  · exact hseeker Seeker.typedLiterals_plan Seeker.typeWord_sound Seeker.typeWord_spares
  · exact ⟨_, _, keeps_binary (BinaryRule.fromPrevToNext_sound rfl) operator_sound
      BinaryRule.operator_spares, trivial⟩
  · exact hseeker Seeker.orderings_plan Seeker.ordering_sound Seeker.ordering_spares
  · exact hbinary BinaryRule.typecast_sound rfl BinaryRule.typecast_spares
  · exact hbinary (BinaryRule.fromPrevToNext_sound rfl) rfl BinaryRule.aliasWithAs_spares
  · exact hseeker Seeker.aliases_plan Seeker.aliased_sound Seeker.aliased_spares
  · exact hbinary BinaryRule.assignment_sound rfl BinaryRule.assignment_spares
  · exact hbinary (BinaryRule.fromPrevToNext_sound rfl) rfl BinaryRule.comparison_spares
  · exact hseeker Seeker.trailingComments_plan Seeker.trailingComment_sound
      Seeker.trailingComment_spares
  · exact hbinary (BinaryRule.fromPrevToNext_sound rfl) rfl BinaryRule.identifierList_spares
  · exact ⟨_, _, keeps_pairs rfl rfl, nofun⟩
  · exact ⟨_, _, keeps_pairs rfl rfl, nofun⟩
  · exact ⟨_, _, keeps_pairs rfl rfl, nofun⟩

theorem Statement.bracketsKept_ofTokens (tokens : List Token) :
    (ofTokens tokens).tree.BracketsKept := by
  intro id kind opening closing hkind hdelimits
  have hne : kind ≠ .statement := by
    rcases hdelimits.bracket with rfl | rfl
    · nofun
    · nofun
  have hnot := isKind_ofTokens tokens id hne
  rw [Tree.isKind, hkind, beq_self_eq_true] at hnot
  cases hnot

/-- A group in brackets of a parsed statement has the brackets as its first and last
leaf.  They are its first and last child unless the mark of a cast, an alias or an
assignment stands next to them, blanks aside. -/
theorem brackets_of_parse {sql : Text} {options : LexerOptions} {limit : Nat}
    {statements : List Statement} (h : parse sql options limit = .ok statements)
    {s : Statement} (hs : s ∈ statements) {id : NodeId} {kind : GroupKind}
    (hkind : s.tree.kind? id = some kind) {opening closing : TokenPattern}
    (hdelimits : kind.Delimits opening closing) :
    exists first inner last, s.tree.leaves id = first :: (inner ++ [last]) ∧
      s.tree.hits first opening = true ∧ s.tree.hits last closing = true ∧
      ((s.tree.children id).head? = some first ∨ s.tree.MarkAfterFirst (s.tree.leaves id)) ∧
      ((s.tree.children id).getLast? = some last ∨
        s.tree.MarkBeforeLast (s.tree.leaves id)) := by
  rcases parse_ok h with ⟨config, _, hgroups⟩
  rcases exists_of_mem_forall₂ hgroups hs with ⟨flat, hflat, hgroup⟩
  rcases exists_of_mem_splitStatements hflat with ⟨tokens, _, rfl⟩
  have hkept := Statement.holds_of_group Pass.all_keep_brackets
    (Statement.bracketsKept_ofTokens tokens) hgroup
  rcases hkept id kind opening closing hkind hdelimits with
    ⟨⟨first, inner, last, hleaves, hopens, hcloses⟩, hfirst, hlast⟩
  refine ⟨first, inner, last, hleaves, hopens, hcloses, ?_, ?_⟩
  · rw [hleaves] at hfirst ⊢
    exact hfirst
  · rw [hleaves, ← List.cons_append, List.getLast?_concat] at hlast
    rw [hleaves]
    exact hlast

/-- A name in brackets. -/
theorem brackets_of_parse_name :
    exists statements s id, parse (Text.of "(a)") {} defaultMaxDepth = .ok statements ∧
      s ∈ statements ∧ s.tree.kind? id = some .parenthesis ∧
      exists first inner last, s.tree.leaves id = first :: (inner ++ [last]) ∧
        s.tree.hits first ⟨.punctuation, [Text.of "("]⟩ = true ∧
        s.tree.hits last ⟨.punctuation, [Text.of ")"]⟩ = true ∧
        ((s.tree.children id).head? = some first ∨ s.tree.MarkAfterFirst (s.tree.leaves id)) ∧
        ((s.tree.children id).getLast? = some last ∨
          s.tree.MarkBeforeLast (s.tree.leaves id)) := by
  have htokens : tokenize ⟨.generic, Vocabulary.ofDialect .generic⟩ (Text.of "(a)") =
      [⟨.punctuation, ['('], some 0⟩, ⟨.name, ['a'], some 1⟩, ⟨.punctuation, [')'], some 2⟩] := by
    decide +kernel
  rcases exists_parsed (p := fun s => s.tree.kind? 4 == some .parenthesis) htokens
    (by decide +kernel) with ⟨statements, s, hparse, hs, hkind⟩
  exact ⟨statements, s, 4, hparse, hs, eq_of_beq hkind,
    brackets_of_parse hparse hs (eq_of_beq hkind) ⟨Or.inl rfl, rfl, rfl⟩⟩

/-- The mark of a cast takes the bracket before it into the group of the cast. -/
theorem bracket_lost_to_cast :
    ¬ forall (sql : Text) (statements : List Statement) (s : Statement) (id : NodeId),
      parse sql {} defaultMaxDepth = .ok statements -> s ∈ statements ->
      s.tree.kind? id = some .parenthesis ->
      exists first, (s.tree.children id).head? = some first ∧
        s.tree.hits first ⟨.punctuation, [Text.of "("]⟩ = true := by
  have htokens : tokenize ⟨.generic, Vocabulary.ofDialect .generic⟩ (Text.of "(::a)") =
      [⟨.punctuation, ['('], some 0⟩, ⟨.punctuation, [':', ':'], some 1⟩, ⟨.name, ['a'], some 3⟩,
       ⟨.punctuation, [')'], some 4⟩] := by
    decide +kernel
  rcases exists_parsed (p := fun s => s.tree.kind? 5 == some .parenthesis &&
      (s.tree.children 5).head?.all fun first =>
        !s.tree.hits first ⟨.punctuation, [Text.of "("]⟩)
    htokens (by decide +kernel) with ⟨statements, s, hparse, hs, hfound⟩
  rcases Bool.and_eq_true_iff.mp hfound with ⟨hkind, hlost⟩
  intro hall
  rcases hall _ statements s 5 hparse hs (eq_of_beq hkind) with ⟨first, hfirst, hhits⟩
  rw [hfirst, Option.all_some, hhits] at hlost
  cases hlost

end SqlLayout
