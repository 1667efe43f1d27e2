import SqlLayout.Proofs.Grouping.Brackets

/-!
# Spans that do not end in brackets

Most passes name what they group, and a bracket is not among it: where the first and
the last child of a span are something else, the brackets around the list stay.  A
WHERE clause goes as far as it can, but in brackets it stops before the closing one.
-/

namespace SqlLayout

/-!
# Children that are no brackets
-/

namespace Tree

variable {tree : Tree} {id : NodeId}

def isBracket (tree : Tree) (id : NodeId) : Bool := tree.tokenHas id Token.isBracket

theorem isBracket_of_hits {kind : GroupKind} {opening closing : TokenPattern}
    (h : kind.Delimits opening closing)
    (hhits : tree.hits id opening = true ∨ tree.hits id closing = true) :
    tree.isBracket id = true := by
  rcases hhits with hhits | hhits
  · rcases tokenHas_iff.mp hhits with ⟨token, htoken, hhas⟩
    exact tokenHas_iff.mpr ⟨token, htoken, h.isBracket_of_hits (Or.inl hhas)⟩
  · rcases tokenHas_iff.mp hhits with ⟨token, htoken, hhas⟩
    exact tokenHas_iff.mpr ⟨token, htoken, h.isBracket_of_hits (Or.inr hhas)⟩

theorem not_isBracket_of_isGroup (h : tree.isGroup id = true) : tree.isBracket id = false :=
  tokenHas_of_isGroup h _

theorem not_isBracket_of_isKind {kind : GroupKind} (h : tree.isKind id kind = true) :
    tree.isBracket id = false :=
  not_isBracket_of_isGroup (isGroup_iff_kind?.mpr ⟨kind, beq_iff_eq.mp h⟩)

theorem not_isBracket_of_isKindIn {kinds : List GroupKind} (h : tree.isKindIn id kinds = true) :
    tree.isBracket id = false := by
  unfold isKindIn at h
  split at h
  · rename_i kind hkind
    exact not_isBracket_of_isGroup (isGroup_iff_kind?.mpr ⟨kind, hkind⟩)
  · cases h

theorem not_isBracket_of_tokenHas {p : Token -> Bool} (h : tree.tokenHas id p = true)
    (hp : forall token, p token = true -> token.isBracket = false) :
    tree.isBracket id = false := by
  rcases tokenHas_iff.mp h with ⟨token, htoken, hhas⟩
  unfold isBracket tokenHas
  rw [htoken]
  exact hp token hhas

theorem not_isBracket_of_test {p : Category -> Bool}
    (h : tree.tokenHas id (fun token => p token.category) = true) (hp : p .punctuation = false) :
    tree.isBracket id = false := by
  apply not_isBracket_of_tokenHas h
  intro token htoken
  apply Token.not_isBracket_of_category
  intro hcategory
  rw [hcategory, hp] at htoken
  cases htoken

theorem not_isBracket_of_isCategory {category : Category}
    (h : tree.isCategory id category = true) (hne : category ≠ .punctuation) :
    tree.isBracket id = false := by
  rcases isCategory_iff.mp h with ⟨token, htoken, hcategory⟩
  unfold isBracket tokenHas
  rw [htoken]
  apply Token.not_isBracket_of_category
  rw [hcategory]
  exact hne

theorem not_isBracket_of_isA {category : Category} (h : tree.isA id category = true)
    (hne : Category.punctuation.isA category = false) : tree.isBracket id = false :=
  not_isBracket_of_test (p := fun c => c.isA category) h hne

theorem not_isBracket_of_isAIn {categories : List Category}
    (h : tree.isAIn id categories = true)
    (hne : categories.any Category.punctuation.isA = false) : tree.isBracket id = false :=
  not_isBracket_of_test (p := fun c => categories.any c.isA) h hne

theorem not_isBracket_of_isKeyword (h : tree.isKeyword id = true) : tree.isBracket id = false :=
  not_isBracket_of_test (p := Category.isKeyword) h rfl

theorem not_isBracket_of_hits {pattern : TokenPattern} (h : tree.hits id pattern = true)
    (hne : pattern.category ≠ .punctuation) : tree.isBracket id = false := by
  apply not_isBracket_of_tokenHas h
  intro token htoken
  apply Token.not_isBracket_of_category
  rw [Token.category_of_hits htoken]
  exact hne

theorem not_isBracket_of_mark {mark : Text} (h : tree.isPunctuationIn id [mark] = true)
    (hmark : mark ∉ [Text.of "(", Text.of ")", Text.of "[", Text.of "]"]) :
    tree.isBracket id = false :=
  not_isBracket_of_tokenHas h fun _ htoken => Token.not_isBracket_of_mark htoken hmark

theorem not_isBracket_of_holdsTrivia (h : tree.HoldsTrivia id) : tree.isBracket id = false := by
  apply Bool.eq_false_iff.mpr
  intro hbracket
  have htrivia := h.2 id (by rw [leaves_of_tokenHas hbracket]; exact List.mem_singleton_self id)
  rcases tokenHas_iff.mp hbracket with ⟨token, htoken, hhas⟩
  rcases tokenHas_iff.mp htrivia with ⟨other, hother, hblank⟩
  rw [htoken, Option.some.injEq] at hother
  subst hother
  rw [Token.isTrivia, Token.isWhitespace, Token.isComment, Token.category_of_hits hhas] at hblank
  cases hblank

end Tree

/-!
# Spans without brackets at their ends
-/

theorem GroupKind.not_delimits {kind : GroupKind} (h : kind ≠ .parenthesis)
    (h' : kind ≠ .squareBrackets) (opening closing : TokenPattern) :
    ¬ kind.Delimits opening closing := fun hdelimits => hdelimits.bracket.elim h h'

theorem Span.Spares.of_ends {span : Span} {tree : Tree} {list : NodeId}
    (hkind : forall opening closing, ¬ span.kind.Delimits opening closing)
    (hfirst : forall id, tree.child? list span.start = some id -> tree.isBracket id = false)
    (hlast : forall id, tree.child? list span.stop = some id -> tree.isBracket id = false) :
    span.Spares tree list where
  extend := fun _ => hkind
  between := fun opening closing hdelimits => absurd hdelimits (hkind opening closing)
  first := by
    intro host opening closing id _ hdelimits _ hchild hhits
    have hbracket := Tree.isBracket_of_hits hdelimits (Or.inl hhits)
    rw [hfirst id hchild] at hbracket
    cases hbracket
  last := by
    intro host opening closing id _ hdelimits _ hchild hhits
    have hbracket := Tree.isBracket_of_hits hdelimits (Or.inr hhits)
    rw [hlast id hchild] at hbracket
    cases hbracket

/-!
# Passes that look for a child
-/

def Seeker.Spares (seeker : Seeker) : Prop :=
  forall tree list idx id span next, tree.child? list idx = some id ->
    seeker.accepts tree id = true -> seeker.span? tree list idx id = some (span, next) ->
    span.Spares tree list

theorem Pass.keeps_brackets_of_seeker {pass : Pass} {seeker : Seeker}
    (hplan : pass.plan = seeker.plan) (hsound : pass.Sound) (h : seeker.Spares) :
    pass.Keeps Tree.BracketsKept (fun _ => True) (fun _ _ _ => True) where
  enters := fun _ _ _ _ _ => trivial
  start := fun _ _ => trivial
  skip := fun _ _ _ _ _ _ _ _ => trivial
  visit := by
    intro tree list cursor move id _ hmove hvisit
    rw [stays_of_seeker hplan tree list cursor move hmove] at hvisit
    cases hvisit
  span := by
    intro tree after list host cursor move span hwf hcursor hkept _ _ _ hmove hspan hgroups
    refine ⟨?_, trivial⟩
    have hfits := hsound tree list cursor move hcursor hmove
    rw [hplan] at hmove
    rcases Seeker.plan_span hmove hspan with ⟨idx, id, next, hchild, haccepts, hfound⟩
    exact hgroups.bracketsKept hwf hfits hspan
      (h tree list idx id span next hchild haccepts hfound) hkept

namespace Seeker

theorem comment_spares : comment.Spares := by
  intro tree list idx id span next hchild haccepts hspan
  cases hspan
  refine Span.Spares.of_ends (GroupKind.not_delimits nofun nofun) ?_ ?_
  · intro other hother
    cases hchild.symm.trans hother
    exact Tree.not_isBracket_of_isA haccepts rfl
  · intro other hother
    have hstart := (commentRunEnd_spec hchild).1
    exact Tree.not_isBracket_of_holdsTrivia
      (Pass.commentRunEnd_trivia haccepts hchild hstart (Nat.le_refl _) hother)

theorem call_spares : call.Spares := by
  intro tree list idx id span next hchild haccepts hspan
  rcases call_span hspan with ⟨parens, group, hnext, hkind, rfl, rfl⟩
  refine Span.Spares.of_ends (GroupKind.not_delimits nofun nofun) ?_ ?_
  · intro other hother
    cases hchild.symm.trans hother
    exact Tree.not_isBracket_of_isA haccepts rfl
  · intro other hother
    cases (Tree.next_some hnext).2.1.symm.trans hother
    exact Tree.not_isBracket_of_isKind hkind

theorem name_spares : name.Spares := by
  intro tree list idx id span next hchild _ hspan
  rcases name_span hspan with ⟨hname, rfl, rfl⟩
  have hplain : forall other, tree.child? list idx = some other ->
      tree.isBracket other = false := by
    intro other hother
    cases hchild.symm.trans hother
    rcases Bool.or_eq_true_iff.mp hname with hname | hquoted
    · exact Tree.not_isBracket_of_isCategory hname nofun
    · exact Tree.not_isBracket_of_isCategory hquoted nofun
  exact Span.Spares.of_ends (GroupKind.not_delimits nofun nofun) hplain hplain

theorem typedLiteralEnd?_ends {tree : Tree} {list : NodeId} {idx stop : Nat} {id other : NodeId}
    (h : Pass.typedLiteralEnd? tree list idx id = some stop)
    (hother : tree.child? list stop = some other) :
    tree.isBracket id = false ∧ tree.isBracket other = false := by
  unfold Pass.typedLiteralEnd? at h
  split at h
  · rename_i htype
    constructor
    · apply Tree.not_isBracket_of_tokenHas htype
      intro token htoken
      rcases List.any_eq_true.mp htoken with ⟨word, _, hword⟩
      apply Token.not_isBracket_of_category
      intro hcategory
      rw [Pass.isTypeWord, Token.isKeyword, hcategory] at hword
      cases hword
    · split at h
      · cases h
      · rename_i literal string hliteral
        have hstring := (Tree.next_some hliteral).2.1
        split at h
        · cases h
        · rename_i hquoted
          have hquoted' : tree.isCategory string .singleQuoted = true := by
            simpa using hquoted
          have hplain : stop = literal -> tree.isBracket other = false := by
            rintro rfl
            cases hstring.symm.trans hother
            exact Tree.not_isBracket_of_isCategory hquoted' (by decide)
          split at h
          · split at h
            · rename_i unit word hunit
              split at h
              · rename_i hword
                cases h
                cases (Tree.next_some hunit).2.1.symm.trans hother
                exact Tree.not_isBracket_of_isKeyword (Bool.and_eq_true_iff.mp hword).1
              · cases h
                exact hplain rfl
            · cases h
              exact hplain rfl
          · cases h
            exact hplain rfl
  · cases h

theorem typeWord_spares : typeWord.Spares := by
  intro tree list idx id span next hchild _ hspan
  rcases Option.map_eq_some_iff.mp hspan with ⟨stop, hstop, hpair⟩
  cases hpair
  refine Span.Spares.of_ends (GroupKind.not_delimits nofun nofun) ?_ ?_
  · intro other hother
    cases hchild.symm.trans hother
    have hinside := (typedLiteralEnd?_spec hstop).2
    exact (typedLiteralEnd?_ends hstop (List.getElem?_eq_getElem hinside)).1
  · intro other hother
    exact (typedLiteralEnd?_ends hstop hother).2

theorem ordering_spares : ordering.Spares := by
  intro tree list idx id span next hchild haccepts hspan
  rcases ordering_span hspan with ⟨prev, node, hprev, hnode, rfl, rfl⟩
  refine Span.Spares.of_ends (GroupKind.not_delimits nofun nofun) ?_ ?_
  · intro other hother
    cases (Tree.prev_some hprev).2.1.symm.trans hother
    rcases Bool.or_eq_true_iff.mp hnode with hkind | hnumber
    · exact Tree.not_isBracket_of_isKind hkind
    · exact Tree.not_isBracket_of_isA hnumber rfl
  · intro other hother
    cases hchild.symm.trans hother
    exact Tree.not_isBracket_of_isCategory haccepts nofun

theorem aliased_spares : aliased.Spares := by
  intro tree list idx id span next hchild haccepts hspan
  rcases aliased_span hspan with ⟨name, node, hnext, hkind, rfl, rfl⟩
  refine Span.Spares.of_ends (GroupKind.not_delimits nofun nofun) ?_ ?_
  · intro other hother
    cases hchild.symm.trans hother
    rcases Bool.or_eq_true_iff.mp haccepts with hkind | hnumber
    · exact Tree.not_isBracket_of_isKindIn hkind
    · exact Tree.not_isBracket_of_isA hnumber rfl
  · intro other hother
    cases (Tree.next_some hnext).2.1.symm.trans hother
    exact Tree.not_isBracket_of_isKind hkind

theorem trailingComment_spares : trailingComment.Spares := by
  intro tree list idx id span next hchild haccepts hspan
  rcases trailingComment_span hspan with ⟨prev, node, kind, hprev, hhost, rfl, _⟩
  apply Span.Spares.of_ends
  · -- Groups in brackets take in no comment behind them.
    intro opening closing hdelimits
    unfold Pass.commentHost? at hhost
    split at hhost
    · split at hhost
      · cases hhost
      · rename_i hother
        cases hhost
        rcases hdelimits.bracket with rfl | rfl
        · exact hother rfl
        · exact hother rfl
    · cases hhost
  · intro other hother
    cases (Tree.prev_some hprev).2.1.symm.trans hother
    exact Tree.not_isBracket_of_isKind (Pass.isKind_of_commentHost? hhost)
  · intro other hother
    cases hchild.symm.trans hother
    exact Tree.not_isBracket_of_isKind haccepts

theorem whereEnd_le {tree : Tree} (closing : TokenPattern) {list : NodeId} {start : Nat}
    {id : NodeId} (hstart : tree.child? list start = some id) :
    Pass.whereEnd tree closing list start <= Pass.whereLimit tree list start := by
  rcases whereLimit_spec hstart with ⟨hle, hlt⟩
  unfold Pass.whereEnd
  dsimp only
  split
  · rename_i stop hstop
    have hspec := whereStop?_spec hstop
    rw [List.length_drop, List.length_take] at hspec
    omega
  · exact Nat.le_refl _

theorem whereLimit_lt_of_mark {tree : Tree} {list : NodeId}
    (hbracketed : tree.isKindIn list [.parenthesis, .squareBrackets] = true) {start last : Nat}
    {id : NodeId} (hcount : last + 1 = tree.childCount list)
    (hlast : tree.child? list last = some id) (hmark : tree.isA id .punctuation = true)
    (hlt : start < last) : Pass.whereLimit tree list start < last := by
  unfold Pass.whereLimit
  dsimp only
  rw [← hcount, Nat.add_sub_cancel, hbracketed, hlast, if_pos]
  · exact Nat.sub_lt (Nat.lt_of_le_of_lt (Nat.zero_le start) hlt) Nat.one_pos
  · exact Bool.and_eq_true_iff.mpr ⟨decide_eq_true hlt, hmark⟩

theorem whereLimit_lt {tree : Tree} {list : NodeId} {host : GroupKind}
    {opening closing : TokenPattern} (hhost : tree.kind? list = some host)
    (hdelimits : host.Delimits opening closing) {start last : Nat} {id : NodeId}
    (hcount : last + 1 = tree.childCount list) (hlast : tree.child? list last = some id)
    (hhits : tree.hits id closing = true) (hlt : start < last) :
    Pass.whereLimit tree list start < last := by
  have hbracketed : tree.isKindIn list [.parenthesis, .squareBrackets] = true := by
    unfold Tree.isKindIn
    rw [hhost]
    rcases hdelimits.bracket with rfl | rfl
    · rfl
    · rfl
  have hmark : tree.isA id .punctuation = true := by
    rcases Tree.tokenHas_iff.mp (Tree.isBracket_of_hits hdelimits (Or.inr hhits)) with
      ⟨token, htoken, hbracket⟩
    refine Tree.tokenHas_iff.mpr ⟨token, htoken, ?_⟩
    rw [Token.category_of_hits hbracket]
    rfl
  exact whereLimit_lt_of_mark hbracketed hcount hlast hmark hlt

theorem whereWord_spares : whereWord.Spares := by
  intro tree list idx id span next hchild haccepts hspan
  cases hspan
  have hplain := Tree.not_isBracket_of_hits haccepts nofun
  refine ⟨nofun, ?_, ?_, ?_⟩
  · intro opening closing hdelimits
    exact absurd hdelimits (@GroupKind.not_delimits .whereClause nofun nofun opening closing)
  · intro host opening closing other _ hdelimits _ hother hhits
    cases hchild.symm.trans hother
    rw [Tree.isBracket_of_hits hdelimits (Or.inl hhits)] at hplain
    cases hplain
  · intro host opening closing other hhost hdelimits hcount hother hhits
    dsimp only at hcount hother
    have hle := whereEnd_le whereClosing hchild
    rcases Nat.lt_or_eq_of_le (whereEnd_spec whereClosing hchild).1 with hlt | heq
    · have hlimit := whereLimit_lt hhost hdelimits hcount hother hhits hlt
      exact absurd hle (Nat.not_le_of_lt hlimit)
    · rw [← heq] at hother
      cases hchild.symm.trans hother
      rw [Tree.isBracket_of_hits hdelimits (Or.inr hhits)] at hplain
      cases hplain

end Seeker

end SqlLayout
