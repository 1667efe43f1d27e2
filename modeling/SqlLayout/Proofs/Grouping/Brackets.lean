import SqlLayout.Proofs.Grouping.Keeping

/-!
# Brackets around their contents

A group in brackets is made with the brackets as its first and last child.  Later
passes group inside of it, and three of them take whatever stands beside their mark:
a cast, an alias with AS and an assignment.  So a bracket stays a child of its group
unless such a mark stands next to it, and it stays a leaf of the group in any case.
-/

namespace SqlLayout

/-!
# Tokens
-/

/-- A kind of groups in brackets, with the tokens around them. -/
structure GroupKind.Delimits (kind : GroupKind) (opening closing : TokenPattern) : Prop where
  bracket : kind = .parenthesis ∨ kind = .squareBrackets
  opening_eq : kind.opening? = some opening
  closing_eq : kind.closing? = some closing

namespace Token

def isBracket (token : Token) : Bool :=
  token.isPunctuationIn [Text.of "(", Text.of ")", Text.of "[", Text.of "]"]

/-- The marks that take whatever stands beside them: those of casts, aliases and
assignments. -/
def takesAny (token : Token) : Bool :=
  token.isPunctuationIn [[':', ':']] || (token.isKeyword && token.normalized == Text.of "AS") ||
    token.hits ⟨.assignment, [[':', '=']]⟩

theorem category_of_hits {token : Token} {pattern : TokenPattern}
    (h : token.hits pattern = true) : token.category = pattern.category :=
  eq_of_beq (Bool.and_eq_true_iff.mp h).1

theorem hits_punctuation_iff {token : Token} {mark : Text} {marks : List Text} :
    token.hits ⟨.punctuation, mark :: marks⟩ = true <->
      token.category = .punctuation ∧ token.value ∈ mark :: marks := by
  constructor
  · intro h
    have hcategory : token.category = .punctuation := category_of_hits h
    have hvalues := (Bool.and_eq_true_iff.mp h).2
    rw [isKeyword, hcategory] at hvalues
    exact ⟨hcategory, List.elem_iff.mp hvalues⟩
  · rintro ⟨hcategory, hvalue⟩
    unfold hits isKeyword
    rw [hcategory]
    exact List.elem_iff.mpr hvalue

theorem not_isBracket_of_category {token : Token} (h : token.category ≠ .punctuation) :
    token.isBracket = false := by
  apply Bool.eq_false_iff.mpr
  intro hbracket
  exact h (category_of_hits hbracket)

theorem not_isBracket_of_mark {token : Token} {mark : Text}
    (h : token.isPunctuationIn [mark] = true)
    (hmark : mark ∉ [Text.of "(", Text.of ")", Text.of "[", Text.of "]"]) :
    token.isBracket = false := by
  apply Bool.eq_false_iff.mpr
  intro hbracket
  have hvalue := List.mem_singleton.mp (hits_punctuation_iff.mp h).2
  rw [← hvalue] at hmark
  exact hmark (hits_punctuation_iff.mp hbracket).2

namespace Kept

variable {token after : Token} (h : token.Kept after)
include h

theorem test_eq {p : Category -> Bool} (hp : p .operator = p .wildcard) :
    p after.category = p token.category := by
  rcases h.category_eq with hsame | ⟨hwildcard, hoperator⟩
  · rw [hsame]
  · rw [hwildcard, hoperator, hp]

theorem hits_eq {pattern : TokenPattern} (hoperator : pattern.category ≠ .operator)
    (hwildcard : pattern.category ≠ .wildcard) : after.hits pattern = token.hits pattern := by
  have hcategory : (after.category == pattern.category) = (token.category == pattern.category) := by
    apply h.test_eq (p := fun category => category == pattern.category)
    rw [beq_false_of_ne hoperator.symm, beq_false_of_ne hwildcard.symm]
  have hkeyword : after.isKeyword = token.isKeyword := h.test_eq (p := Category.isKeyword) rfl
  unfold hits
  rw [hcategory, hkeyword, h.normalized_eq, h.value_eq]

theorem takesAny_eq : after.takesAny = token.takesAny := by
  have hcast : after.hits ⟨.punctuation, [[':', ':']]⟩ = token.hits ⟨.punctuation, [[':', ':']]⟩ :=
    h.hits_eq nofun nofun
  have hassignment : after.hits ⟨.assignment, [[':', '=']]⟩ =
      token.hits ⟨.assignment, [[':', '=']]⟩ := h.hits_eq nofun nofun
  have hkeyword : after.isKeyword = token.isKeyword := h.test_eq (p := Category.isKeyword) rfl
  unfold takesAny isPunctuationIn
  rw [hcast, hassignment, hkeyword, h.normalized_eq]

end Kept
end Token

namespace GroupKind.Delimits

variable {kind other : GroupKind} {opening closing : TokenPattern} {token : Token}
  (h : kind.Delimits opening closing)
include h

theorem cases :
    (kind = .parenthesis ∧ opening = ⟨.punctuation, [Text.of "("]⟩ ∧
        closing = ⟨.punctuation, [Text.of ")"]⟩) ∨
      (kind = .squareBrackets ∧ opening = ⟨.punctuation, [Text.of "["]⟩ ∧
        closing = ⟨.punctuation, [Text.of "]"]⟩) := by
  rcases h with ⟨rfl | rfl, hopening, hclosing⟩
  · cases hopening
    cases hclosing
    exact Or.inl ⟨rfl, rfl, rfl⟩
  · cases hopening
    cases hclosing
    exact Or.inr ⟨rfl, rfl, rfl⟩

theorem isBracket_of_hits (hhits : token.hits opening = true ∨ token.hits closing = true) :
    token.isBracket = true := by
  have hmark : forall mark : Text, mark ∈ [Text.of "(", Text.of ")", Text.of "[", Text.of "]"] ->
      token.hits ⟨.punctuation, [mark]⟩ = true -> token.isBracket = true := by
    intro mark hmark hone
    rcases Token.hits_punctuation_iff.mp hone with ⟨hcategory, hvalue⟩
    rw [← List.mem_singleton.mp hvalue] at hmark
    exact Token.hits_punctuation_iff.mpr ⟨hcategory, hmark⟩
  rcases h.cases with ⟨_, rfl, rfl⟩ | ⟨_, rfl, rfl⟩
  · rcases hhits with hhits | hhits
    · exact hmark _ (by decide) hhits
    · exact hmark _ (by decide) hhits
  · rcases hhits with hhits | hhits
    · exact hmark _ (by decide) hhits
    · exact hmark _ (by decide) hhits

theorem not_hits {opening' closing' : TokenPattern} (h' : other.Delimits opening' closing')
    (hne : other ≠ kind) :
    ¬ (token.hits opening = true ∧ token.hits opening' = true) ∧
      ¬ (token.hits closing = true ∧ token.hits closing' = true) := by
  have hmarks : forall mark mark' : Text, mark ≠ mark' ->
      ¬ (token.hits ⟨.punctuation, [mark]⟩ = true ∧ token.hits ⟨.punctuation, [mark']⟩ = true) := by
    rintro mark mark' hmark ⟨hhits, hhits'⟩
    have hvalue := List.mem_singleton.mp (Token.hits_punctuation_iff.mp hhits).2
    have hvalue' := List.mem_singleton.mp (Token.hits_punctuation_iff.mp hhits').2
    exact hmark (hvalue.symm.trans hvalue')
  rcases h.cases with ⟨rfl, rfl, rfl⟩ | ⟨rfl, rfl, rfl⟩
  · rcases h'.cases with ⟨rfl, rfl, rfl⟩ | ⟨rfl, rfl, rfl⟩
    · exact absurd rfl hne
    · exact ⟨hmarks _ _ (by decide), hmarks _ _ (by decide)⟩
  · rcases h'.cases with ⟨rfl, rfl, rfl⟩ | ⟨rfl, rfl, rfl⟩
    · exact ⟨hmarks _ _ (by decide), hmarks _ _ (by decide)⟩
    · exact absurd rfl hne

theorem category_ne :
    (opening.category ≠ .operator ∧ opening.category ≠ .wildcard) ∧
      (closing.category ≠ .operator ∧ closing.category ≠ .wildcard) := by
  rcases h.cases with ⟨_, rfl, rfl⟩ | ⟨_, rfl, rfl⟩
  · exact ⟨⟨nofun, nofun⟩, ⟨nofun, nofun⟩⟩
  · exact ⟨⟨nofun, nofun⟩, ⟨nofun, nofun⟩⟩

end GroupKind.Delimits

/-!
# Groups in brackets
-/

namespace Tree

variable {tree tagged after : Tree} {list : NodeId}

/-- A mark that takes anything stands behind the first node, blanks aside. -/
def MarkAfterFirst (tree : Tree) (ids : List NodeId) : Prop :=
  exists first blanks mark rest, ids = first :: (blanks ++ mark :: rest) ∧
    (forall id, id ∈ blanks -> tree.isWhitespace id = true) ∧
    tree.tokenHas mark Token.takesAny = true

/-- A mark that takes anything stands before the last node, blanks aside. -/
def MarkBeforeLast (tree : Tree) (ids : List NodeId) : Prop :=
  exists rest mark blanks last, ids = rest ++ mark :: (blanks ++ [last]) ∧
    (forall id, id ∈ blanks -> tree.isWhitespace id = true) ∧
    tree.tokenHas mark Token.takesAny = true

/-- A group between brackets: they are its first and its last leaf, and they are
children of it unless a mark took them. -/
structure Bracketed (tree : Tree) (id : NodeId) (opening closing : TokenPattern) : Prop where
  ends : exists first inner last, tree.leaves id = first :: (inner ++ [last]) ∧
    tree.hits first opening = true ∧ tree.hits last closing = true
  first : (tree.children id).head? = (tree.leaves id).head? ∨
    tree.MarkAfterFirst (tree.leaves id)
  last : (tree.children id).getLast? = (tree.leaves id).getLast? ∨
    tree.MarkBeforeLast (tree.leaves id)

def BracketsKept (tree : Tree) : Prop :=
  forall id kind opening closing, tree.kind? id = some kind -> kind.Delimits opening closing ->
    tree.Bracketed id opening closing

/-!
# Tokens that are kept
-/

theorem TokensKept.tokenHas_eq (h : tree.TokensKept after) {p : Token -> Bool}
    (hp : forall token later : Token, token.Kept later -> p later = p token) (id : NodeId) :
    after.tokenHas id p = tree.tokenHas id p := by
  have hrel := h id
  unfold tokenHas
  generalize tree.token? id = before, after.token? id = later at hrel ⊢
  cases hrel with
  | none =>
      rfl
  | some hkept =>
      exact hp _ _ hkept

theorem TokensKept.isWhitespace_eq (h : tree.TokensKept after) (id : NodeId) :
    after.isWhitespace id = tree.isWhitespace id :=
  h.tokenHas_eq (fun _ _ hkept => hkept.test_eq (p := Category.isWhitespace) rfl) id

theorem TokensKept.takesAny_eq (h : tree.TokensKept after) (id : NodeId) :
    after.tokenHas id Token.takesAny = tree.tokenHas id Token.takesAny :=
  h.tokenHas_eq (fun _ _ hkept => hkept.takesAny_eq) id

theorem TokensKept.hits_eq (h : tree.TokensKept after) {pattern : TokenPattern}
    (hpattern : pattern.category ≠ .operator ∧ pattern.category ≠ .wildcard) (id : NodeId) :
    after.hits id pattern = tree.hits id pattern :=
  h.tokenHas_eq (fun _ _ hkept => hkept.hits_eq hpattern.1 hpattern.2) id

theorem MarkAfterFirst.kept {ids : List NodeId} (h : tree.MarkAfterFirst ids)
    (hkept : tree.TokensKept after) : after.MarkAfterFirst ids := by
  rcases h with ⟨first, blanks, mark, rest, hids, hblanks, hmark⟩
  refine ⟨first, blanks, mark, rest, hids, ?_, ?_⟩
  · intro id hid
    rw [hkept.isWhitespace_eq]
    exact hblanks id hid
  · rw [hkept.takesAny_eq]
    exact hmark

theorem MarkBeforeLast.kept {ids : List NodeId} (h : tree.MarkBeforeLast ids)
    (hkept : tree.TokensKept after) : after.MarkBeforeLast ids := by
  rcases h with ⟨rest, mark, blanks, last, hids, hblanks, hmark⟩
  refine ⟨rest, mark, blanks, last, hids, ?_, ?_⟩
  · intro id hid
    rw [hkept.isWhitespace_eq]
    exact hblanks id hid
  · rw [hkept.takesAny_eq]
    exact hmark

theorem Bracketed.kept {id : NodeId} {kind : GroupKind} {opening closing : TokenPattern}
    (h : tree.Bracketed id opening closing) (hdelimits : kind.Delimits opening closing)
    (hkept : tree.TokensKept after) (hleaves : after.leaves id = tree.leaves id)
    (hfirst : (after.children id).head? = (tree.children id).head? ∨
      tree.MarkAfterFirst (tree.leaves id))
    (hlast : (after.children id).getLast? = (tree.children id).getLast? ∨
      tree.MarkBeforeLast (tree.leaves id)) : after.Bracketed id opening closing := by
  rcases h with ⟨⟨first, inner, last, heq, hopening, hclosing⟩, hhead, hend⟩
  refine ⟨⟨first, inner, last, hleaves.trans heq, ?_, ?_⟩, ?_, ?_⟩
  · rw [hkept.hits_eq hdelimits.category_ne.1]
    exact hopening
  · rw [hkept.hits_eq hdelimits.category_ne.2]
    exact hclosing
  · rw [hleaves]
    rcases hfirst with hsame | hmark
    · rw [hsame]
      exact hhead.imp_right fun hmark => hmark.kept hkept
    · exact Or.inr (hmark.kept hkept)
  · rw [hleaves]
    rcases hlast with hsame | hmark
    · rw [hsame]
      exact hend.imp_right fun hmark => hmark.kept hkept
    · exact Or.inr (hmark.kept hkept)

theorem BracketsKept.retagged (h : tree.BracketsKept) (htag : tree.Retagged tagged) :
    tagged.BracketsKept := by
  intro id kind opening closing hkind hdelimits
  rw [htag.kind?_eq] at hkind
  have hold := h id kind opening closing hkind hdelimits
  apply hold.kept hdelimits htag.tokensKept (htag.leaves_eq id)
  · exact Or.inl (by rw [htag.children_eq])
  · exact Or.inl (by rw [htag.children_eq])

/-!
# From children to leaves
-/

theorem MarkAfterFirst.leaves (hwf : tree.WellFormed) (hgroup : tree.isGroup list = true)
    {id : NodeId} {p : Token -> Bool} (hfirst : (tree.children list).head? = some id)
    (htoken : tree.tokenHas id p = true) (h : tree.MarkAfterFirst (tree.children list)) :
    tree.MarkAfterFirst (tree.leaves list) := by
  rcases h with ⟨first, blanks, mark, rest, hchildren, hblanks, hmark⟩
  rw [hchildren, List.head?_cons, Option.some.injEq] at hfirst
  refine ⟨first, blanks, mark, rest.flatMap tree.leaves, ?_, hblanks, hmark⟩
  rw [hwf.leaves_group hgroup, hchildren, List.flatMap_cons, List.flatMap_append,
    List.flatMap_cons, hfirst, leaves_of_tokenHas htoken, flatMap_leaves_blanks hblanks,
    leaves_of_tokenHas hmark]
  rfl

theorem MarkBeforeLast.leaves (hwf : tree.WellFormed) (hgroup : tree.isGroup list = true)
    {id : NodeId} {p : Token -> Bool} (hlast : (tree.children list).getLast? = some id)
    (htoken : tree.tokenHas id p = true) (h : tree.MarkBeforeLast (tree.children list)) :
    tree.MarkBeforeLast (tree.leaves list) := by
  rcases h with ⟨rest, mark, blanks, last, hchildren, hblanks, hmark⟩
  have heq : last = id := by
    rw [hchildren, List.append_cons, ← List.append_assoc, List.getLast?_concat,
      Option.some.injEq] at hlast
    exact hlast
  refine ⟨rest.flatMap tree.leaves, mark, blanks, last, ?_, hblanks, hmark⟩
  rw [hwf.leaves_group hgroup, hchildren, List.flatMap_append, List.flatMap_cons,
    List.flatMap_append, List.flatMap_singleton, heq, leaves_of_tokenHas htoken,
    flatMap_leaves_blanks hblanks, leaves_of_tokenHas hmark]
  rfl

end Tree

/-!
# Spans that spare brackets
-/

/-- A span that makes a group in brackets of what stands between them, and that takes a
bracket off the list it is in only where a mark stands next to it. -/
structure Span.Spares (span : Span) (tree : Tree) (list : NodeId) : Prop where
  extend : span.extend = true -> forall opening closing, ¬ span.kind.Delimits opening closing
  between : forall opening closing, span.kind.Delimits opening closing ->
    span.start < span.stop ∧
      (exists id, tree.child? list span.start = some id ∧ tree.hits id opening = true) ∧
      exists id, tree.child? list span.stop = some id ∧ tree.hits id closing = true
  first : forall host opening closing id, tree.kind? list = some host ->
    host.Delimits opening closing -> span.start = 0 -> tree.child? list span.start = some id ->
    tree.hits id opening = true -> tree.MarkAfterFirst (tree.children list)
  last : forall host opening closing id, tree.kind? list = some host ->
    host.Delimits opening closing -> span.stop + 1 = tree.childCount list ->
    tree.child? list span.stop = some id -> tree.hits id closing = true ->
    tree.MarkBeforeLast (tree.children list)

namespace Span.Spares

variable {span : Span} {tree tagged after : Tree} {list : NodeId}

theorem retagged (h : span.Spares tree list) (htag : tree.Retagged tagged) :
    span.Spares tagged list := by
  have hkept := htag.tokensKept
  have hchild : forall idx, tagged.child? list idx = tree.child? list idx := by
    intro idx
    unfold Tree.child?
    rw [htag.children_eq]
  refine ⟨h.extend, ?_, ?_, ?_⟩
  · intro opening closing hdelimits
    rw [hchild, hchild]
    rcases h.between opening closing hdelimits with
      ⟨hlt, ⟨first, hfirst, hopening⟩, last, hlast, hclosing⟩
    refine ⟨hlt, ⟨first, hfirst, ?_⟩, last, hlast, ?_⟩
    · rw [hkept.hits_eq hdelimits.category_ne.1]
      exact hopening
    · rw [hkept.hits_eq hdelimits.category_ne.2]
      exact hclosing
  · intro host opening closing id hhost hdelimits hstart hid hhits
    rw [htag.kind?_eq] at hhost
    rw [hchild] at hid
    rw [hkept.hits_eq hdelimits.category_ne.1] at hhits
    rw [htag.children_eq]
    exact (h.first host opening closing id hhost hdelimits hstart hid hhits).kept hkept
  · intro host opening closing id hhost hdelimits hstop hid hhits
    rw [htag.kind?_eq] at hhost
    unfold Tree.childCount at hstop
    rw [htag.children_eq] at hstop
    rw [hchild] at hid
    rw [hkept.hits_eq hdelimits.category_ne.2] at hhits
    rw [htag.children_eq]
    exact (h.last host opening closing id hhost hdelimits hstop hid hhits).kept hkept

end Span.Spares

namespace Tree

variable {tree after : Tree} {list : NodeId} {kind : GroupKind}
  {opening closing : TokenPattern} {front moved back : List NodeId} {span : Span}

theorem Bracketed.relisted (hwf : tree.WellFormed) (h : tree.Bracketed list opening closing)
    (hkind : tree.kind? list = some kind) (hdelimits : kind.Delimits opening closing)
    (hspares : span.Spares tree list) (hstart : front.length = span.start)
    (hstop : front.length + moved.length = span.stop + 1) {group : NodeId}
    (hbefore : tree.children list = front ++ moved ++ back)
    (hafter : after.children list = front ++ group :: back)
    (hkept : tree.TokensKept after) (hleaves : after.leaves list = tree.leaves list) :
    after.Bracketed list opening closing := by
  have hgroup : tree.isGroup list = true := isGroup_iff_kind?.mpr ⟨kind, hkind⟩
  rcases h.ends with ⟨first, inner, last, heq, hopening, hclosing⟩
  apply h.kept hdelimits hkept hleaves
  · cases front with
    | cons id front =>
        left
        rw [hbefore, hafter]
        rfl
    | nil =>
        right
        rcases h.first with hsame | hmark
        · rw [heq, List.head?_cons] at hsame
          have hzero : span.start = 0 := hstart.symm
          have hchild : tree.child? list span.start = some first := by
            rw [hzero, child?, ← List.head?_eq_getElem?]
            exact hsame
          exact (hspares.first kind opening closing first hkind hdelimits hzero hchild
            hopening).leaves hwf hgroup hsame hopening
        · exact hmark
  · rcases List.eq_nil_or_concat' back with rfl | ⟨rest, id, rfl⟩
    · right
      rcases h.last with hsame | hmark
      · rw [heq, ← List.cons_append, List.getLast?_concat] at hsame
        have hcount : span.stop + 1 = tree.childCount list := by
          unfold childCount
          rw [hbefore, List.append_nil, List.length_append, hstop]
        apply (hspares.last kind opening closing last hkind hdelimits hcount _ hclosing).leaves hwf
          hgroup hsame hclosing
        rw [child?, ← hsame, List.getLast?_eq_getElem?]
        unfold childCount at hcount
        rw [← hcount]
        rfl
      · exact hmark
    · left
      rw [hbefore, hafter, ← List.cons_append, ← List.append_assoc, ← List.append_assoc,
        List.getLast?_concat, List.getLast?_concat]

theorem Wrapped.bracketed (hwf : tree.WellFormed)
    (h : Wrapped tree list span.kind front moved back after)
    (hspares : span.Spares tree list) (hstart : front.length = span.start)
    (hstop : front.length + moved.length = span.stop + 1)
    (hdelimits : span.kind.Delimits opening closing) :
    after.Bracketed tree.size opening closing := by
  have hkept : tree.TokensKept after := TokensKept.of_token?_eq h.token?_eq
  rcases hspares.between opening closing hdelimits with
    ⟨hlt, ⟨first, hfirst, hopening⟩, last, hlast, hclosing⟩
  have hmoved : exists inner, moved = first :: (inner ++ [last]) := by
    unfold child? at hfirst hlast
    rw [h.children_list] at hfirst hlast
    cases moved with
    | nil =>
        rw [List.length_nil] at hstop
        omega
    | cons id tail =>
        rcases List.eq_nil_or_concat' tail with rfl | ⟨inner, other, rfl⟩
        · rw [List.length_singleton] at hstop
          omega
        · refine ⟨inner, ?_⟩
          rw [List.append_assoc, ← hstart, List.getElem?_append_right (Nat.le_refl _),
            Nat.sub_self, List.cons_append, List.getElem?_cons_zero, Option.some.injEq] at hfirst
          have hplace : (front ++ id :: inner).length = span.stop := by
            rw [List.length_cons, List.length_append, List.length_singleton] at hstop
            rw [List.length_append, List.length_cons]
            omega
          have hcut : front ++ id :: (inner ++ [other]) ++ back =
              front ++ id :: inner ++ other :: back := by
            simp
          rw [hcut, ← hplace, List.getElem?_append_right (Nat.le_refl _), Nat.sub_self,
            List.getElem?_cons_zero, Option.some.injEq] at hlast
          rw [hfirst, hlast]
  rcases hmoved with ⟨inner, rfl⟩
  have hleaves : after.leaves tree.size = first :: (inner.flatMap tree.leaves ++ [last]) := by
    rw [h.leaves_new hwf, List.flatMap_cons, List.flatMap_append, List.flatMap_singleton,
      leaves_of_tokenHas hopening, leaves_of_tokenHas hclosing]
    rfl
  refine ⟨⟨first, _, last, hleaves, ?_, ?_⟩, Or.inl ?_, Or.inl ?_⟩
  · rw [hkept.hits_eq hdelimits.category_ne.1]
    exact hopening
  · rw [hkept.hits_eq hdelimits.category_ne.2]
    exact hclosing
  · rw [h.children_new, hleaves]
    rfl
  · rw [h.children_new, hleaves, ← List.cons_append, ← List.cons_append, List.getLast?_concat,
      List.getLast?_concat]

theorem BracketsKept.wrapped (hwf : tree.WellFormed) (hkept : tree.BracketsKept)
    (h : Wrapped tree list span.kind front moved back after)
    (hspares : span.Spares tree list) (hstart : front.length = span.start)
    (hstop : front.length + moved.length = span.stop + 1) : after.BracketsKept := by
  intro id kind opening closing hkind hdelimits
  by_cases hnew : id = tree.size
  · subst hnew
    rw [kind?_of_content? h.content?_new, Option.some.injEq] at hkind
    subst hkind
    exact h.bracketed hwf hspares hstart hstop hdelimits
  · rw [h.kind?_of_ne hnew] at hkind
    have hold := hkept id kind opening closing hkind hdelimits
    have htokens : tree.TokensKept after := TokensKept.of_token?_eq h.token?_eq
    have hleaves := h.leaves_eq hwf (lt_size_of_isGroup (isGroup_iff_kind?.mpr ⟨kind, hkind⟩))
    by_cases hlist : id = list
    · subst hlist
      exact hold.relisted hwf hkind hdelimits hspares hstart hstop h.children_list
        h.children_after_list htokens hleaves
    · have hchildren := h.children_other hnew hlist
      exact hold.kept hdelimits htokens hleaves (Or.inl (by rw [hchildren]))
        (Or.inl (by rw [hchildren]))

theorem BracketsKept.absorbed {group : NodeId} (hwf : tree.WellFormed)
    (hkept : tree.BracketsKept) (h : Absorbed tree list group front moved back after)
    (hspares : span.Spares tree list) (hstart : front.length = span.start)
    (hstop : front.length + (group :: moved).length = span.stop + 1)
    (hextend : span.extend = true) (hgroup : tree.kind? group = some span.kind) :
    after.BracketsKept := by
  intro id kind opening closing hkind hdelimits
  rw [(h.kind?_eq_and_token?_eq id).1] at hkind
  have hne : id ≠ group := by
    rintro rfl
    rw [hgroup, Option.some.injEq] at hkind
    subst hkind
    exact hspares.extend hextend opening closing hdelimits
  have hold := hkept id kind opening closing hkind hdelimits
  have htokens : tree.TokensKept after := TokensKept.of_token?_eq h.token?_eq
  have hleaves := h.leaves_eq hwf (lt_size_of_isGroup (isGroup_iff_kind?.mpr ⟨kind, hkind⟩)) hne
  by_cases hlist : id = list
  · subst hlist
    refine hold.relisted hwf hkind hdelimits hspares hstart hstop ?_ h.children_after_list htokens
      hleaves
    rw [h.children_list, List.append_assoc]
    rfl
  · have hchildren := h.children_other hne hlist
    exact hold.kept hdelimits htokens hleaves (Or.inl (by rw [hchildren]))
      (Or.inl (by rw [hchildren]))

end Tree

theorem Move.Groups.bracketsKept {tree after : Tree} {list : NodeId} {cursor : Cursor}
    {move : Move} {span : Span} (hwf : tree.WellFormed) (hfits : move.Fits tree list cursor)
    (h : move.Groups list tree after) (hspan : move.span = some span)
    (hspares : span.Spares tree list) (hkept : tree.BracketsKept) : after.BracketsKept := by
  have htag := Move.retagged_tagged hfits
  have hwf' := htag.wellFormed hwf
  have hkept' := hkept.retagged htag
  have hspares' := hspares.retagged htag
  rcases h.cases hwf hfits with
    ⟨other, front, moved, back, hother, _, hstart, hstop,
      ⟨hwrapped, _⟩ | ⟨group, rest, hextend, rfl, hkind, habsorbed⟩⟩
  · rw [hspan] at hother
    cases hother
    exact hkept'.wrapped hwf' hwrapped hspares' hstart hstop
  · rw [hspan] at hother
    cases hother
    exact hkept'.absorbed hwf' habsorbed hspares' hstart hstop hextend hkind

end SqlLayout
