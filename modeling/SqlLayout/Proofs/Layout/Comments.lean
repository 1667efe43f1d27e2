import SqlLayout.Proofs.Layout.Stripping
import SqlLayout.Proofs.Lexer.Rereading
import SqlLayout.Proofs.Parsing

/-!
# Reading a statement without its comments

Stripping takes the comments of a statement out and leaves its other tokens as
they are.  Whether the lexer reads the same tokens from the new text depends on
their new neighbours: it does if and only if each token is found again at its
place.
-/

namespace SqlLayout

open Token

/-!
# Statements start and end outside of dollar bodies
-/

theorem Token.outside_of_trails {token : Token} (h : token.trails = true) : token.Outside := by
  unfold Token.trails at h
  rw [Bool.or_eq_true, beq_iff_eq, beq_iff_eq] at h
  rcases h with hblank | hcomment
  · unfold Outside
    rw [hblank]
    exact ⟨nofun, nofun⟩
  · unfold Outside
    rw [hcomment]
    exact ⟨nofun, nofun⟩

theorem BlockState.outside_of_isEnd {s : BlockState} {token : Token} (h : s.isEnd token = true) :
    token.Outside := by
  have hcategory : token.category = .punctuation := by
    unfold BlockState.isEnd isPunctuationIn hits at h
    simp only [Bool.and_eq_true, beq_iff_eq] at h
    exact h.2.1
  unfold Outside
  rw [hcategory]
  exact ⟨nofun, nofun⟩

theorem Token.Fitting.openAfter_outside {tokens : List Token} (h : Fitting none tokens)
    (hout : forall token, token ∈ tokens -> token.Outside) : openAfter none tokens = none := by
  by_cases hne : tokens = []
  · rw [hne]
    rfl
  · exact (h.outside hout hne).2

theorem firstStatement_fitting {tag : Option Text} {tokens : List Token} (s : BlockState)
    (h : Fitting tag tokens) :
    Fitting tag (firstStatement s tokens).1 ∧
      Fitting none (firstStatement s tokens).2 := by
  induction tokens generalizing s tag with
  | nil =>
      exact ⟨trivial, trivial⟩
  | cons token rest ih =>
      rcases h with ⟨hfits, hrest⟩
      unfold firstStatement
      dsimp only
      split
      · rename_i hend
        rcases hfits.outside (BlockState.outside_of_isEnd hend) with ⟨_, hopens⟩
        rw [← List.takeWhile_append_dropWhile (p := Token.trails) (l := rest), hopens] at hrest
        rcases fitting_append.mp hrest with ⟨htrail, hlater⟩
        have hout : forall other, other ∈ rest.takeWhile Token.trails -> other.Outside :=
          fun other hother => outside_of_trails
            (List.all_eq_true.mp List.all_takeWhile other hother)
        rw [htrail.openAfter_outside hout] at hlater
        refine ⟨⟨hfits, ?_⟩, hlater⟩
        rw [hopens]
        exact htrail
      · rcases ih (s.step token) hrest with ⟨hfirst, hlater⟩
        exact ⟨⟨hfits, hfirst⟩, hlater⟩

theorem splitWithin_fitting {budget : Nat} {tokens part : List Token} (h : Fitting none tokens)
    (hpart : part ∈ splitWithin budget tokens) : Fitting none part := by
  induction budget generalizing tokens with
  | zero =>
      cases hpart
  | succ budget ih =>
      cases tokens with
      | nil =>
          cases hpart
      | cons token rest =>
          rcases firstStatement_fitting {} h with ⟨hfirst, hlater⟩
          cases hpart with
          | head =>
              exact hfirst
          | tail _ htail =>
              exact ih hlater htail

/-!
# Grouping and stripping
-/

theorem Token.Fits.kept {tag : Option Text} {token after : Token} (h : token.Fits tag)
    (hkept : token.Kept after) : after.Fits tag := by
  have hsame : token.category ≠ .wildcard -> after.category = token.category := by
    intro hne
    rcases hkept.category_eq with hsame | ⟨hwild, _⟩
    · exact hsame
    · exact absurd hwild hne
  refine ⟨?_, ?_, ?_, ?_, ?_⟩
  · rw [hkept.value_eq]
    exact h.ne_nil
  · intro htag
    rcases h.body htag with hstring | hbuiltin
    · exact Or.inl (by rw [hsame (by rw [hstring]; exact nofun), hstring])
    · exact Or.inr (by rw [hsame (by rw [hbuiltin]; exact nofun), hbuiltin])
  · rw [hkept.isWhitespace_eq, hkept.value_eq]
    exact h.blank
  · rw [hkept.isWhitespace_eq, hkept.value_eq]
    exact h.solid
  · intro htag hmark
    rw [hkept.value_eq] at hmark
    have hbuiltin := h.mark htag hmark
    rw [hsame (by rw [hbuiltin]; exact nofun), hbuiltin]

theorem Token.Fitting.kept {tag : Option Text} {tokens after : List Token} (h : Fitting tag tokens)
    (hkept : List.Forall₂ Token.Kept tokens after) : Fitting tag after := by
  induction hkept generalizing tag with
  | nil =>
      trivial
  | @cons token other _ _ hother _ ih =>
      refine ⟨h.1.kept hother, ?_⟩
      rw [hother.value_eq]
      exact ih h.2

theorem Statement.kept_of_group {tokens : List Token} {after : Statement} {limit : Nat}
    (h : (ofTokens tokens).group limit = .ok after) :
    List.Forall₂ Token.Kept tokens after.tokens := by
  have hwf := wellFormed_ofTokens tokens
  have hkept := Tree.tokensKept_of_steps (groupInPlace_steps hwf limit).steps
  have hleaves := leaves_groupInPlace hwf (root_lt_size tokens) (parent?_root tokens) limit
  have hroot := root_groupInPlace (ofTokens tokens) limit
  rw [group_ok_iff.mp h] at hkept hleaves hroot
  dsimp only at hkept hleaves hroot
  have hall := hkept.forall₂ (after.tree.leaves after.root)
  rw [hroot, hleaves] at hall
  unfold Statement.tokens Tree.tokens
  rw [hroot, hleaves]
  have hflat := tokens_ofTokens tokens
  unfold Statement.tokens Tree.tokens at hflat
  rw [hflat] at hall
  exact hall

theorem Statement.root_of_group {tokens : List Token} {after : Statement} {limit : Nat}
    (h : (ofTokens tokens).group limit = .ok after) :
    after.tree.parent? after.root = none ∧ after.tree.isKind after.root .comment = false := by
  have hwf := wellFormed_ofTokens tokens
  have hid := root_lt_size tokens
  have hsteps := (groupInPlace_steps hwf limit).steps
  have hroot := root_groupInPlace (ofTokens tokens) limit
  have hcontent := content?_ofTokens tokens tokens.length
  rw [if_pos rfl, ← root_ofTokens] at hcontent
  rw [group_ok_iff.mp h] at hsteps hroot
  dsimp only at hsteps hroot
  rw [hroot]
  refine ⟨(Tree.root_of_steps hwf hsteps hid (parent?_root tokens)).2.1, ?_⟩
  rw [Tree.isKind, Tree.kind?_of_steps hsteps hid, Tree.kind?_of_content? hcontent]
  rfl

theorem Token.outside_of_isTrivia {token : Token} (h : token.isTrivia = true) :
    token.Outside := by
  constructor
  · intro hcategory
    rw [isTrivia, isWhitespace, isComment, hcategory] at h
    cases h
  · intro hcategory
    rw [isTrivia, isWhitespace, isComment, hcategory] at h
    cases h

theorem Token.fits_space : Token.space.Fits none := by
  refine ⟨List.cons_ne_nil _ _, fun hnone => absurd rfl hnone, ?_, nofun, nofun⟩
  intro _ c hc
  rw [List.mem_singleton.mp hc]
  decide

/-- Taking a run of comments out leaves tokens that fit: no mark is open before
the run, and none after it. -/
theorem CommentCut.fitting {tag : Option Text} {tokens after : List Token}
    (hcut : CommentCut tokens after) (h : Fitting tag tokens) : Fitting tag after := by
  cases hcut with
  | @cut run place front back hne htrivia hplace =>
      rw [List.append_assoc] at h ⊢
      rcases fitting_append.mp h with ⟨hfront, hrest⟩
      rcases fitting_append.mp hrest with ⟨hrun, hback⟩
      rcases hrun.outside (fun token hmem => outside_of_isTrivia (htrivia token hmem)) hne with
        ⟨htag, hopen⟩
      rw [hopen] at hback
      refine fitting_append.mpr ⟨hfront, ?_⟩
      rw [htag]
      rcases hplace with rfl | rfl
      · exact hback
      · exact ⟨fits_space, hback⟩

theorem CommentCut.filter_eq {tokens after : List Token} (h : CommentCut tokens after) :
    after.filter (fun token => !token.isTrivia) = tokens.filter fun token => !token.isTrivia := by
  cases h with
  | @cut run place front back _ htrivia hplace =>
      have hrun : run.filter (fun token => !token.isTrivia) = [] := by
        rw [List.filter_eq_nil_iff]
        intro token hmem
        rw [htrivia token hmem]
        exact Bool.false_ne_true
      have hspace : place.filter (fun token => !token.isTrivia) = [] := by
        rcases hplace with rfl | rfl
        · rfl
        · rfl
      rw [List.filter_append, List.filter_append, List.filter_append, List.filter_append, hrun,
        hspace]

theorem filter_eq_of_cuts {tokens after : List Token}
    (h : Relation.ReflTransGen CommentCut tokens after) :
    after.filter (fun token => !token.isTrivia) = tokens.filter fun token => !token.isTrivia := by
  induction h with
  | refl =>
      rfl
  | tail _ hlast ih =>
      rw [hlast.filter_eq, ih]

theorem fitting_of_cuts {tag : Option Text} {tokens after : List Token}
    (h : Relation.ReflTransGen CommentCut tokens after) (hfitting : Fitting tag tokens) :
    Fitting tag after := by
  induction h with
  | refl =>
      exact hfitting
  | tail _ hlast ih =>
      exact hlast.fitting ih

/-- After stripping, no leaf of a grouped statement is a comment.  The leaves that
are neither comments nor blanks are the same in the same order, with the same
tokens. -/
theorem comments_stripped_of_group {tokens : List Token} {limit : Nat} {s : Statement}
    (h : (Statement.ofTokens tokens).group limit = .ok s) :
    (forall leaf, leaf ∈ s.stripComments.tree.leaves s.stripComments.root ->
        s.stripComments.tree.tokenHas leaf Token.isComment = false) ∧
      s.stripComments.tree.codeLeaves s.stripComments.root = s.tree.codeLeaves s.root ∧
      forall leaf, leaf ∈ s.tree.codeLeaves s.root ->
        s.stripComments.tree.token? leaf = s.tree.token? leaf := by
  rcases Statement.wellFormed_of_group h with ⟨hwf, hroot⟩
  rcases Statement.root_of_group h with ⟨htop, hkind⟩
  have hapart := Statement.commentsApart_of_group h
  have hfree := (Statement.stripComments_spec hwf hapart hroot htop hkind).2
  refine ⟨?_, Statement.codeLeaves_stripComments hwf hapart hroot htop hkind⟩
  intro leaf hleaf
  unfold Tree.tokenHas
  cases htoken : s.stripComments.tree.token? leaf with
  | none =>
      rfl
  | some token =>
      exact hfree token (List.mem_filterMap.mpr ⟨leaf, hleaf, htoken⟩)

/-- Two comments, one in the identifier that comes before it and one in a
parenthesis: both go, and five tokens stay. -/
theorem comments_stripped_of_group_parenthesis :
    exists s, (Statement.ofTokens [⟨.name, ['a'], some 0⟩, ⟨.blockComment, Text.of "/*b*/", some 1⟩,
        ⟨.punctuation, [','], some 6⟩, ⟨.punctuation, ['('], some 7⟩,
        ⟨.lineComment, Text.of "--c", some 8⟩, ⟨.whitespace, ['\n'], some 11⟩,
        ⟨.name, ['d'], some 12⟩, ⟨.punctuation, [')'], some 13⟩]).group 4 = .ok s ∧
      (forall leaf, leaf ∈ s.stripComments.tree.leaves s.stripComments.root ->
        s.stripComments.tree.tokenHas leaf Token.isComment = false) ∧
      s.stripComments.tree.codeLeaves s.stripComments.root = [0, 2, 3, 6, 7] := by
  have hrun : ((Statement.ofTokens [⟨.name, ['a'], some 0⟩,
      ⟨.blockComment, Text.of "/*b*/", some 1⟩, ⟨.punctuation, [','], some 6⟩,
      ⟨.punctuation, ['('], some 7⟩, ⟨.lineComment, Text.of "--c", some 8⟩,
      ⟨.whitespace, ['\n'], some 11⟩, ⟨.name, ['d'], some 12⟩,
      ⟨.punctuation, [')'], some 13⟩]).group 4).toOption.any
        (fun s => s.tree.codeLeaves s.root == [0, 2, 3, 6, 7]) = true := by
    decide +kernel
  rcases Statement.exists_of_group hrun with ⟨s, hgroup, hleaves⟩
  rcases comments_stripped_of_group hgroup with ⟨hfree, hcode, _⟩
  exact ⟨s, hgroup, hfree, hcode.trans (eq_of_beq hleaves)⟩

/-- Stripping cuts all comments out of a parsed statement and nothing else but
blanks.  The tokens that remain are read again from the new text, blanks aside,
if and only if each is found at its place. -/
theorem stripComments_rereads_iff {sql : Text} {limit : Nat} {statements : List Statement}
    (hparse : parse sql {} limit = .ok statements) {s : Statement} (hs : s ∈ statements) :
    Relation.ReflTransGen CommentCut s.tokens s.stripComments.tokens ∧
      (forall token, token ∈ s.stripComments.tokens -> token.isComment = false) ∧
      s.stripComments.tokens.filter (fun token => !token.isWhitespace) =
        s.tokens.filter (fun token => !token.isTrivia) ∧
      (solidTexts (tokenize .default s.stripComments.text) =
          (s.tokens.filter fun token => !token.isTrivia).map Token.value <->
        FoundIn (tokenize .default s.stripComments.text) 0 s.stripComments.tokens) := by
  rcases parse_ok hparse with ⟨config, hcheck, hgroups⟩
  rcases exists_of_mem_forall₂ hgroups hs with ⟨flat, hflat, hgroup⟩
  cases hcheck
  rcases List.mem_map.mp hflat with ⟨tokens, hpart, rfl⟩
  have hfitting : Fitting none tokens :=
    splitWithin_fitting ((emits_tokenize .default sql).fitting (ready_start sql)) hpart
  rcases Statement.wellFormed_of_group hgroup with ⟨hwf, hroot⟩
  rcases Statement.root_of_group hgroup with ⟨htop, hkind⟩
  have hapart := Statement.commentsApart_of_group hgroup
  rcases Statement.stripComments_spec hwf hapart hroot htop hkind with ⟨hcuts, hfree⟩
  have hkeeps : s.stripComments.tokens.filter (fun token => !token.isWhitespace) =
      s.tokens.filter fun token => !token.isTrivia := by
    rw [← filter_eq_of_cuts hcuts]
    apply List.filter_congr
    intro token hmem
    rw [isTrivia, hfree token hmem, Bool.or_false]
  refine ⟨hcuts, hfree, hkeeps, ?_⟩
  rw [← hkeeps]
  exact solidTexts_tokenize_iff
    (fitting_of_cuts hcuts (hfitting.kept (Statement.kept_of_group hgroup)))

/-- Two names with a comment between them: a space keeps them apart. -/
theorem stripComments_rereads_iff_names :
    exists statements s, parse (Text.of "a/*c*/b") {} defaultMaxDepth = .ok statements ∧
      s ∈ statements ∧ s.stripComments.text = Text.of "a b" ∧
      (solidTexts (tokenize .default s.stripComments.text) =
          (s.tokens.filter fun token => !token.isTrivia).map Token.value <->
        FoundIn (tokenize .default s.stripComments.text) 0 s.stripComments.tokens) := by
  have htokens : tokenize ⟨.generic, Vocabulary.ofDialect .generic⟩ (Text.of "a/*c*/b") =
      [⟨.name, ['a'], some 0⟩, ⟨.blockComment, Text.of "/*c*/", some 1⟩,
       ⟨.name, ['b'], some 6⟩] := by
    decide +kernel
  rcases exists_parsed (p := fun s => s.stripComments.text == Text.of "a b") htokens
    (by decide +kernel) with ⟨statements, s, hparse, hs, htext⟩
  exact ⟨statements, s, hparse, hs, eq_of_beq htext, (stripComments_rereads_iff hparse hs).2.2.2⟩

/-- A name and an ordering word with a comment between them: the comment belongs
to the name, ends its group, and goes without a trace. -/
theorem stripComments_joins_ordering :
    exists statements s, parse (Text.of "a/*c*/asc") {} defaultMaxDepth = .ok statements ∧
      s ∈ statements ∧
      (s.tokens.filter fun token => !token.isTrivia).map Token.value =
        [Text.of "a", Text.of "asc"] ∧
      solidTexts (tokenize .default s.stripComments.text) = [Text.of "aasc"] := by
  have htokens : tokenize ⟨.generic, Vocabulary.ofDialect .generic⟩ (Text.of "a/*c*/asc") =
      [⟨.name, ['a'], some 0⟩, ⟨.blockComment, Text.of "/*c*/", some 1⟩,
       ⟨.order, Text.of "asc", some 6⟩] := by
    decide +kernel
  rcases exists_parsed
    (p := fun s => s.stripComments.text == Text.of "aasc" &&
      (s.tokens.filter fun token => !token.isTrivia).map Token.value ==
        [Text.of "a", Text.of "asc"])
    htokens (by decide +kernel) with ⟨statements, s, hparse, hs, hjoined⟩
  rw [Bool.and_eq_true, beq_iff_eq, beq_iff_eq] at hjoined
  refine ⟨statements, s, hparse, hs, hjoined.2, ?_⟩
  rw [hjoined.1]
  decide +kernel

end SqlLayout
