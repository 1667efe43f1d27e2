import SqlLayout.Proofs.Grouping.CalmHeads
import SqlLayout.Proofs.Grouping.FaceWalks
import SqlLayout.Proofs.Grouping.FoldedComments

/-!
# WITH clauses

A statement that begins with a WITH clause for one name: its faces once the comments are
grouped, then with the body in a group of its own, then with the name as an identifier.
-/

namespace SqlLayout

open Grouping

/-- A clause for one name with its body in parentheses and the keyword behind it, with
blanks and comments anywhere in front of these tokens and between them. -/
structure WithClause where
  front : List Token
  word : Token
  beforeName : List Token
  name : Token
  beforeAs : List Token
  asWord : Token
  beforeBody : List Token
  opening : Token
  body : List Token
  closing : Token
  beforeKey : List Token
  key : Token
  rest : List Token
  front_isTrivia : forall t, t ∈ front -> t.isTrivia = true
  word_eq : word.category = .cte ∧ word.normalized = Text.of "WITH"
  beforeName_isTrivia : forall t, t ∈ beforeName -> t.isTrivia = true
  name_eq : name.category = .name
  beforeAs_isTrivia : forall t, t ∈ beforeAs -> t.isTrivia = true
  asWord_eq : asWord.category = .keyword ∧ asWord.normalized = Text.of "AS"
  beforeBody_isTrivia : forall t, t ∈ beforeBody -> t.isTrivia = true
  opening_eq : opening.isPunctuationIn [Text.of "("] = true
  body_plain : forall t, t ∈ body -> t.isPunctuationIn [Text.of "(", Text.of ")"] = false
  closing_eq : closing.isPunctuationIn [Text.of ")"] = true
  beforeKey_isTrivia : forall t, t ∈ beforeKey -> t.isTrivia = true
  key_eq : key.category = .dml

namespace WithClause

def tokens (clause : WithClause) : List Token :=
  clause.front ++ clause.word :: (clause.beforeName ++ clause.name :: (clause.beforeAs ++
    clause.asWord :: (clause.beforeBody ++ clause.opening :: (clause.body ++
      clause.closing :: (clause.beforeKey ++ clause.key :: clause.rest)))))

/-- No comment stands directly in front of the name or of the body. -/
def isClear (clause : WithClause) : Bool :=
  (clause.beforeName ++ clause.beforeBody).all fun t => !t.isComment

/-- No square bracket that the body leaves open is closed behind the clause. -/
def squaresApart (clause : WithClause) : Bool :=
  openAfter ⟨.punctuation, [Text.of "["]⟩ ⟨.punctuation, [Text.of "]"]⟩ 0 clause.body == 0 ||
    shutBefore ⟨.punctuation, [Text.of "["]⟩ ⟨.punctuation, [Text.of "]"]⟩ clause.rest == 0

end WithClause

/-!
# Calm tokens
-/

namespace Token

variable {t : Token}

theorem not_isTypeWord_of_category (h : t.isKeyword = false) (hbuiltin : t.category ≠ .builtin)
    (word : Text) : Pass.isTypeWord word t = false := by
  unfold Pass.isTypeWord
  rw [h, beq_eq_false_iff_ne.mpr hbuiltin]
  rfl

theorem isCalm_of_isWhitespace (h : t.isWhitespace = true) : t.IsCalm := by
  have hcategory := category_of_isWhitespace h
  refine ⟨Or.inl (by rw [hcategory]; decide), fun word _ => not_isTypeWord_of_category ?_ ?_ word⟩
  · unfold isKeyword
    rw [hcategory]
    rfl
  · rw [hcategory]
    nofun

theorem isCalm_of_name (h : t.category = .name) : t.IsCalm := by
  refine ⟨Or.inl (by rw [h]; decide), fun word _ => not_isTypeWord_of_category ?_ ?_ word⟩
  · unfold isKeyword
    rw [h]
    rfl
  · rw [h]
    nofun

theorem isCalm_of_with (h : t.category = .cte ∧ t.normalized = Text.of "WITH") : t.IsCalm := by
  have hkeyword : t.isKeyword = true := by
    unfold isKeyword
    rw [h.1]
    rfl
  refine ⟨Or.inl (by rw [h.1]; decide), fun word hword => not_isTypeWord hkeyword hword ?_⟩
  rw [h.2]
  rintro rfl
  exact absurd hword (by decide)

def readsAs (t : Token) : Bool := t.isKeyword && t.normalized == Text.of "AS"

theorem isCalm_of_as (h : t.category = .keyword ∧ t.normalized = Text.of "AS") : t.IsCalm := by
  have hkeyword : t.isKeyword = true := by
    unfold isKeyword
    rw [h.1]
    rfl
  refine ⟨Or.inr h, fun word hword => not_isTypeWord hkeyword hword ?_⟩
  rw [h.2]
  rintro rfl
  exact absurd hword (by decide)

theorem Leading.isCalm (h : t.Leading) (hdml : t.category = .dml) : t.IsCalm :=
  ⟨Or.inl (by rw [hdml]; decide), fun _ hword => h.not_isTypeWord hword⟩

end Token

namespace Face

variable {face : Face}

theorem isGap_iff : face.isGap = true <-> face.isBlank = true ∨ face = .group .comment := by
  unfold isGap
  rw [Bool.or_eq_true]
  cases face with
  | token t =>
      simp [isKind]
  | group kind =>
      simp [isKind, isBlank, has]

theorem IsCalm.of_isBlank (h : face.isBlank = true) : face.IsCalm := by
  cases face with
  | token t =>
      exact Token.isCalm_of_isWhitespace h
  | group kind =>
      cases h

theorem IsCalm.of_isGap (h : face.isGap = true) : face.IsCalm := by
  rcases isGap_iff.mp h with hblank | rfl
  · exact IsCalm.of_isBlank hblank
  · exact List.mem_cons_self

theorem isGap_of_isBlank (h : face.isBlank = true) : face.isGap = true :=
  isGap_iff.mpr (Or.inl h)

theorem has_of_isGap (h : face.isGap = true) {p : Category -> Bool} (hp : p .whitespace = false) :
    face.has (fun t => p t.category) = false := by
  cases face with
  | group kind =>
      rfl
  | token t =>
      rcases isGap_iff.mp h with hblank | hgroup
      · change p t.category = false
        rw [Token.category_of_isWhitespace hblank, hp]
      · cases hgroup

end Face

/-!
# The faces of a clause
-/

namespace WithClause

variable (clause : WithClause)

def head (front beforeName middle beforeKey : List Face) : List Face :=
  front ++ .token clause.word :: (beforeName ++ (middle ++ (beforeKey ++ [.token clause.key])))

/-- What stands in front of the tokens of a clause once the comments are grouped. -/
structure Gaps where
  front : List Face
  beforeName : List Face
  beforeAs : List Face
  beforeBody : List Face
  beforeKey : List Face
  front_isGap : forall face, face ∈ front -> face.isGap = true
  beforeName_isBlank : forall face, face ∈ beforeName -> face.isBlank = true
  beforeAs_isGap : forall face, face ∈ beforeAs -> face.isGap = true
  beforeBody_isBlank : forall face, face ∈ beforeBody -> face.isBlank = true
  beforeKey_isGap : forall face, face ∈ beforeKey -> face.isGap = true

variable {clause}

theorem calmHead_head (hkey : clause.key.Leading) {front beforeName middle beforeKey : List Face}
    (hfront : forall face, face ∈ front -> face.isGap = true)
    (hname : forall face, face ∈ beforeName -> face.isBlank = true)
    (hmiddle : forall face, face ∈ middle -> face.IsCalm)
    (hbefore : forall face, face ∈ beforeKey -> face.isGap = true) :
    Face.CalmHead (clause.head front beforeName middle beforeKey) where
  calm := by
    intro face hface
    simp only [head, List.mem_append, List.mem_cons, List.not_mem_nil, or_false] at hface
    rcases hface with hgap | rfl | hblank | hcalm | hgap | rfl
    · exact Face.IsCalm.of_isGap (hfront face hgap)
    · exact Token.isCalm_of_with clause.word_eq
    · exact Face.IsCalm.of_isBlank (hname face hblank)
    · exact hmiddle face hcalm
    · exact Face.IsCalm.of_isGap (hbefore face hgap)
    · exact hkey.isCalm clause.key_eq
  keyword :=
    ⟨front ++ .token clause.word :: (beforeName ++ (middle ++ beforeKey)), clause.key,
      by simp [head], hkey⟩

def middle (gaps : Gaps) (name : Face) (asWord : Token) : List Face :=
  name :: (gaps.beforeAs ++ .token asWord :: (gaps.beforeBody ++ [.group .parenthesis]))

theorem middle_isCalm (gaps : Gaps) {name : Face} (hname : name.IsCalm) :
    forall face, face ∈ middle gaps name clause.asWord -> face.IsCalm := by
  intro face hface
  simp only [middle, List.mem_append, List.mem_cons, List.not_mem_nil, or_false] at hface
  rcases hface with rfl | hgap | rfl | hblank | rfl
  · exact hname
  · exact Face.IsCalm.of_isGap (gaps.beforeAs_isGap face hgap)
  · exact Token.isCalm_of_as clause.asWord_eq
  · exact Face.IsCalm.of_isBlank (gaps.beforeBody_isBlank face hblank)
  · exact List.mem_cons_of_mem _ List.mem_cons_self

/-!
# The comments are grouped
-/

def upToBody (clause : WithClause) (gaps : Gaps) : List Face :=
  gaps.front ++ .token clause.word :: (gaps.beforeName ++ .token clause.name ::
    (gaps.beforeAs ++ .token clause.asWord :: gaps.beforeBody))

def laid (clause : WithClause) (gaps : Gaps) (body rest : List Face) : List Face :=
  clause.upToBody gaps ++ .token clause.opening :: (body ++ .token clause.closing ::
    (gaps.beforeKey ++ .token clause.key :: rest))

theorem cut_at {t : Token} {left right : List Token} {faces : List Face}
    (h : Folded (left ++ t :: right) faces) (ht : t.category ∉ .wildcard :: Category.trivia) :
    exists front back, faces = front ++ .token t :: back ∧ Folded left front ∧
      Folded right back := by
  rw [List.mem_cons, not_or] at ht
  have htrivia : t.isTrivia = false :=
    Bool.eq_false_iff.mpr fun h => ht.2 (Token.isTrivia_cases h)
  rcases h.cut htrivia with ⟨front, later, back, rfl, hkept, hleft, hright⟩
  rw [hkept.eq_or.resolve_right fun hwild => ht.1 hwild.1]
  exact ⟨front, back, rfl, hleft, hright⟩

theorem exists_laid (hclear : clause.isClear = true) {faces : List Face}
    (h : Folded clause.tokens faces) :
    exists gaps body rest, faces = clause.laid gaps body rest ∧ Folded clause.body body ∧
      Folded clause.rest rest := by
  unfold isClear at hclear
  rw [List.all_append, Bool.and_eq_true, List.all_eq_true, List.all_eq_true] at hclear
  have hmark : forall {t : Token} {marks : List Text}, t.isPunctuationIn marks = true ->
      t.category = .punctuation := fun h => beq_iff_eq.mp (Bool.and_eq_true_iff.mp h).1
  rcases cut_at h (by rw [clause.word_eq.1]; decide) with ⟨front, _, rfl, hfront, h⟩
  rcases cut_at h (by rw [clause.name_eq]; decide) with ⟨beforeName, _, rfl, hname, h⟩
  rcases cut_at h (by rw [clause.asWord_eq.1]; decide) with ⟨beforeAs, _, rfl, has, h⟩
  rcases cut_at h (by rw [hmark clause.opening_eq]; decide) with ⟨beforeBody, _, rfl, hopening, h⟩
  rcases cut_at h (by rw [hmark clause.closing_eq]; decide) with ⟨body, _, rfl, hbody, h⟩
  rcases cut_at h (by rw [clause.key_eq]; decide) with ⟨beforeKey, rest, rfl, hkey, hrest⟩
  refine ⟨⟨front, beforeName, beforeAs, beforeBody, beforeKey,
    hfront.isGap clause.front_isTrivia,
    hname.isBlank clause.beforeName_isTrivia fun t ht => by simpa using hclear.1 t ht,
    has.isGap clause.beforeAs_isTrivia,
    hopening.isBlank clause.beforeBody_isTrivia fun t ht => by simpa using hclear.2 t ht,
    hkey.isGap clause.beforeKey_isTrivia⟩, body, rest, ?_, hbody, hrest⟩
  simp [laid, upToBody]

/-!
# The passes for brackets
-/

section

variable {opening closing : TokenPattern} (hopening : opening.category = .punctuation)
  (hclosing : closing.category = .punctuation)
include hopening hclosing

theorem not_pairs_of_isGap {face : Face} (h : face.isGap = true) :
    face.has (Token.opensPair opening) = false ∧
      face.has (Token.shutsPair opening closing) = false := by
  cases face with
  | group kind =>
      exact ⟨rfl, rfl⟩
  | token t =>
      refine Token.not_pairs_of_isTrivia ?_ hopening hclosing
      rcases Face.isGap_iff.mp h with hblank | hgroup
      · exact Bool.or_eq_true_iff.mpr (Or.inl hblank)
      · cases hgroup

theorem not_pairs_of_category {t : Token} (h : t.category ≠ .punctuation) :
    (Face.token t).has (Token.opensPair opening) = false ∧
      (Face.token t).has (Token.shutsPair opening closing) = false := by
  have hnot : forall {pattern : TokenPattern}, pattern.category = .punctuation ->
      t.hits pattern = false := by
    intro pattern hpattern
    apply Token.hits_eq_false_of_ne
    rw [hpattern]
    exact h
  change t.opensPair opening = false ∧ t.shutsPair opening closing = false
  unfold Token.opensPair Token.shutsPair
  rw [hnot hopening, hnot hclosing, Bool.and_false, Bool.and_false]
  exact ⟨rfl, rfl⟩

theorem upToBody_not_pairs (gaps : Gaps) : forall face, face ∈ clause.upToBody gaps ->
    face.has (Token.opensPair opening) = false ∧
      face.has (Token.shutsPair opening closing) = false := by
  have hgap := @not_pairs_of_isGap opening closing hopening hclosing
  have hcategory := @not_pairs_of_category opening closing hopening hclosing
  intro face hface
  simp only [upToBody, List.mem_append, List.mem_cons] at hface
  rcases hface with hmem | rfl | hmem | rfl | hmem | rfl | hmem
  · exact hgap (gaps.front_isGap face hmem)
  · exact hcategory (by rw [clause.word_eq.1]; nofun)
  · exact hgap (Face.isGap_of_isBlank (gaps.beforeName_isBlank face hmem))
  · exact hcategory (by rw [clause.name_eq]; nofun)
  · exact hgap (gaps.beforeAs_isGap face hmem)
  · exact hcategory (by rw [clause.asWord_eq.1]; nofun)
  · exact hgap (Face.isGap_of_isBlank (gaps.beforeBody_isBlank face hmem))

theorem beforeKey_not_pairs (gaps : Gaps) :
    forall face, face ∈ gaps.beforeKey ++ [.token clause.key] ->
      face.has (Token.opensPair opening) = false ∧
        face.has (Token.shutsPair opening closing) = false := by
  intro face hface
  rcases List.mem_append.mp hface with hmem | hmem
  · exact not_pairs_of_isGap hopening hclosing (gaps.beforeKey_isGap face hmem)
  · rw [List.mem_singleton.mp hmem]
    exact not_pairs_of_category hopening hclosing (by rw [clause.key_eq]; nofun)

end

theorem not_isPunctuationIn {t : Token} {mark other : Text}
    (h : t.isPunctuationIn [mark] = true) (hother : other ≠ mark) :
    t.isPunctuationIn [other] = false := by
  apply Bool.eq_false_iff.mpr
  intro hmark
  rw [Token.isPunctuationIn_singleton_iff] at h hmark
  exact hother (hmark.2.symm.trans h.2)

variable {limit : Nat}

theorem squares_turn (hsquares : clause.squaresApart = true) {gaps : Gaps} {body rest : List Face}
    (hbody : Folded clause.body body) (hrest : Folded clause.rest rest) :
    Pass.Turns limit (· = clause.laid gaps body rest)
      (fun faces => exists body' rest', faces = clause.laid gaps body' rest' ∧
        forall face, face ∈ body' -> face ∈ body ∨ face = .group .squareBrackets)
      [.pairs .squareBrackets] := by
  apply Pass.turns_singleton (List.mem_of_getElem? (i := 1) rfl)
  intro tree after root hshows hrun
  have hnot : forall {t : Token} {mark : Text}, t.isPunctuationIn [mark] = true ->
      mark ≠ Text.of "[" -> mark ≠ Text.of "]" ->
      (Face.token t).has (Token.opensPair ⟨.punctuation, [Text.of "["]⟩) = false ∧
        (Face.token t).has (Token.shutsPair ⟨.punctuation, [Text.of "["]⟩
          ⟨.punctuation, [Text.of "]"]⟩) = false := by
    intro t mark ht hopen hclose
    change (!t.isWhitespace && t.isPunctuationIn [Text.of "["]) = false ∧
      (!t.isWhitespace && !t.isPunctuationIn [Text.of "["] &&
        t.isPunctuationIn [Text.of "]"]) = false
    rw [not_isPunctuationIn ht hopen.symm, not_isPunctuationIn ht hclose.symm]
    simp
  have hfront : forall face, face ∈ clause.upToBody gaps ++ [.token clause.opening] ->
      face.has (Token.opensPair ⟨.punctuation, [Text.of "["]⟩) = false ∧
        face.has (Token.shutsPair ⟨.punctuation, [Text.of "["]⟩
          ⟨.punctuation, [Text.of "]"]⟩) = false := by
    intro face hface
    rcases List.mem_append.mp hface with hmem | hmem
    · exact upToBody_not_pairs rfl rfl gaps face hmem
    · rw [List.mem_singleton.mp hmem]
      exact hnot clause.opening_eq (by decide) (by decide)
  have hmiddle : forall face,
      face ∈ .token clause.closing :: (gaps.beforeKey ++ [.token clause.key]) ->
      face.has (Token.opensPair ⟨.punctuation, [Text.of "["]⟩) = false ∧
        face.has (Token.shutsPair ⟨.punctuation, [Text.of "["]⟩
          ⟨.punctuation, [Text.of "]"]⟩) = false := by
    intro face hface
    rcases List.mem_cons.mp hface with rfl | hmem
    · exact hnot clause.closing_eq (by decide) (by decide)
    · exact beforeKey_not_pairs rfl rfl gaps face hmem
  have hapart : openAfter ⟨.punctuation, [Text.of "["]⟩ ⟨.punctuation, [Text.of "]"]⟩ 0
        (Face.tokens body) = 0 ∨
      shutBefore ⟨.punctuation, [Text.of "["]⟩ ⟨.punctuation, [Text.of "]"]⟩
        (Face.tokens rest) = 0 := by
    rw [hbody.openAfter_eq rfl rfl, hrest.shutBefore_eq rfl rfl]
    simpa [squaresApart] using hsquares
  rcases Face.paired_apart hfront hmiddle hapart with ⟨body', rest', hpaired, hmem⟩
  refine ⟨body', rest', ?_, hmem⟩
  rw [Pass.faces_of_pairs rfl rfl hshows.wellFormed hrun, hshows.faces]
  simpa [laid] using hpaired

theorem parens_turn {gaps : Gaps} {body rest : List Face}
    (hbody : forall face, face ∈ body ->
      face.has (Token.opensPair ⟨.punctuation, [Text.of "("]⟩) = false ∧
        face.has (Token.shutsPair ⟨.punctuation, [Text.of "("]⟩
          ⟨.punctuation, [Text.of ")"]⟩) = false) :
    Pass.Turns limit (· = clause.laid gaps body rest)
      (clause.head gaps.front gaps.beforeName (middle gaps (.token clause.name) clause.asWord)
        gaps.beforeKey <+: ·) [.pairs .parenthesis] := by
  apply Pass.turns_singleton (List.mem_of_getElem? (i := 2) rfl)
  intro tree after root hshows hrun
  have hblank : forall {t : Token} {marks : List Text}, t.isPunctuationIn marks = true ->
      t.isWhitespace = false := by
    intro t marks h
    have hcategory : t.category = .punctuation := beq_iff_eq.mp (Bool.and_eq_true_iff.mp h).1
    unfold Token.isWhitespace
    rw [hcategory]
    rfl
  have hfirst : (Face.token clause.opening).has
      (Token.opensPair ⟨.punctuation, [Text.of "("]⟩) = true := by
    change (!clause.opening.isWhitespace && clause.opening.isPunctuationIn [Text.of "("]) = true
    rw [hblank clause.opening_eq, clause.opening_eq]
    rfl
  have hlast : (Face.token clause.closing).has (Token.shutsPair ⟨.punctuation, [Text.of "("]⟩
      ⟨.punctuation, [Text.of ")"]⟩) = true := by
    change (!clause.closing.isWhitespace && !clause.closing.isPunctuationIn [Text.of "("] &&
      clause.closing.isPunctuationIn [Text.of ")"]) = true
    rw [hblank clause.closing_eq, clause.closing_eq,
      not_isPunctuationIn clause.closing_eq (by decide)]
    rfl
  rcases @Face.paired_group .parenthesis _ _ _ body _ rest _ _
      (@upToBody_not_pairs clause _ _ rfl rfl gaps) hfirst hbody hlast
      (@beforeKey_not_pairs clause _ _ rfl rfl gaps) with ⟨rest', hpaired⟩
  rw [Pass.faces_of_pairs rfl rfl hshows.wellFormed hrun, hshows.faces]
  refine ⟨rest', ?_⟩
  simpa [laid, upToBody, head, middle] using hpaired.symm

theorem brackets_turn (hsquares : clause.squaresApart = true) {gaps : Gaps}
    {body rest : List Face} (hbody : Folded clause.body body) (hrest : Folded clause.rest rest) :
    Pass.Turns limit (· = clause.laid gaps body rest)
      (clause.head gaps.front gaps.beforeName (middle gaps (.token clause.name) clause.asWord)
        gaps.beforeKey <+: ·) [.pairs .squareBrackets, .pairs .parenthesis] := by
  have hplain : forall t, t ∈ clause.body ->
      t.opensPair ⟨.punctuation, [Text.of "("]⟩ = false ∧
        t.shutsPair ⟨.punctuation, [Text.of "("]⟩ ⟨.punctuation, [Text.of ")"]⟩ = false := by
    intro t ht
    have hnot : forall mark, mark ∈ [Text.of "(", Text.of ")"] ->
        t.isPunctuationIn [mark] = false := by
      intro mark hmark
      apply Bool.eq_false_iff.mpr
      intro h
      have hmany : t.isPunctuationIn [Text.of "(", Text.of ")"] = true :=
        Token.hits_mono h (List.cons_subset.mpr ⟨hmark, List.nil_subset _⟩)
      rw [clause.body_plain t ht] at hmany
      cases hmany
    change (!t.isWhitespace && t.isPunctuationIn [Text.of "("]) = false ∧
      (!t.isWhitespace && !t.isPunctuationIn [Text.of "("] &&
        t.isPunctuationIn [Text.of ")"]) = false
    rw [hnot _ List.mem_cons_self, hnot _ (List.mem_cons_of_mem _ List.mem_cons_self),
      Bool.and_false, Bool.and_false]
    exact ⟨rfl, rfl⟩
  refine Pass.turns_append (squares_turn hsquares hbody hrest) ?_
  intro tree after root hshows hexec
  rcases hshows.faces with ⟨body', rest', hfaces, hmem⟩
  refine @parens_turn clause limit gaps body' rest' ?_ tree after root
    ⟨hshows.wellFormed, hshows.kind, hshows.parent, hfaces⟩ hexec
  intro face hface
  rcases hmem face hface with hold | rfl
  · exact hbody.not_pairs rfl rfl hplain face hold
  · exact ⟨rfl, rfl⟩

/-!
# The passes up to the one for names
-/

def bodied (clause : WithClause) (gaps : Gaps) (name : Face) : List Face :=
  clause.head gaps.front gaps.beforeName (middle gaps name clause.asWord) gaps.beforeKey

theorem calmHead_bodied (hkey : clause.key.Leading) (gaps : Gaps) {name : Face}
    (hname : name.IsCalm) : Face.CalmHead (clause.bodied gaps name) :=
  calmHead_head hkey gaps.front_isGap gaps.beforeName_isBlank (middle_isCalm gaps hname)
    gaps.beforeKey_isGap

theorem exists_solid {gaps rest : List Face} {solid : Face}
    (hgaps : forall face, face ∈ gaps -> face.isGap = true) (hblank : solid.isBlank = false)
    (hparens : solid.isKind .parenthesis = false) :
    exists blanks next right, gaps ++ solid :: rest = blanks ++ next :: right ∧
      (forall face, face ∈ blanks -> face.isBlank = true) ∧ next.isBlank = false ∧
      next.isKind .parenthesis = false := by
  induction gaps with
  | nil =>
      exact ⟨[], solid, rest, rfl, fun _ hmem => absurd hmem List.not_mem_nil, hblank, hparens⟩
  | cons face gaps ih =>
      rw [List.forall_mem_cons] at hgaps
      rcases Face.isGap_iff.mp hgaps.1 with hface | rfl
      · rcases ih hgaps.2 with ⟨blanks, next, right, heq, hblanks, hnext⟩
        refine ⟨face :: blanks, next, right, by rw [List.cons_append, heq]; rfl, ?_, hnext⟩
        exact List.forall_mem_cons.mpr ⟨hface, hblanks⟩
      · exact ⟨[], .group .comment, gaps ++ solid :: rest, rfl,
          fun _ hmem => absurd hmem List.not_mem_nil, rfl, rfl⟩

def upToName (clause : WithClause) (gaps : Gaps) : List Face :=
  gaps.front ++ .token clause.word :: gaps.beforeName

def behindName (clause : WithClause) (gaps : Gaps) : List Face :=
  gaps.beforeAs ++ .token clause.asWord :: (gaps.beforeBody ++ .group .parenthesis ::
    (gaps.beforeKey ++ [.token clause.key]))

theorem bodied_eq (gaps : Gaps) (name : Face) :
    clause.bodied gaps name = clause.upToName gaps ++ name :: clause.behindName gaps := by
  simp [bodied, head, middle, upToName, behindName]

theorem has_of_mem_around (gaps : Gaps) {p : Category -> Bool}
    (hp : [Category.whitespace, .cte, .keyword, .dml].any p = false) : forall face,
    face ∈ clause.upToName gaps ++ clause.behindName gaps ->
      face.has (fun t => p t.category) = false := by
  have htest : forall category, category ∈ [Category.whitespace, .cte, .keyword, .dml] ->
      p category = false :=
    fun category hmem => Bool.eq_false_iff.mpr (List.any_eq_false.mp hp category hmem)
  have hgap : forall {face : Face}, face.isGap = true ->
      face.has (fun t => p t.category) = false :=
    fun h => Face.has_of_isGap h (htest _ (by decide))
  have htoken : forall {t : Token}, t.category ∈ [Category.whitespace, .cte, .keyword, .dml] ->
      (Face.token t).has (fun t => p t.category) = false := fun hmem => htest _ hmem
  intro face hface
  simp only [upToName, behindName, List.mem_append, List.mem_cons, List.not_mem_nil, or_false]
    at hface
  rcases hface with (hmem | rfl | hmem) | hmem | rfl | hmem | rfl | hmem | rfl
  · exact hgap (gaps.front_isGap face hmem)
  · exact htoken (by rw [clause.word_eq.1]; decide)
  · exact hgap (Face.isGap_of_isBlank (gaps.beforeName_isBlank face hmem))
  · exact hgap (gaps.beforeAs_isGap face hmem)
  · exact htoken (by rw [clause.asWord_eq.1]; decide)
  · exact hgap (Face.isGap_of_isBlank (gaps.beforeBody_isBlank face hmem))
  · rfl
  · exact hgap (gaps.beforeKey_isGap face hmem)
  · exact htoken (by rw [clause.key_eq]; decide)

theorem not_isBlank_asWord : (Face.token clause.asWord).isBlank = false := by
  change clause.asWord.isWhitespace = false
  unfold Token.isWhitespace
  rw [clause.asWord_eq.1]
  rfl

theorem call_sparesHead (gaps : Gaps) : Seeker.call.SparesHead
    (clause.bodied gaps (.token clause.name)) := by
  rcases @exists_solid gaps.beforeAs (gaps.beforeBody ++ .group .parenthesis ::
      (gaps.beforeKey ++ [.token clause.key])) _ gaps.beforeAs_isGap not_isBlank_asWord rfl with
    ⟨blanks, next, right, heq, hblanks, hnext, hparens⟩
  have hothers := @has_of_mem_around clause gaps (fun c => c.isA .name) rfl
  rw [bodied_eq]
  unfold behindName at hothers ⊢
  rw [heq] at hothers ⊢
  exact Seeker.call_sparesHead hothers hblanks hnext hparens

theorem calls_turn (hkey : clause.key.Leading) (gaps : Gaps) :
    Pass.Turns limit (clause.bodied gaps (.token clause.name) <+: ·)
      (clause.bodied gaps (.token clause.name) <+: ·)
      [.functions, .whereClauses, .pairs .caseBlock, .binary .period, .binary .subscript] := by
  have hhead := @calmHead_bodied clause hkey gaps (.token clause.name)
    (Token.isCalm_of_name clause.name_eq)
  apply Pass.turns_of_keeps
  · unfold Pass.all
    simp only [List.cons_subset, List.mem_cons, true_or, or_true, List.nil_subset, and_self]
  · intro root pass hpass
    rcases List.mem_cons.mp hpass with rfl | hpass
    · exact ⟨_, _, Pass.keeps_head_of_seeker root hhead (List.mem_of_getElem? (i := 3) rfl)
        Seeker.functions_plan (call_sparesHead gaps), trivial⟩
    · apply Pass.steady_keep_head root hhead
      unfold Pass.steady
      simp only [List.mem_cons, List.not_mem_nil, or_false] at hpass ⊢
      rcases hpass with rfl | rfl | rfl | rfl
      all_goals
        simp only [true_or, or_true]

theorem names_turn (gaps : Gaps) :
    Pass.Turns limit (clause.bodied gaps (.token clause.name) <+: ·)
      (clause.bodied gaps (.group .identifier) <+: ·) [.identifiers] := by
  apply Pass.turns_singleton (List.mem_of_getElem? (i := 8) rfl)
  intro tree after root hshows hrun
  rcases hshows.faces with ⟨rest, hrest⟩
  have hsame : forall {faces : List Face}, (forall face, face ∈ faces ->
      face ∈ clause.upToName gaps ++ clause.behindName gaps) -> faces.map Face.named = faces := by
    intro faces hfaces
    refine (List.map_congr_left fun face hface => ?_).trans (List.map_id faces)
    apply Face.named_of_not_names
    exact @has_of_mem_around clause gaps (fun c => c == .name || c == .doubleQuoted) rfl face
      (hfaces face hface)
  have hname : (Face.token clause.name).named = .group .identifier :=
    if_pos (by unfold Token.names; rw [clause.name_eq]; rfl)
  refine ⟨rest.map Face.named, ?_⟩
  rw [Pass.faces_of_identifiers hshows.wellFormed hshows.kind hrun, ← hrest, bodied_eq, bodied_eq,
    List.map_append, List.map_append, List.map_cons,
    hsame fun face hface => List.mem_append_left _ hface,
    hsame fun face hface => List.mem_append_right _ hface, hname]

theorem steady_turn {head : List Face} (hhead : Face.CalmHead head) {passes : List Pass}
    (hpasses : passes ⊆ Pass.steady) :
    Pass.Turns limit (head <+: ·) (head <+: ·) passes :=
  Pass.turns_of_keeps (List.Subset.trans hpasses Pass.steady_subset)
    fun root pass hpass => Pass.steady_keep_head root hhead pass (hpasses hpass)

end WithClause

end SqlLayout
