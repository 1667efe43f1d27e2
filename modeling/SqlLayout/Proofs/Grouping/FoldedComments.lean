import SqlLayout.Proofs.Grouping.CommaRuns
import SqlLayout.Proofs.Grouping.Operations
import SqlLayout.Proofs.Grouping.PairedFaces

/-!
# Faces with the comments folded

The pass for comments makes groups of comments and blanks, and leaves the other tokens.  So
the faces of a statement can be cut wherever a token stands that is neither, and the parts
are what the pass makes of the parts of the text.
-/

namespace SqlLayout

open Grouping

/-- The faces of some tokens once the comments among them are grouped. -/
inductive Folded : List Token -> List Face -> Prop where
  | nil : Folded [] []
  | token {t later : Token} {tokens : List Token} {faces : List Face} : t.Kept later ->
      t.isComment = false -> Folded tokens faces -> Folded (t :: tokens) (.token later :: faces)
  | comment {run tokens : List Token} {faces : List Face} :
      (forall t, t ∈ run -> t.isTrivia = true) -> (exists t, t ∈ run ∧ t.isComment = true) ->
      Folded tokens faces -> Folded (run ++ tokens) (.group .comment :: faces)

def Face.isGap (face : Face) : Bool := face.isBlank || face.isKind .comment

namespace Token

variable {t later : Token}

theorem not_hits_of_isTrivia (h : t.isTrivia = true) {pattern : TokenPattern}
    (hpattern : pattern.category = .punctuation) : t.hits pattern = false := by
  apply hits_eq_false_of_ne
  rw [hpattern]
  intro heq
  unfold isTrivia isWhitespace isComment at h
  rw [heq] at h
  cases h

theorem not_pairs_of_isTrivia (h : t.isTrivia = true) {opening closing : TokenPattern}
    (hopening : opening.category = .punctuation) (hclosing : closing.category = .punctuation) :
    t.opensPair opening = false ∧ t.shutsPair opening closing = false := by
  unfold opensPair shutsPair
  rw [not_hits_of_isTrivia h hopening, not_hits_of_isTrivia h hclosing, Bool.and_false,
    Bool.and_false]
  exact ⟨rfl, rfl⟩

theorem Kept.pairs_eq (h : t.Kept later) {opening closing : TokenPattern}
    (hopening : opening.category = .punctuation) (hclosing : closing.category = .punctuation) :
    later.opensPair opening = t.opensPair opening ∧
      later.shutsPair opening closing = t.shutsPair opening closing := by
  unfold opensPair shutsPair
  rw [h.isWhitespace_eq, h.hits_eq (by rw [hopening]; nofun) (by rw [hopening]; nofun),
    h.hits_eq (by rw [hclosing]; nofun) (by rw [hclosing]; nofun)]
  exact ⟨rfl, rfl⟩

end Token

namespace Folded

variable {tokens left right : List Token} {faces : List Face} {t : Token}

theorem cut (h : Folded (left ++ t :: right) faces) (ht : t.isTrivia = false) :
    exists front later back, faces = front ++ .token later :: back ∧ t.Kept later ∧
      Folded left front ∧ Folded right back := by
  generalize htokens : left ++ t :: right = tokens at h
  induction h generalizing left with
  | nil =>
      simp at htokens
  | @token other later tokens faces hkept hplain hrest ih =>
      cases left with
      | nil =>
          rcases List.cons.inj htokens with ⟨rfl, rfl⟩
          exact ⟨[], later, faces, rfl, hkept, Folded.nil, hrest⟩
      | cons first left =>
          rcases List.cons.inj htokens with ⟨rfl, hrest'⟩
          rcases ih hrest' with ⟨front, found, back, rfl, hfound, hfront, hback⟩
          exact ⟨.token later :: front, found, back, rfl, hfound, Folded.token hkept hplain hfront,
            hback⟩
  | @comment run tokens faces hrun hcomment hrest ih =>
      have hnot : t ∉ run := by
        intro hmem
        rw [hrun t hmem] at ht
        cases ht
      rcases exists_cut_of_not_mem htokens.symm hnot with ⟨more, rfl, hmore⟩
      rcases ih hmore.symm with ⟨front, found, back, rfl, hfound, hfront, hback⟩
      exact ⟨.group .comment :: front, found, back, rfl, hfound,
        Folded.comment hrun hcomment hfront, hback⟩

theorem isGap (h : Folded tokens faces) (htokens : forall t, t ∈ tokens -> t.isTrivia = true) :
    forall face, face ∈ faces -> face.isGap = true := by
  induction h with
  | nil =>
      exact fun _ hmem => absurd hmem List.not_mem_nil
  | @token t later tokens faces hkept hplain _ ih =>
      rw [List.forall_mem_cons] at htokens ⊢
      refine ⟨?_, ih htokens.2⟩
      have htrivia := htokens.1
      unfold Token.isTrivia at htrivia
      rw [hplain, Bool.or_false, ← hkept.isWhitespace_eq] at htrivia
      change (later.isWhitespace || _) = true
      rw [htrivia, Bool.true_or]
  | comment _ _ _ ih =>
      rw [List.forall_mem_cons]
      exact ⟨rfl, ih fun t ht => htokens t (List.mem_append_right _ ht)⟩

theorem isBlank (h : Folded tokens faces) (htokens : forall t, t ∈ tokens -> t.isTrivia = true)
    (hplain : forall t, t ∈ tokens -> t.isComment = false) :
    forall face, face ∈ faces -> face.isBlank = true := by
  induction h with
  | nil =>
      exact fun _ hmem => absurd hmem List.not_mem_nil
  | @token t later tokens faces hkept hnot _ ih =>
      rw [List.forall_mem_cons] at htokens hplain ⊢
      refine ⟨?_, ih htokens.2 hplain.2⟩
      have htrivia := htokens.1
      unfold Token.isTrivia at htrivia
      rw [hnot, Bool.or_false, ← hkept.isWhitespace_eq] at htrivia
      exact htrivia
  | comment _ hcomment _ _ =>
      rcases hcomment with ⟨t, ht, hcomment⟩
      rw [hplain t (List.mem_append_left _ ht)] at hcomment
      cases hcomment

section

variable {opening closing : TokenPattern} (hopening : opening.category = .punctuation)
  (hclosing : closing.category = .punctuation)
include hopening hclosing

theorem count_eq {alpha : Type} {f : List Token -> alpha} (step : Bool -> Bool -> alpha -> alpha)
    (hcons : forall t rest,
      f (t :: rest) = step (t.opensPair opening) (t.shutsPair opening closing) (f rest))
    (hskip : forall a, step false false a = a) (h : Folded tokens faces) :
    f (Face.tokens faces) = f tokens := by
  induction h with
  | nil =>
      rfl
  | @token t later tokens faces hkept _ _ ih =>
      rcases hkept.pairs_eq hopening hclosing with ⟨hopens, hshuts⟩
      change f (later :: Face.tokens faces) = _
      rw [hcons, hcons, hopens, hshuts, ih]
  | @comment run tokens faces hrun hcomment _ ih =>
      refine Eq.trans ih ?_
      clear ih hcomment
      induction run with
      | nil =>
          rfl
      | cons t rest ih =>
          rw [List.forall_mem_cons] at hrun
          rcases Token.not_pairs_of_isTrivia hrun.1 hopening hclosing with ⟨hopens, hshuts⟩
          rw [List.cons_append, hcons, hopens, hshuts, hskip]
          exact ih hrun.2

theorem openAfter_eq (h : Folded tokens faces) (depth : Nat) :
    openAfter opening closing depth (Face.tokens faces) =
      openAfter opening closing depth tokens :=
  congrFun (count_eq hopening hclosing
    (f := fun tokens depth => openAfter opening closing depth tokens)
    (fun opens shuts after depth =>
      if opens then after (depth + 1) else if shuts then after (depth - 1) else after depth)
    (fun _ _ => rfl) (fun _ => rfl) h) depth

theorem shutBefore_eq (h : Folded tokens faces) :
    shutBefore opening closing (Face.tokens faces) = shutBefore opening closing tokens :=
  count_eq hopening hclosing
    (fun opens shuts before =>
      if opens then before - 1 else if shuts then before + 1 else before)
    (fun _ _ => rfl) (fun _ => rfl) h

theorem not_pairs (h : Folded tokens faces)
    (hnone : forall t, t ∈ tokens ->
      t.opensPair opening = false ∧ t.shutsPair opening closing = false) :
    forall face, face ∈ faces -> face.has (Token.opensPair opening) = false ∧
      face.has (Token.shutsPair opening closing) = false := by
  induction h with
  | nil =>
      exact fun _ hmem => absurd hmem List.not_mem_nil
  | @token t later tokens faces hkept _ _ ih =>
      rw [List.forall_mem_cons] at hnone ⊢
      rcases hkept.pairs_eq hopening hclosing with ⟨hopens, hshuts⟩
      refine ⟨?_, ih hnone.2⟩
      change later.opensPair opening = false ∧ later.shutsPair opening closing = false
      rw [hopens, hshuts]
      exact hnone.1
  | comment _ _ _ ih =>
      rw [List.forall_mem_cons]
      exact ⟨⟨rfl, rfl⟩, ih fun t ht => hnone t (List.mem_append_right _ ht)⟩

end

end Folded

/-!
# The pass for comments
-/

theorem Folded.of_roses {tokens : List Token} {roses : List Rose}
    (hkept : List.Forall₂ Token.Kept tokens (Rose.tokensOf roses))
    (h : forall rose, rose ∈ roses -> (exists t, rose = .token t ∧ t.isComment = false) ∨
      rose.IsComment ∧ exists t, t ∈ rose.tokens ∧ t.isComment = true) :
    Folded tokens (roses.map Rose.face) := by
  induction roses generalizing tokens with
  | nil =>
      cases hkept
      exact Folded.nil
  | cons rose rest ih =>
      rw [List.forall_mem_cons] at h
      rw [Rose.tokensOf] at hkept
      rcases h.1 with ⟨t, rfl, ht⟩ | ⟨⟨children, rfl, hchildren⟩, hcomment⟩
      · cases hkept with
        | cons hfirst hrest =>
            exact Folded.token hfirst (by rw [← hfirst.isComment_eq, ht]) (ih hrest h.2)
      · have hrun := List.forall₂_take_append _ _ _ hkept
        have hrest := List.forall₂_drop_append _ _ _ hkept
        rw [← List.take_append_drop (Rose.group .comment children).tokens.length tokens]
        refine Folded.comment ?_ ?_ (ih hrest h.2)
        · refine @forall_of_forall₂ Token (fun t => t.isTrivia = true) (fun t => t.isTrivia = true)
            (fun later t => t.Kept later) (fun _ _ ht hkept => hkept.isTrivia_eq ▸ ht) _ _ hrun.flip
            fun t ht => ?_
          rw [Rose.tokens, Rose.tokensOf_eq_flatMap] at ht
          rcases List.mem_flatMap.mp ht with ⟨child, hchild, ht⟩
          rcases hchildren child hchild with ⟨other, rfl, hother⟩
          rw [Rose.tokens, List.mem_singleton] at ht
          rw [ht, hother]
        · rcases hcomment with ⟨t, ht, hcomment⟩
          apply Classical.byContradiction
          intro hnone
          have hall := @forall_of_forall₂ Token (fun t => t.isComment = false)
            (fun t => t.isComment = false) Token.Kept (fun _ _ ht hkept => hkept.isComment_eq ▸ ht)
            _ _ hrun fun other hother => Bool.eq_false_iff.mpr fun h => hnone ⟨other, hother, h⟩
          rw [hall t ht] at hcomment
          cases hcomment

theorem Statement.folded_of_comments {tokens : List Token} {limit : Nat} {after : Tree}
    (h : exec (Pass.comments.run limit limit (ofTokens tokens).root) (ofTokens tokens).tree =
      (.ok (), after)) : Folded tokens (after.faces (ofTokens tokens).root) := by
  have hwf := wellFormed_ofTokens tokens
  have hlimit : 0 < limit := by
    apply Nat.pos_of_ne_zero
    rintro rfl
    cases h
  have hstands : (ofTokens tokens).tree.Stands (fun rose => exists t, rose = .token t ∧ True)
      (ofTokens tokens).root := by
    refine ⟨kind?_root_ofTokens tokens, ?_⟩
    have hrose := rose_ofTokens tokens
    rw [hwf.rose_of_kind? (kind?_root_ofTokens tokens), Rose.group.injEq] at hrose
    rw [hrose.2]
    intro rose hmem
    rcases List.mem_map.mp hmem with ⟨t, _, rfl⟩
    exact ⟨t, rfl, trivial⟩
  rcases @Pass.comments_stage limit (fun _ => True) hlimit _ _ hwf hstands with
    ⟨other, hexec, hchanges, hkind, hroses⟩
  have hsame : other = after := by
    rcases exec_bind_eq_ok hexec with ⟨middle, hrun, hnil⟩
    cases hnil
    cases hrun.symm.trans h
    rfl
  subst hsame
  have hafter := hchanges.wellFormed hwf
  have hkept := tokens_of_steps hchanges.steps
  rw [hafter.rose_of_kind? hkind, Rose.tokens] at hkept
  rw [← hafter.map_face_roses]
  apply Folded.of_roses hkept
  intro rose hmem
  exact (hroses rose hmem).imp_left fun ⟨t, ht, _, hplain⟩ => ⟨t, ht, hplain⟩

end SqlLayout
