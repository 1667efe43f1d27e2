import SqlLayout.Proofs.Grouping.AliasScan
import SqlLayout.Proofs.Grouping.RunParts

/-!
# Comments in the groups of a run

In a run no name is an alias, as there is a comma between two names.  A comment behind a
name goes into its group, so that from then on the comments that stand alone are the ones
behind the commas.
-/

namespace SqlLayout

open Grouping Tree

/-!
# Names and commas in turn
-/

/-- What a rose is to the pass for aliases, as far as the parts of a run go. -/
structure Rose.HasRole (rose : Rose) (role : Option AliasRole) : Prop where
  eq : forall (tree : Tree) id, tree.WellFormed -> id < tree.size -> tree.rose id = rose ->
    tree.aliasRole? id = role

namespace Rose

variable {rose : Rose}

theorem hasRole_of_isTrivia {t : Token} (h : t.isTrivia = true) : (Rose.token t).HasRole none where
  eq := by
    intro tree id hwf hid hrose
    have htoken := hwf.token?_of_rose hid hrose
    apply aliasRole?_of_skipped
    unfold isSkipped isWhitespace Tree.isComment tokenHas
    rw [htoken]
    dsimp only
    rcases Bool.or_eq_true_iff.mp h with hblank | hcomment
    · rw [hblank]
      rfl
    · rw [hcomment]
      simp

theorem IsComment.hasRole (h : rose.IsComment) : rose.HasRole none where
  eq := by
    intro tree id hwf hid hrose
    rcases h with ⟨children, rfl, _⟩
    apply aliasRole?_of_skipped
    unfold isSkipped Tree.isComment isKind
    rw [(hwf.kind?_of_rose hid hrose).1]
    simp

theorem hasRole_of_isComma {t : Token} (h : t.isComma = true) :
    (Rose.token t).HasRole (some .other) where
  eq := by
    intro tree id hwf hid hrose
    have htoken := hwf.token?_of_rose hid hrose
    have hkind : tree.kind? id = none := by
      have hgroup := isGroup_of_token? htoken
      unfold isGroup at hgroup
      simpa using hgroup
    unfold aliasRole? isSkipped isWhitespace Tree.isComment Pass.isAliasable isKindIn isKind isA
      tokenHas
    rw [htoken, hkind]
    rcases t with ⟨category, value, position⟩
    have hcategory := Token.category_of_isComma h
    dsimp only at hcategory
    subst hcategory
    rfl

theorem IsLoneName.hasRole (h : rose.IsLoneName) : rose.HasRole (some .name) where
  eq := by
    intro tree id hwf hid hrose
    rcases h with ⟨t, rfl, _⟩
    rw [aliasRole?_eq_name_iff, isKind, (hwf.kind?_of_rose hid hrose).1]
    rfl

theorem hasRole_of_blank_or_remark (h : rose.isBlank = true ∨ rose.IsRemark) :
    rose.HasRole none := by
  rcases h with hblank | hremark
  · rcases exists_of_isBlank hblank with ⟨t, rfl, ht⟩
    exact hasRole_of_isTrivia (by rw [Token.isTrivia, ht]; rfl)
  · exact hremark.1.hasRole

theorem Continued.roles {clear : Bool} {roses : List Rose}
    (h : Continued IsRemark IsRemark IsLoneName clear roses) {tree : Tree} (hwf : tree.WellFormed)
    {ids : List NodeId} (hids : forall id, id ∈ ids -> id < tree.size)
    (hroses : ids.map tree.rose = roses) :
    AliasRole.namesNext (tree.aliasRoles ids) = false ∧
      AliasRole.somewhere AliasRole.namesNext (tree.aliasRoles ids) = false := by
  have hskips : forall ids : List NodeId, (forall id, id ∈ ids -> id < tree.size) ->
      (forall rose, rose ∈ ids.map tree.rose -> rose.isBlank = true ∨ rose.IsRemark) ->
      tree.aliasRoles ids = [] := by
    intro ids hids hall
    apply List.filterMap_eq_nil_iff.mpr
    intro id hid
    exact (hasRole_of_blank_or_remark (hall _ (List.mem_map_of_mem hid))).eq tree id hwf
      (hids id hid) rfl
  induction h generalizing ids with
  | done =>
      rw [List.map_eq_nil_iff.mp hroses]
      exact ⟨rfl, rfl⟩
  | @more gap behind rest comma next clear hgap hcomma hbehind hnext _ ih =>
      rcases List.map_eq_append_iff.mp hroses with ⟨gapIds, others, rfl, hgapIds, hothers⟩
      rcases List.map_eq_cons_iff.mp hothers with ⟨commaId, others, rfl, hcommaId, hothers⟩
      rcases List.map_eq_append_iff.mp hothers with ⟨behindIds, others, rfl, hbehindIds, hothers⟩
      rcases List.map_eq_cons_iff.mp hothers with ⟨nextId, restIds, rfl, hnextId, hrestIds⟩
      have hgapRoles := hskips gapIds (fun id hid => hids id (by simp [hid])) (hgapIds ▸ hgap)
      have hbehindRoles := hskips behindIds (fun id hid => hids id (by simp [hid]))
        (hbehindIds ▸ hbehind)
      have hcommaRole := (hasRole_of_isComma hcomma).eq tree commaId hwf (hids _ (by simp)) hcommaId
      have hnextRole := hnext.hasRole.eq tree nextId hwf (hids _ (by simp)) hnextId
      have hroles : tree.aliasRoles (gapIds ++ commaId :: (behindIds ++ nextId :: restIds)) =
          .other :: .name :: tree.aliasRoles restIds := by
        unfold aliasRoles at hgapRoles hbehindRoles ⊢
        rw [List.filterMap_append, hgapRoles, List.nil_append,
          List.filterMap_cons_some hcommaRole, List.filterMap_append, hbehindRoles,
          List.nil_append, List.filterMap_cons_some hnextRole]
      rcases ih (fun id hid => hids id (by simp [hid])) hrestIds with ⟨hnames, hsomewhere⟩
      rw [hroles]
      refine ⟨rfl, ?_⟩
      unfold AliasRole.somewhere
      rw [AliasRole.somewhere, hnames, hsomewhere]
      rfl

theorem Listing.still_aliases {clear : Bool} {roses : List Rose}
    (h : Listing IsRemark IsRemark IsLoneName clear roses) : Survey.aliases.Still roses := by
  rintro tree list hwf hroses idx
  rw [Survey.aliases_acts]
  apply Bool.eq_false_iff.mpr
  intro halias
  have hsomewhere := exists_aliasAt_iff.mp ⟨idx, halias⟩
  rcases h with ⟨first, rest, rfl, hfirst, hrest⟩
  have hlt : forall id, id ∈ tree.children list -> id < tree.size := fun id => hwf.child_lt_size
  rcases List.map_eq_cons_iff.mp hroses with ⟨firstId, restIds, hids, hfirstId, hrestIds⟩
  rw [hids] at hsomewhere hlt
  rcases hrest.roles hwf (fun id hid => hlt id (List.mem_cons_of_mem _ hid)) hrestIds with
    ⟨hnames, hnone⟩
  have hrole := hfirst.hasRole.eq tree firstId hwf (hlt firstId List.mem_cons_self) hfirstId
  unfold aliasRoles at hsomewhere hnames hnone
  rw [List.filterMap_cons_some hrole, AliasRole.somewhere, hnames, hnone] at hsomewhere
  cases hsomewhere

end Rose

/-!
# Groups that take comments in
-/

namespace Rose

variable {rose : Rose} {kind : GroupKind} {inner rest : List Rose}

/-- A group of some kind that holds groups of tokens at most, and no list. -/
structure Hosts (kind : GroupKind) (rose : Rose) : Prop where
  group : exists children, rose = .group kind children
  nests : Nests (fun _ => false) 2 rose
  lacks : rose.Lacks { kind := (· == .identifierList) }

def IsRemarks (rose : Rose) : Prop :=
  rose.Hosts .comment ∧ (forall t, t ∈ rose.tokens -> t.isTrivia = true) ∧
    exists t, t ∈ rose.tokens ∧ t.isComment = true

def IsNamed (rose : Rose) : Prop :=
  rose.Hosts .identifier ∧ exists name trivia, rose.tokens = name :: trivia ∧
    name.category = .name ∧ forall t, t ∈ trivia -> t.isTrivia = true

theorem IsRemark.isTrivia (h : rose.IsRemark) {t : Token} (ht : t ∈ rose.tokens) :
    t.isTrivia = true := by
  rcases h.1 with ⟨children, rfl, htokens⟩
  rw [Rose.tokens, tokensOf_eq_flatMap, List.mem_flatMap] at ht
  rcases ht with ⟨child, hchild, ht⟩
  rcases htokens child hchild with ⟨other, rfl, hother⟩
  rw [Rose.tokens, List.mem_singleton] at ht
  rw [ht]
  exact hother

theorem isTrivia_of_isBlank (h : rose.isBlank = true) {t : Token} (ht : t ∈ rose.tokens) :
    t.isTrivia = true := by
  rcases exists_of_isBlank h with ⟨other, rfl, hother⟩
  rw [Rose.tokens, List.mem_singleton] at ht
  rw [ht, Token.isTrivia, hother]
  rfl

theorem holdRun_remark : HoldRun IsRemark IsLoneName where
  comment_isTrivia := fun _ h _ ht => h.isTrivia ht
  exists_comment := fun _ h => h.2
  item_tokens := by
    rintro _ ⟨t, rfl, ht⟩
    exact ⟨t, [], rfl, ht, by simp⟩

theorem holdRun_remarks : HoldRun IsRemarks IsNamed where
  comment_isTrivia := fun _ h => h.2.1
  exists_comment := fun _ h => h.2.2
  item_tokens := fun _ h => h.2

theorem hosts_of_tokens (hkind : (kind == .identifierList) = false)
    (h : forall child, child ∈ inner -> exists t, child = Rose.token t) :
    Hosts kind (.group kind inner) where
  group := ⟨inner, rfl⟩
  nests := (nests_of_tokens h).mono (by decide)
  lacks := by
    apply Lacks.group hkind
    intro child hchild
    rcases h child hchild with ⟨t, rfl⟩
    exact Lacks.token rfl

theorem IsRemark.isRemarks (h : rose.IsRemark) : rose.IsRemarks := by
  refine ⟨?_, fun _ => h.isTrivia, h.2⟩
  rcases h.1 with ⟨children, rfl, htokens⟩
  apply hosts_of_tokens rfl
  intro child hchild
  rcases htokens child hchild with ⟨t, rfl, _⟩
  exact ⟨t, rfl⟩

theorem IsLoneName.isNamed (h : rose.IsLoneName) : rose.IsNamed := by
  refine ⟨?_, holdRun_remark.item_tokens rose h⟩
  rcases h with ⟨t, rfl, _⟩
  exact hosts_of_tokens rfl fun child hchild => ⟨t, List.mem_singleton.mp hchild⟩

theorem RunPart.isNamed (h : RunPart IsRemark IsLoneName rose) :
    RunPart IsRemarks IsNamed rose := by
  cases h with
  | blank hblank =>
      exact RunPart.blank hblank
  | comma hcomma =>
      exact RunPart.comma hcomma
  | comment hcomment =>
      exact RunPart.comment hcomment.isRemarks
  | item hitem =>
      exact RunPart.item hitem.isNamed

theorem Hosts.kind_eq {other : GroupKind} (h : Hosts kind (.group other inner)) :
    other = kind := by
  rcases h.group with ⟨children, heq⟩
  exact (Rose.group.inj heq).1

theorem RunPart.isRemark (h : RunPart IsRemark IsLoneName (.group .comment inner)) :
    (Rose.group .comment inner).IsRemark := by
  cases h with
  | blank hblank =>
      cases hblank
  | comment hcomment =>
      exact hcomment
  | item hitem =>
      rcases hitem with ⟨t, heq, _⟩
      cases heq

theorem RunPart.isRemarks (h : RunPart IsRemarks IsNamed (.group .comment inner)) :
    (Rose.group .comment inner).IsRemarks := by
  cases h with
  | blank hblank =>
      cases hblank
  | comment hcomment =>
      exact hcomment
  | item hitem =>
      cases hitem.1.kind_eq

section

variable (hrest : forall rose, rose ∈ rest -> rose.isBlank = true ∨ rose.IsRemark)
include hrest

theorem isTrivia_of_mem_tokensOf {t : Token} (ht : t ∈ tokensOf rest) : t.isTrivia = true := by
  rw [tokensOf_eq_flatMap, List.mem_flatMap] at ht
  rcases ht with ⟨rose, hrose, ht⟩
  rcases hrest rose hrose with hblank | hremark
  · exact isTrivia_of_isBlank hblank ht
  · exact hremark.isTrivia ht

theorem Hosts.append (h : Hosts kind (.group kind inner)) :
    Hosts kind (.group kind (inner ++ rest)) := by
  have hnew : forall rose, rose ∈ rest ->
      Nests (fun _ => false) 1 rose ∧ rose.Lacks { kind := (· == .identifierList) } := by
    intro rose hrose
    rcases hrest rose hrose with hblank | hremark
    · rcases exists_of_isBlank hblank with ⟨t, rfl, _⟩
      exact ⟨Nests.token, Lacks.token rfl⟩
    · exact ⟨hremark.1.nests, hremark.isRemarks.1.lacks⟩
  have hinner : forall rose, rose ∈ inner -> Nests (fun _ => false) 1 rose := by
    cases h.nests with
    | free hfree _ =>
        cases hfree
    | group hall =>
        exact hall
  rcases lacks_group_iff.mp h.lacks with ⟨hkind, hlacks⟩
  refine ⟨⟨_, rfl⟩, Nests.group fun rose hrose => ?_, Lacks.group hkind fun rose hrose => ?_⟩
  · rcases List.mem_append.mp hrose with hold | hmem
    · exact hinner rose hold
    · exact (hnew rose hmem).1
  · rcases List.mem_append.mp hrose with hold | hmem
    · exact hlacks rose hold
    · exact (hnew rose hmem).2

theorem RunPart.append (h : RunPart IsRemarks IsNamed (.group kind inner)) :
    RunPart IsRemarks IsNamed (.group kind (inner ++ rest)) := by
  cases h with
  | blank hblank =>
      cases hblank
  | comment hcomment =>
      rcases hcomment with ⟨hhosts, htrivia, t, ht, hisComment⟩
      cases hhosts.kind_eq
      refine RunPart.comment ⟨hhosts.append hrest, ?_, t, ?_, hisComment⟩
      · intro t ht
        rw [Rose.tokens, tokensOf_append, List.mem_append] at ht
        exact ht.elim (htrivia t) (isTrivia_of_mem_tokensOf hrest)
      · rw [Rose.tokens, tokensOf_append]
        exact List.mem_append_left _ ht
  | item hitem =>
      rcases hitem with ⟨hhosts, name, trivia, htokens, hname, htrivia⟩
      cases hhosts.kind_eq
      refine RunPart.item ⟨hhosts.append hrest, name, trivia ++ tokensOf rest, ?_, hname, ?_⟩
      · rw [Rose.tokens] at htokens
        rw [Rose.tokens, tokensOf_append, htokens, List.cons_append]
      · intro t ht
        exact (List.mem_append.mp ht).elim (htrivia t) (isTrivia_of_mem_tokensOf hrest)

end

/-!
# Comments behind names
-/

def Apart (roses : List Rose) : Prop :=
  forall front name blanks remark back, roses = front ++ name :: (blanks ++ remark :: back) ->
    name.IsNamed -> (forall rose, rose ∈ blanks -> rose.isBlank = true) -> ¬ remark.IsRemarks

theorem Apart.left {left right : List Rose} (h : Apart (left ++ right)) : Apart left := by
  intro front name blanks remark back hcut
  refine h front name blanks remark (back ++ right) ?_
  rw [hcut]
  simp

theorem Apart.concat {left : List Rose} (h : Apart left)
    (hlast : forall front name blanks, left = front ++ name :: blanks -> name.IsNamed ->
      (forall rose, rose ∈ blanks -> rose.isBlank = true) -> ¬ rose.IsRemarks) :
    Apart (left ++ [rose]) := by
  intro front name blanks remark back hcut
  rcases List.eq_nil_or_concat' back with rfl | ⟨back, last, rfl⟩
  · have hsplit : left ++ [rose] = (front ++ name :: blanks) ++ [remark] := by
      rw [hcut]
      simp
    rcases List.append_inj' hsplit rfl with ⟨hleft, hremark⟩
    rw [← (List.cons.inj hremark).1]
    exact hlast front name blanks hleft
  · have hsplit : left ++ [rose] = (front ++ name :: (blanks ++ remark :: back)) ++ [last] := by
      rw [hcut]
      simp
    exact h front name blanks remark back (List.append_inj' hsplit rfl).1

end Rose

/-!
# The walk for the comments
-/

/-- How far the comments behind the names have been taken in. -/
structure Rose.TrailsAt (left right : List Rose) : Prop where
  done : Every (RunPart IsRemarks IsNamed) left
  apart : Apart left
  todo : Every (RunPart IsRemark IsLoneName) right

namespace Seeker

open Rose

theorem trailingComment_span_of_prev {tree : Tree} {list : NodeId} {idx prev : Nat}
    {id other : NodeId} (hkind : tree.kind? list = some .statement)
    (hprev : tree.prev list idx true = some (prev, other))
    (hother : tree.kind? other = some .identifier) :
    trailingComment.span? tree list idx id = some (⟨.identifier, prev, idx, true⟩, prev + 1) := by
  have hhost : Pass.commentHost? tree other = some .identifier := by
    unfold Pass.commentHost?
    rw [hother]
    rfl
  unfold trailingComment isKind
  dsimp only
  rw [hkind, hprev]
  dsimp only
  rw [hhost]
  rfl

theorem trailingComment_passes {list : NodeId} :
    trailingComment.Passes TrailsAt list .statement := by
  rintro tree left id right hwf hkind hroses hchild hrefused ⟨hdone, hapart, htodo⟩
  have hid := hwf.child_lt_size (List.mem_of_getElem? hchild)
  refine ⟨?_, hapart.concat ?_, fun rose hrose => htodo rose (List.mem_cons_of_mem _ hrose)⟩
  · intro rose hrose
    rcases List.mem_append.mp hrose with hmem | hlast
    · exact hdone rose hmem
    · rw [List.mem_singleton.mp hlast]
      exact (htodo _ List.mem_cons_self).isNamed
  · rintro front name blanks rfl hname hblanks hremark
    rcases hname.1.group with ⟨children, hgroup⟩
    rcases hremark.1.group with ⟨comments, hcomments⟩
    have haccepts : tree.isKind id .comment = true :=
      beq_iff_eq.mpr (hwf.kind?_of_rose hid hcomments).1
    rw [List.append_assoc, List.cons_append] at hroses
    rcases prev_of_split hwf hroses hblanks (by rw [hgroup]; rfl) with ⟨other, hprev, hother⟩
    have hkind' := (hwf.kind?_of_rose (hwf.child_lt_size
      (List.mem_of_getElem? (prev_some hprev).2.1)) (hother.trans hgroup)).1
    have hlength : (front ++ name :: blanks).length = front.length + 1 + blanks.length := by
      rw [List.length_append, List.length_cons]
      omega
    rw [← hlength] at hprev
    have hnone := hrefused haccepts
    rw [trailingComment_span_of_prev hkind hprev hkind'] at hnone
    cases hnone

theorem trailingComment_merges {list : NodeId} :
    trailingComment.Merges TrailsAt list .statement := by
  rintro tree left id right span next front first rest back group hwf hkind hroses hchild haccepts
    hspan hcut hfront hrest hmerged ⟨hdone, hapart, htodo⟩
  have hid := hwf.child_lt_size (List.mem_of_getElem? hchild)
  rcases trailingComment_span hspan with ⟨prev, other, kind, hprev, hhost, rfl, _⟩
  dsimp only at hfront hrest hmerged
  subst hfront
  rw [hcut] at hroses
  rcases Pass.rose_of_commentHost? hwf hhost with ⟨inner, hinner⟩
  have hfirst := (rose_of_span_start hroses (prev_some hprev).2.1).trans hinner
  -- What is grouped are the roses from a group up to the comment.
  rcases List.eq_nil_or_concat' rest with rfl | ⟨blanks, last, rfl⟩
  · rw [List.length_nil, Nat.add_zero] at hrest
    exact absurd (prev_some hprev).1 (hrest ▸ Nat.lt_irrefl _)
  have hsplit : left = front ++ first :: blanks ∧ tree.rose id :: right = last :: back := by
    rw [List.append_assoc, List.cons_append, List.append_assoc, List.singleton_append,
      ← List.cons_append, ← List.append_assoc] at hcut
    apply List.append_inj hcut
    rw [List.length_append, List.length_singleton] at hrest
    rw [List.length_append, List.length_cons]
    omega
  rcases hsplit with ⟨rfl, hright⟩
  rcases List.cons.inj hright with ⟨rfl, rfl⟩
  have hnew : forall rose, rose ∈ blanks ++ [tree.rose id] ->
      rose.isBlank = true ∨ rose.IsRemark := by
    intro rose hrose
    rcases mem_rest_of_prev hwf hroses hprev hrest hchild hrose with hblank | rfl
    · exact Or.inl hblank
    · right
      have hpart := htodo _ List.mem_cons_self
      rw [hwf.rose_of_isKind haccepts] at hpart ⊢
      exact hpart.isRemark
  cases hmerged with
  | wrapped hother =>
      exact absurd hfirst (hother rfl inner)
  | @absorbed inner' _ heq =>
      rw [heq] at hdone hapart
      refine ⟨?_, hapart.left.concat ?_,
        fun rose hrose => htodo rose (List.mem_cons_of_mem _ hrose)⟩
      · intro rose hrose
        rcases List.mem_append.mp hrose with hmem | hlast
        · exact hdone rose (List.mem_append_left _ hmem)
        · rw [List.mem_singleton.mp hlast]
          exact RunPart.append hnew (hdone _ (by simp))
      · rintro before name between rfl hname hbetween hremarks
        cases hremarks.1.kind_eq
        refine hapart before name between (.group .comment inner') blanks
          (by simp) hname hbetween ?_
        exact (hdone _ (by simp)).isRemarks

end Seeker

namespace Pass

open Rose

variable {limit : Nat}

theorem trailingComments_rest {rose : Rose} (h : RunPart IsRemark IsLoneName rose) :
    rose.Rests Survey.trailingComments := by
  have htokens : forall {kind children}, (forall child, child ∈ children ->
      exists t, child = Rose.token t) ->
      (Rose.group kind children).Rests Survey.trailingComments := by
    intro kind children h
    apply (Survey.triggers_needs (Survey.trailingComments, _)
      (List.mem_of_getElem? (i := 17) rfl)).rests_of_tokens
    intro child hchild
    rcases h child hchild with ⟨t, rfl⟩
    exact ⟨t, rfl, rfl⟩
  cases h with
  | blank hblank =>
      rcases exists_of_isBlank hblank with ⟨t, rfl, _⟩
      exact Rests.token
  | comma _ =>
      exact Rests.token
  | comment hcomment =>
      rcases hcomment.1 with ⟨children, rfl, hchildren⟩
      apply htokens
      intro child hchild
      rcases hchildren child hchild with ⟨t, rfl, _⟩
      exact ⟨t, rfl⟩
  | item hitem =>
      rcases hitem with ⟨t, rfl, _⟩
      exact htokens fun child hchild => ⟨t, List.mem_singleton.mp hchild⟩

theorem run_comments_trail (hlimit : 1 < limit) :
    Arranges limit (Every (RunPart IsRemark IsLoneName))
      (fun roses => Every (RunPart IsRemarks IsNamed) roses ∧ Apart roses)
      [Pass.trailingComments] := by
  have hregular : Survey.trailingComments.Regular :=
    Survey.regular_ofSeeker Seeker.trailingComments_plan (fun _ _ => rfl) (fun _ _ => rfl)
      (List.mem_of_getElem? (i := 17) rfl)
  refine arranges_of_rests
    (fun _ h rose hrose => (h rose hrose).nests fun _ h => h.nests) hlimit hregular
    (fun _ h rose hrose => trailingComments_rest (h rose hrose)) ?_
  rintro tree after list hwf ⟨hkind, htodo⟩ hwalk
  have hnext : forall tree list idx id span next,
      Seeker.trailingComment.span? tree list idx id = some (span, next) ->
      next = span.start + 1 := by
    intro tree list idx id span next hspan
    rcases Seeker.trailingComment_span hspan with ⟨_, _, _, _, _, rfl, rfl⟩
    rfl
  have hstart : TrailsAt [] ((tree.children list).map tree.rose) := by
    refine ⟨fun rose hrose => absurd hrose List.not_mem_nil, ?_, htodo⟩
    intro front name blanks remark back hcut
    simp at hcut
  rcases Seeker.walks_sweep Seeker.trailingComments_plan hregular.sound hnext
      Seeker.trailingComment_passes Seeker.trailingComment_merges hwf hkind hstart hwalk with
    ⟨roses, hrose, htrails⟩
  exact ⟨roses, hrose, htrails.done, htrails.apart⟩

/-- The passes from the aliases up to the lists take the comments in that stand behind the
names of a run. -/
theorem run_hosts_lead (hlimit : 1 < limit) :
    Arranges limit
      (fun roses => Every (RunPart IsRemark IsLoneName) roses ∧
        exists clear, Listing IsRemark IsRemark IsLoneName clear roses)
      (fun roses => Every (RunPart IsRemarks IsNamed) roses ∧ Apart roses)
      ((Pass.all.drop 14).take 4) := by
  have haliases : Arranges limit
      (fun roses => Every (RunPart IsRemark IsLoneName) roses ∧
        exists clear, Listing IsRemark IsRemark IsLoneName clear roses)
      (fun roses => Every (RunPart IsRemark IsLoneName) roses ∧
        exists clear, Listing IsRemark IsRemark IsLoneName clear roses)
      [Pass.aliases] := by
    refine arranges_of_still
      (fun _ h rose hrose => (h.1 rose hrose).nests fun _ h => h.nests) hlimit
      (Survey.all_faithful Survey.aliases (List.mem_of_getElem? (i := 14) rfl))
      (fun _ h => h.2.choose_spec.still_aliases) ?_
    intro roses h rose hrose
    cases h.1 rose hrose with
    | blank hblank =>
        rcases exists_of_isBlank hblank with ⟨t, rfl, _⟩
        exact Rests.token
    | comma _ =>
        exact Rests.token
    | comment hcomment =>
        exact hcomment.1.rests (List.mem_of_getElem? (i := 13) rfl)
    | item hitem =>
        rcases hitem with ⟨t, rfl, _⟩
        exact Rests.closed rfl
  have hidle : Arranges limit (Every (RunPart IsRemark IsLoneName))
      (Every (RunPart IsRemark IsLoneName))
      (((Survey.triggers.take 17).drop 15).map fun pair => pair.1.pass) := by
    refine arranges_strangers hlimit (fun _ h => h) (fun _ hpair _ h => h.lacks hpair)
      (fun _ h => h.nests) ?_
    exact fun _ hpair => List.mem_append_right _ hpair
  exact arranges_append (haliases.mono (fun _ h => h) fun _ h => h.1) <|
    arranges_append hidle (run_comments_trail hlimit)

end Pass
end SqlLayout
