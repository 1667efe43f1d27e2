import SqlLayout.Proofs.Grouping.InnerRoses
import SqlLayout.Proofs.Grouping.RunHosts

/-!
# The list of a run

The pass for the lists puts the names of a run into one list as long as a name stands
behind each comma.  A comment that stands there is taken for the item, and the list ends
with it.
-/

namespace SqlLayout

open Grouping Tree

/-!
# Items of a list
-/

def Trigger.listItem : Trigger where
  token := fun t => t.category == .keyword ||
    [Category.number, .string, .name, .comment, .wildcard].any t.category.isA
  kind := fun kind => [GroupKind.function, .caseBlock, .identifier, .comparison, .identifierList,
    .operation, .comment].elem kind

theorem Trigger.fires_listItem (tree : Tree) (id : NodeId) :
    listItem.fires tree id = BinaryRule.isListItem tree id := by
  have hkind : (tree.kind? id).any listItem.kind = tree.isKindIn id [.function, .caseBlock,
      .identifier, .comparison, .identifierList, .operation, .comment] := by
    unfold isKindIn
    cases tree.kind? id <;> rfl
  have htoken : tree.tokenHas id listItem.token = (tree.isCategory id .keyword ||
      tree.isAIn id [.number, .string, .name, .comment, .wildcard]) := by
    unfold isCategory category? isAIn tokenHas
    cases tree.token? id <;> rfl
  rw [fires, hkind, htoken, Bool.or_comm, ← Bool.or_assoc]
  rfl

theorem BinaryRule.identifierList_reads :
    identifierList.Reads { token := Token.isComma } Trigger.listItem where
  isOp := by
    intro tree id
    unfold Trigger.fires
    cases tree.kind? id with
    | none =>
        exact (Bool.or_false _).symm
    | some kind =>
        exact (Bool.or_false _).symm
  acceptsPrev := fun tree id => (Trigger.fires_listItem tree id).symm
  acceptsNext := by
    intro tree next
    cases next with
    | none =>
        rfl
    | some id =>
        exact (Trigger.fires_listItem tree id).symm
  span := rfl
  retag := rfl

namespace Rose

variable {rose cur : Rose} {rest : List Rose}

/-!
# The parts of a list
-/

def HasMark (rose : Rose) : Prop := exists t, t ∈ rose.tokens ∧ t.isTrivia = false

def FitsList (rose : Rose) : Prop :=
  Nests (fun _ => false) 2 rose ∧ rose.Lacks { kind := (· == .identifierList) }

/-- A list in which there is no other list. -/
structure IsNameList (rose : Rose) : Prop where
  group : exists children, rose = .group .identifierList children ∧
    forall child, child ∈ children -> child.FitsList
  hasMark : rose.HasMark

theorem fitsList_of_isBlank (h : rose.isBlank = true) : rose.FitsList := by
  rcases exists_of_isBlank h with ⟨t, rfl, _⟩
  exact ⟨Nests.token, Lacks.token rfl⟩

theorem Hosts.fitsList {kind : GroupKind} (h : rose.Hosts kind) : rose.FitsList :=
  ⟨h.nests, h.lacks⟩

theorem Hosts.isBlank {kind : GroupKind} (h : rose.Hosts kind) : rose.isBlank = false := by
  rcases h.group with ⟨children, rfl⟩
  rfl

theorem IsNamed.hasMark (h : rose.IsNamed) : rose.HasMark := by
  rcases h.2 with ⟨name, trivia, htokens, hname, _⟩
  refine ⟨name, ?_, Token.isTrivia_of_isName hname⟩
  rw [htokens]
  exact List.mem_cons_self

def IsItem (rose : Rose) : Prop := rose.IsNamed ∨ rose.IsNameList

theorem IsItem.hasMark (h : rose.IsItem) : rose.HasMark := h.elim IsNamed.hasMark IsNameList.hasMark

theorem IsItem.isBlank (h : rose.IsItem) : rose.isBlank = false := by
  rcases h with hnamed | hlist
  · exact hnamed.1.isBlank
  · rcases hlist.group with ⟨children, rfl, _⟩
    rfl

theorem IsItem.sets (h : rose.IsItem) : rose.sets Trigger.listItem = true := by
  rcases h with hnamed | hlist
  · rcases hnamed.1.group with ⟨children, rfl⟩
    rfl
  · rcases hlist.group with ⟨children, rfl, _⟩
    rfl

theorem IsItem.nests (h : rose.IsItem) : Nests (fun _ => false) 3 rose := by
  rcases h with hnamed | hlist
  · exact hnamed.1.nests.mono (by decide)
  · rcases hlist.group with ⟨children, rfl, hall⟩
    exact Nests.group fun child hchild => (hall child hchild).1

theorem IsItem.merged {group : Rose} (h : cur.IsItem)
    (hrest : forall rose, rose ∈ rest -> rose.FitsList)
    (hmerged : Merged .identifierList true cur rest group) : group.IsNameList := by
  rcases h.hasMark with ⟨mark, hmark, htrivia⟩
  cases hmerged with
  | wrapped hother =>
      rcases h with hnamed | hlist
      · refine ⟨⟨_, rfl, List.forall_mem_cons.mpr ⟨hnamed.1.fitsList, hrest⟩⟩, mark, ?_, htrivia⟩
        rw [tokens, tokensOf]
        exact List.mem_append_left _ hmark
      · rcases hlist.group with ⟨children, heq, _⟩
        exact absurd heq (hother rfl children)
  | @absorbed inner _ heq =>
      subst heq
      rcases h with hnamed | hlist
      · cases hnamed.1.kind_eq
      · rcases hlist.group with ⟨children, heq, hall⟩
        cases heq
        refine ⟨⟨_, rfl, List.forall_mem_append.mpr ⟨hall, hrest⟩⟩, mark, ?_, htrivia⟩
        rw [tokens, tokensOf_append]
        exact List.mem_append_left _ hmark

/-!
# Behind a comma
-/

theorem blanks_or_exists_remark {gap : List Rose} {comment : Rose -> Prop}
    (h : forall rose, rose ∈ gap -> rose.isBlank = true ∨ comment rose) :
    (forall rose, rose ∈ gap -> rose.isBlank = true) ∨
      exists blanks remark others, gap = blanks ++ remark :: others ∧
        (forall rose, rose ∈ blanks -> rose.isBlank = true) ∧ comment remark := by
  induction gap with
  | nil =>
      exact Or.inl fun _ hmem => absurd hmem List.not_mem_nil
  | cons head rest ih =>
      rw [List.forall_mem_cons] at h
      rcases h.1 with hblank | hcomment
      · rcases ih h.2 with hall | ⟨blanks, remark, others, rfl, hblanks, hremark⟩
        · exact Or.inl (List.forall_mem_cons.mpr ⟨hblank, hall⟩)
        · exact Or.inr ⟨head :: blanks, remark, others, rfl,
            List.forall_mem_cons.mpr ⟨hblank, hblanks⟩, hremark⟩
      · exact Or.inr ⟨[], head, rest, rfl, by simp, hcomment⟩

theorem Continued.of_apart {clear : Bool} {roses : List Rose}
    (h : Continued IsRemarks IsRemarks IsNamed clear roses) {front : List Rose} {name : Rose}
    (hname : name.IsNamed) (hapart : Apart (front ++ name :: roses)) :
    Continued (fun _ => False) IsRemarks IsNamed clear roses := by
  induction h generalizing front name with
  | done =>
      exact Continued.done
  | @more gap behind rest comma next clear hgap hcomma hbehind hnext _ ih =>
      have hblanks : forall rose, rose ∈ gap -> rose.isBlank = true := by
        rcases blanks_or_exists_remark hgap with hall | ⟨blanks, remark, others, rfl, hall, hremark⟩
        · exact hall
        · refine absurd hremark (hapart front name blanks remark
            (others ++ .token comma :: (behind ++ next :: rest)) ?_ hname hall)
          simp
      refine Continued.more (fun rose hrose => Or.inl (hblanks rose hrose)) hcomma hbehind hnext ?_
      refine @ih (front ++ name :: (gap ++ .token comma :: behind)) next hnext ?_
      simpa using hapart

/-!
# The walk for the lists
-/

/-- What stands in front of the item that is reached: nothing, if the run is clear as far
as it is behind the item, or roses with a mark, if it is not. -/
structure Fronts (clear later : Bool) (front : List Rose) : Prop where
  clear : front = [] ∧ later = clear ∨ (exists rose, rose ∈ front ∧ rose.HasMark) ∧ clear = false
  nests : Every (Nests (fun _ => false) 3) front

/-- How far a list of names has come. -/
inductive ListedAt (clear : Bool) : List Rose -> List Rose -> Prop where
  | item {front blanks right : List Rose} {cur : Rose} {later : Bool} :
      Fronts clear later front -> cur.IsItem -> (front = [] -> cur.IsNamed -> right ≠ []) ->
      (forall rose, rose ∈ blanks -> rose.isBlank = true) ->
      Continued (fun _ => False) IsRemarks IsNamed later right ->
      ListedAt clear (front ++ cur :: blanks) right
  | behind {front others rest : List Rose} {next : Rose} {later : Bool} :
      Fronts clear later front -> (front = [] -> others = [] ∧ rest ≠ []) ->
      (forall rose, rose ∈ others -> rose.isBlank = true ∨ rose.IsRemarks) -> next.IsNamed ->
      Continued (fun _ => False) IsRemarks IsNamed later rest ->
      ListedAt clear front (others ++ next :: rest)

theorem exists_last_of_behind {behind : List Rose} {next : Rose} (rest : List Rose)
    (hbehind : forall rose, rose ∈ behind -> rose.isBlank = true ∨ rose.IsRemarks)
    (hnext : next.IsNamed) :
    exists blanks last back, behind ++ next :: rest = blanks ++ last :: back ∧
      (forall rose, rose ∈ blanks -> rose.isBlank = true) ∧ last.isBlank = false ∧
      last.FitsList ∧ last.sets Trigger.listItem = true ∧
      (behind.all isBlank = true ∧ back = rest ∨ behind.all isBlank = false ∧
        exists others, back = others ++ next :: rest ∧
          forall rose, rose ∈ others -> rose.isBlank = true ∨ rose.IsRemarks) := by
  rcases blanks_or_exists_remark hbehind with hall | ⟨blanks, remark, others, rfl, hblanks, hremark⟩
  · exact ⟨behind, next, rest, rfl, hall, hnext.1.isBlank, hnext.1.fitsList,
      IsItem.sets (Or.inl hnext), Or.inl ⟨List.all_eq_true.mpr hall, rfl⟩⟩
  · refine ⟨blanks, remark, others ++ next :: rest, by simp, hblanks, hremark.1.isBlank,
      hremark.1.fitsList, ?_, Or.inr ⟨?_, others, rfl, ?_⟩⟩
    · rcases hremark.1.group with ⟨children, rfl⟩
      rfl
    · apply List.all_eq_false.mpr
      refine ⟨remark, by simp, ?_⟩
      rw [hremark.1.isBlank]
      exact Bool.false_ne_true
    · exact fun rose hrose => hbehind rose (by simp [hrose])

theorem isBlank_of_isComma {t : Token} (h : t.isComma = true) : (Rose.token t).isBlank = false :=
  (Bool.or_eq_false_iff.mp (Token.isTrivia_of_isComma h)).1

theorem joined_of_item {blanks blanks' : List Rose} {last : Rose} {t : Token} (hcur : cur.IsItem)
    (hblanks : forall rose, rose ∈ blanks -> rose.isBlank = true) (hcomma : t.isComma = true)
    (hblanks' : forall rose, rose ∈ blanks' -> rose.isBlank = true) (hlast : last.isBlank = false)
    (hoperand : last.sets Trigger.listItem = true) :
    Joined { token := Token.isComma } Trigger.listItem cur blanks (.token t) blanks' last :=
  ⟨hcur.isBlank, hcur.sets, hblanks, isBlank_of_isComma hcomma, hcomma, hblanks', hlast, hoperand⟩

theorem listedAt_passes {clear : Bool} :
    BinaryRule.Passes { token := Token.isComma } Trigger.listItem (ListedAt clear) := by
  intro left rose right h hnone
  generalize hright : rose :: right = whole at h
  cases h with
  | @item front blanks _ cur later hfronts hcur hnamed hblanks hcontinued =>
      cases hcontinued with
      | done =>
          cases hright
      | @more gap behind rest comma next later hgap hcomma hbehind hnext hlater =>
          cases gap with
          | nil =>
              rw [List.nil_append, List.cons.injEq] at hright
              rcases hright with ⟨rfl, rfl⟩
              rcases exists_last_of_behind rest hbehind hnext with
                ⟨blanks', last, back, hsplit, hblanks', hlast, _, hoperand, _⟩
              exact absurd (joined_of_item hcur hblanks hcomma hblanks' hlast hoperand)
                (hnone front cur blanks blanks' last back rfl hsplit)
          | cons blank gap =>
              rw [List.cons_append, List.cons.injEq] at hright
              rcases hright with ⟨rfl, rfl⟩
              rw [List.forall_mem_cons] at hgap
              have hblank : rose.isBlank = true := hgap.1.elim id fun h => absurd h id
              rw [List.append_assoc, List.cons_append]
              refine ListedAt.item hfronts hcur (fun _ _ => by simp) ?_
                (Continued.more hgap.2 hcomma hbehind hnext hlater)
              exact List.forall_mem_append.mpr ⟨hblanks, by simpa using hblank⟩
  | @behind front others rest next later hfronts hfirst hothers hnext hlater =>
      cases others with
      | nil =>
          rw [List.nil_append, List.cons.injEq] at hright
          rcases hright with ⟨rfl, rfl⟩
          exact ListedAt.item hfronts (Or.inl hnext) (fun hnil _ => (hfirst hnil).2)
            (by simp) hlater
      | cons other others =>
          rw [List.cons_append, List.cons.injEq] at hright
          rcases hright with ⟨rfl, rfl⟩
          rw [List.forall_mem_cons] at hothers
          refine ListedAt.behind ⟨?_, ?_⟩ (fun hnil => absurd hnil (by simp)) hothers.2 hnext hlater
          · rcases hfronts.clear with ⟨hnil, _⟩ | ⟨⟨other, hmem, hmark⟩, hclear⟩
            · cases (hfirst hnil).1
            · exact Or.inr ⟨⟨other, List.mem_append_left _ hmem, hmark⟩, hclear⟩
          · refine List.forall_mem_append.mpr ⟨hfronts.nests, ?_⟩
            rw [List.forall_mem_singleton]
            rcases hothers.1 with hblank | hremark
            · exact (fitsList_of_isBlank hblank).1.mono (by decide)
            · exact hremark.1.nests.mono (by decide)

theorem listedAt_merges {clear : Bool} :
    BinaryRule.identifierList.Merges { token := Token.isComma } Trigger.listItem
      (ListedAt clear) := by
  intro front first blanks sign blanks' last back group h hjoined hmerged
  generalize hleft : front ++ first :: blanks = left at h
  generalize hright : sign :: (blanks' ++ last :: back) = right at h
  cases h with
  | @item front' blanks'' _ cur later hfronts hcur hnamed hblanks hcontinued =>
      rcases last_unique hleft hjoined.first_counts hjoined.blanks hcur.isBlank hblanks with
        ⟨rfl, rfl, rfl⟩
      cases hcontinued with
      | done =>
          cases hright
      | @more gap behind rest comma next later hgap hcomma hbehind hnext hlater =>
          have hright' : [] ++ sign :: (blanks' ++ last :: back) =
              gap ++ .token comma :: (behind ++ next :: rest) := hright
          rcases first_unique hright' hjoined.sign_counts (by simp) (isBlank_of_isComma hcomma)
              (fun rose hrose => (hgap rose hrose).elim id False.elim) with
            ⟨rfl, rfl, hsame⟩
          rcases exists_last_of_behind rest hbehind hnext with
            ⟨between, item, others, hsplit, hbetween, hitem, hfits, _, hback⟩
          rcases first_unique (hsame.trans hsplit) hjoined.last_counts hjoined.blanks' hitem
            hbetween with ⟨rfl, rfl, rfl⟩
          have hlist : group.IsNameList := by
            refine hcur.merged ?_ hmerged
            simp only [List.forall_mem_append, List.forall_mem_cons]
            exact ⟨fun rose hrose => fitsList_of_isBlank (hblanks rose hrose),
              ⟨Nests.token, Lacks.token rfl⟩,
              fun rose hrose => fitsList_of_isBlank (hbetween rose hrose), hfits,
              fun _ hmem => absurd hmem List.not_mem_nil⟩
          rcases hback with ⟨hclear, rfl⟩ | ⟨hclear, others, rfl, hothers⟩
          · rw [hclear, Bool.true_and] at hfronts
            refine ListedAt.item hfronts (Or.inr hlist) ?_ (by simp) hlater
            intro _ hgroup
            rcases hlist.group with ⟨children, rfl, _⟩
            cases hgroup.1.kind_eq
          · refine ListedAt.behind ⟨Or.inr ⟨⟨group, by simp, hlist.hasMark⟩, ?_⟩, ?_⟩
              (fun hnil => absurd hnil (by simp)) hothers hnext hlater
            · rcases hfronts.clear with ⟨_, heq⟩ | ⟨_, heq⟩
              · rw [← heq, hclear, Bool.false_and]
              · exact heq
            · refine List.forall_mem_append.mpr ⟨hfronts.nests, ?_⟩
              rw [List.forall_mem_singleton]
              exact IsItem.nests (Or.inr hlist)
  | @behind _ others rest next later hfronts hfirst hothers hnext hlater =>
      -- No comma is among the comments, and the name is none.
      have hnone : forall {kind}, sign.Hosts kind -> False := by
        intro kind hhosts
        rcases hhosts.group with ⟨children, rfl⟩
        cases hjoined.sign_op
      cases others with
      | nil =>
          rw [List.nil_append, List.cons.injEq] at hright
          rcases hright with ⟨rfl, _⟩
          exact (hnone hnext.1).elim
      | cons other others =>
          rw [List.cons_append, List.cons.injEq] at hright
          rcases hright with ⟨rfl, _⟩
          rcases hothers sign List.mem_cons_self with hblank | hremark
          · rw [hjoined.sign_counts] at hblank
            cases hblank
          · exact (hnone hremark.1).elim

/-- Where the walk ends the last item is the list of all names, or there are marks on
both sides of its beginning. -/
theorem ListedAt.ends {clear : Bool} {roses : List Rose} (h : ListedAt clear roses []) :
    exists front cur blanks, roses = front ++ cur :: blanks ∧
      (forall rose, rose ∈ blanks -> rose.isBlank = true) ∧ cur.IsItem ∧
      Every (Nests (fun _ => false) 3) front ∧
      (clear = true ∧ front = [] ∧ cur.IsNameList ∨
        clear = false ∧ exists rose, rose ∈ front ∧ rose.HasMark) := by
  generalize hright : ([] : List Rose) = right at h
  cases h with
  | @item front blanks _ cur later hfronts hcur hnamed hblanks hcontinued =>
      subst hright
      refine ⟨front, cur, blanks, rfl, hblanks, hcur, hfronts.nests, ?_⟩
      rcases hfronts.clear with ⟨hnil, hlater⟩ | ⟨hmark, hclear⟩
      · left
        generalize hright : ([] : List Rose) = right at hcontinued
        cases hcontinued with
        | done =>
            exact ⟨hlater.symm, hnil, hcur.resolve_left fun h => hnamed hnil h rfl⟩
        | more _ _ _ _ _ =>
            simp at hright
      · exact Or.inr ⟨hclear, hmark⟩
  | behind _ _ _ _ _ =>
      simp at hright

theorem ListedAt.nests {clear : Bool} {roses : List Rose} (h : ListedAt clear roses []) :
    Every (Nests (fun _ => false) 3) roses := by
  rcases h.ends with ⟨front, cur, blanks, rfl, hblanks, hcur, hfront, _⟩
  refine List.forall_mem_append.mpr ⟨hfront, List.forall_mem_cons.mpr ⟨hcur.nests, ?_⟩⟩
  exact fun rose hrose => (fitsList_of_isBlank (hblanks rose hrose)).1.mono (by decide)

theorem RunPart.rests_identifierList (h : RunPart IsRemarks IsNamed rose) :
    rose.Rests (Survey.ofRule .identifierList) := by
  have hrests : (forall t, t ∈ rose.tokens -> t.isComma = false) ->
      rose.Rests (Survey.ofRule .identifierList) := by
    intro htokens
    apply (Survey.triggers_needs (Survey.ofRule .identifierList, _)
      (List.mem_of_getElem? (i := 18) rfl)).rests
    exact lacks_of_tokens (fun _ => rfl) rose htokens
  have htrivia : forall t : Token, t.isTrivia = true -> t.isComma = false := by
    intro t ht
    apply Bool.eq_false_iff.mpr
    intro hcomma
    rw [Token.isTrivia_of_isComma hcomma] at ht
    cases ht
  cases h with
  | blank hblank =>
      exact hrests fun t ht => htrivia t (isTrivia_of_isBlank hblank ht)
  | comma _ =>
      exact Rests.token
  | comment hcomment =>
      exact hrests fun t ht => htrivia t (hcomment.2.1 t ht)
  | item hitem =>
      apply hrests
      rcases hitem.2 with ⟨name, trivia, htokens, hname, htail⟩
      rw [htokens, List.forall_mem_cons]
      refine ⟨?_, fun t ht => htrivia t (htail t ht)⟩
      apply Bool.eq_false_iff.mpr
      intro hcomma
      rw [Token.category_of_isComma hcomma] at hname
      cases hname

/-- The items of a run as the pass for the lists finds them: two at least, and in front of
a comma there are only blanks. -/
structure Run (clear : Bool) (roses : List Rose) : Prop where
  parts : Every (RunPart IsRemarks IsNamed) roses
  listing : exists first rest, roses = first :: rest ∧ first.IsNamed ∧ rest ≠ [] ∧
    Continued (fun _ => False) IsRemarks IsNamed clear rest

end Rose

namespace Pass

open Rose

theorem run_lists_lead {limit : Nat} (hlimit : 2 < limit) (clear : Bool) :
    Arranges limit (Rose.Run clear) (fun roses => ListedAt clear roses [])
      [Pass.binary .identifierList] := by
  have hnests : forall rose, RunPart IsRemarks IsNamed rose -> Nests (fun _ => false) 2 rose := by
    intro rose h
    cases h with
    | blank hblank =>
        exact (fitsList_of_isBlank hblank).1
    | comma _ =>
        exact Nests.token
    | comment hcomment =>
        exact hcomment.1.nests
    | item hitem =>
        exact hitem.1.nests
  have hregular : (Survey.ofRule .identifierList).Regular :=
    Survey.regular_ofRule (List.mem_of_getElem? (i := 18) rfl)
  refine arranges_of_rests (fun _ h rose hrose => hnests rose (h.parts rose hrose)) hlimit hregular
    (fun _ h rose hrose => (h.parts rose hrose).rests_identifierList) ?_
  rintro tree after list hwf ⟨hkind, hrun⟩ hwalk
  refine BinaryRule.walks_sweep BinaryRule.identifierList_reads listedAt_passes listedAt_merges hwf
    hkind ?_ hwalk
  rcases hrun.listing with ⟨first, rest, hroses, hfirst, hrest, hcontinued⟩
  rw [hroses, ← List.nil_append (first :: rest)]
  exact ListedAt.behind ⟨Or.inl ⟨rfl, rfl⟩, fun _ hmem => absurd hmem List.not_mem_nil⟩
    (fun _ => ⟨rfl, hrest⟩) (fun _ hmem => absurd hmem List.not_mem_nil) hfirst hcontinued

end Pass
end SqlLayout
