import SqlLayout.Proofs.Grouping.FlatStatements
import SqlLayout.Proofs.Grouping.RunParts
import SqlLayout.Proofs.Parsing
import SqlLayout.Proofs.Tree.Traversals
import SqlLayout.Tree.Names

/-!
# Qualified names

Names with dots between them become one identifier, however many they are: the pass for
the dots starts a group at the first of them, and at each later one the group takes in the
dot and the name behind it.  A single name becomes an identifier later on.  What such an
identifier says about itself is read around its first dot.
-/

namespace SqlLayout

open Grouping Tree

/-- A name, and dots each with a name behind it. -/
def dotted (first : Token) (rest : List (Token × Token)) : List Token :=
  first :: rest.flatMap fun part => [part.1, part.2]

/-- Names with a dot between any two. -/
structure Dotted (first : Token) (rest : List (Token × Token)) : Prop where
  first : first.category = .name
  parts : forall part, part ∈ rest -> part.1.isDot = true ∧ part.2.category = .name

theorem dotted_concat (first : Token) (done : List (Token × Token)) (part : Token × Token) :
    dotted first (done ++ [part]) = dotted first done ++ [part.1, part.2] := by
  unfold dotted
  rw [List.flatMap_append, List.flatMap_singleton, List.cons_append]

namespace Dotted

variable {first : Token} {rest : List (Token × Token)}

theorem token (h : Dotted first rest) {t : Token} (ht : t ∈ dotted first rest) :
    t.isDot = true ∨ t.category = .name := by
  rcases List.mem_cons.mp ht with rfl | hmem
  · exact Or.inr h.first
  · rcases List.mem_flatMap.mp hmem with ⟨part, hpart, ht⟩
    rcases h.parts part hpart with ⟨hdot, hname⟩
    rcases List.mem_pair.mp ht with rfl | rfl
    · exact Or.inl hdot
    · exact Or.inr hname

end Dotted

/-!
# Passes that find nothing in a qualified name
-/

def Survey.nameless : List (Survey × Trigger) :=
  triggers.take 6 ++ (triggers.drop 7).take 1 ++ (triggers.drop 9).take 5 ++ triggers.drop 15

namespace Survey

theorem nameless_subset : nameless ⊆ triggers := by
  unfold nameless
  intro pair hpair
  simp only [List.mem_append] at hpair
  rcases hpair with ((hmem | hmem) | hmem) | hmem
  · exact List.mem_of_mem_take hmem
  · exact List.mem_of_mem_drop (List.mem_of_mem_take hmem)
  · exact List.mem_of_mem_drop (List.mem_of_mem_take hmem)
  · exact List.mem_of_mem_drop hmem

theorem nameless_pass_over {t : Token} (h : t.isDot = true ∨ t.category = .name)
    {pair : Survey × Trigger} (hpair : pair ∈ nameless) : pair.2.token t = false := by
  have hall : nameless.all (fun pair => !pair.2.token t) = true := by
    rcases t with ⟨category, value, position⟩
    rcases h with hdot | hname
    · rcases Token.isDot_iff.mp hdot with ⟨hcategory, hvalue⟩
      dsimp only at hcategory hvalue
      subst hcategory hvalue
      rfl
    · dsimp only at hname
      subst hname
      rfl
  simpa using List.all_eq_true.mp hall pair hpair

theorem nameless_kind {pair : Survey × Trigger} (hpair : pair ∈ nameless) :
    pair.2.kind .identifier = false := by
  have hall : nameless.all (fun pair => !pair.2.kind .identifier) = true := by
    decide
  simpa using List.all_eq_true.mp hall pair hpair

end Survey

namespace Rose

variable {first : Token} {rest : List (Token × Token)}

/-- What the dots make of a name and the parts behind it that they have taken in. -/
def path (first : Token) : List (Token × Token) -> Rose
  | [] => .token first
  | part :: parts => .group .identifier ((dotted first (part :: parts)).map .token)

theorem path_concat (first : Token) (done : List (Token × Token)) (part : Token × Token) :
    path first (done ++ [part]) =
      .group .identifier ((dotted first (done ++ [part])).map .token) := by
  cases done with
  | nil =>
      rfl
  | cons head tail =>
      rfl

theorem Merged.path {done : List (Token × Token)} {part : Token × Token} {group : Rose}
    (h : Merged .identifier true (Rose.path first done) [.token part.1, .token part.2] group) :
    group = Rose.path first (done ++ [part]) := by
  rw [path_concat, dotted_concat, List.map_append]
  cases h with
  | wrapped hother =>
      cases done with
      | nil =>
          rfl
      | cons head tail =>
          exact absurd rfl (hother rfl _)
  | absorbed _ heq =>
      cases done with
      | nil =>
          cases heq
      | cons head tail =>
          cases heq
          rfl

theorem lacks_of_dotted (h : Dotted first rest) {pair : Survey × Trigger}
    (hpair : pair ∈ Survey.nameless) :
    (Rose.group .identifier ((dotted first rest).map .token)).Lacks pair.2 := by
  apply Lacks.group (Survey.nameless_kind hpair)
  intro child hchild
  rcases List.mem_map.mp hchild with ⟨t, ht, rfl⟩
  exact Lacks.token (Survey.nameless_pass_over (h.token ht) hpair)

theorem path_lacks (h : Dotted first rest) {pair : Survey × Trigger}
    (hpair : pair ∈ Survey.nameless) : (path first rest).Lacks pair.2 := by
  cases rest with
  | nil =>
      exact Lacks.token (Survey.nameless_pass_over (Or.inr h.first) hpair)
  | cons part parts =>
      exact lacks_of_dotted h hpair

theorem nests_of_dotted (first : Token) (rest : List (Token × Token)) :
    Nests (fun _ => false) 1 (.group .identifier ((dotted first rest).map .token)) := by
  apply nests_of_tokens
  intro child hchild
  rcases List.mem_map.mp hchild with ⟨t, _, rfl⟩
  exact ⟨t, rfl⟩

theorem path_nests (first : Token) (rest : List (Token × Token)) :
    Nests (fun _ => false) 1 (path first rest) := by
  cases rest with
  | nil =>
      exact Nests.token
  | cons part parts =>
      exact nests_of_dotted first (part :: parts)

theorem path_isBlank (h : first.category = .name) : (path first rest).isBlank = false := by
  cases rest with
  | nil =>
      change first.category.isWhitespace = false
      rw [h]
      rfl
  | cons part parts =>
      rfl

end Rose

/-!
# The walk along the dots
-/

/-- How far the dots of a name have been taken in: the place is in front of the first name,
or behind the group that the name has grown to. -/
structure Rose.PathAt (first : Token) (rest : List (Token × Token)) (list : NodeId) (tree : Tree)
    (cursor : Cursor) : Prop where
  kind : tree.kind? list = some .statement
  cut : exists done todo, done ++ todo = rest ∧
    (tree.children list).map tree.rose =
      path first done :: (todo.flatMap fun part => [part.1, part.2]).map .token ∧
    (cursor.idx = 0 ∧ done = [] ∨ cursor.idx = 1 ∧ cursor.prev = some 0)

namespace BinaryRule

variable {first : Token} {rest done todo : List (Token × Token)} {tree : Tree} {list : NodeId}

theorem acceptsPrev_path (hwf : tree.WellFormed) (hfirst : first.category = .name) {id : NodeId}
    (hid : id < tree.size) (hrose : tree.rose id = Rose.path first done) :
    period.acceptsPrev tree id = true := by
  change (tree.isKindIn id [.squareBrackets, .identifier] ||
    tree.isAIn id [.name, .doubleQuoted]) = true
  cases done with
  | nil =>
      rw [Bool.or_eq_true]
      right
      refine tokenHas_iff.mpr ⟨first, hwf.token?_of_rose hid hrose, ?_⟩
      rw [hfirst]
      rfl
  | cons part parts =>
      unfold isKindIn
      rw [(hwf.kind?_of_rose hid hrose).1]
      rfl

theorem period_plan_path {part : Token × Token} (hwf : tree.WellFormed)
    (hfirst : first.category = .name) (hdot : part.1.isDot = true)
    (hname : part.2.category = .name) {behind : List Rose}
    (hroses : (tree.children list).map tree.rose =
      Rose.path first done :: .token part.1 :: .token part.2 :: behind)
    {cursor : Cursor} (hidx : cursor.idx = 1) (hlast : cursor.prev = some 0) :
    period.plan tree list cursor = some
      { span := some { kind := .identifier, start := 0, stop := 2, extend := true }
        cursor := { idx := 1, prev := some 0 } } := by
  have hlt : forall {idx id}, tree.child? list idx = some id -> id < tree.size :=
    fun hchild => hwf.child_lt_size (List.mem_of_getElem? hchild)
  rcases @exists_child_of_map tree list Rose tree.rose [] _ _ hroses with ⟨head, hhead, hheadRose⟩
  rcases @exists_child_of_map tree list Rose tree.rose [_] _ _ hroses with
    ⟨dot, hdotChild, hdotRose⟩
  have hdotToken := hwf.token?_of_rose (hlt hdotChild) hdotRose
  have hblank : (Rose.token part.2).isBlank = false := by
    change part.2.category.isWhitespace = false
    rw [hname]
    rfl
  rcases @next_of_split tree list [_] behind [] _ _ hwf hroses
      (fun _ hmem => absurd hmem List.not_mem_nil) hblank with ⟨name, hnext, hnameRose⟩
  have hnameChild := (next_some hnext).2.1
  have hnameToken := hwf.token?_of_rose (hlt hnameChild) hnameRose
  have hwhite : tree.isWhitespace dot = false := by
    rw [← hwf.isBlank_rose (hlt hdotChild), hdotRose]
    change part.1.category.isWhitespace = false
    rw [(Token.isDot_iff.mp hdot).1]
    rfl
  have hop : period.isOp tree dot = true := tokenHas_iff.mpr ⟨part.1, hdotToken, hdot⟩
  have hprev := acceptsPrev_path hwf hfirst (hlt hhead) hheadRose
  have hqualified : tree.isAIn name [.name, .doubleQuoted, .wildcard, .singleQuoted] = true := by
    refine tokenHas_iff.mpr ⟨part.2, hnameToken, ?_⟩
    rw [hname]
    rfl
  have hany : period.acceptsNext tree (some name) = true := rfl
  have hspan : period.span? tree list cursor.prev cursor.idx = some (0, 2) := by
    rw [hlast, hidx]
    unfold span?
    dsimp only
    change tree.child? list 0 = some head at hhead
    change tree.next list 1 true = some (2, name) at hnext
    change tree.child? list 2 = some name at hnameChild
    rw [hhead, hnext]
    dsimp only [Option.map_some]
    rw [if_pos (Bool.and_eq_true_iff.mpr ⟨hprev, hany⟩)]
    unfold period
    dsimp only
    rw [hnameChild]
    dsimp only
    rw [if_pos (Bool.or_eq_true_iff.mpr (Or.inr hqualified))]
  have hhere : tree.child? list cursor.idx = some dot := by
    rw [hidx]
    exact hdotChild
  rcases period.plan_of_child hhere with
    ⟨hblank, _⟩ | ⟨_, _, start, stop, hfound, hplan⟩ | ⟨_, hnone, _⟩
  · rw [hwhite] at hblank
    cases hblank
  · cases hspan.symm.trans hfound
    exact hplan
  · cases hspan.symm.trans (hnone hop)

/-- At each place of the walk there is nothing behind the group, or the first name is gone
past, or the next dot makes a span. -/
theorem period_plan_at (hdotted : Dotted first rest) (hwf : tree.WellFormed) {cursor : Cursor}
    (h : Rose.PathAt first rest list tree cursor) :
    (period.plan tree list cursor = none ∧
      (tree.children list).map tree.rose = [Rose.path first rest]) ∨
    (exists next, period.plan tree list cursor = some (.skip next) ∧
      Rose.PathAt first rest list tree (Move.skip next).cursor) ∨
    exists done part todo, done ++ part :: todo = rest ∧
      (tree.children list).map tree.rose = Rose.path first done :: .token part.1 ::
        .token part.2 :: (todo.flatMap fun part => [part.1, part.2]).map .token ∧
      period.plan tree list cursor = some
        { span := some { kind := .identifier, start := 0, stop := 2, extend := true }
          cursor := { idx := 1, prev := some 0 } } := by
  rcases h with ⟨hkind, done, todo, hrest, hroses, ⟨hidx, rfl⟩ | ⟨hidx, hprev⟩⟩
  · right
    left
    rcases @exists_child_of_map tree list Rose tree.rose [] _ _ hroses with ⟨head, hhead, hheadRose⟩
    rw [List.length_nil, ← hidx] at hhead
    have hid := hwf.child_lt_size (List.mem_of_getElem? hhead)
    rcases period.plan_of_child hhead with ⟨hblank, _⟩ | ⟨_, hop, _⟩ | ⟨_, _, hplan⟩
    · rw [← hwf.isBlank_rose hid, hheadRose, Rose.path_isBlank hdotted.first] at hblank
      cases hblank
    · rcases tokenHas_iff.mp hop with ⟨t, ht, hdot⟩
      cases (hwf.token?_of_rose hid hheadRose).symm.trans ht
      have hcategory := (Token.isDot_iff.mp hdot).1
      rw [hdotted.first] at hcategory
      cases hcategory
    · refine ⟨_, hplan, hkind, [], todo, hrest, hroses, Or.inr ⟨?_, congrArg some hidx⟩⟩
      exact congrArg (· + 1) hidx
  · cases todo with
    | nil =>
        left
        rw [List.append_nil] at hrest
        subst hrest
        refine ⟨plan_of_end (List.getElem?_eq_none ?_), hroses⟩
        have hlength := congrArg List.length hroses
        rw [List.length_map] at hlength
        rw [hlength, hidx]
        rfl
    | cons part todo =>
        right
        right
        have hpart := hdotted.parts part (hrest ▸ by simp)
        exact ⟨done, part, todo, hrest, hroses,
          period_plan_path hwf hdotted.first hpart.1 hpart.2 hroses hidx hprev⟩

theorem period_walks (hdotted : Dotted first rest) {after : Tree} (hwf : tree.WellFormed)
    (hkind : tree.kind? list = some .statement)
    (hroses : (tree.children list).map tree.rose = (dotted first rest).map .token)
    (h : (Pass.binary .period).Walks list tree after) :
    after.rose list = .group .statement [Rose.path first rest] := by
  have hsound : (Pass.binary .period).Sound := Pass.binary_sound period_sound rfl
  have htags := Pass.tagsChildren_binary period
  have hafter := (Pass.Walks.changesWithin hsound htags hwf h).wellFormed hwf
  have hskip : forall (tree : Tree) (cursor : Cursor) (move : Move), tree.WellFormed ->
      Rose.PathAt first rest list tree cursor ->
      (Pass.binary period).plan tree list cursor = some move -> move.span = none ->
      Rose.PathAt first rest list tree move.cursor := by
    intro tree cursor move hwf hpath hmove hnone
    change period.plan tree list cursor = some move at hmove
    rcases period_plan_at hdotted hwf hpath with
      ⟨hplan, _⟩ | ⟨next, hplan, hnext⟩ | ⟨_, _, _, _, _, hplan⟩
    · cases hplan.symm.trans hmove
    · cases hplan.symm.trans hmove
      exact hnext
    · cases hplan.symm.trans hmove
      cases hnone
  have hgroup : forall (tree after : Tree) (cursor : Cursor) (move : Move) (span : Span),
      tree.WellFormed -> cursor.Ordered -> Rose.PathAt first rest list tree cursor ->
      (Pass.binary period).plan tree list cursor = some move -> move.span = some span ->
      move.Groups list tree after -> Rose.PathAt first rest list after move.cursor := by
    intro tree after cursor move span hwf hcursor hpath hmove hsome hgroups
    have hfits := hsound tree list cursor move hcursor hmove
    change period.plan tree list cursor = some move at hmove
    rcases period_plan_at hdotted hwf hpath with
      ⟨hplan, _⟩ | ⟨next, hplan, _⟩ | ⟨done, part, todo, hrest, hroses, hplan⟩
    · cases hplan.symm.trans hmove
    · cases hplan.symm.trans hmove
      cases hsome
    · cases hplan.symm.trans hmove
      rcases hgroups.regroups hwf hfits with ⟨_, hsame, hkind, hregroups⟩
      cases hsame
      change Span.Regroups _ ((tree.children list).map tree.rose) _ at hregroups
      rw [hroses] at hregroups
      rcases hregroups.merged (Nat.zero_le _) with
        ⟨front, head, more, back, group, hcut, hfront, hmore, hmerged, hresult⟩
      cases List.eq_nil_of_length_eq_zero hfront
      rcases List.cons.inj hcut with ⟨rfl, hbehind⟩
      have hsplit : [Rose.token part.1, .token part.2] = more ∧
          (todo.flatMap fun part => [part.1, part.2]).map Rose.token = back :=
        List.append_inj hbehind (by simpa using hmore.symm)
      rcases hsplit with ⟨rfl, rfl⟩
      refine ⟨hkind.trans hpath.kind, done ++ [part], todo, ?_, ?_, Or.inr ⟨rfl, rfl⟩⟩
      · rw [List.append_assoc, List.singleton_append]
        exact hrest
      · rw [hresult, hmerged.path]
        rfl
  have hstart : Rose.PathAt first rest list tree {} :=
    ⟨hkind, [], rest, rfl, hroses, Or.inl ⟨rfl, rfl⟩⟩
  rcases Pass.walks_rule hsound htags (Pass.stays_binary period) hskip hgroup hwf hstart h with
    ⟨last, hlast, hend⟩
  have hnone : period.plan after list last = none :=
    hend.elim id fun hcount => plan_of_end (List.getElem?_eq_none hcount)
  rcases period_plan_at hdotted hafter hlast with
    ⟨_, hone⟩ | ⟨_, hplan, _⟩ | ⟨_, _, _, _, _, hplan⟩
  · rw [hafter.rose_of_kind? hlast.kind, hone]
  · cases hplan.symm.trans hnone
  · cases hplan.symm.trans hnone

end BinaryRule

/-!
# The single child of a statement
-/

def Rose.Turns (old new : Rose) (left right : List Rose) : Prop :=
  left = [] ∧ right = [old] ∨ left = [new] ∧ right = []

namespace Seeker

variable {first : Token} {rest : List (Token × Token)} {list : NodeId}

theorem name_passes_path (hdotted : Dotted first rest) :
    name.Passes (Rose.Turns (Rose.path first rest)
      (.group .identifier ((dotted first rest).map .token))) list .statement := by
  rintro tree left id right hwf _ _ hchild hrefused (⟨rfl, hright⟩ | ⟨_, hright⟩)
  · rcases List.cons.inj hright with ⟨hrose, rfl⟩
    refine Or.inr ⟨?_, rfl⟩
    rw [List.nil_append, hrose]
    cases rest with
    | nil =>
        have hid := hwf.child_lt_size (List.mem_of_getElem? hchild)
        have hname : tree.isCategory id .name = true :=
          isCategory_iff.mpr ⟨_, hwf.token?_of_rose hid hrose, hdotted.first⟩
        have hnone := hrefused rfl
        unfold name at hnone
        dsimp only at hnone
        rw [if_pos (Bool.or_eq_true_iff.mpr (Or.inl hname))] at hnone
        cases hnone
    | cons part parts =>
        rfl
  · cases hright

theorem name_merges_path :
    name.Merges (Rose.Turns (Rose.path first rest)
      (.group .identifier ((dotted first rest).map .token))) list .statement := by
  rintro tree left id right span next front head more back group hwf _ _ hchild _ hfound hcut
    hfront hmore hmerged (⟨rfl, hright⟩ | ⟨_, hright⟩)
  · rcases List.cons.inj hright with ⟨hrose, rfl⟩
    rcases name_span hfound with ⟨hname, rfl, _⟩
    cases List.eq_nil_of_length_eq_zero hfront
    rw [List.length_nil, Nat.zero_add] at hmore
    cases List.eq_nil_of_length_eq_zero hmore
    rcases List.cons.inj hcut with ⟨rfl, rfl⟩
    refine Or.inr ⟨?_, rfl⟩
    have htoken : exists t, tree.rose id = .token t := by
      rcases Bool.or_eq_true_iff.mp hname with hname | hname
      · rcases rose_of_isCategory hname with ⟨t, ht, _⟩
        exact ⟨t, ht⟩
      · rcases rose_of_isCategory hname with ⟨t, ht, _⟩
        exact ⟨t, ht⟩
    rcases htoken with ⟨t, ht⟩
    rw [ht] at hrose hmerged
    cases rest with
    | nil =>
        cases hrose
        cases hmerged with
        | wrapped _ =>
            rfl
        | absorbed hextend _ =>
            cases hextend
    | cons part parts =>
        cases hrose
  · cases hright

end Seeker

/-!
# All passes
-/

namespace Pass

open Rose

variable {limit : Nat} {first : Token} {rest : List (Token × Token)}

theorem nameless_arrange {p : List Rose -> Prop} (hlimit : 1 < limit)
    (hnests : forall roses, p roses -> forall rose, rose ∈ roses -> Nests (fun _ => false) 1 rose)
    (hlacks : forall pair, pair ∈ Survey.nameless -> forall roses, p roses ->
      forall rose, rose ∈ roses -> rose.Lacks pair.2)
    (pairs : List (Survey × Trigger)) (hpairs : pairs ⊆ Survey.nameless) :
    Arranges limit p p (pairs.map fun pair => pair.1.pass) :=
  arranges_all fun pair hpair =>
    arranges_of_lacks hnests hlimit pair (Survey.nameless_subset (hpairs hpair))
      (hlacks pair (hpairs hpair))

theorem forall_of_singleton {p : Rose -> Prop} {only : Rose} (h : p only) :
    forall roses, roses = [only] -> forall rose, rose ∈ roses -> p rose := by
  rintro roses rfl rose hrose
  rw [List.mem_singleton.mp hrose]
  exact h

theorem forall_of_tokens {p : Rose -> Prop} {tokens : List Token}
    (h : forall t, t ∈ tokens -> p (.token t)) :
    forall roses, roses = tokens.map .token -> forall rose, rose ∈ roses -> p rose := by
  rintro roses rfl rose hrose
  rcases List.mem_map.mp hrose with ⟨t, ht, rfl⟩
  exact h t ht

theorem path_period (hdotted : Dotted first rest) (hlimit : 1 < limit) :
    Arranges limit (fun roses => roses = (dotted first rest).map .token)
      (fun roses => roses = [path first rest]) [Pass.binary .period] := by
  have hregular : (Survey.ofRule .period).Regular :=
    Survey.regular_ofRule (List.mem_of_getElem? (i := 6) rfl)
  have hnests : forall t, t ∈ dotted first rest -> Nests (fun _ => false) 1 (.token t) :=
    fun _ _ => Nests.token
  refine arranges_of_rests (forall_of_tokens hnests) hlimit hregular
    (forall_of_tokens fun _ _ => Rests.token) ?_
  rintro tree after list hwf ⟨hkind, hroses⟩ hwalk
  exact ⟨_, BinaryRule.period_walks hdotted hwf hkind hroses hwalk, rfl⟩

theorem path_identifiers (hdotted : Dotted first rest) (hlimit : 1 < limit) :
    Arranges limit (fun roses => roses = [path first rest])
      (fun roses => roses = [.group .identifier ((dotted first rest).map .token)])
      [Pass.identifiers] := by
  have hregular : (Survey.ofSeeker .identifiers (some .identifier) .name).Regular :=
    Survey.regular_ofSeeker Seeker.identifiers_plan (fun _ _ => rfl) (fun _ _ => rfl)
      (List.mem_of_getElem? (i := 8) rfl)
  have hrests : (path first rest).Rests
    (Survey.ofSeeker .identifiers (some .identifier) .name) := by
    cases rest with
    | nil =>
        exact Rests.token
    | cons part parts =>
        exact Rests.closed rfl
  refine arranges_of_rests (forall_of_singleton (path_nests first rest)) hlimit hregular
    (forall_of_singleton hrests) ?_
  rintro tree after list hwf ⟨hkind, hroses⟩ hwalk
  have hnext : forall tree list idx id span next,
      Seeker.name.span? tree list idx id = some (span, next) -> next = span.start + 1 := by
    intro tree list idx id span next hfound
    rcases Seeker.name_span hfound with ⟨_, rfl, rfl⟩
    rfl
  rcases Seeker.walks_sweep Seeker.identifiers_plan hregular.sound hnext
      (Seeker.name_passes_path hdotted) Seeker.name_merges_path hwf hkind
      (Or.inl ⟨rfl, hroses⟩) hwalk with ⟨roses, hrose, ⟨_, hright⟩ | ⟨hleft, _⟩⟩
  · cases hright
  · exact ⟨roses, hrose, hleft⟩

theorem still_aliases_of_singleton (rose : Rose) : Survey.aliases.Still [rose] := by
  intro tree list hwf hroses idx
  apply Bool.eq_false_iff.mpr
  intro hacts
  rcases Survey.exists_of_seeker_acts hacts with ⟨id, span, hchild, _, hspan⟩
  rcases Seeker.aliased_span hspan with ⟨place, other, hnext, _⟩
  rcases next_some hnext with ⟨hlt, hother, _⟩
  have hlength := congrArg List.length hroses
  rw [List.length_map, List.length_singleton] at hlength
  have hbound : place < (tree.children list).length := child?_lt hother
  omega

theorem path_arranges (hdotted : Dotted first rest) (hlimit : 1 < limit) :
    Arranges limit (fun roses => roses = (dotted first rest).map .token)
      (fun roses => roses = [.group .identifier ((dotted first rest).map .token)]) Pass.all := by
  have htokens : Arranges limit (fun roses => roses = (dotted first rest).map .token)
      (fun roses => roses = (dotted first rest).map .token)
      ((Survey.triggers.take 6).map fun pair => pair.1.pass) :=
    nameless_arrange hlimit (forall_of_tokens fun _ _ => Nests.token)
      (fun _ hpair => forall_of_tokens fun t ht =>
        Lacks.token (Survey.nameless_pass_over (hdotted.token ht) hpair)) _
      fun _ hmem => List.mem_append_left _ (List.mem_append_left _ (List.mem_append_left _ hmem))
  have hsubscript : Arranges limit (fun roses => roses = [path first rest])
      (fun roses => roses = [path first rest])
      (((Survey.triggers.drop 7).take 1).map fun pair => pair.1.pass) :=
    nameless_arrange hlimit (forall_of_singleton (path_nests first rest))
      (fun _ hpair => forall_of_singleton (path_lacks hdotted hpair)) _
      fun _ hmem => List.mem_append_left _ (List.mem_append_left _ (List.mem_append_right _ hmem))
  have hlater := nameless_arrange hlimit (forall_of_singleton (nests_of_dotted first rest))
    fun _ hpair => forall_of_singleton (lacks_of_dotted hdotted hpair)
  have haliases := arranges_of_still (forall_of_singleton (nests_of_dotted first rest)) hlimit
    (Survey.all_faithful Survey.aliases (List.mem_of_getElem? (i := 14) rfl))
    (fun roses h => h ▸ still_aliases_of_singleton _) (forall_of_singleton (Rests.closed rfl))
  exact arranges_append htokens <| arranges_append (path_period hdotted hlimit) <|
    arranges_append hsubscript <| arranges_append (path_identifiers hdotted hlimit) <|
    arranges_append (hlater ((Survey.triggers.drop 9).take 5)
      fun _ hmem => List.mem_append_left _ (List.mem_append_right _ hmem)) <|
    arranges_append haliases <|
    hlater (Survey.triggers.drop 15) fun _ hmem => List.mem_append_right _ hmem

end Pass

/-!
# Names around the first dot
-/

namespace Tree

variable {tree : Tree} {id : NodeId} {tokens : List Token} {first : Token}
  {rest : List (Token × Token)}

def Spells (tree : Tree) (id : NodeId) (tokens : List Token) : Prop :=
  (tree.children id).map tree.token? = tokens.map some

theorem WellFormed.spells (hwf : tree.WellFormed)
    (h : (tree.children id).map tree.rose = tokens.map .token) : tree.Spells id tokens := by
  have hsame : forall (ids : List NodeId) (tokens : List Token),
      (forall child, child ∈ ids -> child < tree.size) ->
      ids.map tree.rose = tokens.map .token -> ids.map tree.token? = tokens.map some := by
    intro ids
    induction ids with
    | nil =>
        intro tokens _ h
        rw [List.map_eq_nil_iff.mp h.symm]
        rfl
    | cons child ids ih =>
        intro tokens hids h
        rcases List.map_eq_cons_iff.mp h.symm with ⟨t, tokens, rfl, ht, htokens⟩
        rw [List.forall_mem_cons] at hids
        rw [List.map_cons, List.map_cons, ih tokens hids.2 htokens.symm,
          hwf.token?_of_rose hids.1 ht.symm]
  exact hsame _ tokens (fun child hchild => hwf.child_lt_size hchild) h

namespace Spells

theorem exists_token (h : tree.Spells id tokens) {child : NodeId}
    (hchild : child ∈ tree.children id) : exists t, t ∈ tokens ∧ tree.token? child = some t := by
  have hmem : tree.token? child ∈ (tree.children id).map tree.token? := List.mem_map_of_mem hchild
  rw [h] at hmem
  rcases List.mem_map.mp hmem with ⟨t, ht, heq⟩
  exact ⟨t, ht, heq.symm⟩

theorem nextBy_eq_none (h : tree.Spells id tokens) {p : Token -> Bool}
    (hp : forall t, t ∈ tokens -> p t = false) :
    tree.nextBy id 0 (fun child => tree.tokenHas child p) = none := by
  rcases hfound : tree.nextBy id 0 (fun child => tree.tokenHas child p) with _ | ⟨idx, child⟩
  · rfl
  · rcases nextBy_some hfound with ⟨_, hchild, hhas, _⟩
    rcases h.exists_token (List.mem_of_getElem? hchild) with ⟨t, ht, htoken⟩
    rcases tokenHas_iff.mp hhas with ⟨same, hsame, hholds⟩
    cases htoken.symm.trans hsame
    rw [hp t ht] at hholds
    cases hholds

theorem alias?_eq_none (h : tree.Spells id (dotted first rest)) (hdotted : Dotted first rest) :
    tree.alias? id = none := by
  have hword : forall t, t ∈ dotted first rest -> t.hits ⟨.keyword, [Text.of "AS"]⟩ = false := by
    intro t ht
    apply Token.hits_eq_false_of_ne
    rcases hdotted.token ht with hdot | hname
    · rw [(Token.isDot_iff.mp hdot).1]
      decide
    · rw [hname]
      decide
  have hblank : forall t, t ∈ dotted first rest -> t.category.isA .whitespace = false := by
    intro t ht
    rcases hdotted.token ht with hdot | hname
    · rw [(Token.isDot_iff.mp hdot).1]
      rfl
    · rw [hname]
      rfl
  have hfirst : tree.firstHit? id .keyword (Text.of "AS") = none := by
    unfold firstHit?
    exact Option.map_eq_none_iff.mpr (h.nextBy_eq_none hword)
  have hnone : tree.firstOfCategory? id .whitespace = none := h.nextBy_eq_none hblank
  unfold alias? aliasSearch?
  rw [hfirst, hnone]
  dsimp only
  rw [if_neg (by simp), Option.bind_none]

theorem searchName_eq {token : Token} {search : NameSearch} {front : List NodeId} {name : NodeId}
    {back : List NodeId} (hchildren : (tree.children id).drop search.start = front ++ name :: back)
    (hfront : forall child, child ∈ front -> exists t, tree.token? child = some t ∧ t.isDot = true)
    (hname : tree.token? name = some token) (hcategory : token.category = .name)
    (hkeywords : search.keywords = false) (hbackwards : search.backwards = false) :
    tree.searchName tree.size id search = some (removeQuotes token.value) := by
  have hpos := Nat.lt_of_le_of_lt (Nat.zero_le _) (lt_size_of_token? hname)
  rw [← Nat.succ_pred_eq_of_pos hpos]
  unfold searchName
  dsimp only
  rw [hchildren, hbackwards, hkeywords, if_neg Bool.false_ne_true]
  generalize hnode : (fun node => _ : NodeId -> Option (Option Text)) = ofNode
  have hdots : forall child, child ∈ front -> ofNode child = none := by
    intro child hchild
    rcases hfront child hchild with ⟨t, ht, hdot⟩
    rw [← hnode]
    dsimp only
    unfold category?
    rw [ht, Option.map_some, (Token.isDot_iff.mp hdot).1]
    rfl
  have hfound : ofNode name = some (some (removeQuotes token.value)) := by
    rw [← hnode]
    dsimp only
    unfold category?
    rw [hname, Option.map_some, hcategory]
    dsimp only
    rw [value_of_token? hname]
    rfl
  rw [List.findSome?_append, List.findSome?_eq_none_iff.mpr hdots, Option.none_or,
    List.findSome?_cons, hfound]
  rfl

theorem names_of_single (h : tree.Spells id (dotted first [])) (hdotted : Dotted first []) :
    tree.realName? id = some (removeQuotes first.value) ∧ tree.parentName? id = none := by
  have hdot : tree.firstHit? id .punctuation ['.'] = none := by
    unfold firstHit?
    refine Option.map_eq_none_iff.mpr (h.nextBy_eq_none fun t ht => ?_)
    apply Token.hits_eq_false_of_ne
    rw [List.mem_singleton.mp ht, hdotted.first]
    decide
  rcases List.map_eq_cons_iff.mp h with ⟨name, others, hchildren, hname, _⟩
  constructor
  · unfold realName? realNameSearch
    rw [hdot]
    refine @searchName_eq tree id first _ [] name others ?_ ?_ hname hdotted.first rfl rfl
    · rw [hchildren]
      rfl
    · exact fun _ hmem => absurd hmem List.not_mem_nil
  · unfold parentName?
    rw [hdot]
    rfl

/-- The real name is the one behind the first dot, and the parent is the one in front of
it. -/
theorem names_of_parts {part : Token × Token} {parts : List (Token × Token)}
    (h : tree.Spells id (dotted first (part :: parts))) (hdotted : Dotted first (part :: parts)) :
    tree.realName? id = some (removeQuotes part.2.value) ∧
      tree.parentName? id = some (removeQuotes first.value) := by
  rcases hdotted.parts part List.mem_cons_self with ⟨hdot, hcategory⟩
  rcases List.map_eq_cons_iff.mp h with ⟨name, others, hchildren, hname, hothers⟩
  rcases List.map_eq_cons_iff.mp hothers with ⟨dot, others, rfl, hdotToken, hothers⟩
  rcases List.map_eq_cons_iff.mp hothers with ⟨second, others, rfl, hsecond, _⟩
  have hnot : tree.hits name ⟨.punctuation, [['.']]⟩ = false := by
    unfold hits tokenHas
    rw [hname]
    apply Token.hits_eq_false_of_ne
    rw [hdotted.first]
    decide
  have hhits : tree.hits dot ⟨.punctuation, [['.']]⟩ = true :=
    tokenHas_iff.mpr ⟨part.1, hdotToken, hdot⟩
  have hplace : tree.firstHit? id .punctuation ['.'] = some 1 := by
    unfold firstHit? nextBy
    rw [hchildren, List.drop_zero, firstFrom, hnot, firstFrom, hhits]
    rfl
  constructor
  · unfold realName? realNameSearch
    rw [hplace]
    refine @searchName_eq tree id part.2 _ [dot] second others ?_ ?_ hsecond hcategory rfl rfl
    · rw [hchildren]
      rfl
    · intro child hchild
      rw [List.mem_singleton.mp hchild]
      exact ⟨part.1, hdotToken, hdot⟩
  · have hcounts : tree.isSkipped name true false = false := by
      unfold isSkipped isWhitespace tokenHas
      rw [hname]
      change (true && first.category.isWhitespace || _) = false
      rw [hdotted.first]
      rfl
    have hprev : tree.prev id 1 true = some (0, name) := by
      have hchild : tree.child? id 0 = some name := by
        unfold child?
        rw [hchildren]
        rfl
      rw [prev_succ hchild, hcounts]
      rfl
    unfold parentName?
    rw [hplace]
    change (tree.prev id 1 true).bind (fun hit => some (removeQuotes (tree.value hit.2))) = _
    rw [hprev, Option.bind_some, value_of_token? hname]

end Spells
end Tree

/-- Names with dots between them become one identifier over the whole statement, which has no
alias.  Its real name is the name behind the first dot, however many follow, and its parent
is the first name; a single name is its own real name and has no parent. -/
theorem names_of_dotted {first : Token} {rest : List (Token × Token)}
    (hdotted : Dotted first rest) {limit : Nat} (hlimit : 1 < limit) :
    exists s id, (Statement.ofTokens (dotted first rest)).group limit = .ok s ∧
      s.tree.children s.root = [id] ∧ s.tree.isKind id .identifier = true ∧
      s.tree.tokens id = dotted first rest ∧
      s.tree.realName? id = some (removeQuotes ((rest.head?.map Prod.snd).getD first).value) ∧
      s.tree.parentName? id = rest.head?.map (fun _ => removeQuotes first.value) ∧
      s.tree.alias? id = none := by
  have hwf := Statement.wellFormed_ofTokens (dotted first rest)
  have hkind := Statement.kind?_root_ofTokens (dotted first rest)
  have hstart := Statement.rose_ofTokens (dotted first rest)
  rw [hwf.rose_of_kind? hkind, Rose.group.injEq] at hstart
  rcases Pass.path_arranges hdotted hlimit _ _ hwf ⟨hkind, hstart.2⟩ with
    ⟨after, hexec, hchanges, _, hroses⟩
  have hafter := hchanges.wellFormed hwf
  rcases List.map_eq_singleton_iff.mp hroses with ⟨id, hchildren, hrose⟩
  have hid : id < after.size :=
    hafter.child_lt_size (by rw [hchildren]; exact List.mem_singleton_self id)
  rcases hafter.kind?_of_rose hid hrose with ⟨hidentifier, hinner⟩
  have hspells := hafter.spells hinner.symm
  refine ⟨{ Statement.ofTokens (dotted first rest) with tree := after }, id,
    Statement.group_ok_iff_exec.mpr ⟨hexec, rfl⟩, hchildren, beq_iff_eq.mpr hidentifier, ?_, ?_⟩
  · rw [← hafter.tokens_rose hid, hrose, Rose.tokens, Rose.tokensOf_eq_flatMap, List.flatMap_map]
    exact List.flatMap_singleton' _
  · cases rest with
    | nil =>
        rcases hspells.names_of_single hdotted with ⟨hreal, hparent⟩
        exact ⟨hreal, hparent, hspells.alias?_eq_none hdotted⟩
    | cons part parts =>
        rcases hspells.names_of_parts hdotted with ⟨hreal, hparent⟩
        exact ⟨hreal, hparent, hspells.alias?_eq_none hdotted⟩

/-- Of two names the second one is the real name, and the first one is its parent. -/
theorem names_of_dotted_pair :
    Dotted ⟨.name, ['a'], some 0⟩ [(⟨.punctuation, ['.'], some 1⟩, ⟨.name, ['b'], some 2⟩)] ∧
      1 < defaultMaxDepth ∧
      exists s id, (Statement.ofTokens [⟨.name, ['a'], some 0⟩, ⟨.punctuation, ['.'], some 1⟩,
          ⟨.name, ['b'], some 2⟩]).group defaultMaxDepth = .ok s ∧
        s.tree.children s.root = [id] ∧ s.tree.realName? id = some ['b'] ∧
        s.tree.parentName? id = some ['a'] ∧ s.tree.alias? id = none := by
  have hdotted : Dotted ⟨.name, ['a'], some 0⟩
      [(⟨.punctuation, ['.'], some 1⟩, ⟨.name, ['b'], some 2⟩)] := by
    refine ⟨rfl, fun part hpart => ?_⟩
    rw [List.mem_singleton.mp hpart]
    decide
  have hlimit : 1 < defaultMaxDepth := by
    decide
  rcases names_of_dotted hdotted hlimit with
    ⟨s, id, hgroup, hchildren, _, _, hreal, hparent, halias⟩
  exact ⟨hdotted, hlimit, s, id, hgroup, hchildren, hreal, hparent, halias⟩

/-- Behind two qualifiers the last name is not the real name. -/
theorem names_of_dotted_three :
    ¬ forall (sql : Text) (statements : List Statement) (s : Statement) (id : NodeId)
        (first : Token) (rest : List (Token × Token)),
      parse sql {} defaultMaxDepth = .ok statements -> s ∈ statements -> Dotted first rest ->
      s.tree.children s.root = [id] -> s.tree.tokens id = dotted first rest ->
      s.tree.realName? id =
        some (removeQuotes ((rest.getLast?.map Prod.snd).getD first).value) := by
  have htokens : tokenize ⟨.generic, Vocabulary.ofDialect .generic⟩ (Text.of "a.b.c") =
      [⟨.name, ['a'], some 0⟩, ⟨.punctuation, ['.'], some 1⟩, ⟨.name, ['b'], some 2⟩,
       ⟨.punctuation, ['.'], some 3⟩, ⟨.name, ['c'], some 4⟩] := by
    decide +kernel
  rcases exists_parsed (p := fun s => decide (s.tree.children s.root = [6]) &&
      decide (s.tree.tokens 6 = [⟨.name, ['a'], some 0⟩, ⟨.punctuation, ['.'], some 1⟩,
        ⟨.name, ['b'], some 2⟩, ⟨.punctuation, ['.'], some 3⟩, ⟨.name, ['c'], some 4⟩]) &&
      decide (s.tree.realName? 6 = some ['b']))
    htokens (by decide +kernel) with ⟨statements, s, hparse, hs, hfound⟩
  rw [Bool.and_eq_true, Bool.and_eq_true, decide_eq_true_eq, decide_eq_true_eq,
    decide_eq_true_eq] at hfound
  rcases hfound with ⟨⟨hchildren, heq⟩, hreal⟩
  have hdotted : Dotted ⟨.name, ['a'], some 0⟩
      [(⟨.punctuation, ['.'], some 1⟩, ⟨.name, ['b'], some 2⟩),
       (⟨.punctuation, ['.'], some 3⟩, ⟨.name, ['c'], some 4⟩)] := by
    refine ⟨rfl, fun part hpart => ?_⟩
    rcases List.mem_pair.mp hpart with rfl | rfl
    · decide
    · decide
  intro hall
  rw [hall _ statements s 6 _ _ hparse hs hdotted hchildren heq] at hreal
  cases hreal

end SqlLayout
