import SqlLayout.Proofs.Grouping.LeadingKeyword
import SqlLayout.Proofs.Tree.Traversals
import SqlLayout.Tree.Names

/-!
# Identifiers of one name

A leaf tells if it is no name, no ordering keyword, no blank and no comment.  Every group
but the root is a group of comments, has a leaf that tells, or is an identifier that begins
with its name.  An identifier with a single name and no leaf that tells has therefore no
other groups in it than comments, and the name is its first child.
-/

namespace SqlLayout

open Grouping

/-!
# Leaves that tell
-/

def Token.tells (token : Token) : Bool :=
  !(token.names || token.isTrivia ||
    (token.category == .order && !(token.normalized == Text.of "AS")))

theorem Token.Kept.tells_eq {token after : Token} (h : token.Kept after) :
    after.tells = token.tells := by
  have hnames : after.names = token.names :=
    h.test_eq (p := fun c => c == .name || c == .doubleQuoted) rfl
  have horder : (after.category == .order) = (token.category == .order) :=
    h.test_eq (p := fun c => c == .order) rfl
  unfold tells
  rw [hnames, horder, h.isTrivia_eq, h.normalized_eq]

def Category.quiet : List Category := .name :: .doubleQuoted :: .order :: Category.trivia

theorem Token.mem_quiet {token : Token} (h : token.tells = false) :
    token.category ∈ Category.quiet := by
  unfold tells at h
  rw [Bool.not_eq_false', Bool.or_eq_true, Bool.or_eq_true] at h
  rcases h with (hname | htrivia) | horder
  · rcases Bool.or_eq_true_iff.mp hname with h | h
    · rw [eq_of_beq h]
      decide
    · rw [eq_of_beq h]
      decide
  · have hmem := isTrivia_cases htrivia
    revert hmem
    cases token.category <;> decide
  · rw [eq_of_beq (Bool.and_eq_true_iff.mp horder).1]
    decide

theorem Token.tells_of_test {token : Token} {p : Category -> Bool} (h : p token.category = true)
    (hp : Category.quiet.any p = false) : token.tells = true := by
  cases htells : token.tells with
  | true =>
      rfl
  | false =>
      exact absurd h (List.any_eq_false.mp hp _ (mem_quiet htells))

theorem Token.tells_of_as {token : Token} (hkeyword : token.isKeyword = true)
    (has : token.normalized = Text.of "AS") : token.tells = true := by
  unfold tells
  rw [has, beq_self_eq_true, Bool.not_true, Bool.and_false, Bool.or_false]
  unfold isKeyword at hkeyword
  unfold names isTrivia isWhitespace isComment
  revert hkeyword
  cases token.category <;> decide

namespace Tree

variable {tree after : Tree} {root list id leaf : NodeId}

def Tells (tree : Tree) (id : NodeId) : Prop :=
  exists leaf, tree.AtOrAbove id leaf ∧ tree.tokenHas leaf Token.tells = true

def Named (tree : Tree) (id : NodeId) : Prop :=
  tree.isKind id .identifier = true ∧
    exists first, tree.child? id 0 = some first ∧ tree.tokenHas first Token.names = true

/-- What a group that is no root may be. -/
inductive Settled (tree : Tree) (id : NodeId) : Prop where
  | comment (kind : tree.isKind id .comment = true)
  | tells (leaf : tree.Tells id)
  | named (name : tree.Named id)

/-- All groups but the root are settled. -/
structure Telling (root : NodeId) (tree : Tree) : Prop where
  lt_size : root < tree.size
  parent_eq : tree.parent? root = none
  settled : forall id, tree.isGroup id = true -> id ≠ root -> tree.Settled id

theorem Tells.of_mem (h : tree.Tells id) (hwf : tree.WellFormed) (hmem : id ∈ tree.children list) :
    tree.Tells list := by
  rcases h with ⟨leaf, hbelow, htells⟩
  exact ⟨leaf, Or.inr (hbelow.above_of_parent? (hwf.parent?_of_mem hmem)), htells⟩

theorem Tells.of_steps (h : tree.Tells id) (hwf : tree.WellFormed)
    (hsteps : Relation.ReflTransGen GroupStep tree after) : after.Tells id := by
  rcases h with ⟨leaf, hbelow, htells⟩
  refine ⟨leaf, atOrAbove_of_steps hwf hsteps hbelow, ?_⟩
  rw [(tokensKept_of_steps hsteps).tokenHas_eq fun _ _ hkept => hkept.tells_eq]
  exact htells

theorem tells_of_tokenHas {p : Token -> Bool} (h : tree.tokenHas id p = true)
    (hp : forall token, p token = true -> token.tells = true) : tree.Tells id := by
  rcases tokenHas_iff.mp h with ⟨token, htoken, hhas⟩
  exact ⟨id, Or.inl rfl, tokenHas_iff.mpr ⟨token, htoken, hp token hhas⟩⟩

theorem Telling.ne_root (h : tree.Telling root) (hwf : tree.WellFormed)
    (hmem : id ∈ tree.children list) : id ≠ root := by
  rintro rfl
  have hparent := hwf.parent?_of_mem hmem
  rw [h.parent_eq] at hparent
  cases hparent

theorem Telling.tells_of_kind (h : tree.Telling root) (hwf : tree.WellFormed)
    (hmem : id ∈ tree.children list) {kind : GroupKind} (hkind : tree.kind? id = some kind)
    (hcomment : kind ≠ .comment) (hidentifier : kind ≠ .identifier) : tree.Tells id := by
  cases h.settled id (isGroup_iff_kind?.mpr ⟨kind, hkind⟩) (h.ne_root hwf hmem) with
  | comment hsome =>
      rw [isKind, hkind, beq_iff_eq, Option.some.injEq] at hsome
      exact absurd hsome hcomment
  | tells hleaf =>
      exact hleaf
  | named hname =>
      have hsome := hname.1
      rw [isKind, hkind, beq_iff_eq, Option.some.injEq] at hsome
      exact absurd hsome hidentifier

section

variable (hwf : tree.WellFormed) (hsteps : Relation.ReflTransGen GroupStep tree after)
  (hid : id < tree.size)
include hsteps hid

theorem Named.of_child (h : tree.Named id)
    (hchild : after.child? id 0 = tree.child? id 0) : after.Named id := by
  rcases h with ⟨hkind, first, hfirst, hname⟩
  refine ⟨?_, first, hchild.trans hfirst, ?_⟩
  · rw [isKind, kind?_of_steps hsteps hid]
    exact hkind
  · rw [(tokensKept_of_steps hsteps).tokenHas_eq Seeker.name_collects.kept]
    exact hname

include hwf

theorem Settled.of_child (h : tree.Settled id)
    (hchild : tree.Named id -> after.child? id 0 = tree.child? id 0) : after.Settled id := by
  cases h with
  | comment hkind =>
      apply Settled.comment
      rw [isKind, kind?_of_steps hsteps hid]
      exact hkind
  | tells hleaf =>
      exact Settled.tells (hleaf.of_steps hwf hsteps)
  | named hname =>
      exact Settled.named (hname.of_child hsteps hid (hchild hname))

end

end Tree

/-!
# One span
-/

/-- A span holds a leaf that tells, or what stands at its start takes in the rest, or it is
to be a group of comments, or a name that is in no identifier yet. -/
inductive Span.Settles (span : Span) (tree : Tree) (list : NodeId) : Prop where
  | tells (idx : Nat) (id : NodeId) (start : span.start <= idx) (stop : idx <= span.stop)
      (child : tree.child? list idx = some id) (leaf : tree.Tells id)
  | joins (host : NodeId) (child : tree.child? list span.start = some host)
      (extend : span.extend = true) (kind : tree.isKind host span.kind = true)
  | comment (first : NodeId) (child : tree.child? list span.start = some first)
      (comment : tree.tokenHas first Token.names = false) (kind : span.kind = .comment)
  | name (first : NodeId) (child : tree.child? list span.start = some first)
      (name : tree.tokenHas first Token.names = true) (kind : span.kind = .identifier)
      (extend : span.extend = false) (outside : tree.isKind list .identifier = false)

namespace Move.Gathers

variable {tree after : Tree} {root list : NodeId} {cursor : Cursor} {move : Move} {span : Span}
  {front moved back : List NodeId} {group : NodeId}
  (hg : move.Gathers list tree span front moved back group after)
  (hfits : move.Fits tree list cursor) (hwf : tree.WellFormed) (hstep : tree.GroupStep after)
  (hsettles : span.Settles tree list) (h : tree.Telling root)
include hg hwf hstep hsettles h

theorem settled_group (hle : span.start <= span.stop) : after.Settled group := by
  have hsteps : Relation.ReflTransGen Tree.GroupStep tree after := .single hstep
  have hmem : forall {id}, id ∈ moved -> id = group ∨ id ∈ after.children group := by
    intro id hid
    rcases hg.new_or_first with ⟨_, hnew⟩ | ⟨_, _, rest, rfl, hfirst⟩
    · exact Or.inr (hnew ▸ hid)
    · rw [hfirst]
      exact (List.mem_cons.mp hid).imp_right (List.mem_append_right _)
  cases hsettles with
  | tells idx id hstart hstop hchild hleaf =>
      apply Tree.Settled.tells
      have htells := hleaf.of_steps hwf hsteps
      rcases hmem (hg.mem_moved hstart hstop hchild) with rfl | hinside
      · exact htells
      · exact htells.of_mem (hstep.wellFormed hwf) hinside
  | joins host hchild hextend hkind =>
      rcases hg.exists_moved hle hchild with ⟨rest, hmoved⟩
      have hsame := hg.joins_first hextend host rest hmoved hkind
      subst hsame
      have hgroup := Tree.isGroup_iff_kind?.mpr ⟨_, beq_iff_eq.mp hkind⟩
      have hold := h.settled group hgroup (h.ne_root hwf (List.mem_of_getElem? hchild))
      apply hold.of_child hwf hsteps (Tree.lt_size_of_isGroup hgroup)
      rintro ⟨_, first, hfirst, _⟩
      rcases hg.first_of_lt_size (Tree.lt_size_of_isGroup hgroup) with ⟨_, other, _, hchildren⟩
      unfold Tree.child? at hfirst ⊢
      rw [hchildren]
      exact List.getElem?_append_left (List.getElem?_eq_some_iff.mp hfirst).1
  | comment first _ _ hkind =>
      apply Tree.Settled.comment
      rw [Tree.isKind, hg.kind?_group, hkind]
      rfl
  | name first hchild hname hkind hextend houtside =>
      rcases hg.exists_moved hle hchild with ⟨rest, hmoved⟩
      apply Tree.Settled.named
      refine ⟨?_, first, ?_, ?_⟩
      · rw [Tree.isKind, hg.kind?_group, hkind]
        rfl
      · unfold Tree.child?
        rw [(hg.new_of_not_extend hextend).2, hmoved]
        rfl
      · rw [hstep.tokensKept.tokenHas_eq Seeker.name_collects.kept]
        exact hname

theorem settled_list (hlist : list ≠ root) (hgroup : tree.isGroup list = true) :
    after.Settled list := by
  have hsteps : Relation.ReflTransGen Tree.GroupStep tree after := .single hstep
  have hlt := Tree.lt_size_of_isGroup hgroup
  have hold := h.settled list hgroup hlist
  rcases Nat.eq_zero_or_pos span.start with hzero | hpos
  · -- The span begins with the first child, which is the name if the list is named.
    cases hsettles with
    | tells idx id hstart hstop hchild hleaf =>
        exact Tree.Settled.tells
          ((hleaf.of_mem hwf (List.mem_of_getElem? hchild)).of_steps hwf hsteps)
    | joins host hchild _ hkind =>
        apply hold.of_child hwf hsteps hlt
        rintro ⟨_, first, hfirst, hname⟩
        rw [hzero, hfirst, Option.some.injEq] at hchild
        rw [hchild, Tree.tokenHas_of_isGroup
          (Tree.isGroup_iff_kind?.mpr ⟨_, beq_iff_eq.mp hkind⟩)] at hname
        cases hname
    | comment other hchild hplain _ =>
        apply hold.of_child hwf hsteps hlt
        rintro ⟨_, first, hfirst, hname⟩
        rw [hzero, hfirst, Option.some.injEq] at hchild
        rw [hchild, hplain] at hname
        cases hname
    | name first _ _ _ _ houtside =>
        apply hold.of_child hwf hsteps hlt
        rintro ⟨hkind, _⟩
        rw [houtside] at hkind
        cases hkind
  · exact hold.of_child hwf hsteps hlt fun _ => hg.child?_front hpos

include hfits

theorem telling : after.Telling root := by
  have hlistGroup : tree.isGroup list = true := by
    rcases hfits.exists_child with ⟨id, hchild⟩
    exact Tree.isGroup_of_mem_children (List.mem_of_getElem? hchild)
  refine ⟨Nat.lt_of_lt_of_le h.lt_size hstep.size_le,
    hstep.parent?_root hwf h.lt_size h.parent_eq, ?_⟩
  intro id hid hne
  by_cases hgroup : id = group
  · subst hgroup
    exact hg.settled_group hwf hstep hsettles h (hfits.span_inside span hg.span_eq).1
  · by_cases hlist : id = list
    · subst hlist
      exact hg.settled_list hwf hstep hsettles h hne hlistGroup
    · have hcontent := Tree.observers_congr
        (hg.content?_other id hlist hgroup (hfits.retag_ne_after hstep hid))
      rw [Tree.isGroup_congr hcontent.1] at hid
      apply (h.settled id hid hne).of_child hwf (.single hstep) (Tree.lt_size_of_isGroup hid)
      intro _
      unfold Tree.child?
      rw [hcontent.2.2]

end Move.Gathers

/-!
# The passes that look for a child
-/

namespace Tree

variable {tree : Tree} {root list id : NodeId}

theorem tells_of_test {p : Category -> Bool}
    (h : tree.tokenHas id (fun token => p token.category) = true)
    (hp : Category.quiet.any p = false) : tree.Tells id :=
  tells_of_tokenHas h fun _ htest => Token.tells_of_test htest hp

theorem tells_of_isCategory {category : Category} (h : tree.isCategory id category = true)
    (hne : category ∉ Category.quiet) : tree.Tells id := by
  rw [isCategory_eq_tokenHas] at h
  exact tells_of_test (p := fun c => c == category) h (Category.any_beq_eq_false hne)

theorem tells_of_hits {pattern : TokenPattern} (h : tree.hits id pattern = true)
    (hne : pattern.category ∉ Category.quiet) : tree.Tells id := by
  apply tells_of_tokenHas h
  intro token hhits
  apply Token.tells_of_test (p := fun c => c == pattern.category) (Bool.and_eq_true_iff.mp hhits).1
  rw [List.any_eq_false]
  intro c hc heq
  rw [← beq_iff_eq.mp heq] at hne
  exact hne hc

end Tree

/-- All spans of a seeker settle what they touch. -/
def Seeker.Settles (seeker : Seeker) : Prop :=
  forall tree root list idx id span next, tree.WellFormed -> tree.Telling root ->
    tree.child? list idx = some id -> seeker.accepts tree id = true ->
    seeker.span? tree list idx id = some (span, next) -> span.Settles tree list

namespace Seeker

theorem comment_settles : comment.Settles := by
  intro tree root list idx id span next _ _ hchild haccepts hspan
  cases hspan
  refine .comment id hchild ?_ rfl
  rcases Tree.tokenHas_iff.mp haccepts with ⟨token, htoken, hcomment⟩
  unfold Tree.tokenHas Token.names
  rw [htoken]
  dsimp only
  revert hcomment
  cases token.category <;> decide

theorem call_settles : call.Settles := by
  intro tree root list idx id span next hwf htelling _ _ hspan
  rcases call_span hspan with ⟨parens, other, hnext, hkind, rfl, rfl⟩
  rcases Tree.next_some hnext with ⟨hlt, hother, _⟩
  exact .tells parens other (Nat.le_of_lt hlt) (Nat.le_refl _) hother
    (htelling.tells_of_kind hwf (List.mem_of_getElem? hother) (beq_iff_eq.mp hkind) nofun
      nofun)

theorem whereWord_settles : whereWord.Settles := by
  intro tree root list idx id span next _ _ hchild haccepts hspan
  have hle := (whereWord_sound tree list idx id span next hchild hspan).1
  cases hspan
  exact .tells idx id (Nat.le_refl _) hle hchild (Tree.tells_of_hits haccepts (by decide))

theorem exists_string_of_typedLiteralEnd? {tree : Tree} {list : NodeId} {idx stop : Nat}
    {id : NodeId} (h : Pass.typedLiteralEnd? tree list idx id = some stop) :
    exists place string, idx <= place ∧ place <= stop ∧ tree.child? list place = some string ∧
      tree.isCategory string .singleQuoted = true := by
  unfold Pass.typedLiteralEnd? at h
  split at h
  · split at h
    · cases h
    · rename_i literal string hnext
      rcases Tree.next_some hnext with ⟨hlt, hstring, _⟩
      split at h
      · cases h
      · rename_i hcategory
        have hcategory : tree.isCategory string .singleQuoted = true := by
          simpa using hcategory
        refine ⟨literal, string, Nat.le_of_lt hlt, ?_, hstring, hcategory⟩
        split at h
        · split at h
          · rename_i unit word hunit
            have hbehind := (Tree.next_some hunit).1
            split at h
            · cases h
              exact Nat.le_of_lt hbehind
            · cases h
              exact Nat.le_refl _
          · cases h
            exact Nat.le_refl _
        · cases h
          exact Nat.le_refl _
  · cases h

theorem typeWord_settles : typeWord.Settles := by
  intro tree root list idx id span next _ _ _ _ hspan
  rcases Option.map_eq_some_iff.mp hspan with ⟨stop, hstop, heq⟩
  cases heq
  rcases exists_string_of_typedLiteralEnd? hstop with ⟨place, string, hle, hle', hchild, hcategory⟩
  exact .tells place string hle hle' hchild (Tree.tells_of_isCategory hcategory (by decide))

theorem ordering_settles : ordering.Settles := by
  intro tree root list idx id span next _ _ _ _ hspan
  rcases ordering_span hspan with ⟨prev, other, hprev, hhost, rfl, rfl⟩
  rcases Tree.prev_some hprev with ⟨hlt, hother, _⟩
  rcases Bool.or_eq_true_iff.mp hhost with hkind | hnumber
  · exact .joins other hother rfl hkind
  · exact .tells prev other (Nat.le_refl _) (Nat.le_of_lt hlt) hother
      (Tree.tells_of_test (p := fun c => c.isA .number) hnumber rfl)

theorem aliased_settles : aliased.Settles := by
  intro tree root list idx id span next hwf htelling hchild haccepts hspan
  rcases aliased_span hspan with ⟨name, other, hnext, _, rfl, _⟩
  have hlt := (Tree.next_some hnext).1
  have htells : tree.Tells id -> Span.Settles ⟨.identifier, idx, name, true⟩ tree list :=
    fun h => .tells idx id (Nat.le_refl _) (Nat.le_of_lt hlt) hchild h
  rcases Bool.or_eq_true_iff.mp haccepts with hkinds | hnumber
  · unfold Tree.isKindIn at hkinds
    split at hkinds
    · rename_i kind hkind
      by_cases hidentifier : kind = .identifier
      · subst hidentifier
        exact .joins id hchild rfl (beq_iff_eq.mpr hkind)
      · apply htells
        apply htelling.tells_of_kind hwf (List.mem_of_getElem? hchild) hkind _ hidentifier
        rintro rfl
        cases hkinds
    · cases hkinds
  · exact htells (Tree.tells_of_test (p := fun c => c.isA .number) hnumber rfl)

theorem trailingComment_settles : trailingComment.Settles := by
  intro tree root list idx id span next _ _ _ _ hspan
  rcases trailingComment_span hspan with ⟨prev, host, kind, hprev, hhostKind, rfl, _⟩
  exact .joins host (Tree.prev_some hprev).2.1 rfl (Pass.isKind_of_commentHost? hhostKind)

end Seeker

/-!
# Constructs around an operator
-/

def BinaryRule.OpTells (rule : BinaryRule) : Prop :=
  forall tree root list id, tree.WellFormed -> tree.Telling root -> id ∈ tree.children list ->
    rule.isOp tree id = true -> tree.Tells id

namespace BinaryRule

theorem period_opTells : period.OpTells :=
  fun _ _ _ _ _ _ _ hop => Tree.tells_of_hits hop (by decide)

theorem subscript_opTells : subscript.OpTells :=
  fun _ _ _ _ hwf htelling hmem hop =>
    htelling.tells_of_kind hwf hmem (beq_iff_eq.mp hop) nofun nofun

theorem operator_opTells : operator.OpTells := by
  intro tree root list id _ _ _ hop
  rcases Bool.or_eq_true_iff.mp hop with hsign | hwild
  · exact Tree.tells_of_isCategory hsign (by decide)
  · exact Tree.tells_of_isCategory hwild (by decide)

theorem typecast_opTells : typecast.OpTells :=
  fun _ _ _ _ _ _ _ hop => Tree.tells_of_hits hop (by decide)

theorem aliasWithAs_opTells : aliasWithAs.OpTells := by
  intro tree root list id _ _ _ hop
  rcases Bool.and_eq_true_iff.mp hop with ⟨hkeyword, hword⟩
  rcases Tree.tokenHas_iff.mp hkeyword with ⟨token, htoken, hhas⟩
  rw [Tree.normalized_of_token? htoken] at hword
  exact ⟨id, Or.inl rfl, Tree.tokenHas_iff.mpr ⟨token, htoken,
    Token.tells_of_as hhas (beq_iff_eq.mp hword)⟩⟩

theorem assignment_opTells : assignment.OpTells :=
  fun _ _ _ _ _ _ _ hop => Tree.tells_of_hits hop (by decide)

theorem comparison_opTells : comparison.OpTells :=
  fun _ _ _ _ _ _ _ hop => Tree.tells_of_isCategory hop (by decide)

theorem identifierList_opTells : identifierList.OpTells :=
  fun _ _ _ _ _ _ _ hop => Tree.tells_of_hits hop (by decide)

end BinaryRule

/-!
# All passes
-/

namespace Pass

variable (root : NodeId)

theorem keeps_telling_of_seeker {pass : Pass} {seeker : Seeker} (hpass : pass ∈ Pass.all)
    (hplan : pass.plan = seeker.plan) (h : seeker.Settles) :
    pass.Keeps (Tree.Telling root) (fun _ => True) (fun _ _ _ => True) := by
  apply keeps_of_seeker hpass hplan
  intro tree after list cursor move idx next id group span front moved back hwf htelling hchild
    haccepts hfound hfits hstep hg
  exact hg.telling hfits hwf hstep
    (h tree root list idx id span next hwf htelling hchild haccepts hfound) htelling

theorem keeps_telling_of_identifiers :
    Pass.identifiers.Keeps (Tree.Telling root) (· ≠ .identifier) (fun _ _ _ => True) where
  enters := by
    rintro tree id kind henters hkind rfl
    change (!tree.isKind id .identifier) = true at henters
    rw [Tree.isKind, hkind] at henters
    cases henters
  start := fun _ _ => trivial
  skip := fun _ _ _ _ _ _ _ _ => trivial
  visit := by
    intro tree list cursor move id _ hmove hvisit
    rw [stays_of_seeker Seeker.identifiers_plan tree list cursor move hmove] at hvisit
    cases hvisit
  span := by
    intro tree after list host cursor move span hwf hcursor htelling hhost hsuit _ hmove hspan
      hgroups
    have hsound := all_sound _ (List.mem_of_getElem? (i := 8) rfl)
    have hfits := hsound tree list cursor move hcursor hmove
    rcases hgroups.gathers hwf hfits with ⟨found, front, moved, back, group, hg⟩
    cases hspan.symm.trans hg.span_eq
    rw [Seeker.identifiers_plan] at hmove
    rcases Seeker.plan_span hmove hspan with ⟨idx, id, next, hchild, _, hfound⟩
    rcases Seeker.name_span hfound with ⟨hname, rfl, rfl⟩
    have houtside : tree.isKind list .identifier = false := by
      rw [Tree.isKind, hhost, beq_eq_false_iff_ne]
      exact fun heq => hsuit (Option.some.inj heq)
    rw [← Tree.tokenHas_names] at hname
    exact ⟨hg.telling hfits hwf (hgroups.groupStep hwf hfits)
      (.name id hchild hname rfl rfl houtside) htelling, trivial⟩

theorem keeps_telling_of_rule {rule : BinaryRule} (hsound : rule.Sound) (h : rule.OpTells)
    (hpass : (Pass.binary rule).Sound) :
    (Pass.binary rule).Keeps (Tree.Telling root) (fun _ => True) Tree.SolidSince := by
  apply keeps_of_rule hpass
  intro tree after list cursor move op start stop hwf hcursor htelling _ hop hisOp hoperands
    hfits hspan hgroups
  rcases BinaryRule.span?_accepts hoperands with ⟨prev, _, hprev, _, _, _, hfound⟩
  have hlt := hcursor.prev_lt prev hprev
  rcases hsound tree list prev cursor.idx start stop hlt (Tree.child?_lt hop) hfound with
    ⟨rfl, hle, _⟩
  rcases hgroups.gathers hwf hfits with ⟨span, front, moved, back, group, hg⟩
  cases hspan.symm.trans hg.span_eq
  exact hg.telling hfits hwf (hgroups.groupStep hwf hfits)
    (.tells cursor.idx op (Nat.le_of_lt hlt) hle hop
      (h tree root list op hwf htelling (List.mem_of_getElem? hop) hisOp)) htelling

theorem keeps_telling_of_pairs {kind : GroupKind} {opening closing : TokenPattern}
    (hopening : kind.opening? = some opening) (hclosing : kind.closing? = some closing)
    (hmark : opening.category ∉ Category.quiet) :
    (Pass.pairs kind).Keeps (Tree.Telling root) (· ≠ kind) (Tree.OpensWait opening) := by
  apply keeps_of_pairs hopening hclosing
  intro tree after list cursor move start first last hwf htelling _ hlt hfirst hopens _ _ hfits
    hspan hgroups
  rcases hgroups.gathers hwf hfits with ⟨span, front, moved, back, group, hg⟩
  cases hspan.symm.trans hg.span_eq
  exact hg.telling hfits hwf (hgroups.groupStep hwf hfits)
    (.tells start first (Nat.le_refl _) (Nat.le_of_lt hlt) hfirst
      (Tree.tells_of_hits hopens hmark)) htelling

theorem all_keep_telling : forall pass, pass ∈ Pass.all ->
    exists suits known, pass.Keeps (Tree.Telling root) suits known ∧ suits .statement := by
  have hseeker : forall {pass : Pass} {seeker : Seeker}, pass ∈ Pass.all ->
      pass.plan = seeker.plan -> seeker.Settles ->
      exists suits known, pass.Keeps (Tree.Telling root) suits known ∧ suits .statement :=
    fun hmem hplan h => ⟨_, _, keeps_telling_of_seeker root hmem hplan h, trivial⟩
  have hrule : forall {rule : BinaryRule}, Pass.binary rule ∈ Pass.all -> rule.Sound ->
      rule.OpTells ->
      exists suits known, (Pass.binary rule).Keeps (Tree.Telling root) suits known ∧
        suits .statement :=
    fun hmem hsound h => ⟨_, _, keeps_telling_of_rule root hsound h (all_sound _ hmem), trivial⟩
  intro pass hpass
  have hmem := hpass
  unfold Pass.all at hpass
  simp only [List.mem_cons, List.not_mem_nil, or_false] at hpass
  rcases hpass with rfl | rfl | rfl | rfl | rfl | rfl | rfl | rfl | rfl | rfl | rfl | rfl | rfl |
    rfl | rfl | rfl | rfl | rfl | rfl | rfl | rfl | rfl
  · exact hseeker hmem Seeker.comments_plan Seeker.comment_settles
  · exact ⟨_, _, keeps_telling_of_pairs _ rfl rfl (by decide), nofun⟩
  · exact ⟨_, _, keeps_telling_of_pairs _ rfl rfl (by decide), nofun⟩
  · exact hseeker hmem Seeker.functions_plan Seeker.call_settles
  · exact hseeker hmem Seeker.whereClauses_plan Seeker.whereWord_settles
  · exact ⟨_, _, keeps_telling_of_pairs _ rfl rfl (by decide), nofun⟩
  · exact hrule hmem BinaryRule.period_sound BinaryRule.period_opTells
  · exact hrule hmem BinaryRule.subscript_sound BinaryRule.subscript_opTells
  · exact ⟨_, _, keeps_telling_of_identifiers root, nofun⟩
  · exact hseeker hmem Seeker.typedLiterals_plan Seeker.typeWord_settles
  · exact hrule hmem (BinaryRule.fromPrevToNext_sound rfl) BinaryRule.operator_opTells
  · exact hseeker hmem Seeker.orderings_plan Seeker.ordering_settles
  · exact hrule hmem BinaryRule.typecast_sound BinaryRule.typecast_opTells
  · exact hrule hmem (BinaryRule.fromPrevToNext_sound rfl) BinaryRule.aliasWithAs_opTells
  · exact hseeker hmem Seeker.aliases_plan Seeker.aliased_settles
  · exact hrule hmem BinaryRule.assignment_sound BinaryRule.assignment_opTells
  · exact hrule hmem (BinaryRule.fromPrevToNext_sound rfl) BinaryRule.comparison_opTells
  · exact hseeker hmem Seeker.trailingComments_plan Seeker.trailingComment_settles
  · exact hrule hmem (BinaryRule.fromPrevToNext_sound rfl) BinaryRule.identifierList_opTells
  · exact ⟨_, _, keeps_telling_of_pairs _ rfl rfl (by decide), nofun⟩
  · exact ⟨_, _, keeps_telling_of_pairs _ rfl rfl (by decide), nofun⟩
  · exact ⟨_, _, keeps_telling_of_pairs _ rfl rfl (by decide), nofun⟩

end Pass

theorem Statement.telling_of_group {tokens : List Token} {limit : Nat} {s : Statement}
    (h : (ofTokens tokens).group limit = .ok s) : s.tree.Telling s.root := by
  rw [(group_ok_iff_exec.mp h).2]
  refine holds_of_group (Pass.all_keep_telling _) ?_ h
  refine ⟨root_lt_size tokens, parent?_root tokens, ?_⟩
  intro id hid hne
  rcases Tree.isGroup_iff_kind?.mp hid with ⟨kind, hkind⟩
  rw [kind?_ofTokens, ← root_ofTokens, if_neg hne] at hkind
  cases hkind

/-!
# The alias of an identifier of one name
-/

namespace Tree

variable {tree : Tree} {id name : NodeId} {rest : List NodeId} {token : Token}

def Nameless (tree : Tree) (id : NodeId) : Prop :=
  tree.isKind id .comment = true ∨
    exists token, tree.token? id = some token ∧ token.category ∈ .order :: Category.trivia

/-- The children of a group: a name, and then others without one. -/
structure BeginsWithName (tree : Tree) (id name : NodeId) (rest : List NodeId) (token : Token) :
    Prop where
  children_eq : tree.children id = name :: rest
  token_eq : tree.token? name = some token
  names : token.names = true
  nameless : forall child, child ∈ rest -> tree.Nameless child

theorem BeginsWithName.searchName_eq (h : tree.BeginsWithName id name rest token) {depth : Nat}
    {search : NameSearch} (hstart : search.start = 0) (hkeywords : search.keywords = false) :
    tree.searchName (depth + 1) id search = some (removeQuotes token.value) := by
  have hsome := h.token_eq
  have hcategory : tree.category? name = some token.category := by
    unfold category?
    rw [hsome, Option.map_some]
  have hlisted : [Category.name, .wildcard, .doubleQuoted].elem token.category = true := by
    rcases Bool.or_eq_true_iff.mp h.names with hname | hquoted
    · rw [eq_of_beq hname]
      rfl
    · rw [eq_of_beq hquoted]
      rfl
  unfold searchName
  dsimp only
  rw [h.children_eq, hstart, hkeywords, List.drop_zero]
  -- What stands behind the name gives none.
  generalize hnode : (fun node => _ : NodeId -> Option (Option Text)) = ofNode
  have hfirst : ofNode name = some (some (removeQuotes token.value)) := by
    rw [← hnode]
    dsimp only
    rw [hcategory]
    dsimp only
    rw [hlisted, Bool.true_or, if_pos rfl, value_of_token? hsome]
  have hrest : forall child, child ∈ rest -> ofNode child = none := by
    intro child hchild
    rw [← hnode]
    dsimp only
    rcases h.nameless child hchild with hkind | ⟨other, hother, hquiet⟩
    · have hkind := beq_iff_eq.mp hkind
      unfold category? isKindIn
      rw [token?_eq_none_of_isGroup (isGroup_iff_kind?.mpr ⟨_, hkind⟩), hkind]
      rfl
    · unfold category?
      rw [hother]
      dsimp only [Option.map_some]
      rw [if_neg]
      rw [Bool.false_and, Bool.or_false]
      revert hquiet
      cases other.category <;> decide
  have hnone : rest.reverse.findSome? ofNode = none :=
    List.findSome?_eq_none_iff.mpr fun child hchild => hrest child (List.mem_reverse.mp hchild)
  cases search.backwards with
  | false =>
      rw [if_neg Bool.false_ne_true, List.findSome?_cons, hfirst]
      rfl
  | true =>
      rw [if_pos rfl, List.reverse_cons, List.findSome?_append, hnone, Option.none_or,
        List.findSome?_singleton, hfirst]
      rfl

namespace BeginsWithName

variable (h : tree.BeginsWithName id name rest token)
include h

theorem child_quiet {child : NodeId} (hchild : child ∈ tree.children id) {other : Token}
    (hother : tree.token? child = some other) : other.category ∈ Category.quiet := by
  rw [h.children_eq, List.mem_cons] at hchild
  rcases hchild with rfl | hrest
  · cases h.token_eq.symm.trans hother
    apply Token.mem_quiet
    unfold Token.tells
    rw [h.names]
    rfl
  · rcases h.nameless child hrest with hkind | ⟨same, hsame, hquiet⟩
    · rw [token?_eq_none_of_isGroup (isGroup_iff_kind?.mpr ⟨_, beq_iff_eq.mp hkind⟩)] at hother
      cases hother
    · cases hsame.symm.trans hother
      exact List.mem_cons_of_mem _ (List.mem_cons_of_mem _ hquiet)

theorem firstHit?_eq_none {category : Category} (hcategory : category ∉ Category.quiet)
    (value : Text) : tree.firstHit? id category value = none := by
  unfold firstHit?
  rw [Option.map_eq_none_iff]
  rcases hfound : tree.nextBy id 0 (fun child => tree.hits child ⟨category, [value]⟩) with
    _ | ⟨idx, child⟩
  · rfl
  · rcases nextBy_some hfound with ⟨_, hchild, hhits, _⟩
    rcases tokenHas_iff.mp hhits with ⟨other, hother, hreads⟩
    have hquiet := h.child_quiet (List.mem_of_getElem? hchild) hother
    rw [Token.category_of_hits hreads] at hquiet
    exact absurd hquiet hcategory

theorem searchName_size {search : NameSearch} (hstart : search.start = 0)
    (hkeywords : search.keywords = false) :
    tree.searchName tree.size id search = some (removeQuotes token.value) := by
  have hpos := Nat.lt_of_le_of_lt (Nat.zero_le _) (lt_size_of_token? h.token_eq)
  rw [← Nat.succ_pred_eq_of_pos hpos]
  exact h.searchName_eq hstart hkeywords

theorem realName?_eq : tree.realName? id = some (removeQuotes token.value) := by
  apply h.searchName_size
  · unfold realNameSearch
    rw [h.firstHit?_eq_none (by decide)]
    rfl
  · rfl

theorem alias?_eq : tree.alias? id =
    if 2 < tree.childCount id ∧ exists child, child ∈ tree.children id ∧
      tree.isWhitespace child = true
    then some (removeQuotes token.value) else none := by
  have hblank : (tree.firstOfCategory? id .whitespace).isSome = true <->
      exists child, child ∈ tree.children id ∧ tree.isWhitespace child = true := by
    unfold firstOfCategory?
    constructor
    · intro hsome
      rcases Option.isSome_iff_exists.mp hsome with ⟨⟨idx, child⟩, hfound⟩
      rcases nextBy_some hfound with ⟨_, hchild, hblank, _⟩
      exact ⟨child, List.mem_of_getElem? hchild, hblank⟩
    · rintro ⟨child, hchild, hblank⟩
      rcases List.mem_iff_getElem?.mp hchild with ⟨idx, hidx⟩
      cases hfound : tree.nextBy id 0 (fun child => tree.isA child .whitespace) with
      | none =>
          have hnot := nextBy_none hfound (Nat.zero_le idx) hidx
          rw [show tree.isA child .whitespace = true from hblank] at hnot
          cases hnot
      | some hit =>
          rfl
  unfold alias? aliasSearch?
  rw [h.firstHit?_eq_none (by decide)]
  dsimp only
  by_cases hcond : 2 < tree.childCount id ∧ exists child, child ∈ tree.children id ∧
      tree.isWhitespace child = true
  · rw [if_pos hcond, if_pos, Option.bind_some]
    · exact h.searchName_size rfl rfl
    · rw [Bool.and_eq_true, decide_eq_true_eq, hblank]
      exact hcond
  · rw [if_neg hcond, if_neg, Option.bind_none]
    rw [Bool.and_eq_true, decide_eq_true_eq, hblank]
    exact hcond

end BeginsWithName

/-- The tokens of a node with a single name: the other ones are blanks, comments and ordering
keywords, none of them the word AS. -/
structure LoneNamed (tree : Tree) (id : NodeId) : Prop where
  one : (tree.tokens id).countP Token.names = 1
  others : forall token, token ∈ tree.tokens id -> token.names = true ∨ token.isTrivia = true ∨
    token.category = .order
  not_as : forall token, token ∈ tree.tokens id -> token.isKeyword = true ->
    token.normalized ≠ Text.of "AS"

namespace LoneNamed

variable (h : tree.LoneNamed id) (hwf : tree.WellFormed)
include h

theorem exists_leaf : exists leaf, forall other, other ∈ tree.leaves id ->
    tree.tokenHas other Token.names = true -> other = leaf := by
  have hcount : (tree.leaves id).countP (fun leaf => tree.tokenHas leaf Token.names) = 1 := by
    rw [← h.one]
    unfold tokens
    rw [List.countP_filterMap]
    congr 1
    funext leaf
    unfold tokenHas
    cases tree.token? leaf with
    | none =>
        rfl
    | some token =>
        rfl
  rw [List.countP_eq_length_filter, List.length_eq_one_iff] at hcount
  rcases hcount with ⟨leaf, hleaf⟩
  refine ⟨leaf, ?_⟩
  intro other hother hname
  have hmem : other ∈ (tree.leaves id).filter fun leaf => tree.tokenHas leaf Token.names :=
    List.mem_filter.mpr ⟨hother, hname⟩
  rw [hleaf] at hmem
  exact List.mem_singleton.mp hmem

include hwf

omit h in
theorem mem_tokens {leaf : NodeId} (hbelow : tree.AtOrAbove id leaf)
    (htoken : tree.token? leaf = some token) : token ∈ tree.tokens id :=
  List.mem_filterMap.mpr ⟨leaf, hwf.mem_leaves_of_atOrAbove (lt_size_of_token? htoken)
    (isGroup_of_token? htoken) hbelow, htoken⟩

theorem not_tells : ¬ tree.Tells id := by
  rintro ⟨leaf, hbelow, htells⟩
  rcases tokenHas_iff.mp htells with ⟨token, htoken, htells⟩
  have hmem := mem_tokens hwf hbelow htoken
  unfold Token.tells at htells
  rw [Bool.not_eq_true', Bool.or_eq_false_iff, Bool.or_eq_false_iff] at htells
  rcases htells with ⟨⟨hname, htrivia⟩, horder⟩
  rcases h.others token hmem with hsome | hsome | hsome
  · rw [hname] at hsome
    cases hsome
  · rw [htrivia] at hsome
    cases hsome
  · have hkeyword : token.isKeyword = true := by
      unfold Token.isKeyword
      rw [hsome]
      rfl
    rw [hsome, beq_self_eq_true, Bool.true_and, Bool.not_eq_false', beq_iff_eq] at horder
    exact h.not_as token hmem hkeyword horder

/-- An identifier of one name begins with it, and the other children are blanks, ordering
keywords and groups of comments. -/
theorem exists_name {root : NodeId} (htelling : tree.Telling root) (hroot : id ≠ root)
    (hkind : tree.isKind id .identifier = true) :
    exists name rest token, tree.BeginsWithName id name rest token := by
  have hgroup := isGroup_iff_kind?.mpr ⟨_, beq_iff_eq.mp hkind⟩
  rcases h.exists_leaf with ⟨leaf, honly⟩
  have hsame : forall {name : NodeId}, tree.AtOrAbove id name ->
      tree.tokenHas name Token.names = true -> name = leaf := by
    intro name hbelow hname
    rcases tokenHas_iff.mp hname with ⟨token, htoken, _⟩
    exact honly name (hwf.mem_leaves_of_atOrAbove (lt_size_of_token? htoken)
      (isGroup_of_token? htoken) hbelow) hname
  have hbelow : forall {child}, child ∈ tree.children id -> tree.AtOrAbove id child :=
    fun hchild => Or.inr (above_of_parent? (hwf.parent?_of_mem hchild))
  cases htelling.settled id hgroup hroot with
  | comment hsome =>
      rw [isKind, beq_iff_eq.mp hkind] at hsome
      cases hsome
  | tells hleaf =>
      exact absurd hleaf (h.not_tells hwf)
  | named hnamed =>
      rcases hnamed.2 with ⟨name, hfirst, hname⟩
      rcases tokenHas_iff.mp hname with ⟨token, htoken, hnames⟩
      unfold child? at hfirst
      rcases hchildren : tree.children id with _ | ⟨first, rest⟩
      · rw [hchildren] at hfirst
        cases hfirst
      · rw [hchildren, List.getElem?_cons_zero, Option.some.injEq] at hfirst
        subst hfirst
        have hmem : first ∈ tree.children id := by
          rw [hchildren]
          exact List.mem_cons_self
        have hfresh : first ∉ rest := by
          have hnodup := hwf.nodup_children id
          rw [hchildren] at hnodup
          exact (List.nodup_cons.mp hnodup).1
        refine ⟨first, rest, token, hchildren, htoken, hnames, ?_⟩
        intro child hrest
        have hchild : child ∈ tree.children id := by
          rw [hchildren]
          exact List.mem_cons_of_mem _ hrest
        rcases isGroup_or_token? (hwf.child_lt_size hchild) with hinner | ⟨other, hother⟩
        · left
          cases htelling.settled child hinner (htelling.ne_root hwf hchild) with
          | comment hsome =>
              exact hsome
          | tells hleaf =>
              exact absurd (hleaf.of_mem hwf hchild) (h.not_tells hwf)
          | named hinnerName =>
              -- The name of a group inside would be the same leaf, with another parent.
              rcases hinnerName.2 with ⟨deep, hdeep, hdeepName⟩
              have hparent := hwf.parent?_of_mem (List.mem_of_getElem? hdeep)
              have hleaf := hsame ((hbelow hchild).trans (Or.inr (above_of_parent? hparent)))
                hdeepName
              rw [hleaf, ← hsame (hbelow hmem) hname, hwf.parent?_of_mem hmem] at hparent
              cases hparent
              exact absurd hchild (hwf.not_mem_children_self _)
        · right
          refine ⟨other, hother, ?_⟩
          rcases h.others other (mem_tokens hwf (hbelow hchild) hother) with
            hsome | hsome | hsome
          · have hleaf := hsame (hbelow hchild) (tokenHas_iff.mpr ⟨other, hother, hsome⟩)
            rw [hleaf, ← hsame (hbelow hmem) hname] at hrest
            exact absurd hrest hfresh
          · exact List.mem_cons_of_mem _ (Token.isTrivia_cases hsome)
          · rw [hsome]
            exact List.mem_cons_self

end LoneNamed

end Tree

/-- In a parsed statement an identifier of one name, with only blanks, comments and ordering
keywords beside it, has that name for its real name, and it has an alias, the same name,
exactly where it has more than two children and a blank is one of them. -/
theorem alias_of_lone_name {sql : Text} {options : LexerOptions} {limit : Nat}
    {statements : List Statement} (h : parse sql options limit = .ok statements)
    {s : Statement} (hs : s ∈ statements) {id : NodeId}
    (hkind : s.tree.isKind id .identifier = true) (hlone : s.tree.LoneNamed id) :
    exists token, token ∈ s.tree.tokens id ∧ token.names = true ∧
      s.tree.realName? id = some (removeQuotes token.value) ∧
      s.tree.alias? id =
        if 2 < s.tree.childCount id ∧ exists child, child ∈ s.tree.children id ∧
          s.tree.isWhitespace child = true
        then some (removeQuotes token.value) else none := by
  rcases parse_ok h with ⟨config, _, hgroups⟩
  rcases exists_of_mem_forall₂ hgroups hs with ⟨flat, hflat, hgroup⟩
  rcases exists_of_mem_splitStatements hflat with ⟨tokens, _, rfl⟩
  have hwf := (Statement.wellFormed_of_group hgroup).1
  have hroot : id ≠ s.root := by
    rintro rfl
    rw [Tree.isKind, Statement.kind?_root_of_group hgroup] at hkind
    cases hkind
  rcases hlone.exists_name hwf (Statement.telling_of_group hgroup) hroot hkind with
    ⟨name, rest, token, hbegins⟩
  refine ⟨token, ?_, hbegins.names, hbegins.realName?_eq, hbegins.alias?_eq⟩
  refine Tree.LoneNamed.mem_tokens hwf (Or.inr (Tree.above_of_parent? ?_)) hbegins.token_eq
  apply hwf.parent?_of_mem
  rw [hbegins.children_eq]
  exact List.mem_cons_self

/-- A name that stands alone has no alias. -/
theorem alias_of_lone_name_alone :
    exists statements s, parse ['a'] {} defaultMaxDepth = .ok statements ∧ s ∈ statements ∧
      s.tree.isKind 2 .identifier = true ∧ s.tree.LoneNamed 2 ∧
      exists token, token ∈ s.tree.tokens 2 ∧ token.names = true ∧
        s.tree.realName? 2 = some (removeQuotes token.value) ∧
        s.tree.alias? 2 =
          if 2 < s.tree.childCount 2 ∧ exists child, child ∈ s.tree.children 2 ∧
            s.tree.isWhitespace child = true
          then some (removeQuotes token.value) else none := by
  have htokens : tokenize ⟨.generic, Vocabulary.ofDialect .generic⟩ ['a'] =
      [⟨.name, ['a'], some 0⟩] := by
    decide +kernel
  rcases exists_parsed (p := fun s => s.tree.isKind 2 .identifier &&
      decide (s.tree.tokens 2 = [⟨.name, ['a'], some 0⟩])) htokens (by decide) with
    ⟨statements, s, hparse, hs, hfound⟩
  rw [Bool.and_eq_true, decide_eq_true_eq] at hfound
  rcases hfound with ⟨hkind, heq⟩
  have hlone : s.tree.LoneNamed 2 := by
    constructor
    all_goals rw [heq]
    · rfl
    · simp [Token.names]
    · simp [Token.isKeyword, Category.isKeyword, Category.isA, Category.lineage, Category.parent?]
  exact ⟨statements, s, hparse, hs, hkind, hlone, alias_of_lone_name hparse hs hkind hlone⟩

/-- Before an ordering keyword a name is taken for its own alias. -/
theorem alias_of_lone_name_ordered :
    ¬ forall (sql : Text) (statements : List Statement) (s : Statement) (id : NodeId),
      parse sql {} defaultMaxDepth = .ok statements -> s ∈ statements ->
      s.tree.isKind id .identifier = true -> s.tree.LoneNamed id ->
      s.tree.alias? id = none := by
  have htokens : tokenize ⟨.generic, Vocabulary.ofDialect .generic⟩ (Text.of "a desc") =
      [⟨.name, ['a'], some 0⟩, ⟨.whitespace, [' '], some 1⟩,
       ⟨.order, Text.of "desc", some 2⟩] := by
    decide +kernel
  rcases exists_parsed (p := fun s => s.tree.isKind 4 .identifier &&
      decide (s.tree.tokens 4 = [⟨.name, ['a'], some 0⟩, ⟨.whitespace, [' '], some 1⟩,
        ⟨.order, Text.of "desc", some 2⟩]) && decide (s.tree.alias? 4 = some ['a']))
    htokens (by decide) with ⟨statements, s, hparse, hs, hfound⟩
  rw [Bool.and_eq_true, Bool.and_eq_true, decide_eq_true_eq, decide_eq_true_eq] at hfound
  rcases hfound with ⟨⟨hkind, heq⟩, halias⟩
  have hlone : s.tree.LoneNamed 4 := by
    constructor
    all_goals rw [heq]
    · decide
    · decide
    · decide
  intro hall
  rw [hall _ statements s 4 hparse hs hkind hlone] at halias
  cases halias

end SqlLayout
