import SqlLayout.Proofs.Grouping.FirstChildren
import SqlLayout.Proofs.Lexer.StatementWords

/-!
# The keyword that a statement begins with

Where a statement begins with a keyword that selects, changes or defines, blanks and
comments apart, no pass takes that keyword into a group: it is no operand, no operator and
no opening token, and what stands in front of it can only become a group of comments.
-/

namespace SqlLayout

namespace Tree

variable {tree after : Tree} {list root key id : NodeId} {token : Token} {idx : Nat}

/-!
# The first child that counts
-/

theorem isSkipped_eq_not_isCode (tree : Tree) (id : NodeId) :
    tree.isSkipped id true true = !tree.isCode id := by
  unfold isSkipped isCode isComment isWhitespace tokenHas Token.isTrivia
  rw [Bool.true_and, Bool.true_and, Bool.not_not]
  cases tree.token? id with
  | none =>
      cases tree.isKind id .comment <;> rfl
  | some token =>
      dsimp only
      rw [Bool.or_comm (tree.isKind id .comment), Bool.or_assoc]

theorem first_eq_some_iff : tree.first list true true = some (idx, id) <->
    tree.child? list idx = some id ∧ tree.isCode id = true ∧
      forall j other, j < idx -> tree.child? list j = some other -> tree.isCode other = false := by
  have hcode : tree.first list true true = tree.nextBy list 0 tree.isCode := by
    unfold first nextNotBy
    congr 1
    funext id
    dsimp only
    rw [isSkipped_eq_not_isCode, Bool.not_not]
  rw [hcode]
  constructor
  · intro h
    rcases nextBy_some h with ⟨_, hchild, hid, hbefore⟩
    exact ⟨hchild, hid, fun j other => hbefore j other (Nat.zero_le j)⟩
  · rintro ⟨hchild, hid, hbefore⟩
    cases hfound : tree.nextBy list 0 tree.isCode with
    | none =>
        rw [nextBy_none hfound (Nat.zero_le idx) hchild] at hid
        cases hid
    | some hit =>
        rcases hit with ⟨found, other⟩
        rcases nextBy_some hfound with ⟨_, hother, hcounts, hpassed⟩
        rcases Nat.lt_trichotomy found idx with hlt | rfl | hgt
        · rw [hbefore found other hlt hother] at hcounts
          cases hcounts
        · cases hchild.symm.trans hother
          rfl
        · rw [hpassed idx id (Nat.zero_le idx) hgt hchild] at hid
          cases hid

theorem isCode_of_isKindIn {kinds : List GroupKind} (h : tree.isKindIn id kinds = true)
    (hkinds : kinds.elem .comment = false) : tree.isCode id = true := by
  unfold isKindIn at h
  split at h
  · rename_i kind hkind
    apply isCode_of_isKind (beq_iff_eq.mpr hkind)
    rintro rfl
    rw [hkinds] at h
    cases h
  · cases h

/-- A list has only blanks and comments in front of the keyword at a position. -/
structure LedBy (tree : Tree) (list : NodeId) (idx : Nat) (key : NodeId) (token : Token) :
    Prop where
  child_eq : tree.child? list idx = some key
  token_eq : tree.token? key = some token
  leading : token.Leading
  front : forall j other, j < idx -> tree.child? list j = some other ->
    tree.isCode other = false

end Tree

namespace Token

variable {token after : Token}

theorem Leading.not_isTrivia (h : token.Leading) : token.isTrivia = false := by
  unfold Token.isTrivia isWhitespace isComment
  rcases h.category_eq with hdml | hddl
  · rw [hdml]
    rfl
  · rw [hddl]
    rfl

theorem Leading.category_test (h : token.Leading) {p : Category -> Bool}
    (hp : (p .dml || p .ddl) = false) : p token.category = false := by
  rcases Bool.or_eq_false_iff.mp hp with ⟨hdml, hddl⟩
  rcases h.category_eq with heq | heq
  · rw [heq]
    exact hdml
  · rw [heq]
    exact hddl

theorem Leading.hits_eq_false (h : token.Leading) {pattern : TokenPattern}
    (hp : ((Category.dml == pattern.category) || (Category.ddl == pattern.category)) = false) :
    token.hits pattern = false := by
  apply hits_eq_false_of_ne
  exact beq_eq_false_iff_ne.mp (h.category_test (p := fun c => c == pattern.category) hp)

theorem Kept.eq_of_leading (h : token.Kept after) (hleading : token.Leading) : after = token := by
  rcases h.category_eq with hsame | ⟨hwild, _⟩
  · cases token
    cases after
    simp only [Token.mk.injEq]
    exact ⟨hsame, h.value_eq, h.position_eq⟩
  · have hno := hleading.category_test (p := fun c => c == .wildcard) rfl
    rw [hwild] at hno
    cases hno

end Token

namespace Tree

variable {tree after : Tree} {list root key id : NodeId} {token : Token} {idx : Nat}

theorem normalized_of_token? (h : tree.token? id = some token) :
    tree.normalized id = token.normalized := by
  unfold normalized
  rw [h]

theorem isCode_of_leading (htoken : tree.token? id = some token) (h : token.Leading) :
    tree.isCode id = true := by
  unfold isCode tokenHas
  rw [htoken, isKind_of_token? htoken]
  dsimp only
  rw [h.not_isTrivia]
  rfl

theorem LedBy.first_eq (h : tree.LedBy list idx key token) :
    tree.first list true true = some (idx, key) :=
  first_eq_some_iff.mpr ⟨h.child_eq, isCode_of_leading h.token_eq h.leading, h.front⟩

theorem TokensKept.token?_of_leading (h : tree.TokensKept after)
    (htoken : tree.token? id = some token) (hleading : token.Leading) :
    after.token? id = some token := by
  have hrel := h id
  rw [htoken] at hrel
  cases hafter : after.token? id with
  | none =>
      rw [hafter] at hrel
      cases hrel
  | some later =>
      rw [hafter] at hrel
      cases hrel with
      | some hkept =>
          rw [hkept.eq_of_leading hleading]

theorem LedBy.of_children (h : tree.LedBy list idx key token) (hwf : tree.WellFormed)
    (hsteps : Relation.ReflTransGen GroupStep tree after)
    (hchildren : after.children list = tree.children list) : after.LedBy list idx key token := by
  refine ⟨?_, (tokensKept_of_steps hsteps).token?_of_leading h.token_eq h.leading, h.leading, ?_⟩
  · unfold child?
    rw [hchildren]
    exact h.child_eq
  · intro j other hj hother
    unfold child? at hother
    rw [hchildren] at hother
    rw [isCode_of_steps hsteps (hwf.child_lt_size (List.mem_of_getElem? hother))]
    exact h.front j other hj hother

def OpensWith (tree : Tree) (root key : NodeId) (token : Token) : Prop :=
  tree.parent? root = none ∧ exists idx, tree.LedBy root idx key token

theorem LedBy.le_of_isCode (h : tree.LedBy list idx key token) {j : Nat} {other : NodeId}
    (hother : tree.child? list j = some other) (hcode : tree.isCode other = true) : idx <= j := by
  apply Nat.le_of_not_lt
  intro hlt
  rw [h.front j other hlt hother] at hcode
  cases hcode

theorem LedBy.lt_of_isCode (h : tree.LedBy list idx key token) {j : Nat} {other : NodeId}
    (hother : tree.child? list j = some other) (hcode : tree.isCode other = true)
    (hplain : forall token, tree.token? other = some token -> ¬ token.Leading) : idx < j := by
  apply Nat.lt_of_le_of_ne (h.le_of_isCode hother hcode)
  rintro rfl
  cases h.child_eq.symm.trans hother
  exact hplain token h.token_eq h.leading

end Tree

/-!
# One span
-/

/-- A span that is to be a group of comments holds comments and blanks only; any other span
starts behind the keyword of its list. -/
structure Span.SparesKeyword (span : Span) (tree : Tree) (list : NodeId) : Prop where
  plain : span.kind = .comment -> forall idx id, span.start <= idx -> idx <= span.stop ->
    tree.child? list idx = some id -> tree.isCode id = false
  behind : span.kind ≠ .comment -> forall idx key token, tree.LedBy list idx key token ->
    idx < span.start

theorem Span.SparesKeyword.of_code {span : Span} {tree : Tree} {list first : NodeId}
    (hkind : span.kind ≠ .comment) (hfirst : tree.child? list span.start = some first)
    (hcode : tree.isCode first = true)
    (hplain : forall token, tree.token? first = some token -> ¬ token.Leading) :
    span.SparesKeyword tree list :=
  ⟨fun h => absurd h hkind, fun _ _ _ _ h => h.lt_of_isCode hfirst hcode hplain⟩

namespace Move.Gathers

variable {tree after : Tree} {list : NodeId} {cursor : Cursor} {move : Move} {span : Span}
  {front moved back : List NodeId} {group : NodeId}
  (hg : move.Gathers list tree span front moved back group after)
  (hfits : move.Fits tree list cursor) (hwf : tree.WellFormed) (hstep : tree.GroupStep after)
include hg hwf hstep

theorem ledBy (hspares : span.SparesKeyword tree list) {idx : Nat}
    {key : NodeId} {token : Token} (h : tree.LedBy list idx key token) :
    exists place, after.LedBy list place key token := by
  have hcode := Tree.isCode_of_leading h.token_eq h.leading
  have htoken := hstep.tokensKept.token?_of_leading h.token_eq h.leading
  have hsame : forall {id}, (exists j, tree.child? list j = some id) ->
      after.isCode id = tree.isCode id := by
    rintro id ⟨j, hchild⟩
    exact Tree.isCode_of_steps (.single hstep)
      (hwf.child_lt_size (List.mem_of_getElem? hchild))
  by_cases hbehind : idx < span.start
  · refine ⟨idx, ?_, htoken, h.leading, ?_⟩
    · rw [hg.child?_front hbehind]
      exact h.child_eq
    · intro j other hj hother
      rw [hg.child?_front (Nat.lt_trans hj hbehind)] at hother
      rw [hsame ⟨j, hother⟩]
      exact h.front j other hj hother
  · -- The span holds comments only, so it ends before the keyword.
    have hkind : span.kind = .comment :=
      Classical.byContradiction fun hkind => hbehind (hspares.behind hkind idx key token h)
    have hstop : span.stop < idx := by
      apply Nat.lt_of_not_le
      intro hle
      rw [hspares.plain hkind idx key (Nat.le_of_not_lt hbehind) hle h.child_eq] at hcode
      cases hcode
    have hshift : forall j, after.child? list (span.start + 1 + j) =
        tree.child? list (span.stop + 1 + j) := by
      intro j
      unfold Tree.child?
      rw [← List.getElem?_drop, hg.drop_behind, List.getElem?_drop]
    refine ⟨span.start + 1 + (idx - (span.stop + 1)), ?_, htoken, h.leading, ?_⟩
    · rw [hshift, Nat.add_sub_cancel' hstop]
      exact h.child_eq
    · intro j other hj hother
      rcases Nat.lt_trichotomy j span.start with hlt | rfl | hgt
      · rw [hg.child?_front hlt] at hother
        rw [hsame ⟨j, hother⟩]
        exact h.front j other (by omega) hother
      · cases hg.child?_start.symm.trans hother
        apply Tree.not_isCode_of_isKind
        rw [Tree.isKind, hg.kind?_group, hkind]
        rfl
      · have hplace := hshift (j - (span.start + 1))
        rw [Nat.add_sub_cancel' hgt] at hplace
        rw [hplace] at hother
        rw [hsame ⟨_, hother⟩]
        exact h.front _ other (by omega) hother

omit hstep in
include hfits in
theorem content?_root {root : NodeId} (hroot : tree.isGroup root = true)
    (hparent : tree.parent? root = none) (hlist : root ≠ list) :
    after.content? root = tree.content? root := by
  have hother : root ≠ group := by
    rintro rfl
    rcases hg.first_of_lt_size (Tree.lt_size_of_isGroup hroot) with ⟨_, rest, hmoved, _⟩
    have hchild : root ∈ tree.children list := by
      rw [hg.children_eq, hmoved]
      simp
    rw [hwf.parent?_of_mem hchild] at hparent
    cases hparent
  exact hg.content?_other root hlist hother (hfits.retag_ne hroot)

include hfits

/-- The keyword of a list stays in place whatever list a span is made in. -/
theorem opensWith (hspares : span.SparesKeyword tree list)
    {root key : NodeId} {token : Token} (h : tree.OpensWith root key token) :
    after.OpensWith root key token := by
  rcases h with ⟨hparent, idx, hled⟩
  have hgroup := Tree.isGroup_of_mem_children (List.mem_of_getElem? hled.child_eq)
  refine ⟨hstep.parent?_root hwf (Tree.lt_size_of_isGroup hgroup) hparent, ?_⟩
  by_cases hlist : root = list
  · subst hlist
    exact hg.ledBy hwf hstep hspares hled
  · have hchildren :=
      (Tree.observers_congr (hg.content?_root hfits hwf hgroup hparent hlist)).2.2
    exact ⟨idx, hled.of_children hwf (.single hstep) hchildren⟩

end Move.Gathers

/-!
# The passes that look for a child
-/

def Seeker.SparesKeyword (seeker : Seeker) : Prop :=
  forall tree list idx id span next, tree.child? list idx = some id ->
    seeker.accepts tree id = true -> seeker.span? tree list idx id = some (span, next) ->
    span.SparesKeyword tree list

namespace Tree

variable {tree : Tree} {id : NodeId}

theorem not_leading_of_test {p : Category -> Bool}
    (h : tree.tokenHas id (fun token => p token.category) = true)
    (hp : (p .dml || p .ddl) = false) {token : Token} (htoken : tree.token? id = some token) :
    ¬ token.Leading := by
  intro hleading
  unfold tokenHas at h
  rw [htoken] at h
  dsimp only at h
  rw [hleading.category_test hp] at h
  cases h

theorem not_leading_of_isCategory {category : Category} (h : tree.isCategory id category = true)
    (hcategory : (Category.dml == category || Category.ddl == category) = false) {token : Token}
    (htoken : tree.token? id = some token) : ¬ token.Leading := by
  rw [isCategory_eq_tokenHas] at h
  exact not_leading_of_test (p := fun c => c == category) h hcategory htoken

theorem not_leading_of_hits {pattern : TokenPattern} (h : tree.hits id pattern = true)
    (hp : (Category.dml == pattern.category || Category.ddl == pattern.category) = false)
    {token : Token} (htoken : tree.token? id = some token) : ¬ token.Leading := by
  intro hleading
  unfold hits tokenHas at h
  rw [htoken] at h
  dsimp only at h
  rw [hleading.hits_eq_false hp] at h
  cases h

theorem not_leading_of_kind? {kind : GroupKind} (h : tree.kind? id = some kind) {token : Token}
    (htoken : tree.token? id = some token) : ¬ token.Leading := by
  rw [token?_eq_none_of_isGroup (isGroup_iff_kind?.mpr ⟨kind, h⟩)] at htoken
  cases htoken

theorem not_leading_of_isKindIn {kinds : List GroupKind} (h : tree.isKindIn id kinds = true)
    {token : Token} (htoken : tree.token? id = some token) : ¬ token.Leading := by
  unfold isKindIn at h
  split at h
  · rename_i kind hkind
    exact not_leading_of_kind? hkind htoken
  · cases h

end Tree

namespace Seeker

theorem comment_sparesKeyword : comment.SparesKeyword := by
  intro tree list idx id span next hchild haccepts hspan
  refine ⟨(comment_sorts tree list idx id span next hchild haccepts hspan).plain, fun h => ?_⟩
  cases hspan
  exact absurd rfl h

theorem call_sparesKeyword : call.SparesKeyword := by
  intro tree list idx id span next hchild haccepts hspan
  rcases call_span hspan with ⟨_, _, _, _, rfl, rfl⟩
  exact .of_code nofun hchild (Tree.isCode_of_test (p := fun c => c.isA .name) haccepts rfl)
    fun _ => Tree.not_leading_of_test (p := fun c => c.isA .name) haccepts rfl

theorem whereWord_sparesKeyword : whereWord.SparesKeyword := by
  intro tree list idx id span next hchild haccepts hspan
  cases hspan
  exact .of_code nofun hchild (Tree.isCode_of_hits haccepts rfl)
    fun _ => Tree.not_leading_of_hits haccepts rfl

theorem name_sparesKeyword : name.SparesKeyword := by
  intro tree list idx id span next hchild _ hspan
  rcases name_span hspan with ⟨hname, rfl, rfl⟩
  rcases Bool.or_eq_true_iff.mp hname with hname | hquoted
  · exact .of_code nofun hchild (Tree.isCode_of_isCategory hname (by decide))
      fun _ => Tree.not_leading_of_isCategory hname rfl
  · exact .of_code nofun hchild (Tree.isCode_of_isCategory hquoted (by decide))
      fun _ => Tree.not_leading_of_isCategory hquoted rfl

theorem typeWord_sparesKeyword : typeWord.SparesKeyword := by
  intro tree list idx id span next hchild _ hspan
  rcases Option.map_eq_some_iff.mp hspan with ⟨stop, hstop, heq⟩
  cases heq
  refine .of_code nofun hchild (isCode_of_typedLiteralEnd? hstop) fun token htoken hleading => ?_
  unfold Pass.typedLiteralEnd? at hstop
  split at hstop
  · rename_i htype
    unfold Tree.tokenHas at htype
    rw [htoken] at htype
    rcases List.any_eq_true.mp htype with ⟨word, hword, hreads⟩
    rw [hleading.not_isTypeWord hword] at hreads
    cases hreads
  · cases hstop

theorem ordering_sparesKeyword : ordering.SparesKeyword := by
  intro tree list idx id span next _ _ hspan
  rcases ordering_span hspan with ⟨prev, other, hprev, hhost, rfl, rfl⟩
  have hother := (Tree.prev_some hprev).2.1
  rcases Bool.or_eq_true_iff.mp hhost with hkind | hnumber
  · exact .of_code nofun hother (Tree.isCode_of_isKind hkind nofun)
      fun _ => Tree.not_leading_of_kind? (beq_iff_eq.mp hkind)
  · exact .of_code nofun hother
      (Tree.isCode_of_test (p := fun c => c.isA .number) hnumber rfl)
      fun _ => Tree.not_leading_of_test (p := fun c => c.isA .number) hnumber rfl

theorem aliased_sparesKeyword : aliased.SparesKeyword := by
  intro tree list idx id span next hchild haccepts hspan
  rcases aliased_span hspan with ⟨_, _, _, _, rfl, rfl⟩
  rcases Bool.or_eq_true_iff.mp haccepts with hkinds | hnumber
  · exact .of_code nofun hchild (Tree.isCode_of_isKindIn hkinds rfl)
      fun _ => Tree.not_leading_of_isKindIn hkinds
  · exact .of_code nofun hchild
      (Tree.isCode_of_test (p := fun c => c.isA .number) hnumber rfl)
      fun _ => Tree.not_leading_of_test (p := fun c => c.isA .number) hnumber rfl

theorem trailingComment_sparesKeyword : trailingComment.SparesKeyword := by
  intro tree list idx id span next hchild haccepts hspan
  have hplain := (trailingComment_sorts tree list idx id span next hchild haccepts hspan).plain
  rcases trailingComment_span hspan with ⟨prev, host, kind, hprev, hhostKind, rfl, _⟩
  refine ⟨hplain, fun hne => ?_⟩
  have hkind := Pass.isKind_of_commentHost? hhostKind
  exact (Span.SparesKeyword.of_code hne (Tree.prev_some hprev).2.1
    (Tree.isCode_of_isKind hkind hne)
    fun _ => Tree.not_leading_of_kind? (beq_iff_eq.mp hkind)).behind hne

end Seeker

/-!
# Constructs around an operator
-/

/-- A rule takes no keyword that a statement begins with for an operator or for what stands
before one. -/
structure BinaryRule.SparesKeyword (rule : BinaryRule) : Prop where
  sound : rule.Sound
  kind_ne : rule.kind ≠ .comment
  code : forall tree id, rule.isOp tree id = true -> tree.isCode id = true
  op : forall tree id token, rule.isOp tree id = true -> tree.token? id = some token ->
    ¬ token.Leading
  prev : forall tree id token, rule.acceptsPrev tree id = true -> tree.token? id = some token ->
    ¬ token.Leading

namespace BinaryRule

variable {rule : BinaryRule} {tree : Tree} {list : NodeId} {cursor : Cursor} {op : NodeId}

/-- Between an operator and what stands before it there are only blanks, so the operand is
the keyword of the list or stands behind it, and the keyword is not accepted. -/
theorem SparesKeyword.span (h : rule.SparesKeyword) (hcursor : cursor.Ordered)
    (hknown : tree.SolidSince list cursor) (hop : tree.child? list cursor.idx = some op)
    (hisOp : rule.isOp tree op = true) {start stop : Nat}
    (hoperands : rule.span? tree list cursor.prev cursor.idx = some (start, stop)) :
    Span.SparesKeyword ⟨rule.kind, start, stop, rule.extend⟩ tree list := by
  rcases span?_accepts hoperands with ⟨prev, left, hprev, hleft, haccepts, _, hspan⟩
  rcases h.sound tree list prev cursor.idx start stop (hcursor.prev_lt prev hprev)
    (Tree.child?_lt hop) hspan with ⟨rfl, _, _⟩
  refine ⟨fun hkind => absurd hkind h.kind_ne, fun _ idx key token hled => ?_⟩
  have hlt := hled.lt_of_isCode hop (h.code tree op hisOp) fun _ => h.op tree op _ hisOp
  dsimp only
  apply Nat.lt_of_le_of_ne
  · apply Nat.le_of_not_lt
    intro hbefore
    have hblank := hknown.blanks start hprev idx key hbefore hlt hled.child_eq
    rw [Tree.not_isWhitespace_of_isCode (Tree.isCode_of_leading hled.token_eq hled.leading)]
      at hblank
    cases hblank
  · rintro rfl
    cases hled.child_eq.symm.trans hleft
    exact h.prev tree _ token haccepts hled.token_eq hled.leading

theorem not_leading_of_operands {kinds : List GroupKind} {categories : List Category} {id : NodeId}
    (h : (tree.isAIn id categories || tree.isKindIn id kinds) = true)
    (hcategories : (categories.any (Category.dml.isA ·) || categories.any (Category.ddl.isA ·)) =
      false) {token : Token} (htoken : tree.token? id = some token) : ¬ token.Leading := by
  rcases Bool.or_eq_true_iff.mp h with hcategory | hkinds
  · exact Tree.not_leading_of_test (p := fun c => categories.any c.isA) hcategory hcategories htoken
  · exact Tree.not_leading_of_isKindIn hkinds htoken

theorem not_leading_of_isExpression {id : NodeId} (h : isExpression tree id = true) {token : Token}
    (htoken : tree.token? id = some token) : ¬ token.Leading := by
  intro hleading
  have hword := (Bool.and_eq_true_iff.mp h).1
  unfold Tree.isKeyword Tree.tokenHas at hword
  rw [htoken] at hword
  dsimp only at hword
  rw [Token.isKeyword_of_category hleading.category_eq, Bool.not_true, Bool.false_or,
    Tree.normalized_of_token? htoken, beq_iff_eq] at hword
  exact hleading.normalized_ne _ (by decide) hword

theorem period_sparesKeyword : period.SparesKeyword where
  sound := period_sound
  kind_ne := nofun
  code := fun _ _ h => Tree.isCode_of_hits h rfl
  op := fun _ _ _ h => Tree.not_leading_of_hits h rfl
  prev := fun _ _ _ h => not_leading_of_operands ((Bool.or_comm _ _).trans h) rfl

theorem subscript_sparesKeyword : subscript.SparesKeyword where
  sound := subscript_sound
  kind_ne := nofun
  code := fun _ _ h => Tree.isCode_of_isKind h nofun
  op := fun _ _ _ h => Tree.not_leading_of_kind? (beq_iff_eq.mp h)
  prev := fun _ _ _ h => not_leading_of_operands ((Bool.or_comm _ _).trans h) rfl

theorem operator_sparesKeyword : operator.SparesKeyword where
  sound := fromPrevToNext_sound rfl
  kind_ne := nofun
  code := by
    intro tree id h
    rcases Bool.or_eq_true_iff.mp h with hop | hwild
    · exact Tree.isCode_of_isCategory hop (by decide)
    · exact Tree.isCode_of_isCategory hwild (by decide)
  op := by
    intro tree id token h
    rcases Bool.or_eq_true_iff.mp h with hop | hwild
    · exact Tree.not_leading_of_isCategory hop rfl
    · exact Tree.not_leading_of_isCategory hwild rfl
  prev := by
    intro tree id token h
    rcases Bool.or_eq_true_iff.mp h with hoperand | hword
    · exact not_leading_of_operands hoperand rfl
    · exact Tree.not_leading_of_hits hword rfl

theorem typecast_sparesKeyword : typecast.SparesKeyword where
  sound := typecast_sound
  kind_ne := nofun
  code := fun _ _ h => Tree.isCode_of_hits h rfl
  op := fun _ _ _ h => Tree.not_leading_of_hits h rfl
  prev := fun _ _ _ h => not_leading_of_isExpression h

theorem aliasWithAs_sparesKeyword : aliasWithAs.SparesKeyword where
  sound := fromPrevToNext_sound rfl
  kind_ne := nofun
  code := fun _ _ h =>
    Tree.isCode_of_test (p := Category.isKeyword) (Bool.and_eq_true_iff.mp h).1 rfl
  op := by
    intro tree id token h htoken hleading
    have hword := beq_iff_eq.mp (Bool.and_eq_true_iff.mp h).2
    rw [Tree.normalized_of_token? htoken] at hword
    exact hleading.normalized_ne _ (by decide) hword
  prev := fun _ _ _ h => not_leading_of_isExpression h

theorem assignment_sparesKeyword : assignment.SparesKeyword where
  sound := assignment_sound
  kind_ne := nofun
  code := fun _ _ h => Tree.isCode_of_hits h rfl
  op := fun _ _ _ h => Tree.not_leading_of_hits h rfl
  prev := by
    intro tree id token h htoken hleading
    unfold assignment Tree.isKeyword Tree.tokenHas at h
    dsimp only at h
    rw [htoken] at h
    dsimp only at h
    rw [Token.isKeyword_of_category hleading.category_eq] at h
    cases h

theorem comparison_sparesKeyword : comparison.SparesKeyword where
  sound := fromPrevToNext_sound rfl
  kind_ne := nofun
  code := fun _ _ h => Tree.isCode_of_isCategory h (by decide)
  op := fun _ _ _ h => Tree.not_leading_of_isCategory h rfl
  prev := by
    intro tree id token h
    rcases Bool.or_eq_true_iff.mp h with hoperand | hword
    · exact not_leading_of_operands hoperand rfl
    · exact Tree.not_leading_of_hits hword rfl

theorem identifierList_sparesKeyword : identifierList.SparesKeyword where
  sound := fromPrevToNext_sound rfl
  kind_ne := nofun
  code := fun _ _ h => Tree.isCode_of_hits h rfl
  op := fun _ _ _ h => Tree.not_leading_of_hits h rfl
  prev := by
    intro tree id token h
    rcases Bool.or_eq_true_iff.mp h with hitem | hcategory
    · rcases Bool.or_eq_true_iff.mp hitem with hkind | hword
      · exact Tree.not_leading_of_isKindIn hkind
      · exact Tree.not_leading_of_isCategory hword rfl
    · exact Tree.not_leading_of_test
        (p := fun c => [Category.number, .string, .name, .comment, .wildcard].any c.isA)
        hcategory rfl

end BinaryRule

/-!
# All passes
-/

namespace Pass

variable (root key : NodeId) (token : Token)

theorem keeps_opening_of_seeker {pass : Pass} {seeker : Seeker} (hpass : pass ∈ Pass.all)
    (hplan : pass.plan = seeker.plan) (h : seeker.SparesKeyword) :
    pass.Keeps (Tree.OpensWith · root key token) (fun _ => True) (fun _ _ _ => True) := by
  apply keeps_of_seeker hpass hplan
  intro tree after list cursor move idx next id group span front moved back hwf hopens hchild
    haccepts hfound hfits hstep hg
  exact hg.opensWith hfits hwf hstep
    (h tree list idx id span next hchild haccepts hfound) hopens

theorem keeps_opening_of_rule {rule : BinaryRule} (h : rule.SparesKeyword)
    (hpass : (Pass.binary rule).Sound) :
    (Pass.binary rule).Keeps (Tree.OpensWith · root key token) (fun _ => True)
      Tree.SolidSince := by
  apply keeps_of_rule hpass
  intro tree after list cursor move op start stop hwf hcursor hopens hknown hop hisOp hoperands
    hfits hspan hgroups
  rcases hgroups.gathers hwf hfits with ⟨span, front, moved, back, group, hg⟩
  cases hspan.symm.trans hg.span_eq
  exact hg.opensWith hfits hwf (hgroups.groupStep hwf hfits)
    (h.span hcursor hknown hop hisOp hoperands) hopens

theorem keeps_opening_of_pairs {kind : GroupKind} {opening closing : TokenPattern}
    (hopening : kind.opening? = some opening) (hclosing : kind.closing? = some closing)
    (hkind : kind ≠ .comment) (hmark : Category.trivia.elem opening.category = false)
    (hplain : (Category.dml == opening.category || Category.ddl == opening.category) = false) :
    (Pass.pairs kind).Keeps (Tree.OpensWith · root key token) (· ≠ kind)
      (Tree.OpensWait opening) := by
  apply keeps_of_pairs hopening hclosing
  intro tree after list cursor move start first last hwf hkeeps _ _ hfirst hopens _ _ hfits hspan
    hgroups
  rcases hgroups.gathers hwf hfits with ⟨span, front, moved, back, group, hg⟩
  cases hspan.symm.trans hg.span_eq
  exact hg.opensWith hfits hwf (hgroups.groupStep hwf hfits)
    (.of_code hkind hfirst (Tree.isCode_of_hits hopens hmark)
      fun _ => Tree.not_leading_of_hits hopens hplain) hkeeps

theorem all_keep_opening : forall pass, pass ∈ Pass.all ->
    exists suits known, pass.Keeps (Tree.OpensWith · root key token) suits known ∧
      suits .statement := by
  have hseeker : forall {pass : Pass} {seeker : Seeker}, pass ∈ Pass.all ->
      pass.plan = seeker.plan -> seeker.SparesKeyword ->
      exists suits known, pass.Keeps (Tree.OpensWith · root key token) suits known ∧
        suits .statement :=
    fun hmem hplan h => ⟨_, _, keeps_opening_of_seeker root key token hmem hplan h, trivial⟩
  have hrule : forall {rule : BinaryRule}, Pass.binary rule ∈ Pass.all -> rule.SparesKeyword ->
      exists suits known, (Pass.binary rule).Keeps (Tree.OpensWith · root key token) suits known ∧
        suits .statement :=
    fun hmem h => ⟨_, _, keeps_opening_of_rule root key token h (all_sound _ hmem), trivial⟩
  intro pass hpass
  have hmem := hpass
  unfold Pass.all at hpass
  simp only [List.mem_cons, List.not_mem_nil, or_false] at hpass
  rcases hpass with rfl | rfl | rfl | rfl | rfl | rfl | rfl | rfl | rfl | rfl | rfl | rfl | rfl |
    rfl | rfl | rfl | rfl | rfl | rfl | rfl | rfl | rfl
  · exact hseeker hmem Seeker.comments_plan Seeker.comment_sparesKeyword
  · exact ⟨_, _, keeps_opening_of_pairs _ _ _ rfl rfl nofun rfl rfl, nofun⟩
  · exact ⟨_, _, keeps_opening_of_pairs _ _ _ rfl rfl nofun rfl rfl, nofun⟩
  · exact hseeker hmem Seeker.functions_plan Seeker.call_sparesKeyword
  · exact hseeker hmem Seeker.whereClauses_plan Seeker.whereWord_sparesKeyword
  · exact ⟨_, _, keeps_opening_of_pairs _ _ _ rfl rfl nofun rfl rfl, nofun⟩
  · exact hrule hmem BinaryRule.period_sparesKeyword
  · exact hrule hmem BinaryRule.subscript_sparesKeyword
  · exact hseeker hmem Seeker.identifiers_plan Seeker.name_sparesKeyword
  · exact hseeker hmem Seeker.typedLiterals_plan Seeker.typeWord_sparesKeyword
  · exact hrule hmem BinaryRule.operator_sparesKeyword
  · exact hseeker hmem Seeker.orderings_plan Seeker.ordering_sparesKeyword
  · exact hrule hmem BinaryRule.typecast_sparesKeyword
  · exact hrule hmem BinaryRule.aliasWithAs_sparesKeyword
  · exact hseeker hmem Seeker.aliases_plan Seeker.aliased_sparesKeyword
  · exact hrule hmem BinaryRule.assignment_sparesKeyword
  · exact hrule hmem BinaryRule.comparison_sparesKeyword
  · exact hseeker hmem Seeker.trailingComments_plan Seeker.trailingComment_sparesKeyword
  · exact hrule hmem BinaryRule.identifierList_sparesKeyword
  · exact ⟨_, _, keeps_opening_of_pairs _ _ _ rfl rfl nofun rfl rfl, nofun⟩
  · exact ⟨_, _, keeps_opening_of_pairs _ _ _ rfl rfl nofun rfl rfl, nofun⟩
  · exact ⟨_, _, keeps_opening_of_pairs _ _ _ rfl rfl nofun rfl rfl, nofun⟩

end Pass

/-!
# Statements
-/

theorem Tree.LedBy.statementType_eq {tree : Tree} {root key : NodeId} {idx : Nat} {token : Token}
    (h : tree.LedBy root idx key token) : tree.statementType root = token.normalized := by
  have hcategory : tree.category? key = some token.category := by
    unfold category?
    rw [h.token_eq, Option.map_some]
  unfold statementType statementType?
  rw [h.first_eq]
  dsimp only [bind, Option.bind]
  rw [hcategory]
  rcases h.leading.category_eq with hdml | hddl
  · rw [hdml]
    exact normalized_of_token? h.token_eq
  · rw [hddl]
    exact normalized_of_token? h.token_eq

namespace Statement

/-- The first leaf of a flat statement that is neither a blank nor a comment, if it is such
a keyword. -/
theorem opensWith_ofTokens {tokens : List Token} {key : NodeId} {token : Token}
    (hkey : ((ofTokens tokens).tree.leaves (ofTokens tokens).root).find?
      (fun id => !(ofTokens tokens).tree.tokenHas id Token.isTrivia) = some key)
    (htoken : (ofTokens tokens).tree.token? key = some token) (hleading : token.Leading) :
    (ofTokens tokens).tree.OpensWith (ofTokens tokens).root key token := by
  refine ⟨parent?_root tokens, key, ?_, htoken, hleading, ?_⟩
  · have hlt := (List.getElem?_eq_some_iff.mp ((token?_ofTokens tokens key).symm.trans htoken)).1
    unfold Tree.child?
    rw [children_ofTokens, if_pos (root_ofTokens tokens), List.getElem?_range hlt]
  · intro j other hj hother
    rw [leaves_ofTokens] at hkey
    unfold Tree.child? at hother
    rw [children_ofTokens, if_pos (root_ofTokens tokens)] at hother
    rcases List.getElem?_eq_some_iff.mp hother with ⟨hlt, hget⟩
    rw [List.getElem_range] at hget
    subst hget
    apply Tree.not_isCode_of_isTrivia
    have hbefore := List.find?_range_eq_some.mp hkey
    simpa using hbefore.2.2 j hj

/-- The keyword that a statement begins with stays where it is: grouping leaves it among
the children of the root, it is found there as the first child that is neither a blank nor
a comment, and the statement has its type as before. -/
theorem leading_keyword_survives {options : LexerOptions} {config : LexerConfig}
    (hcheck : options.check = .ok config) {sql : Text} {s : Statement}
    (hs : s ∈ readStatements config sql) {key : NodeId} {token : Token}
    (hkey : (s.tree.leaves s.root).find? (fun id => !s.tree.tokenHas id Token.isTrivia) = some key)
    (htoken : s.tree.token? key = some token)
    (hcategory : token.category = .dml ∨ token.category = .ddl) {limit : Nat} {after : Statement}
    (hgroup : s.group limit = .ok after) :
    (exists place, after.tree.first after.root true true = some (place, key)) ∧
      key ∈ after.tree.children after.root ∧ after.tree.parent? key = some after.root ∧
      after.tree.token? key = some token ∧
      after.type = token.normalized ∧ s.type = token.normalized := by
  rcases exists_of_mem_splitStatements hs with ⟨tokens, _, rfl⟩
  have hmem : token ∈ tokenize config sql := by
    rw [← splitStatements_tokens (tokenize config sql)]
    refine List.mem_flatMap.mpr ⟨_, hs, ?_⟩
    rw [tokens_ofTokens]
    exact List.mem_of_getElem? ((token?_ofTokens tokens key).symm.trans htoken)
  have hopens := opensWith_ofTokens hkey htoken (leading_of_mem_tokenize hcheck hmem hcategory)
  have hafter := holds_of_group (Pass.all_keep_opening _ key token) hopens hgroup
  have hroot := (group_ok_iff_exec.mp hgroup).2
  rcases hopens with ⟨_, idx, hled⟩
  rcases hafter with ⟨_, place, hled'⟩
  rw [← hroot] at hled'
  have hchild := List.mem_of_getElem? hled'.child_eq
  have hwf := (wellFormed_of_group hgroup).1
  exact ⟨⟨place, hled'.first_eq⟩, hchild, hwf.parent?_of_mem hchild, hled'.token_eq,
    hled'.statementType_eq, hled.statementType_eq⟩

/-- A comment and a blank in front of the keyword become a group of comments. -/
theorem leading_keyword_survives_comment :
    exists config s after, ({} : LexerOptions).check = .ok config ∧
      s ∈ readStatements config (Text.of "/*c*/ select a") ∧
      s.group defaultMaxDepth = .ok after ∧
      (exists place, after.tree.first after.root true true = some (place, 2)) ∧
      2 ∈ after.tree.children after.root ∧ after.tree.parent? 2 = some after.root ∧
      after.tree.token? 2 = some ⟨.dml, Text.of "select", some 6⟩ ∧
      after.type = Text.of "SELECT" ∧ s.type = Text.of "SELECT" := by
  have hcheck : ({} : LexerOptions).check = .ok .default := rfl
  have htokens : tokenize .default (Text.of "/*c*/ select a") =
      [⟨.blockComment, Text.of "/*c*/", some 0⟩, ⟨.whitespace, [' '], some 5⟩,
        ⟨.dml, Text.of "select", some 6⟩, ⟨.whitespace, [' '], some 12⟩,
        ⟨.name, ['a'], some 13⟩] := by
    decide +kernel
  let s := ofTokens [⟨.blockComment, Text.of "/*c*/", some 0⟩, ⟨.whitespace, [' '], some 5⟩,
    ⟨.dml, Text.of "select", some 6⟩, ⟨.whitespace, [' '], some 12⟩, ⟨.name, ['a'], some 13⟩]
  have hs : s ∈ readStatements .default (Text.of "/*c*/ select a") := by
    unfold readStatements splitStatements
    rw [htokens]
    decide
  have hkey : (s.tree.leaves s.root).find? (fun id => !s.tree.tokenHas id Token.isTrivia) =
      some 2 := by
    decide
  have htoken : s.tree.token? 2 = some ⟨.dml, Text.of "select", some 6⟩ := by
    decide
  have hgroup : (s.group defaultMaxDepth).toOption.any (fun _ => true) = true := by
    decide
  rcases exists_of_group hgroup with ⟨after, hok, _⟩
  exact ⟨.default, s, after, hcheck, hs, hok,
    leading_keyword_survives hcheck hs hkey htoken (Or.inl rfl) hok⟩

end Statement
end SqlLayout
