import Mathlib.Data.List.Chain
import SqlLayout.Proofs.Grouping.Frames

/-!
# Operands

What operators join: tokens, qualified names, typed literals, and operations on
such operands.  An operand is nested no deeper than it has operators, up to its
own group.
-/

namespace SqlLayout

open Tree

/-!
# Tokens
-/

namespace Token

theorem hits_eq_false_of_ne {t : Token} {p : TokenPattern} (h : t.category ≠ p.category) :
    t.hits p = false := by
  unfold hits
  rw [beq_eq_false_iff_ne.mpr h, Bool.false_and]

def isDot (t : Token) : Bool := t.isPunctuationIn [['.']]

def isOperand (t : Token) : Bool :=
  BinaryRule.operandCategories.any t.category.isA
    || t.isKeywordIn
      [Text.of "CURRENT_DATE", Text.of "CURRENT_TIME", Text.of "CURRENT_TIMESTAMP"]

def operates (t : Token) : Bool := t.category == .operator || t.category == .wildcard

def namesType (t : Token) : Bool := Pass.literalTypes.any fun word => Pass.isTypeWord word t

/-- The unit of an interval. -/
def isUnit (t : Token) : Bool := t.isKeyword && Pass.intervalUnits.elem t.normalized

def isSimple (t : Token) : Bool := t.isWhitespace || t.isOperand || t.operates || t.isDot

/-- A token that may stand in an operation. -/
def joins (t : Token) : Bool := t.isSimple || t.namesType || t.isUnit

/-- The sign of an assignment, a comparison or a list. -/
def relates (t : Token) : Bool :=
  t.hits ⟨.assignment, [[':', '=']]⟩ || t.category == .comparison || t.isPunctuationIn [[',']]

/-!
# Categories of tokens
-/

theorem isPunctuationIn_singleton_iff {t : Token} {mark : Text} :
    t.isPunctuationIn [mark] = true <-> t.category = .punctuation ∧ t.value = mark := by
  rcases t with ⟨category, value, position⟩
  constructor
  · intro h
    rcases Bool.and_eq_true_iff.mp h with ⟨hcategory, hvalue⟩
    have heq : category = .punctuation := by
      simpa using hcategory
    subst heq
    have hmem : [mark].elem value = true := hvalue
    exact ⟨rfl, by simpa using hmem⟩
  · rintro ⟨hcategory, hvalue⟩
    dsimp only at hcategory hvalue
    subst hcategory hvalue
    exact Bool.and_eq_true_iff.mpr ⟨rfl, List.elem_cons_self⟩

theorem isDot_iff {t : Token} :
    t.isDot = true <-> t.category = .punctuation ∧ t.value = ['.'] :=
  isPunctuationIn_singleton_iff

def operandCategories : List Category :=
  [.name, .builtin, .placeholder, .string, .singleQuoted, .doubleQuoted, .number, .integer, .float,
   .hexadecimal]

def keywordCategories : List Category :=
  [.keyword, .dml, .ddl, .cte, .order, .zoneCast, .command]

theorem isKeyword_iff {t : Token} : t.isKeyword = true <-> t.category ∈ keywordCategories := by
  unfold isKeyword
  cases t.category <;> decide

theorem isOperand_cases {t : Token} (h : t.isOperand = true) :
    t.category ∈ operandCategories ∨ t.category = .keyword ∧ t.normalized ≠ Text.of "AS" := by
  rcases Bool.or_eq_true_iff.mp h with hcategory | hkeyword
  · left
    revert hcategory
    cases t.category <;> decide
  · right
    rcases Bool.and_eq_true_iff.mp hkeyword with ⟨hcategory, hvalue⟩
    have heq : t.category = .keyword := by
      simpa using hcategory
    refine ⟨heq, ?_⟩
    intro has
    have hkey : t.isKeyword = true := by
      unfold isKeyword
      rw [heq]
      rfl
    rw [hkey, if_pos rfl, has] at hvalue
    revert hvalue
    decide

theorem isSimple_cases {t : Token} (h : t.isSimple = true) :
    t.category ∈ .whitespace :: .operator :: .wildcard :: operandCategories ∨
      t.category = .keyword ∧ t.normalized ≠ Text.of "AS" ∨
      t.category = .punctuation ∧ t.value = ['.'] := by
  rcases Bool.or_eq_true_iff.mp h with hrest | hdot
  · rcases Bool.or_eq_true_iff.mp hrest with hrest | hoperates
    · rcases Bool.or_eq_true_iff.mp hrest with hblank | hoperand
      · left
        unfold isWhitespace at hblank
        revert hblank
        cases t.category <;> decide
      · rcases isOperand_cases hoperand with hcategory | hkeyword
        · left
          exact List.mem_cons_of_mem _ (List.mem_cons_of_mem _ (List.mem_cons_of_mem _ hcategory))
        · exact Or.inr (Or.inl hkeyword)
    · left
      unfold operates at hoperates
      revert hoperates
      cases t.category <;> decide
  · exact Or.inr (Or.inr (isDot_iff.mp hdot))

theorem namesType_cases {t : Token} (h : t.namesType = true) :
    t.category ∈ .builtin :: keywordCategories := by
  rcases List.any_eq_true.mp h with ⟨word, _, hword⟩
  rcases Bool.or_eq_true_iff.mp (Bool.and_eq_true_iff.mp hword).1 with hkeyword | hbuiltin
  · exact List.mem_cons_of_mem _ (isKeyword_iff.mp hkeyword)
  · have heq : t.category = .builtin := by
      simpa using hbuiltin
    rw [heq]
    exact List.mem_cons_self

theorem isTrivia_cases {t : Token} (h : t.isTrivia = true) :
    t.category ∈ [Category.whitespace, .comment, .lineComment, .lineHint, .blockComment,
      .blockHint] := by
  unfold isTrivia isComment isWhitespace at h
  revert h
  cases t.category <;> decide

theorem joins_cases {t : Token} (h : t.joins = true) :
    t.category ∈ .whitespace :: .operator :: .wildcard :: operandCategories ++ keywordCategories ∨
      t.category = .punctuation ∧ t.value = ['.'] := by
  rcases Bool.or_eq_true_iff.mp h with hrest | hunit
  · rcases Bool.or_eq_true_iff.mp hrest with hsimple | hword
    · rcases isSimple_cases hsimple with hcategory | ⟨hcategory, _⟩ | hdot
      · exact Or.inl (List.mem_append_left _ hcategory)
      · left
        rw [hcategory]
        decide
      · exact Or.inr hdot
    · left
      have hcategory := namesType_cases hword
      revert hcategory
      cases t.category <;> decide
  · left
    exact List.mem_append_right _ (isKeyword_iff.mp (Bool.and_eq_true_iff.mp hunit).1)

theorem relates_eq_false_of_category {t : Token} (hassignment : t.category ≠ .assignment)
    (hcomparison : t.category ≠ .comparison) (hmark : t.category ≠ .punctuation) :
    t.relates = false := by
  unfold relates isPunctuationIn
  rw [hits_eq_false_of_ne hassignment, hits_eq_false_of_ne hmark,
    beq_eq_false_iff_ne.mpr hcomparison]
  rfl

theorem relates_of_joins {t : Token} (h : t.joins = true) : t.relates = false := by
  rcases joins_cases h with hcategory | ⟨hcategory, hvalue⟩
  · apply relates_eq_false_of_category
    all_goals
      intro heq
      rw [heq] at hcategory
      revert hcategory
      decide
  · rcases t with ⟨category, value, position⟩
    dsimp only at hcategory hvalue
    rw [hcategory, hvalue]
    rfl

theorem relates_of_isTrivia {t : Token} (h : t.isTrivia = true) : t.relates = false := by
  have hcategory := isTrivia_cases h
  apply relates_eq_false_of_category
  all_goals
    intro heq
    rw [heq] at hcategory
    revert hcategory
    decide

theorem relates_of_isWhitespace {t : Token} (h : t.isWhitespace = true) : t.relates = false := by
  apply relates_of_isTrivia
  unfold isTrivia
  rw [h]
  rfl

end Token

/-!
# Lists with dividers
-/

namespace Rose

def Divided (divides : Rose -> Bool) (children : List Rose) : Prop :=
  (children.filter fun rose => !rose.isBlank).IsChain fun left right =>
    (divides left || divides right) = true

variable {divides : Rose -> Bool} {children inner blanks behind : List Rose} {op : Rose}

theorem divided_singleton (rose : Rose) : Divided divides [rose] := by
  unfold Divided
  cases hblank : rose.isBlank with
  | true =>
      simp [hblank]
  | false =>
      simp [hblank]

theorem filter_blanks (h : forall rose, rose ∈ blanks -> rose.isBlank = true) :
    blanks.filter (fun rose => !rose.isBlank) = [] := by
  apply List.filter_eq_nil_iff.mpr
  intro rose hrose
  rw [h rose hrose]
  exact Bool.false_ne_true

theorem Divided.append (h : Divided divides inner)
    (hblanks : forall rose, rose ∈ blanks -> rose.isBlank = true)
    (hop : divides op = true) (hcounts : op.isBlank = false)
    (hbehind : behind = [] ∨ exists blanks' right, behind = blanks' ++ [right] ∧
      forall rose, rose ∈ blanks' -> rose.isBlank = true) :
    Divided divides (inner ++ (blanks ++ op :: behind)) := by
  unfold Divided at h ⊢
  have hfilter : (inner ++ (blanks ++ op :: behind)).filter (fun rose => !rose.isBlank) =
      inner.filter (fun rose => !rose.isBlank) ++
        op :: behind.filter (fun rose => !rose.isBlank) := by
    rw [List.filter_append, List.filter_append, filter_blanks hblanks, List.nil_append,
      List.filter_cons_of_pos]
    rw [hcounts]
    rfl
  rw [hfilter]
  apply h.append
  · rcases hbehind with rfl | ⟨blanks', right, rfl, hblanks'⟩
    · exact List.IsChain.singleton op
    · rw [List.filter_append, filter_blanks hblanks', List.nil_append]
      cases hright : right.isBlank with
      | true =>
          rw [List.filter_cons_of_neg (by simp [hright])]
          exact List.IsChain.singleton op
      | false =>
          rw [List.filter_cons_of_pos (by simp [hright])]
          exact List.IsChain.cons_cons (by rw [hop]; rfl) (List.IsChain.singleton right)
  · intro left _ right hright
    rw [List.head?_cons, Option.mem_def, Option.some.injEq] at hright
    rw [← hright, hop, Bool.or_true]

theorem Divided.neighbours (h : Divided divides children) {i j : Nat} {left right : Rose}
    (hleft : children[i]? = some left) (hright : children[j]? = some right) (hlt : i < j)
    (hleftCounts : left.isBlank = false) (hrightCounts : right.isBlank = false)
    (hbetween : forall k rose, i < k -> k < j -> children[k]? = some rose ->
      rose.isBlank = true) : (divides left || divides right) = true := by
  rcases exists_items_between hleft hright hlt with ⟨middle, hsplit, hmiddle⟩
  have hblanks : forall rose, rose ∈ middle -> rose.isBlank = true := by
    intro rose hrose
    rcases hmiddle rose hrose with ⟨k, hik, hkj, hk⟩
    exact hbetween k rose hik hkj hk
  unfold Divided at h
  rw [hsplit, List.filter_append, List.filter_cons_of_pos (by simp [hleftCounts]),
    List.filter_append, filter_blanks hblanks, List.nil_append,
    List.filter_cons_of_pos (by simp [hrightCounts])] at h
  exact (List.isChain_cons_cons.mp h.right_of_append).1

end Rose

theorem Tree.getElem?_roses {tree : Tree} {list id : NodeId} {idx : Nat}
    (h : tree.child? list idx = some id) :
    ((tree.children list).map tree.rose)[idx]? = some (tree.rose id) := by
  unfold child? at h
  rw [List.getElem?_map, h]
  rfl

theorem Rose.Divided.children {divides : Rose -> Bool} {tree : Tree} {list : NodeId}
    (hwf : tree.WellFormed) (h : Rose.Divided divides ((tree.children list).map tree.rose))
    {i j : Nat} {left right : NodeId} (hleft : tree.child? list i = some left)
    (hright : tree.child? list j = some right) (hlt : i < j)
    (hleftCounts : tree.isWhitespace left = false) (hrightCounts : tree.isWhitespace right = false)
    (hbetween : forall k id, i < k -> k < j -> tree.child? list k = some id ->
      tree.isWhitespace id = true) :
    (divides (tree.rose left) || divides (tree.rose right)) = true := by
  have hblank : forall {k id}, tree.child? list k = some id ->
      (tree.rose id).isBlank = tree.isWhitespace id := fun hchild =>
    hwf.isBlank_rose (hwf.child_lt_size (List.mem_of_getElem? hchild))
  apply h.neighbours (getElem?_roses hleft) (getElem?_roses hright) hlt
  · rw [hblank hleft, hleftCounts]
  · rw [hblank hright, hrightCounts]
  · intro k rose hi hj hsome
    rw [List.getElem?_map] at hsome
    rcases Option.map_eq_some_iff.mp hsome with ⟨id, hchild, rfl⟩
    rw [hblank hchild]
    exact hbetween k id hi hj hchild

/-!
# Names and literals
-/

namespace Rose

def IsComment (rose : Rose) : Prop :=
  exists children, rose = .group .comment children ∧
    forall child, child ∈ children -> exists token, child = .token token ∧ token.isTrivia = true

def isDot : Rose -> Bool
  | .token t => t.isDot
  | .group _ _ => false

def IsName (rose : Rose) : Prop :=
  exists children, rose = .group .identifier children ∧
    (forall child, child ∈ children -> exists token, child = .token token ∧ token.isSimple = true) ∧
    Divided isDot children

def inLiteral (t : Token) : Bool :=
  t.isWhitespace || t.category == .singleQuoted || t.isUnit

def IsLiteral (rose : Rose) : Prop :=
  exists word rest, rose = .group .typedLiteral (.token word :: rest) ∧ word.namesType = true ∧
    forall child, child ∈ rest -> exists token, child = .token token ∧ inLiteral token = true

def isOperator : Rose -> Bool
  | .token t => t.operates
  | .group _ _ => false

/-- What operators join. -/
inductive Operand : Rose -> Prop where
  | token {t : Token} : t.isOperand = true -> Operand (.token t)
  | name {rose : Rose} : rose.IsName -> Operand rose
  | literal {rose : Rose} : rose.IsLiteral -> Operand rose
  | operation {left right : Rose} {op : Token} {blanks blanks' : List Rose} :
      Operand left -> (forall rose, rose ∈ blanks -> rose.isBlank = true) -> op.operates = true ->
      (forall rose, rose ∈ blanks' -> rose.isBlank = true) -> Operand right ->
      Operand (.group .operation (left :: (blanks ++ .token op :: (blanks' ++ [right]))))

/-!
# What operands are made of
-/

def literalCategories : List Category :=
  .whitespace :: .singleQuoted :: .builtin :: Token.keywordCategories

theorem inLiteral_cases {t : Token} (h : inLiteral t = true) : t.category ∈ literalCategories := by
  rcases Bool.or_eq_true_iff.mp h with hrest | hunit
  · rcases Bool.or_eq_true_iff.mp hrest with hblank | hquoted
    · unfold Token.isWhitespace at hblank
      revert hblank
      cases t.category <;> decide
    · revert hquoted
      cases t.category <;> decide
  · have hkeyword := Token.isKeyword_iff.mp (Bool.and_eq_true_iff.mp hunit).1
    exact List.mem_cons_of_mem _ (List.mem_cons_of_mem _ (List.mem_cons_of_mem _ hkeyword))

theorem IsLiteral.tokens {children : List Rose} (h : (Rose.group .typedLiteral children).IsLiteral)
    {child : Rose} (hchild : child ∈ children) :
    exists token, child = .token token ∧ token.category ∈ literalCategories := by
  rcases h with ⟨word, rest, heq, hword, hrest⟩
  rw [Rose.group.injEq] at heq
  rcases heq with ⟨_, rfl⟩
  rcases List.mem_cons.mp hchild with rfl | hmem
  · have hcategory := Token.namesType_cases hword
    exact ⟨word, rfl, List.mem_cons_of_mem _ (List.mem_cons_of_mem _ hcategory)⟩
  · rcases hrest child hmem with ⟨token, rfl, htoken⟩
    exact ⟨token, rfl, inLiteral_cases htoken⟩

theorem Operand.kind_of_group {kind : GroupKind} {children : List Rose}
    (h : Operand (.group kind children)) :
    kind = .identifier ∨ kind = .typedLiteral ∨ kind = .operation := by
  cases h with
  | name hname =>
      rcases hname with ⟨_, heq, _⟩
      cases heq
      exact Or.inl rfl
  | literal hliteral =>
      rcases hliteral with ⟨_, _, heq, _⟩
      cases heq
      exact Or.inr (Or.inl rfl)
  | operation _ _ _ _ _ =>
      exact Or.inr (Or.inr rfl)

theorem Operand.simple {t : Token} (h : Operand (.token t)) : t.isSimple = true := by
  cases h with
  | token hoperand =>
      unfold Token.isSimple
      rw [hoperand]
      simp
  | name hname =>
      rcases hname with ⟨_, heq, _⟩
      cases heq
  | literal hliteral =>
      rcases hliteral with ⟨_, _, heq, _⟩
      cases heq

theorem simple_of_operates {t : Token} (h : t.operates = true) : t.isSimple = true := by
  unfold Token.isSimple
  rw [h]
  simp

theorem simple_of_isWhitespace {t : Token} (h : t.isWhitespace = true) : t.isSimple = true := by
  unfold Token.isSimple
  rw [h]
  rfl

theorem Operand.child_cases {left right : Rose} {op : Token} {blanks blanks' : List Rose}
    (hleft : Operand left) (hblanks : forall rose, rose ∈ blanks -> rose.isBlank = true)
    (hop : op.operates = true) (hblanks' : forall rose, rose ∈ blanks' -> rose.isBlank = true)
    (hright : Operand right) {child : Rose}
    (hchild : child ∈ left :: (blanks ++ .token op :: (blanks' ++ [right]))) :
    (exists t, child = .token t ∧ t.isSimple = true) ∨
      child = left ∨ child = right := by
  have hblank : forall rose : Rose, rose.isBlank = true ->
      exists t, rose = .token t ∧ t.isSimple = true := by
    intro rose hrose
    rcases exists_of_isBlank hrose with ⟨t, rfl, ht⟩
    exact ⟨t, rfl, simple_of_isWhitespace ht⟩
  rw [List.mem_cons, List.mem_append, List.mem_cons, List.mem_append, List.mem_singleton] at hchild
  rcases hchild with rfl | hmem | rfl | hmem | rfl
  · exact Or.inr (Or.inl rfl)
  · exact Or.inl (hblank child (hblanks child hmem))
  · exact Or.inl ⟨op, rfl, simple_of_operates hop⟩
  · exact Or.inl (hblank child (hblanks' child hmem))
  · exact Or.inr (Or.inr rfl)

theorem category_of_isSimple {t : Token} (h : t.isSimple = true) {category : Category}
    (hne : category ∉ .punctuation :: .keyword :: .whitespace :: .operator :: .wildcard ::
      Token.operandCategories) : t.category ≠ category := by
  rintro rfl
  apply hne
  rcases Token.isSimple_cases h with hcategory | ⟨hcategory, _⟩ | ⟨hcategory, _⟩
  · exact List.mem_cons_of_mem _ (List.mem_cons_of_mem _ hcategory)
  · rw [hcategory]
    decide
  · rw [hcategory]
    decide

theorem category_of_literal {t : Token} (h : t.category ∈ literalCategories) {category : Category}
    (hne : category ∉ literalCategories) : t.category ≠ category := by
  rintro rfl
  exact hne h

theorem isComment_of_isSimple {t : Token} (h : t.isSimple = true) : t.isComment = false := by
  unfold Token.isComment
  rcases Token.isSimple_cases h with hcategory | ⟨hcategory, _⟩ | ⟨hcategory, _⟩
  · revert hcategory
    cases t.category <;> decide
  · rw [hcategory]
    decide
  · rw [hcategory]
    decide

/-!
# Tokens of operands
-/

mutual

/-- The tokens of a rose in order. -/
def tokens : Rose -> List Token
  | .token t => [t]
  | .group _ children => tokensOf children

def tokensOf : List Rose -> List Token
  | [] => []
  | rose :: rest => rose.tokens ++ tokensOf rest

end

theorem tokensOf_append (left right : List Rose) :
    tokensOf (left ++ right) = tokensOf left ++ tokensOf right := by
  induction left with
  | nil =>
      rfl
  | cons rose rest ih =>
      rw [List.cons_append, tokensOf, tokensOf, ih, List.append_assoc]

theorem tokensOf_eq_flatMap (children : List Rose) :
    tokensOf children = children.flatMap tokens := by
  induction children with
  | nil =>
      rfl
  | cons rose rest ih =>
      rw [tokensOf, List.flatMap_cons, ih]

end Rose

theorem Tree.WellFormed.tokens_rose {tree : Tree} (h : tree.WellFormed) {id : NodeId}
    (hid : id < tree.size) : (tree.rose id).tokens = tree.tokens id := by
  induction id using h.induction_up with
  | step id ih =>
      unfold Tree.tokens
      rcases isGroup_or_token? hid with hgroup | ⟨token, htoken⟩
      · rcases isGroup_iff_kind?.mp hgroup with ⟨kind, hkind⟩
        rw [h.rose_of_kind? hkind, h.leaves_group hgroup, Rose.tokens, Rose.tokensOf_eq_flatMap,
          List.flatMap_map, List.filterMap_flatMap]
        apply List.flatMap_congr
        intro child hmem
        exact ih child hmem (h.child_lt_size hmem)
      · rw [rose_of_token? htoken, leaves_token htoken, List.filterMap_cons, htoken]
        rfl

namespace Rose

theorem Operand.joins {rose : Rose} (h : Operand rose) :
    forall t, t ∈ rose.tokens -> t.joins = true := by
  have hsimple : forall t : Token, t.isSimple = true -> t.joins = true := by
    intro t ht
    unfold Token.joins
    rw [ht]
    rfl
  induction h with
  | @token t hoperand =>
      intro other hother
      rw [Rose.tokens, List.mem_singleton] at hother
      rw [hother]
      exact hsimple t (Operand.token hoperand).simple
  | name h =>
      rcases h with ⟨children, rfl, htokens, _⟩
      intro t ht
      rw [Rose.tokens, tokensOf_eq_flatMap] at ht
      rcases List.mem_flatMap.mp ht with ⟨child, hchild, hmem⟩
      rcases htokens child hchild with ⟨other, rfl, hother⟩
      rw [Rose.tokens, List.mem_singleton] at hmem
      rw [hmem]
      exact hsimple other hother
  | literal h =>
      rcases h with ⟨word, rest, rfl, hword, hrest⟩
      intro t ht
      rw [Rose.tokens, tokensOf_eq_flatMap] at ht
      rcases List.mem_flatMap.mp ht with ⟨child, hchild, hmem⟩
      rcases List.mem_cons.mp hchild with rfl | hchild
      · rw [Rose.tokens, List.mem_singleton] at hmem
        rw [hmem]
        unfold Token.joins
        rw [hword]
        simp
      · rcases hrest child hchild with ⟨other, rfl, hother⟩
        rw [Rose.tokens, List.mem_singleton] at hmem
        rw [hmem]
        rcases Bool.or_eq_true_iff.mp hother with hquoted | hunit
        · apply hsimple
          rcases Bool.or_eq_true_iff.mp hquoted with hblank | hstring
          · exact simple_of_isWhitespace hblank
          · apply Operand.simple
            apply Operand.token
            unfold Token.isOperand
            rw [beq_iff_eq.mp hstring]
            rfl
        · unfold Token.joins
          rw [hunit]
          simp
  | operation hleft hblanks hop hblanks' hright ihleft ihright =>
      intro t ht
      rw [Rose.tokens, tokensOf_eq_flatMap] at ht
      rcases List.mem_flatMap.mp ht with ⟨child, hchild, hmem⟩
      rcases child_cases hleft hblanks hop hblanks' hright hchild with
        ⟨other, rfl, hother⟩ | rfl | rfl
      · rw [Rose.tokens, List.mem_singleton] at hmem
        rw [hmem]
        exact hsimple other hother
      · exact ihleft t hmem
      · exact ihright t hmem

theorem Operand.nests {rose : Rose} (h : Operand rose) :
    Nests (fun _ => false) (rose.tokens.countP Token.operates + 1) rose := by
  have hflat : forall kind children,
      (forall child, child ∈ children -> exists t, child = Rose.token t) ->
      forall n, Nests (fun _ => false) (n + 1) (.group kind children) := by
    intro kind children hchildren n
    apply Nests.group
    intro child hchild
    rcases hchildren child hchild with ⟨t, rfl⟩
    exact Nests.token
  induction h with
  | token _ =>
      exact Nests.token
  | name h =>
      rcases h with ⟨children, rfl, htokens, _⟩
      apply hflat
      intro child hchild
      rcases htokens child hchild with ⟨t, rfl, _⟩
      exact ⟨t, rfl⟩
  | literal h =>
      rcases id h with ⟨word, rest, rfl, _⟩
      apply hflat
      intro child hchild
      rcases h.tokens hchild with ⟨t, rfl, _⟩
      exact ⟨t, rfl⟩
  | @operation left right op blanks blanks' hleft hblanks hop hblanks' hright ihleft ihright =>
      have hcount : left.tokens.countP Token.operates + 1 + right.tokens.countP Token.operates <=
          (Rose.group .operation
            (left :: (blanks ++ .token op :: (blanks' ++ [right])))).tokens.countP
            Token.operates := by
        rw [Rose.tokens, tokensOf, tokensOf_append, tokensOf, tokensOf_append, tokensOf, tokensOf,
          Rose.tokens, List.append_nil, List.countP_append, List.countP_append, List.countP_append,
          List.countP_append, List.countP_singleton, if_pos hop]
        omega
      apply Nests.group
      intro child hchild
      rcases child_cases hleft hblanks hop hblanks' hright hchild with ⟨t, rfl, _⟩ | rfl | rfl
      · exact Nests.token
      · exact ihleft.mono (by omega)
      · exact ihright.mono (by omega)

end Rose

end SqlLayout
