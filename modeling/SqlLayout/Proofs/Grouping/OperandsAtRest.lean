import SqlLayout.Proofs.Grouping.Merging
import SqlLayout.Proofs.Grouping.Operands
import SqlLayout.Proofs.Grouping.Resting

/-!
# Operands at rest

Comments, names, typed literals and operations give most passes nothing to do:
they lack the tokens that the passes look for, or hold them where nothing fits
around them.
-/

namespace SqlLayout

open Tree

namespace Token

theorem triggers_pass_over_trivia {t : Token} (h : t.isTrivia = true)
    {pair : Survey × Trigger} (hpair : pair ∈ Survey.triggers.tail) : pair.2.token t = false := by
  have hall : Survey.triggers.tail.all (fun pair => !pair.2.token t) = true := by
    rcases t with ⟨category, value, position⟩
    have hcategory := isTrivia_cases h
    dsimp only at hcategory
    simp only [List.mem_cons, List.not_mem_nil, or_false] at hcategory
    rcases hcategory with rfl | rfl | rfl | rfl | rfl | rfl
    all_goals rfl
  simpa using List.all_eq_true.mp hall pair hpair

end Token

/-!
# Passes that find nothing in tokens, names and literals
-/

namespace Survey

variable {survey : Survey} {trigger wider : Trigger}

theorem Needs.mono (h : survey.Needs trigger)
    (htoken : forall token, trigger.token token = true -> wider.token token = true)
    (hkind : forall kind, trigger.kind kind = true -> wider.kind kind = true) :
    survey.Needs wider := by
  intro tree list idx hacts
  rcases h tree list idx hacts with ⟨id, hmem, hfires⟩
  refine ⟨id, hmem, ?_⟩
  rcases Bool.or_eq_true_iff.mp hfires with hhas | hany
  · exact Trigger.fires_of_tokenHas hhas htoken
  · rw [Option.any_eq_true] at hany
    rcases hany with ⟨kind, hsome, hp⟩
    unfold Trigger.fires
    rw [hsome, Option.any_some, hkind kind hp, Bool.or_true]

abbrev typedLiterals : Survey := ofSeeker .typedLiterals (some .typedLiteral) .typeWord

abbrev orderings : Survey := ofSeeker .orderings (some .identifier) .ordering

abbrev aliases : Survey := ofSeeker .aliases (some .identifier) .aliased

abbrev trailingComments : Survey := ofSeeker .trailingComments none .trailingComment

theorem orderings_needs_host :
    orderings.Needs { token := fun token => token.category.isA .number
                      kind := (· == .identifier) } := by
  apply needs_of_span
  intro tree list idx id span _ hspan
  rcases Seeker.ordering_span hspan with ⟨prev, other, hprev, hhost, _⟩
  refine ⟨other, List.mem_of_getElem? (prev_some hprev).2.1, ?_⟩
  rcases Bool.or_eq_true_iff.mp hhost with hkind | hnumber
  · exact Trigger.fires_of_isKind hkind rfl
  · exact Trigger.fires_of_tokenHas hnumber fun _ h => h

theorem relates_needs {rule : BinaryRule}
    (hrule : rule ∈ [BinaryRule.assignment, .comparison, .identifierList]) :
    (ofRule rule).Needs { token := Token.relates } := by
  simp only [List.mem_cons, List.not_mem_nil, or_false] at hrule
  rcases hrule with rfl | rfl | rfl
  · apply (triggers_needs (ofRule .assignment, _) (List.mem_of_getElem? (i := 15) rfl)).mono
    · intro token h
      exact Bool.or_eq_true_iff.mpr (Or.inl (Bool.or_eq_true_iff.mpr (Or.inl h)))
    · exact fun _ h => h
  · apply (triggers_needs (ofRule .comparison, _) (List.mem_of_getElem? (i := 16) rfl)).mono
    · intro token h
      exact Bool.or_eq_true_iff.mpr (Or.inl (Bool.or_eq_true_iff.mpr (Or.inr h)))
    · exact fun _ h => h
  · apply (triggers_needs (ofRule .identifierList, _) (List.mem_of_getElem? (i := 18) rfl)).mono
    · intro token h
      exact Bool.or_eq_true_iff.mpr (Or.inr h)
    · exact fun _ h => h

theorem Needs.rests_of_tokens (hneeds : survey.Needs trigger) {kind : GroupKind}
    {children : List Rose}
    (h : forall child, child ∈ children -> exists token, child = .token token ∧
      trigger.token token = false) : (Rose.group kind children).Rests survey := by
  apply Rose.Rests.group
  · apply hneeds.still
    intro child hchild
    rcases h child hchild with ⟨token, rfl, htoken⟩
    exact htoken
  · intro child hchild
    rcases h child hchild with ⟨token, rfl, _⟩
    exact Rose.Rests.token

end Survey

namespace Rose

open Survey

theorem IsComment.rests {rose : Rose} (h : rose.IsComment) {pair : Survey × Trigger}
    (hpair : pair ∈ triggers.tail) : rose.Rests pair.1 := by
  rcases h with ⟨children, rfl, hchildren⟩
  apply (triggers_needs pair (List.mem_of_mem_tail hpair)).rests_of_tokens
  intro child hchild
  rcases hchildren child hchild with ⟨token, rfl, htoken⟩
  exact ⟨token, rfl, Token.triggers_pass_over_trivia htoken hpair⟩

theorem IsComment.lacks {rose : Rose} (h : rose.IsComment) :
    rose.Lacks { token := Token.relates } := by
  rcases h with ⟨children, rfl, hchildren⟩
  apply Lacks.group rfl
  intro child hchild
  rcases hchildren child hchild with ⟨token, rfl, htoken⟩
  exact Lacks.token (Token.relates_of_isTrivia htoken)

/-!
# Names
-/

theorem not_isDot_of_category {t : Token} (h : t.category ≠ .punctuation) : t.isDot = false :=
  Token.hits_eq_false_of_ne h

theorem IsName.rests_typedLiterals {rose : Rose} (h : rose.IsName) :
    rose.Rests typedLiterals := by
  rcases h with ⟨children, rfl, htokens, hdivided⟩
  apply Rests.group
  · rintro tree list hwf rfl idx
    apply Bool.eq_false_iff.mpr
    intro hacts
    rcases exists_of_seeker_acts hacts with ⟨id, span, hchild, _, hspan⟩
    rcases Option.map_eq_some_iff.mp hspan with ⟨stop, hstop, _⟩
    unfold Pass.typedLiteralEnd? at hstop
    split at hstop
    · rename_i hword
      split at hstop
      · cases hstop
      · rename_i literal string hnext
        split at hstop
        · cases hstop
        · rename_i hstring
          rw [Bool.not_eq_true, Bool.not_eq_false'] at hstring
          rcases tokenHas_iff.mp hword with ⟨word, htoken, hnames⟩
          rcases rose_of_isCategory hstring with ⟨quoted, hrose, hquoted⟩
          rcases next_some hnext with ⟨hlt, hliteral, hcounts⟩
          have hcategory := Token.namesType_cases hnames
          have hleft : tree.isWhitespace id = false := by
            unfold isWhitespace tokenHas
            rw [htoken]
            dsimp only [Token.isWhitespace]
            revert hcategory
            cases word.category <;> decide
          have hdivider := hdivided.children hwf hchild hliteral hlt hleft
            (by simpa [isSkipped] using hcounts)
            (fun k other hi hj hother => by
              simpa [isSkipped] using next_between hnext hi hj hother)
          rw [rose_of_token? htoken, hrose, isDot, isDot, not_isDot_of_category,
            not_isDot_of_category] at hdivider
          · cases hdivider
          · rw [hquoted]
            decide
          · intro heq
            rw [heq] at hcategory
            revert hcategory
            decide
    · cases hstop
  · intro child hchild
    rcases htokens child hchild with ⟨token, rfl, _⟩
    exact Rests.token

theorem not_isDot_of_isOperatorOperand {tree : Tree} {id : NodeId} (hwf : tree.WellFormed)
    (h : BinaryRule.isOperatorOperand tree id = true) : isDot (tree.rose id) = false := by
  have htoken : forall t : Token, t.isOperand = true -> t.isDot = false := by
    intro t hoperand
    apply not_isDot_of_category
    intro heq
    rcases Token.isOperand_cases hoperand with hcategory | ⟨hcategory, _⟩
    · rw [heq] at hcategory
      revert hcategory
      decide
    · rw [heq] at hcategory
      cases hcategory
  rcases Bool.or_eq_true_iff.mp h with hrest | hkeyword
  · rcases Bool.or_eq_true_iff.mp hrest with hcategory | hkind
    · rcases rose_of_tokenHas hcategory with ⟨t, hrose, hp⟩
      rw [hrose]
      exact htoken t (Bool.or_eq_true_iff.mpr (Or.inl hp))
    · rcases hwf.rose_of_isKindIn hkind with ⟨kind, _, hrose⟩
      rw [hrose]
      rfl
  · rcases rose_of_tokenHas hkeyword with ⟨t, hrose, hp⟩
    rw [hrose]
    exact htoken t (Bool.or_eq_true_iff.mpr (Or.inr hp))

theorem IsName.rests_operator {rose : Rose} (h : rose.IsName) :
    rose.Rests (ofRule .operator) := by
  rcases h with ⟨children, rfl, htokens, hdivided⟩
  apply Rests.group
  · rintro tree list hwf rfl idx
    apply Bool.eq_false_iff.mpr
    intro hacts
    change BinaryRule.operator.acts tree list idx = true at hacts
    unfold BinaryRule.acts at hacts
    split at hacts
    · rename_i id hchild
      rw [Bool.and_eq_true, Bool.and_eq_true] at hacts
      rcases hacts with ⟨⟨hcounts, hop⟩, hspan⟩
      rcases Option.isSome_iff_exists.mp hspan with ⟨⟨start, stop⟩, hsome⟩
      rcases BinaryRule.span?_accepts hsome with ⟨before, left, hprev, hleft, haccepts, _⟩
      rcases Option.map_eq_some_iff.mp hprev with ⟨⟨place, other⟩, hfound, heq⟩
      dsimp only at heq
      subst heq
      rcases prev_some hfound with ⟨hlt, hother, hleftCounts⟩
      rw [hleft, Option.some.injEq] at hother
      subst hother
      have hdivider := hdivided.children hwf hleft hchild hlt
        (by simpa [isSkipped] using hleftCounts) (by simpa using hcounts)
        (fun k other hi hj hother => by
          simpa [isSkipped] using prev_between hfound hi hj hother)
      have hdot : isDot (tree.rose id) = false := by
        rcases Bool.or_eq_true_iff.mp hop with hoperator | hwildcard
        · rcases rose_of_isCategory hoperator with ⟨t, hrose, hcategory⟩
          rw [hrose]
          apply not_isDot_of_category
          rw [hcategory]
          decide
        · rcases rose_of_isCategory hwildcard with ⟨t, hrose, hcategory⟩
          rw [hrose]
          apply not_isDot_of_category
          rw [hcategory]
          decide
      rw [not_isDot_of_isOperatorOperand hwf haccepts, hdot] at hdivider
      cases hdivider
    · cases hacts
  · intro child hchild
    rcases htokens child hchild with ⟨token, rfl, _⟩
    exact Rests.token

/-!
# Literals
-/

theorem IsLiteral.still {children : List Rose}
    (h : (Rose.group .typedLiteral children).IsLiteral) {survey : Survey} {trigger : Trigger}
    (hneeds : survey.Needs trigger)
    (htoken : forall t : Token, t.category ∈ literalCategories -> trigger.token t = false) :
    survey.Still children := by
  apply hneeds.still
  intro child hchild
  rcases h.tokens hchild with ⟨token, rfl, hcategory⟩
  exact htoken token hcategory

theorem IsLiteral.still_aliasWithAs {children : List Rose}
    (h : (Rose.group .typedLiteral children).IsLiteral) : (ofRule .aliasWithAs).Still children := by
  rcases h with ⟨word, rest, heq, _, hrest⟩
  rw [Rose.group.injEq] at heq
  rcases heq with ⟨_, rfl⟩
  intro tree list hwf hchildren idx
  apply Bool.eq_false_iff.mpr
  intro hacts
  change BinaryRule.aliasWithAs.acts tree list idx = true at hacts
  unfold BinaryRule.acts at hacts
  split at hacts
  · rename_i id hchild
    rw [Bool.and_eq_true, Bool.and_eq_true] at hacts
    rcases hacts with ⟨⟨_, hop⟩, hspan⟩
    rcases Option.isSome_iff_exists.mp hspan with ⟨⟨start, stop⟩, hsome⟩
    rcases BinaryRule.span?_accepts hsome with ⟨before, left, hprev, _⟩
    rcases Option.map_eq_some_iff.mp hprev with ⟨⟨place, other⟩, hfound, _⟩
    have hlt := (prev_some hfound).1
    have hget := getElem?_roses hchild
    rw [hchildren, show idx = idx - 1 + 1 by omega, List.getElem?_cons_succ] at hget
    rcases hrest _ (List.mem_of_getElem? hget) with ⟨token, hrose, htoken⟩
    have hsome := hwf.token?_of_rose (hwf.child_lt_size (List.mem_of_getElem? hchild)) hrose
    rcases Bool.and_eq_true_iff.mp hop with ⟨hkeyword, hword⟩
    unfold isKeyword tokenHas at hkeyword
    unfold normalized at hword
    rw [hsome] at hkeyword hword
    dsimp only at hkeyword hword
    rcases Bool.or_eq_true_iff.mp htoken with hquoted | hunit
    · have hcategory := Token.isKeyword_iff.mp hkeyword
      unfold Token.isWhitespace at hquoted
      revert hquoted hcategory
      cases token.category <;> decide
    · have hnormalized := (Bool.and_eq_true_iff.mp hunit).2
      rw [beq_iff_eq.mp hword] at hnormalized
      revert hnormalized
      decide
  · cases hacts

/-!
# Operations
-/

/-- A pass that looks for some sort of tokens finds nothing among the children of
an operation if it finds nothing among simple tokens. -/
theorem Operand.still_of_simple {survey : Survey} {trigger : Trigger}
    (hneeds : survey.Needs trigger) (hkind : forall kind, trigger.kind kind = false)
    (htoken : forall t : Token, t.isSimple = true -> trigger.token t = false)
    {left right : Rose} {op : Token} {blanks blanks' : List Rose}
    (hleft : Operand left) (hblanks : forall rose, rose ∈ blanks -> rose.isBlank = true)
    (hop : op.operates = true) (hblanks' : forall rose, rose ∈ blanks' -> rose.isBlank = true)
    (hright : Operand right) :
    survey.Still (left :: (blanks ++ .token op :: (blanks' ++ [right]))) := by
  have hoperand : forall rose : Rose, Operand rose -> rose.sets trigger = false := by
    intro rose hrose
    cases rose with
    | token t =>
        exact htoken t hrose.simple
    | group kind children =>
        exact hkind kind
  apply hneeds.still
  intro child hchild
  rcases child_cases hleft hblanks hop hblanks' hright hchild with ⟨t, rfl, ht⟩ | rfl | rfl
  · exact htoken t ht
  · exact hoperand _ hleft
  · exact hoperand _ hright

/-- A pass that does not look into identifiers rests on operands if it acts in no
literal and in no operation. -/
theorem Operand.rests {survey : Survey} (hname : survey.opensKind .identifier = false)
    (hliteral : forall children, (Rose.group .typedLiteral children).IsLiteral ->
      survey.Still children)
    (hoperation : forall left right op blanks blanks', Operand left ->
      (forall rose, rose ∈ blanks -> rose.isBlank = true) -> op.operates = true ->
      (forall rose, rose ∈ blanks' -> rose.isBlank = true) -> Operand right ->
      survey.Still (left :: (blanks ++ .token op :: (blanks' ++ [right]))))
    {rose : Rose} (h : Operand rose) : rose.Rests survey := by
  induction h with
  | token _ =>
      exact Rests.token
  | name h =>
      rcases h with ⟨children, rfl, _⟩
      exact Rests.closed hname
  | literal h =>
      rcases id h with ⟨word, rest, rfl, _⟩
      apply Rests.group (hliteral _ h)
      intro child hchild
      rcases h.tokens hchild with ⟨token, rfl, _⟩
      exact Rests.token
  | operation hleft hblanks hop hblanks' hright ihleft ihright =>
      apply Rests.group (hoperation _ _ _ _ _ hleft hblanks hop hblanks' hright)
      intro child hchild
      rcases child_cases hleft hblanks hop hblanks' hright hchild with ⟨t, rfl, _⟩ | rfl | rfl
      · exact Rests.token
      · exact ihleft
      · exact ihright

theorem Operand.lacks {trigger : Trigger}
    (hkind : trigger.kind .identifier = false ∧ trigger.kind .typedLiteral = false ∧
      trigger.kind .operation = false)
    (hsimple : forall t : Token, t.isSimple = true -> trigger.token t = false)
    (hliteral : forall t : Token, t.category ∈ literalCategories -> trigger.token t = false)
    {rose : Rose} (h : Operand rose) : rose.Lacks trigger := by
  induction h with
  | token hoperand =>
      exact Lacks.token (hsimple _ (Operand.token hoperand).simple)
  | name h =>
      rcases h with ⟨children, rfl, htokens, _⟩
      apply Lacks.group hkind.1
      intro child hchild
      rcases htokens child hchild with ⟨t, rfl, ht⟩
      exact Lacks.token (hsimple t ht)
  | literal h =>
      rcases id h with ⟨word, rest, rfl, _⟩
      apply Lacks.group hkind.2.1
      intro child hchild
      rcases h.tokens hchild with ⟨t, rfl, ht⟩
      exact Lacks.token (hliteral t ht)
  | operation hleft hblanks hop hblanks' hright ihleft ihright =>
      apply Lacks.group hkind.2.2
      intro child hchild
      rcases child_cases hleft hblanks hop hblanks' hright hchild with ⟨t, rfl, ht⟩ | rfl | rfl
      · exact Lacks.token (hsimple t ht)
      · exact ihleft
      · exact ihright

/-!
# Passes that find nothing in operands
-/

namespace Operand

variable {rose : Rose} (h : Operand rose)
include h

theorem rests_orderings : rose.Rests orderings := by
  apply h.rests rfl
  · intro children hliteral
    apply hliteral.still orderings_needs_host
    intro t hcategory
    dsimp only
    revert hcategory
    cases t.category <;> decide
  · intro left right op blanks blanks' hleft hblanks hop hblanks' hright
    apply still_of_simple (triggers_needs (orderings, _) (List.mem_of_getElem? (i := 11) rfl))
      (fun _ => rfl) _ hleft hblanks hop hblanks' hright
    intro t hsimple
    exact beq_eq_false_iff_ne.mpr (category_of_isSimple hsimple (by decide))

theorem rests_typecast : rose.Rests (ofRule .typecast) := by
  have hneeds := triggers_needs (ofRule .typecast, _) (List.mem_of_getElem? (i := 12) rfl)
  apply h.rests rfl
  · intro children hliteral
    apply hliteral.still hneeds
    intro t hcategory
    exact Token.hits_eq_false_of_ne (category_of_literal hcategory (by decide))
  · intro left right op blanks blanks' hleft hblanks hop hblanks' hright
    apply still_of_simple hneeds (fun _ => rfl) _ hleft hblanks hop hblanks' hright
    intro t hsimple
    rcases Token.isSimple_cases hsimple with hcategory | ⟨hcategory, _⟩ | ⟨hcategory, hvalue⟩
    · apply Token.hits_eq_false_of_ne
      dsimp only
      rintro heq
      rw [heq] at hcategory
      revert hcategory
      decide
    · apply Token.hits_eq_false_of_ne
      rw [hcategory]
      decide
    · rcases t with ⟨category, value, position⟩
      dsimp only at hcategory hvalue
      rw [hcategory, hvalue]
      rfl

theorem rests_aliasWithAs : rose.Rests (ofRule .aliasWithAs) := by
  apply h.rests rfl
  · intro children hliteral
    exact hliteral.still_aliasWithAs
  · intro left right op blanks blanks' hleft hblanks hop hblanks' hright
    apply still_of_simple
      (triggers_needs (ofRule .aliasWithAs, _) (List.mem_of_getElem? (i := 13) rfl))
      (fun _ => rfl) _ hleft hblanks hop hblanks' hright
    intro t hsimple
    apply Bool.eq_false_iff.mpr
    intro has
    rcases Bool.and_eq_true_iff.mp has with ⟨hkeyword, hword⟩
    have hcategory := Token.isKeyword_iff.mp hkeyword
    rcases Token.isSimple_cases hsimple with hother | ⟨_, hne⟩ | ⟨hother, _⟩
    · revert hcategory hother
      cases t.category <;> decide
    · exact hne (beq_iff_eq.mp hword)
    · rw [hother] at hcategory
      revert hcategory
      decide

theorem lacks_relates : rose.Lacks { token := Token.relates } := by
  apply h.lacks ⟨rfl, rfl, rfl⟩
  · intro t hsimple
    apply Token.relates_of_joins
    unfold Token.joins
    rw [hsimple]
    rfl
  · intro t hcategory
    exact Token.relates_eq_false_of_category (category_of_literal hcategory (by decide))
      (category_of_literal hcategory (by decide)) (category_of_literal hcategory (by decide))

theorem rests_trailingComments : rose.Rests trailingComments := by
  apply (triggers_needs (trailingComments, _) (List.mem_of_getElem? (i := 17) rfl)).rests
  exact h.lacks ⟨rfl, rfl, rfl⟩ (fun _ _ => rfl) fun _ _ => rfl

end Operand

/-!
# Aliases
-/

theorem Operand.not_isComment {tree : Tree} (hwf : tree.WellFormed) {id : NodeId}
    (hid : id < tree.size)
    (h : (exists t, tree.rose id = .token t ∧ t.isSimple = true) ∨ Operand (tree.rose id)) :
    tree.isComment id = false := by
  unfold isComment
  rcases isGroup_or_token? hid with hgroup | ⟨token, htoken⟩
  · rcases isGroup_iff_kind?.mp hgroup with ⟨kind, hkind⟩
    rw [tokenHas_of_isGroup hgroup, Bool.or_false, isKind, hkind]
    rw [hwf.rose_of_kind? hkind] at h
    rcases h with ⟨t, heq, _⟩ | hoperand
    · cases heq
    · rcases hoperand.kind_of_group with rfl | rfl | rfl <;> rfl
  · rw [rose_of_token? htoken] at h
    have hsimple : token.isSimple = true := by
      rcases h with ⟨t, heq, ht⟩ | hoperand
      · cases heq
        exact ht
      · exact hoperand.simple
    have hkind : tree.isKind id .comment = false := by
      apply Bool.eq_false_iff.mpr
      intro hcomment
      have hgroup := isGroup_of_token? htoken
      rw [isGroup, beq_iff_eq.mp hcomment] at hgroup
      cases hgroup
    rw [hkind, tokenHas, htoken]
    exact isComment_of_isSimple hsimple

theorem not_isOperator_of_isAliasable {tree : Tree} (hwf : tree.WellFormed) {id : NodeId}
    (h : Pass.isAliasable tree id = true) : isOperator (tree.rose id) = false := by
  rcases Bool.or_eq_true_iff.mp h with hkind | hnumber
  · rcases hwf.rose_of_isKindIn hkind with ⟨kind, _, hrose⟩
    rw [hrose]
    rfl
  · rcases rose_of_tokenHas hnumber with ⟨t, hrose, hp⟩
    rw [hrose, isOperator, Token.operates]
    revert hp
    cases t.category <;> decide

theorem Operand.still_aliases {left right : Rose} {op : Token} {blanks blanks' : List Rose}
    (hleft : Operand left) (hblanks : forall rose, rose ∈ blanks -> rose.isBlank = true)
    (hop : op.operates = true) (hblanks' : forall rose, rose ∈ blanks' -> rose.isBlank = true)
    (hright : Operand right) :
    aliases.Still (left :: (blanks ++ .token op :: (blanks' ++ [right]))) := by
  have hcounts : (Rose.token op).isBlank = false := by
    unfold Token.operates at hop
    change op.category.isWhitespace = false
    revert hop
    cases op.category <;> decide
  have hdivided : Divided isOperator (left :: (blanks ++ .token op :: (blanks' ++ [right]))) :=
    (divided_singleton left).append hblanks hop hcounts (Or.inr ⟨blanks', right, rfl, hblanks'⟩)
  intro tree list hwf hchildren idx
  apply Bool.eq_false_iff.mpr
  intro hacts
  rcases exists_of_seeker_acts hacts with ⟨id, span, hchild, haccepts, hspan⟩
  rcases Seeker.aliased_span hspan with ⟨place, other, hnext, hkind, _⟩
  rcases next_some hnext with ⟨hlt, hother, hskipped⟩
  have hcomment : forall {k below}, tree.child? list k = some below ->
      tree.isComment below = false := by
    intro k below hbelow
    have hmem : below ∈ tree.children list := List.mem_of_getElem? hbelow
    have hrose := List.mem_map_of_mem (f := tree.rose) hmem
    rw [hchildren] at hrose
    apply not_isComment hwf (hwf.child_lt_size hmem)
    rcases child_cases hleft hblanks hop hblanks' hright hrose with hsimple | heq | heq
    · exact Or.inl hsimple
    · exact Or.inr (heq ▸ hleft)
    · exact Or.inr (heq ▸ hright)
  have hidCounts : tree.isWhitespace id = false := by
    rcases Bool.or_eq_true_iff.mp haccepts with hkind | hnumber
    · rcases hwf.rose_of_isKindIn hkind with ⟨kind, _, hrose⟩
      rw [← hwf.isBlank_rose (hwf.child_lt_size (List.mem_of_getElem? hchild)), hrose]
      rfl
    · rcases rose_of_tokenHas hnumber with ⟨t, hrose, hp⟩
      rw [← hwf.isBlank_rose (hwf.child_lt_size (List.mem_of_getElem? hchild)), hrose]
      change t.category.isWhitespace = false
      revert hp
      cases t.category <;> decide
  have hotherCounts : tree.isWhitespace other = false := by
    simp only [isSkipped, Bool.true_and, Bool.or_eq_false_iff] at hskipped
    exact hskipped.1
  rw [← hchildren] at hdivided
  have hdivider := hdivided.children hwf hchild hother hlt hidCounts hotherCounts
    (fun k below hi hj hbelow => by
      have hpassed := next_between hnext hi hj hbelow
      simpa [isSkipped, hcomment hbelow] using hpassed)
  rw [not_isOperator_of_isAliasable hwf haccepts, hwf.rose_of_isKind hkind] at hdivider
  cases hdivider

theorem Operand.rests_aliases {rose : Rose} (h : Operand rose) : rose.Rests aliases := by
  apply h.rests rfl
  · intro children hliteral
    exact hliteral.still (triggers_needs (aliases, _) (List.mem_of_getElem? (i := 14) rfl))
      fun _ _ => rfl
  · intro left right op blanks blanks' hleft hblanks hop hblanks' hright
    exact still_aliases hleft hblanks hop hblanks' hright

end Rose

end SqlLayout
