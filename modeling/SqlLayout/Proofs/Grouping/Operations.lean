import SqlLayout.Proofs.Grouping.Sweeps

/-!
# From tokens to operations

The passes up to the one that makes operations: comments, qualified names, typed
literals, and operators between operands.  Where nothing is opened, the passes for
brackets, calls and blocks find nothing.
-/

namespace SqlLayout

open Tree

namespace Pass

open Rose

variable {limit : Nat}

/-!
# Comments
-/

theorem comments_stage {allowed : Token -> Prop} (hlimit : 0 < limit) :
    Lead limit (fun rose => exists t, rose = .token t ∧ allowed t)
      (fun rose => (exists t, rose = .token t ∧ allowed t ∧ t.isComment = false) ∨
        rose.IsComment ∧ exists t, t ∈ rose.tokens ∧ t.isComment = true) [Pass.comments] := by
  have hregular : (Survey.ofSeeker .comments (some .comment) .comment).Regular :=
    Survey.regular_ofSeeker Seeker.comments_plan (fun _ _ => rfl) (fun _ _ => rfl)
      (List.mem_of_getElem? (i := 0) rfl)
  refine lead_of_rests hregular ?_ 0 ?_ hlimit ?_
  · rintro rose ⟨t, rfl, _⟩
    exact Rests.token
  · rintro rose ⟨t, rfl, _⟩
    exact Nests.token
  · intro tree after list hwf hstands hwalk
    refine Seeker.walks_turn Seeker.comments_plan hregular.sound ?_ ?_ ?_ hwf hstands.1 hstands.2
      hwalk
    · intro tree list idx id span next hspan
      cases hspan
      exact ⟨rfl, rfl⟩
    · rintro tree idx id hwf hchild hrefused ⟨t, hrose, ht⟩
      have htoken := hwf.token?_of_rose (hwf.child_lt_size (List.mem_of_getElem? hchild)) hrose
      refine Or.inl ⟨t, hrose, ht, Bool.eq_false_iff.mpr ?_⟩
      intro hcomment
      have haccepts : tree.isA id .comment = true := tokenHas_iff.mpr ⟨t, htoken, hcomment⟩
      cases hrefused haccepts
    · intro tree left id rest back span next group hwf hroses hchild haccepts hspan hstop _ hmerged
      cases hspan
      have htoken : forall {idx below}, left.length <= idx -> idx <= left.length + rest.length ->
          tree.child? list idx = some below ->
          exists t, tree.rose below = .token t ∧ t.isTrivia = true := by
        intro idx below hle hend hbelow
        rw [hstop] at hend
        exact rose_of_tokenHas
          (tokenHas_isTrivia_of_run (commentRunEnd_run haccepts hchild hle hend hbelow))
      cases hmerged with
      | wrapped _ =>
          refine Or.inr ⟨⟨_, rfl, ?_⟩, ?_⟩
          · intro child hmem
            rcases List.mem_cons.mp hmem with rfl | hmem
            · exact htoken (Nat.le_refl _) (Nat.le_add_right _ _) hchild
            · rcases exists_child_of_mem_rest hroses hmem with ⟨idx, below, hlt, hle, hbelow, rfl⟩
              exact htoken (Nat.le_of_lt hlt) hle hbelow
          · rcases rose_of_tokenHas haccepts with ⟨t, hrose, ht⟩
            refine ⟨t, ?_, ht⟩
            rw [Rose.tokens, tokensOf, hrose]
            exact List.mem_cons_self
      | absorbed hextend _ =>
          cases hextend

theorem comments_lead (hlimit : 1 < limit) :
    Lead limit (fun rose => exists t, rose = .token t ∧ t.OpensNone)
      (Item Token.OpensNone fun _ => False) [Pass.comments] := by
  refine (comments_stage (Nat.lt_of_succ_lt hlimit)).mono (fun _ h => h) ?_
  rintro rose (⟨t, rfl, ht, _⟩ | ⟨hcomment, _⟩)
  · exact Item.token ht
  · exact Item.comment hcomment

/-!
# Brackets, calls and blocks
-/

/-- Nothing is opened, and there is nothing in parentheses that could be the
arguments of a call. -/
theorem openings_lead (hlimit : 1 < limit) :
    Lead limit (Item Token.OpensNone fun _ => False) (Item Token.OpensNone fun _ => False)
      [Pass.pairs .squareBrackets, Pass.pairs .parenthesis, Pass.functions, Pass.whereClauses,
        Pass.pairs .caseBlock] := by
  have hidle : forall (i : Nat) (pair : Survey × Trigger), Survey.triggers.tail[i]? = some pair ->
      pair.2.kind .comment = false ->
      (forall t : Token, t.OpensNone -> pair.2.token t = false) ->
      Lead limit (Item Token.OpensNone fun _ => False) (Item Token.OpensNone fun _ => False)
        [pair.1.pass] := by
    intro i pair hget hcomment htoken
    have hmem := List.mem_of_getElem? hget
    refine lead_of_lacks pair (List.mem_of_mem_tail hmem) ?_ 1
      (fun rose hrose => hrose.nests fun _ h => h.elim) hlimit
    intro rose hrose
    cases hrose with
    | token ht =>
        exact Lacks.token (htoken _ ht)
    | comment h =>
        exact h.lacks_trigger hmem hcomment
    | operand h =>
        cases h
  exact lead_append (hidle 0 _ rfl rfl fun t ht => ht .squareBrackets) <|
    lead_append (hidle 1 _ rfl rfl fun t ht => ht .parenthesis) <|
    lead_append (hidle 2 _ rfl rfl fun _ _ => rfl) <|
    lead_append (hidle 3 _ rfl rfl fun t ht => ht .whereClause) <|
    hidle 4 _ rfl rfl fun t ht => ht .caseBlock

/-!
# Names
-/

theorem simple_of_category {t : Token} (h : t.category ∈ .wildcard :: Token.operandCategories) :
    t.isSimple = true := by
  rcases List.mem_cons.mp h with hwildcard | hoperand
  · apply simple_of_operates
    unfold Token.operates
    rw [hwildcard]
    rfl
  · have hany : BinaryRule.operandCategories.any t.category.isA = true := by
      revert hoperand
      cases t.category <;> decide
    unfold Token.isSimple Token.isOperand
    rw [hany]
    simp

theorem simple_of_isAIn {tree : Tree} {id : NodeId}
    (h : tree.isAIn id [.name, .doubleQuoted, .wildcard, .singleQuoted] = true) :
    exists t, tree.rose id = .token t ∧ t.isSimple = true := by
  rcases rose_of_tokenHas h with ⟨t, hrose, hp⟩
  refine ⟨t, hrose, simple_of_category ?_⟩
  revert hp
  cases t.category <;> decide

theorem behind_dot {tree : Tree} {list : NodeId} {left op : Rose} {blanks behind : List Rose}
    (hwf : tree.WellFormed) (hsite : BinaryRule.period.Site tree list left blanks op behind)
    (htodo : forall rose, rose ∈ behind -> Item (fun _ => True) (fun _ => False) rose) :
    behind = [] ∨ exists blanks' t, behind = blanks' ++ [Rose.token t] ∧ t.isSimple = true ∧
      forall rose, rose ∈ blanks' -> rose.isBlank = true := by
  rcases hsite.span with ⟨front, back, idx, hroses, hidx, _, hspan⟩
  unfold BinaryRule.period at hspan
  dsimp only at hspan
  have hnone : idx = idx + behind.length -> behind = [] := fun heq =>
    List.eq_nil_of_length_eq_zero (by omega)
  cases hnext : tree.next list idx true with
  | none =>
      rw [hnext] at hspan
      exact Or.inl (hnone (Prod.mk.inj hspan).2)
  | some found =>
      rcases found with ⟨place, id⟩
      rw [hnext, Option.map_some] at hspan
      dsimp only at hspan
      rw [(next_some hnext).2.1] at hspan
      dsimp only at hspan
      have hstop := (Prod.mk.inj hspan).2
      split at hstop
      · rename_i hqualified
        rw [hstop] at hnext
        rcases BinaryRule.behind_of_next hwf hroses hidx hnext with ⟨blanks', rfl, hblanks⟩
        right
        rcases Bool.or_eq_true_iff.mp hqualified with hkind | hcategory
        · rcases hwf.rose_of_isKindIn hkind with ⟨kind, hmem, hrose⟩
          have hitem := htodo (tree.rose id) (by simp)
          rw [hrose] at hitem
          cases hitem with
          | comment hcomment =>
              rcases hcomment with ⟨children, heq, _⟩
              cases heq
              exact absurd hmem (by decide)
          | operand h =>
              cases h
        · rcases simple_of_isAIn hcategory with ⟨t, hrose, hsimple⟩
          exact ⟨blanks', t, by rw [hrose], hsimple, hblanks⟩
      · exact Or.inl (hnone hstop)

theorem isName_append {inner blanks behind : List Rose} {op : Token}
    (htokens : forall child, child ∈ inner -> exists t, child = Rose.token t ∧ t.isSimple = true)
    (hdivided : Divided Rose.isDot inner)
    (hblanks : forall rose, rose ∈ blanks -> rose.isBlank = true) (hop : op.isDot = true)
    (hbehind : behind = [] ∨ exists blanks' t, behind = blanks' ++ [Rose.token t] ∧
      t.isSimple = true ∧ forall rose, rose ∈ blanks' -> rose.isBlank = true) :
    (Rose.group .identifier (inner ++ (blanks ++ .token op :: behind))).IsName := by
  have hblank : forall rose : Rose, rose.isBlank = true ->
      exists t, rose = .token t ∧ t.isSimple = true := by
    intro rose hrose
    rcases exists_of_isBlank hrose with ⟨t, rfl, ht⟩
    exact ⟨t, rfl, simple_of_isWhitespace ht⟩
  refine ⟨_, rfl, ?_, ?_⟩
  · intro child hchild
    rw [List.mem_append, List.mem_append, List.mem_cons] at hchild
    rcases hchild with hmem | hmem | rfl | hmem
    · exact htokens child hmem
    · exact hblank child (hblanks child hmem)
    · refine ⟨op, rfl, ?_⟩
      unfold Token.isSimple
      rw [hop, Bool.or_true]
    · rcases hbehind with rfl | ⟨blanks', t, rfl, hsimple, hblanks'⟩
      · cases hmem
      · rcases List.mem_append.mp hmem with hmem | hmem
        · exact hblank child (hblanks' child hmem)
        · exact ⟨t, List.mem_singleton.mp hmem, hsimple⟩
  · have hdivides : Rose.isDot (.token op) = true := hop
    apply hdivided.append hblanks hdivides
    · change op.category.isWhitespace = false
      rw [(Token.isDot_iff.mp hop).1]
      rfl
    · rcases hbehind with hnil | ⟨blanks', t, heq, _, hblanks'⟩
      · exact Or.inl hnil
      · exact Or.inr ⟨blanks', _, heq, hblanks'⟩

theorem period_lead (hlimit : 1 < limit) :
    Lead limit (Item (fun _ => True) fun _ => False) (Item (fun _ => True) IsName)
      [Pass.binary .period] := by
  have hregular : (Survey.ofRule .period).Regular :=
    Survey.regular_ofRule (List.mem_of_getElem? (i := 6) rfl)
  have hsub : forall rose, Item (fun _ => True) (fun _ => False) rose ->
      Item (fun _ => True) IsName rose :=
    fun rose h => h.mono (fun _ h => h) fun _ h => h.elim
  refine lead_of_rests hregular ?_ 1 ?_ hlimit ?_
  · intro rose h
    exact Item.rests (Survey.ofRule .period, _) (List.mem_of_getElem? (i := 5) rfl)
      (fun _ h => h.elim) h
  · exact fun rose h => h.nests fun _ h => h.elim
  · intro tree after list hwf hstands hwalk
    refine BinaryRule.walks_done BinaryRule.period_sound hsub ?_ hregular.sound hwf hstands.1
      hstands.2 hwalk
    intro tree left blanks op behind group hwf hsite hleft hop hbehind hmerged
    have hpart := behind_dot hwf hsite hbehind
    rcases hsite.isOp with ⟨opId, hopMem, hopRose, hdot⟩
    rcases rose_of_tokenHas hdot with ⟨dot, hdotRose, hisDot⟩
    rw [hopRose] at hdotRose
    subst hdotRose
    rw [BinaryRule.retagged_of_none rfl] at hmerged
    apply Item.operand
    rcases hsite.acceptsPrev with ⟨id, _, hrose, haccepts⟩
    have hstart : (exists t, left = Rose.token t ∧ t.isSimple = true) ∨ left.IsName := by
      rcases Bool.or_eq_true_iff.mp haccepts with hkind | hcategory
      · rcases hwf.rose_of_isKindIn hkind with ⟨kind, hmem, hgroup⟩
        rw [hrose] at hgroup
        cases hleft with
        | token _ =>
            cases hgroup
        | comment hcomment =>
            rcases hcomment with ⟨children, heq, _⟩
            rw [heq, Rose.group.injEq] at hgroup
            rw [← hgroup.1] at hmem
            exact absurd hmem (by decide)
        | operand h =>
            exact Or.inr h
      · left
        rw [← hrose]
        rcases rose_of_tokenHas hcategory with ⟨t, hrose, hp⟩
        refine ⟨t, hrose, simple_of_category ?_⟩
        revert hp
        cases t.category <;> decide
    cases hmerged with
    | wrapped hother =>
        rcases hstart with ⟨t, rfl, hsimple⟩ | ⟨children, rfl, _⟩
        · refine @isName_append [.token t] blanks behind dot ?_ (divided_singleton _) hsite.isBlank
            hisDot hpart
          intro child hchild
          exact ⟨t, List.mem_singleton.mp hchild, hsimple⟩
        · exact absurd rfl (hother rfl children)
    | absorbed _ heq =>
        rcases hstart with ⟨t, rfl, _⟩ | ⟨children, rfl, htokens, hdivided⟩
        · cases heq
        · cases heq
          exact isName_append htokens hdivided hsite.isBlank hisDot hpart

theorem subscript_lead (hlimit : 1 < limit) :
    Lead limit (Item (fun _ => True) IsName) (Item (fun _ => True) IsName)
      [Pass.binary .subscript] := by
  refine lead_of_lacks (Survey.ofRule .subscript, _) (List.mem_of_getElem? (i := 7) rfl)
    ?_ 1 (fun rose h => h.nests fun _ h => h.nests) hlimit
  intro rose hrose
  cases hrose with
  | token _ =>
      exact Lacks.token rfl
  | comment h =>
      exact h.lacks_trigger (List.mem_of_getElem? (i := 6) rfl) rfl
  | operand h =>
      rcases h with ⟨children, rfl, htokens, _⟩
      apply Lacks.group rfl
      intro child hchild
      rcases htokens child hchild with ⟨t, rfl, _⟩
      exact Lacks.token rfl

theorem identifiers_stage {p : Rose -> Prop} {room : Nat}
    (hrests : forall rose, p rose ->
      rose.Rests (Survey.ofSeeker .identifiers (some .identifier) .name))
    (hnests : forall rose, p rose -> Nests (fun _ => false) room rose) (hroom : room < limit) :
    Lead limit p
      (fun rose => p rose ∧ (forall t, rose = .token t -> t.category ≠ .name) ∨
        exists t, rose = .group .identifier [.token t] ∧ p (.token t) ∧
          (t.category = .name ∨ t.category = .doubleQuoted)) [Pass.identifiers] := by
  have hregular : (Survey.ofSeeker .identifiers (some .identifier) .name).Regular :=
    Survey.regular_ofSeeker Seeker.identifiers_plan (fun _ _ => rfl) (fun _ _ => rfl)
      (List.mem_of_getElem? (i := 8) rfl)
  have hspan : forall (tree : Tree) list idx id,
      Seeker.name.span? tree list idx id =
        if tree.isCategory id .name || tree.isCategory id .doubleQuoted then
          some (⟨.identifier, idx, idx, false⟩, idx + 1)
        else none :=
    fun _ _ _ _ => rfl
  refine lead_of_rests hregular hrests room hnests hroom ?_
  intro tree after list hwf hstands hwalk
  refine Seeker.walks_turn Seeker.identifiers_plan hregular.sound ?_ ?_ ?_ hwf hstands.1 hstands.2
    hwalk
  · intro tree list idx id span next hfound
    rw [hspan] at hfound
    split at hfound
    · cases hfound
      exact ⟨rfl, rfl⟩
    · cases hfound
  · intro tree idx id hwf hchild hrefused htodo
    refine Or.inl ⟨htodo, fun t hrose ht => ?_⟩
    have hid := hwf.child_lt_size (List.mem_of_getElem? hchild)
    have hname : tree.isCategory id .name = true :=
      isCategory_iff.mpr ⟨t, hwf.token?_of_rose hid hrose, ht⟩
    have hnone := hrefused rfl
    rw [hspan, hname, Bool.true_or, if_pos rfl] at hnone
    cases hnone
  · intro tree left id rest back span next group hwf hroses hchild _ hfound hstop htodo hmerged
    rw [hspan] at hfound
    split at hfound
    · rename_i hname
      cases hfound
      have hnil : rest = [] := List.eq_nil_of_length_eq_zero (by dsimp only at hstop; omega)
      subst hnil
      cases hmerged with
      | wrapped _ =>
          have hcategory : exists t, tree.rose id = .token t ∧
              (t.category = .name ∨ t.category = .doubleQuoted) := by
            rcases Bool.or_eq_true_iff.mp hname with hname | hquoted
            · rcases rose_of_isCategory hname with ⟨t, hrose, ht⟩
              exact ⟨t, hrose, Or.inl ht⟩
            · rcases rose_of_isCategory hquoted with ⟨t, hrose, ht⟩
              exact ⟨t, hrose, Or.inr ht⟩
          rcases hcategory with ⟨t, hrose, ht⟩
          rw [hrose] at htodo ⊢
          exact Or.inr ⟨t, rfl, htodo, ht⟩
      | absorbed hextend _ =>
          cases hextend
    · cases hfound

theorem identifiers_lead (hlimit : 1 < limit) :
    Lead limit (Item (fun _ => True) IsName) (Item (fun _ => True) IsName) [Pass.identifiers] := by
  refine (identifiers_stage ?_ (fun rose h => h.nests fun _ h => h.nests) hlimit).mono
    (fun _ h => h) ?_
  · intro rose h
    refine Item.rests (Survey.ofSeeker .identifiers _ _, _)
      (List.mem_of_getElem? (i := 7) rfl) ?_ h
    rintro _ ⟨children, rfl, _⟩
    exact Rests.closed rfl
  · rintro rose (⟨h, _⟩ | ⟨t, rfl, _, ht⟩)
    · exact h
    · refine Item.operand ⟨[.token t], rfl, ?_, divided_singleton _⟩
      intro child hchild
      refine ⟨t, List.mem_singleton.mp hchild, simple_of_category ?_⟩
      rcases ht with hname | hquoted
      · rw [hname]
        decide
      · rw [hquoted]
        decide

/-!
# Typed literals
-/

theorem inLiteral_of_typedLiteralEnd? {tree : Tree} {list id : NodeId} {idx stop : Nat}
    (h : typedLiteralEnd? tree list idx id = some stop) {place : Nat} {below : NodeId}
    (hlt : idx < place) (hle : place <= stop) (hbelow : tree.child? list place = some below) :
    exists t, tree.rose below = .token t ∧ inLiteral t = true := by
  have hblank : forall {start upTo : Nat} {other : NodeId},
      tree.next list start true = some (upTo, other) -> start < place -> place < upTo ->
      exists t, tree.rose below = .token t ∧ inLiteral t = true := by
    intro start upTo other hnext hstart hupTo
    have hskipped := next_between hnext hstart hupTo hbelow
    have hwhite : tree.isWhitespace below = true := by
      simpa [isSkipped] using hskipped
    rcases rose_of_tokenHas hwhite with ⟨t, hrose, ht⟩
    refine ⟨t, hrose, ?_⟩
    unfold inLiteral
    rw [ht]
    rfl
  unfold typedLiteralEnd? at h
  split at h
  · split at h
    · cases h
    · rename_i literal string hnext
      rcases next_some hnext with ⟨_, hliteral, _⟩
      split at h
      · cases h
      · rename_i hstring
        rw [Bool.not_eq_true, Bool.not_eq_false'] at hstring
        have hquoted : place = literal ->
            exists t, tree.rose below = .token t ∧ inLiteral t = true := by
          rintro rfl
          rw [hliteral, Option.some.injEq] at hbelow
          rw [← hbelow]
          rcases rose_of_isCategory hstring with ⟨t, hrose, hcategory⟩
          refine ⟨t, hrose, ?_⟩
          unfold inLiteral
          rw [hcategory]
          simp
        have hshort : place <= literal ->
            exists t, tree.rose below = .token t ∧ inLiteral t = true := by
          intro hplace
          rcases Nat.lt_or_eq_of_le hplace with hbefore | heq
          · exact hblank hnext hlt hbefore
          · exact hquoted heq
        split at h
        · split at h
          · rename_i unit word hunit
            split at h
            · rename_i hword
              rw [Option.some.injEq] at h
              subst h
              rcases Nat.lt_or_ge literal place with hbehind | hplace
              · rcases Nat.lt_or_eq_of_le hle with hbefore | rfl
                · exact hblank hunit hbehind hbefore
                · rw [(next_some hunit).2.1, Option.some.injEq] at hbelow
                  rw [← hbelow]
                  rcases Bool.and_eq_true_iff.mp hword with ⟨hkeyword, hnormalized⟩
                  rcases tokenHas_iff.mp hkeyword with ⟨t, htoken, hkey⟩
                  unfold Tree.normalized at hnormalized
                  rw [htoken] at hnormalized
                  refine ⟨t, rose_of_token? htoken, ?_⟩
                  unfold inLiteral Token.isUnit
                  rw [hkey, hnormalized]
                  simp
              · exact hshort hplace
            · rw [Option.some.injEq] at h
              exact hshort (h ▸ hle)
          · rw [Option.some.injEq] at h
            exact hshort (h ▸ hle)
        · rw [Option.some.injEq] at h
          exact hshort (h ▸ hle)
  · cases h

theorem typedLiterals_lead (hlimit : 1 < limit) :
    Lead limit (Item (fun _ => True) IsName)
      (Item (fun _ => True) fun rose => rose.IsName ∨ rose.IsLiteral) [Pass.typedLiterals] := by
  have hregular : Survey.typedLiterals.Regular :=
    Survey.regular_ofSeeker Seeker.typedLiterals_plan (fun _ _ => rfl) (fun _ _ => rfl)
      (List.mem_of_getElem? (i := 9) rfl)
  have hsub : forall rose, Item (fun _ => True) IsName rose ->
      Item (fun _ => True) (fun rose => rose.IsName ∨ rose.IsLiteral) rose :=
    fun rose h => h.mono (fun _ h => h) fun _ h => Or.inl h
  refine lead_of_rests hregular ?_ 1 (fun rose h => h.nests fun _ h => h.nests) hlimit ?_
  · intro rose h
    exact Item.rests (Survey.typedLiterals, _) (List.mem_of_getElem? (i := 8) rfl)
      (fun _ h => h.rests_typedLiterals) h
  · intro tree after list hwf hstands hwalk
    refine Seeker.walks_done Seeker.typedLiterals_plan hregular.sound 0 ?_ hsub ?_ hwf hstands.1
      hstands.2 hwalk
    · intro tree list idx id span next hspan
      rcases Option.map_eq_some_iff.mp hspan with ⟨stop, _, heq⟩
      cases heq
      rfl
    · intro tree place hit id span next front first rest back group hwf hchild _ hspan hroses hfront
        hrest _ _ hmerged
      rcases Option.map_eq_some_iff.mp hspan with ⟨stop, hstop, heq⟩
      cases heq
      dsimp only at hfront hrest hmerged
      have hfirst := rose_of_span_start hroses (hfront.symm ▸ hchild)
      have hword : exists word, first = Rose.token word ∧ word.namesType = true := by
        rw [hfirst]
        unfold typedLiteralEnd? at hstop
        split at hstop
        · rename_i hnames
          exact rose_of_tokenHas hnames
        · cases hstop
      rcases hword with ⟨word, rfl, hnames⟩
      cases hmerged with
      | wrapped _ =>
          apply Item.operand
          refine Or.inr ⟨word, rest, rfl, hnames, ?_⟩
          intro child hmem
          rcases exists_child_of_mem_rest hroses hmem with ⟨idx, below, hlt, hle, hbelow, rfl⟩
          exact inLiteral_of_typedLiteralEnd? hstop (by omega) (by omega) hbelow
      | absorbed hextend _ =>
          cases hextend

/-!
# Operations
-/

theorem operand_of_isOperatorOperand {tree : Tree} {id : NodeId} (hwf : tree.WellFormed)
    (h : Item (fun _ => True) Operand (tree.rose id))
    (haccepts : BinaryRule.isOperatorOperand tree id = true) : Operand (tree.rose id) := by
  rcases Bool.or_eq_true_iff.mp haccepts with hrest | hkeyword
  · rcases Bool.or_eq_true_iff.mp hrest with hcategory | hkind
    · rcases rose_of_tokenHas hcategory with ⟨t, hrose, hp⟩
      rw [hrose]
      exact Operand.token (Bool.or_eq_true_iff.mpr (Or.inl hp))
    · rcases hwf.rose_of_isKindIn hkind with ⟨kind, hmem, hrose⟩
      rw [hrose] at h ⊢
      cases h with
      | comment hcomment =>
          rcases hcomment with ⟨children, heq, _⟩
          cases heq
          exact absurd hmem (by decide)
      | operand hoperand =>
          exact hoperand
  · rcases rose_of_tokenHas hkeyword with ⟨t, hrose, hp⟩
    rw [hrose]
    exact Operand.token (Bool.or_eq_true_iff.mpr (Or.inr hp))

theorem IsLiteral.rests_operator {rose : Rose} (h : rose.IsLiteral) :
    rose.Rests (Survey.ofRule .operator) := by
  rcases id h with ⟨word, rest, rfl, _⟩
  apply (Survey.triggers_needs (Survey.ofRule .operator, _)
    (List.mem_of_getElem? (i := 10) rfl)).rests_of_tokens
  intro child hchild
  rcases h.tokens hchild with ⟨t, rfl, hcategory⟩
  refine ⟨t, rfl, ?_⟩
  revert hcategory
  dsimp only
  cases t.category <;> decide

theorem operator_lead (hlimit : 1 < limit) :
    Lead limit (Item (fun _ => True) fun rose => rose.IsName ∨ rose.IsLiteral)
      (Item (fun _ => True) Operand) [Pass.binary .operator] := by
  have hregular : (Survey.ofRule .operator).Regular :=
    Survey.regular_ofRule (List.mem_of_getElem? (i := 10) rfl)
  have hsub : forall rose, Item (fun _ => True) (fun rose => rose.IsName ∨ rose.IsLiteral) rose ->
      Item (fun _ => True) Operand rose :=
    fun rose h => h.mono (fun _ h => h) fun _ h => h.elim Operand.name Operand.literal
  refine lead_of_rests hregular ?_ 1 ?_ hlimit ?_
  · intro rose h
    exact Item.rests (Survey.ofRule .operator, _) (List.mem_of_getElem? (i := 9) rfl)
      (fun _ h => h.elim IsName.rests_operator IsLiteral.rests_operator) h
  · exact fun rose h => h.nests fun _ h => h.elim IsName.nests IsLiteral.nests
  · intro tree after list hwf hstands hwalk
    refine BinaryRule.walks_done (BinaryRule.fromPrevToNext_sound rfl) hsub ?_ hregular.sound hwf
      hstands.1 hstands.2 hwalk
    intro tree left blanks op behind group hwf hsite hleft hop hbehind hmerged
    rcases hsite.isOp with ⟨opId, hopMem, hopRose, hisOp⟩
    have hoperator : exists t, op = Rose.token t := by
      rw [← hopRose]
      rcases Bool.or_eq_true_iff.mp hisOp with hcategory | hcategory
      · rcases rose_of_isCategory hcategory with ⟨t, hrose, _⟩
        exact ⟨t, hrose⟩
      · rcases rose_of_isCategory hcategory with ⟨t, hrose, _⟩
        exact ⟨t, hrose⟩
    rcases hoperator with ⟨t, rfl⟩
    rcases hsite.acceptsPrev with ⟨id, _, hrose, haccepts⟩
    have hstart : Operand left := by
      rw [← hrose] at hleft ⊢
      exact operand_of_isOperatorOperand hwf hleft haccepts
    have hend : exists blanks' right, behind = blanks' ++ [right] ∧ Operand right ∧
        forall rose, rose ∈ blanks' -> rose.isBlank = true := by
      rcases hsite.span with ⟨front, back, idx, hroses, hidx, hnextAccepts, hspan⟩
      cases hnext : tree.next list idx true with
      | none =>
          rw [hnext] at hnextAccepts
          cases hnextAccepts
      | some found =>
          rcases found with ⟨place, next⟩
          rw [hnext] at hnextAccepts hspan
          have hplace : place = idx + behind.length := (Prod.mk.inj hspan).2
          rw [hplace] at hnext
          rcases BinaryRule.behind_of_next hwf hroses hidx hnext with ⟨blanks', rfl, hblanks⟩
          refine ⟨blanks', _, rfl, ?_, hblanks⟩
          exact operand_of_isOperatorOperand hwf (hsub _ (hbehind _ (by simp))) hnextAccepts
    rcases hend with ⟨blanks', right, rfl, hright, hblanks'⟩
    cases hmerged with
    | wrapped _ =>
        exact Item.operand (Operand.operation hstart hsite.isBlank rfl hblanks' hright)
    | absorbed hextend _ =>
        cases hextend

theorem operations_lead (hlimit : 1 < limit) :
    Lead limit (fun rose => exists t, rose = .token t ∧ t.OpensNone)
      (Item (fun _ => True) Operand) (Pass.all.take 11) := by
  have hforget : forall rose, Item Token.OpensNone (fun _ => False) rose ->
      Item (fun _ => True) (fun _ => False) rose :=
    fun rose h => h.mono (fun _ _ => trivial) fun _ h => h
  exact lead_append (comments_lead hlimit) <|
    lead_append ((openings_lead hlimit).mono (fun _ h => h) hforget) <|
    lead_append (period_lead hlimit) <| lead_append (subscript_lead hlimit) <|
    lead_append (identifiers_lead hlimit) <| lead_append (typedLiterals_lead hlimit) <|
    operator_lead hlimit

end Pass

end SqlLayout
