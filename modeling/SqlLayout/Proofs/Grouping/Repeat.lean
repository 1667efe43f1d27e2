import SqlLayout.Splitting
import SqlLayout.Proofs.Grouping.Leaves
import SqlLayout.Proofs.Grouping.Surveys
import SqlLayout.Proofs.Splitting

/-!
# Grouping again

Grouping a grouped statement once more need not leave it as it is.  A group may
be made only after the walk has passed a neighbour that would have joined it, and
the first grouping may nest deeper than a run of the passes is allowed to go.
The statement stays as it is exactly if its nesting fits the limit and no survey
finds a place where its pass would still act.
-/

namespace SqlLayout

namespace Survey

/-- The groups that a pass comes to from a list. -/
def Reaches (survey : Survey) (tree : Tree) : NodeId -> NodeId -> Prop :=
  Relation.ReflTransGen fun list id =>
    id ∈ tree.sublists list ∧ survey.opens tree id = true

end Survey

/-- No pass finds a place to act at. -/
def Statement.Settled (s : Statement) : Prop :=
  forall survey, survey ∈ Survey.all -> forall list, survey.Reaches s.tree s.root list ->
    forall idx, survey.acts s.tree list idx = false

/-!
# Runs of one pass
-/

namespace Survey

open Grouping

variable {survey : Survey} (hfaithful : survey.Faithful) {tree : Tree} (hwf : tree.WellFormed)
include hfaithful hwf

theorem idle_run_iff {limit room : Nat} {list : NodeId}
    (hnests : tree.nestsWithin room list = true) :
    Idle (survey.pass.run limit room list) tree <->
      forall other, survey.Reaches tree list other ->
        forall idx, survey.acts tree other idx = false := by
  induction room generalizing list with
  | zero =>
      cases hnests
  | succ room ih =>
      have hbelow : forall id, id ∈ tree.sublists list -> tree.nestsWithin room id = true :=
        List.all_eq_true.mp hnests
      rw [hfaithful tree list limit room hwf]
      constructor
      · intro h other hreach
        rcases Relation.ReflTransGen.cases_head hreach with heq | ⟨id, hid, hrest⟩
        · rw [← heq]
          exact h.1
        · exact (ih (hbelow id hid.1)).mp (h.2 id hid.1 hid.2) other hrest
      · intro h
        refine ⟨h list Relation.ReflTransGen.refl, ?_⟩
        intro id hmem hopens
        apply (ih (hbelow id hmem)).mpr
        intro other hreach
        exact h other (Relation.ReflTransGen.head ⟨hmem, hopens⟩ hreach)

/-- A pass that looks into all groups needs room for the whole nesting. -/
theorem nestsWithin_of_idle {limit room : Nat} {list : NodeId}
    (hopens : forall id, survey.opens tree id = true)
    (hidle : Idle (survey.pass.run limit room list) tree) :
    tree.nestsWithin room list = true := by
  induction room generalizing list with
  | zero =>
      cases hidle
  | succ room ih =>
      rw [hfaithful tree list limit room hwf] at hidle
      apply List.all_eq_true.mpr
      intro id hmem
      exact ih (hidle.2 id hmem (hopens id))

end Survey

/-!
# Runs of all passes
-/

namespace Statement

open Grouping

variable {s : Statement} (hwf : s.tree.WellFormed) (limit : Nat)
include hwf

theorem group_self_iff_idle :
    s.group limit = .ok s <->
      forall survey, survey ∈ Survey.all ->
        Idle (survey.pass.run limit limit s.root) s.tree := by
  have hsafe : forall pass, pass ∈ Pass.all -> forall tree : Tree, tree.WellFormed ->
      Safe Tree.GroupStep limit tree (exec (pass.run limit limit s.root) tree) :=
    fun pass hpass _ htree => Pass.run_steps (Pass.all_sound pass hpass) limit limit s.root htree
  have hexec : s.group limit = .ok s <->
      Idle (Pass.all.forM fun pass => pass.run limit limit s.root) s.tree := by
    rw [group_ok_iff]
    change ((exec (Pass.all.forM fun pass => pass.run limit limit s.root) s.tree).1,
      { s with tree := (exec (Pass.all.forM fun pass => pass.run limit limit s.root) s.tree).2 }) =
        (Except.ok (), s) <-> _
    unfold Idle
    rcases exec (Pass.all.forM fun pass => pass.run limit limit s.root) s.tree with
      ⟨result, after⟩
    constructor
    · intro h
      rw [Prod.mk.injEq] at h
      exact Prod.ext h.1 (congrArg Statement.tree h.2)
    · intro h
      cases h
      rfl
  rw [hexec, idle_forM_iff hwf hsafe, ← Survey.all_map_pass]
  simp only [List.mem_map, forall_exists_index, and_imp, forall_apply_eq_imp_iff₂]

/-- Grouping leaves a statement as it is exactly if the nesting fits the limit
and no pass finds a place to act at. -/
theorem group_self_iff :
    s.group limit = .ok s <-> s.tree.nestsWithin limit s.root = true ∧ s.Settled := by
  rw [group_self_iff_idle hwf]
  constructor
  · intro h
    have htrailing : Survey.ofSeeker .trailingComments none .trailingComment ∈ Survey.all := by
      simp [Survey.all]
    have hnests := Survey.nestsWithin_of_idle (Survey.all_faithful _ htrailing) hwf
      (fun _ => rfl) (h _ htrailing)
    refine ⟨hnests, ?_⟩
    intro survey hsurvey
    exact (Survey.idle_run_iff (Survey.all_faithful survey hsurvey) hwf hnests).mp
      (h survey hsurvey)
  · intro h survey hsurvey
    exact (Survey.idle_run_iff (Survey.all_faithful survey hsurvey) hwf h.1).mpr
      (h.2 survey hsurvey)

end Statement

/-- A statement that is read from a text and grouped stays as it is when it is
grouped again with the same limit exactly if its nesting fits the limit and no
pass finds a place to act at. -/
theorem group_again_iff {config : LexerConfig} {sql : Text} {s grouped : Statement} {limit : Nat}
    (hs : s ∈ readStatements config sql) (h : s.group limit = .ok grouped) :
    grouped.group limit = .ok grouped <->
      grouped.tree.nestsWithin limit grouped.root = true ∧ grouped.Settled := by
  rcases exists_of_mem_splitStatements hs with ⟨tokens, _, rfl⟩
  have hwf := Statement.wellFormed_ofTokens tokens
  have hsteps := (Statement.groupInPlace_steps hwf limit).steps
  rw [Statement.group_ok_iff.mp h] at hsteps
  exact Statement.group_self_iff (Tree.groupStep_keepsWellFormed.run hwf hsteps) limit

/-!
# A statement that is settled and one that is not
-/

theorem exists_grouped {config : LexerConfig} {sql : Text} {tokens : List Token} {limit : Nat}
    {p : Statement -> Bool} (htokens : tokenize config sql = tokens)
    (hsplit : splitTokens tokens = [tokens])
    (hgroup : ((Statement.ofTokens tokens).group limit).toOption.any p = true) :
    exists s grouped, s ∈ readStatements config sql ∧ s.group limit = .ok grouped ∧
      p grouped = true := by
  have hmem : Statement.ofTokens tokens ∈ readStatements config sql := by
    unfold readStatements splitStatements
    rw [htokens, hsplit]
    exact List.mem_singleton.mpr rfl
  rcases Statement.exists_of_group hgroup with ⟨grouped, hok, hp⟩
  exact ⟨_, grouped, hmem, hok, hp⟩

/-- A name and its alias make one identifier, and that is all. -/
theorem group_again_alias :
    exists s grouped, s ∈ readStatements ⟨.generic, Vocabulary.ofDialect .generic⟩ (Text.of "a b") ∧
      s.group defaultMaxDepth = .ok grouped ∧
      grouped.tree.nestsWithin defaultMaxDepth grouped.root = true ∧ grouped.Settled := by
  have htokens : tokenize ⟨.generic, Vocabulary.ofDialect .generic⟩ (Text.of "a b") =
      [⟨.name, ['a'], some 0⟩, ⟨.whitespace, [' '], some 1⟩, ⟨.name, ['b'], some 2⟩] := by
    decide +kernel
  have hgroup : ((Statement.ofTokens [⟨.name, ['a'], some 0⟩, ⟨.whitespace, [' '], some 1⟩,
      ⟨.name, ['b'], some 2⟩]).group defaultMaxDepth).toOption.any (fun grouped =>
        decide (grouped.group defaultMaxDepth = .ok grouped)) = true := by
    decide +kernel
  rcases exists_grouped htokens rfl hgroup with ⟨s, grouped, hs, hok, hagain⟩
  exact ⟨s, grouped, hs, hok, (group_again_iff hs hok).mp (of_decide_eq_true hagain)⟩

/-- A number joins the name after it to an identifier.  The name before the
number is then an expression with an identifier after it, which only another
grouping joins. -/
theorem group_not_idempotent :
    ¬ forall (sql : Text) (config : LexerConfig) (s grouped : Statement),
      ({} : LexerOptions).check = .ok config -> s ∈ readStatements config sql ->
      s.group defaultMaxDepth = .ok grouped -> grouped.group defaultMaxDepth = .ok grouped := by
  have htokens : tokenize ⟨.generic, Vocabulary.ofDialect .generic⟩ (Text.of "a 1 b") =
      [⟨.name, ['a'], some 0⟩, ⟨.whitespace, [' '], some 1⟩, ⟨.integer, ['1'], some 2⟩,
       ⟨.whitespace, [' '], some 3⟩, ⟨.name, ['b'], some 4⟩] := by
    decide +kernel
  have hgroup : ((Statement.ofTokens [⟨.name, ['a'], some 0⟩, ⟨.whitespace, [' '], some 1⟩,
      ⟨.integer, ['1'], some 2⟩, ⟨.whitespace, [' '], some 3⟩,
      ⟨.name, ['b'], some 4⟩]).group defaultMaxDepth).toOption.any (fun grouped =>
        !decide (grouped.group defaultMaxDepth = .ok grouped)) = true := by
    decide +kernel
  rcases exists_grouped htokens rfl hgroup with ⟨s, grouped, hs, hok, hagain⟩
  intro hall
  rw [decide_eq_true (hall _ _ s grouped rfl hs hok)] at hagain
  cases hagain

end SqlLayout
