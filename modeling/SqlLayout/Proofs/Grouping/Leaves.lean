import SqlLayout.Proofs.Grouping.Steps
import SqlLayout.Proofs.Statement

/-!
# Grouping keeps the leaves

Whatever tokens a statement is made of and however deep the nesting may be,
grouping leaves the same leaves in the same order.  This holds also when it
gives up in the middle of a pass.
-/

namespace SqlLayout
namespace Statement

theorem root_groupInPlace (s : Statement) (limit : Nat) : (s.groupInPlace limit).2.root = s.root :=
  rfl

theorem group_ok_iff {s after : Statement} {limit : Nat} :
    s.group limit = .ok after <-> s.groupInPlace limit = (.ok (), after) := by
  unfold group
  rcases s.groupInPlace limit with ⟨e | u, other⟩
  · constructor
    · intro h
      cases h
    · intro h
      cases h
  · constructor
    · intro h
      cases h
      rfl
    · intro h
      cases h
      rfl

theorem groupInPlace_eq_exec (s : Statement) (limit : Nat) :
    s.groupInPlace limit =
      ((Grouping.exec (Pass.all.forM fun pass => pass.run limit limit s.root) s.tree).1,
        { s with
          tree := (Grouping.exec (Pass.all.forM fun pass => pass.run limit limit s.root)
            s.tree).2 }) :=
  rfl

theorem group_error_of_exec {s : Statement} {limit : Nat} {e : Error}
    (h : (Grouping.exec (Pass.all.forM fun pass => pass.run limit limit s.root) s.tree).1 =
      .error e) : s.group limit = .error e := by
  unfold group
  rw [groupInPlace_eq_exec, h]
  rfl

theorem group_ok_iff_exec {s after : Statement} {limit : Nat} :
    s.group limit = .ok after <->
      Grouping.exec (Pass.all.forM fun pass => pass.run limit limit s.root) s.tree =
        (.ok (), after.tree) ∧ after.root = s.root := by
  rw [group_ok_iff, groupInPlace_eq_exec]
  rcases Grouping.exec (Pass.all.forM fun pass => pass.run limit limit s.root) s.tree with
    ⟨result, tree⟩
  rcases after with ⟨other, root⟩
  simp only [Prod.mk.injEq, mk.injEq]
  constructor
  · rintro ⟨hresult, htree, hroot⟩
    exact ⟨⟨hresult, htree⟩, hroot.symm⟩
  · rintro ⟨⟨hresult, htree⟩, hroot⟩
    exact ⟨hresult, htree, hroot.symm⟩

theorem exists_of_group {s : Statement} {limit : Nat} {p : Statement -> Bool}
    (h : (s.group limit).toOption.any p = true) :
    exists after, s.group limit = .ok after ∧ p after = true := by
  cases hresult : s.group limit with
  | error e =>
      rw [hresult] at h
      cases h
  | ok after =>
      rw [hresult] at h
      exact ⟨after, rfl, h⟩

section

variable {s : Statement} (hwf : s.tree.WellFormed) (hid : s.root < s.tree.size)
  (hroot : s.tree.parent? s.root = none) (limit : Nat)
include hwf hid hroot

theorem leaves_groupInPlace :
    (s.groupInPlace limit).2.tree.leaves s.root = s.tree.leaves s.root :=
  (Tree.root_of_steps hwf (groupInPlace_steps hwf limit).steps hid hroot).2.2

theorem text_groupInPlace : (s.groupInPlace limit).2.text = s.text := by
  have hkept := Tree.tokensKept_of_steps (groupInPlace_steps hwf limit).steps
  unfold text Tree.value Tree.tokens
  rw [root_groupInPlace, leaves_groupInPlace hwf hid hroot]
  exact hkept.text_eq _

end

/-- Grouping a flat statement ends well or because the nesting is too deep.  In
both cases the root has the same leaves as before, and the leaves have the same
tokens up to wildcards that became operators. -/
theorem groupInPlace_keeps_leaves (tokens : List Token) (limit : Nat) :
    exists result after, (ofTokens tokens).groupInPlace limit = (result, after) ∧
      (result = .ok () ∨ result = .error (.nestingTooDeep limit)) ∧
      after.root = (ofTokens tokens).root ∧
      after.tree.leaves after.root = (ofTokens tokens).tree.leaves (ofTokens tokens).root ∧
      (ofTokens tokens).tree.leaves (ofTokens tokens).root = List.range tokens.length ∧
      (forall leaf, (ofTokens tokens).tree.token? leaf = tokens[leaf]? ∧
        Option.Rel Token.Kept tokens[leaf]? (after.tree.token? leaf)) ∧
      after.text = (ofTokens tokens).text := by
  have hwf := wellFormed_ofTokens tokens
  have hid := root_lt_size tokens
  have hroot := parent?_root tokens
  have hsafe := groupInPlace_steps hwf limit
  refine ⟨_, _, rfl, hsafe.ends, root_groupInPlace _ limit, ?_, leaves_ofTokens tokens, ?_, ?_⟩
  · exact leaves_groupInPlace hwf hid hroot limit
  · intro leaf
    have hkept := Tree.tokensKept_of_steps hsafe.steps leaf
    rw [token?_ofTokens] at hkept
    exact ⟨token?_ofTokens tokens leaf, hkept⟩
  · exact text_groupInPlace hwf hid hroot limit

end Statement
end SqlLayout
