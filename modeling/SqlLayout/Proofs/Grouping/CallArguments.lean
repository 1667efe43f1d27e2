import SqlLayout.Proofs.Grouping.LeadingKeyword

/-!
# Calls with one argument

The arguments of a call are read off the first child of its last parenthesis that is a list,
a call, an identifier or a literal.  Blanks, comments and brackets are nothing of the sort, so
an argument that stands alone is found just if it is.
-/

namespace SqlLayout
namespace Tree

variable {tree : Tree} {call parens arg id : NodeId}

/-- The nodes that the arguments of a call are read off. -/
def isListed (tree : Tree) (id : NodeId) : Bool :=
  tree.isKindIn id [.identifierList, .function, .identifier] || tree.isA id .literal

/-- The items of a list; any other node stands for itself. -/
def argumentsAt (tree : Tree) (id : NodeId) : List NodeId :=
  if tree.isKind id .identifierList then tree.identifiers id else [id]

def isArgument (tree : Tree) (id : NodeId) : Bool :=
  tree.isCode id && !tree.isPunctuationIn id [Text.of "(", Text.of ")"]

def lastParens? (tree : Tree) (call : NodeId) : Option NodeId :=
  (tree.children call).reverse.find? fun child => tree.isKind child .parenthesis

/-- The argument of a call that has one only. -/
def loneArgument? (tree : Tree) (call : NodeId) : Option NodeId := do
  let parens ← tree.lastParens? call
  match (tree.children parens).filter tree.isArgument with
  | [arg] => some arg
  | _ => none

theorem isKindIn_eq_any (tree : Tree) (id : NodeId) (kinds : List GroupKind) :
    tree.isKindIn id kinds = kinds.any (tree.isKind id) := by
  unfold isKindIn isKind
  cases tree.kind? id with
  | none =>
      exact (List.any_eq_false.mpr fun _ _ => Bool.false_ne_true).symm
  | some kind =>
      simp only [Option.some_beq_some, List.any_beq, List.elem_eq_contains]

theorem isArgument_of_isListed (h : tree.isListed id = true) : tree.isArgument id = true := by
  unfold isArgument
  rw [Bool.and_eq_true, Bool.not_eq_true', Bool.eq_false_iff]
  rcases Bool.or_eq_true_iff.mp h with hkind | hliteral
  · refine ⟨isCode_of_isKindIn hkind rfl, ?_⟩
    intro hmark
    rcases tokenHas_iff.mp hmark with ⟨token, htoken, _⟩
    rw [isKindIn_eq_any] at hkind
    rcases List.any_eq_true.mp hkind with ⟨kind, _, hgroup⟩
    rw [isKind_of_token? htoken] at hgroup
    cases hgroup
  · refine ⟨isCode_of_test (p := fun c => c.isA .literal) hliteral rfl, ?_⟩
    intro hmark
    rcases tokenHas_iff.mp hmark with ⟨token, htoken, hhits⟩
    rcases tokenHas_iff.mp hliteral with ⟨other, hother, hbelow⟩
    cases htoken.symm.trans hother
    rw [Token.category_of_hits hhits] at hbelow
    cases hbelow

theorem parameters_of_lastParens (h : tree.lastParens? call = some parens) :
    tree.parameters call =
      (((tree.children parens).find? tree.isListed).map tree.argumentsAt).getD [] := by
  unfold lastParens? at h
  unfold parameters
  rw [h, List.find?_eq_findSome?_guard, List.map_findSome?]
  dsimp only
  congr 2
  funext child
  have hlisted : tree.isListed child = (tree.isKind child .identifierList ||
      (tree.isA child .literal || tree.isKindIn child [.function, .identifier])) := by
    rw [isListed, isKindIn_eq_any, isKindIn_eq_any, List.any_cons, Bool.or_assoc,
      Bool.or_comm (tree.isA child .literal)]
  unfold Option.guard argumentsAt
  rw [Function.comp_apply, hlisted, apply_ite (Option.map _), Option.map_some, Option.map_none]
  cases tree.isKind child .identifierList with
  | true =>
      rfl
  | false =>
      rfl

/-- The only argument of a call is found if it is a list, a call, an identifier or a literal,
and else none is. -/
theorem parameters_of_lone_argument (h : tree.loneArgument? call = some arg) :
    (tree.parameters call = tree.argumentsAt arg <-> tree.isListed arg = true) ∧
      (tree.isListed arg = false -> tree.parameters call = []) := by
  rcases Option.bind_eq_some_iff.mp h with ⟨parens, hparens, hlone⟩
  have hfilter : (tree.children parens).filter tree.isArgument = [arg] := by
    split at hlone
    next only heq =>
      cases hlone
      exact heq
    next =>
      cases hlone
  have hsame : (fun child => decide (tree.isArgument child = true ∧ tree.isListed child = true)) =
      tree.isListed := by
    funext child
    rw [Bool.eq_iff_iff, decide_eq_true_iff]
    exact ⟨And.right, fun hlisted => ⟨isArgument_of_isListed hlisted, hlisted⟩⟩
  have hfind : (tree.children parens).find? tree.isListed = [arg].find? tree.isListed := by
    rw [← hfilter, List.find?_filter, hsame]
  rw [parameters_of_lastParens hparens, hfind]
  cases hlisted : tree.isListed arg with
  | true =>
      rw [List.find?_cons_of_pos hlisted]
      exact ⟨⟨fun _ => rfl, fun _ => rfl⟩, nofun⟩
  | false =>
      rw [List.find?_cons_of_neg (by rw [hlisted]; exact nofun), List.find?_nil]
      refine ⟨⟨?_, nofun⟩, fun _ => rfl⟩
      intro hargs
      have hkind : tree.isKind arg .identifierList = false := by
        rw [isListed, isKindIn_eq_any, List.any_cons] at hlisted
        exact (Bool.or_eq_false_iff.mp (Bool.or_eq_false_iff.mp hlisted).1).1
      unfold argumentsAt at hargs
      rw [hkind] at hargs
      cases hargs

end Tree

/-- A name between blanks. -/
theorem parameters_of_lone_argument_name :
    exists statements s, parse (Text.of "f( a )") {} defaultMaxDepth = .ok statements ∧
      s ∈ statements ∧ s.tree.isKind 8 .function = true ∧ s.tree.loneArgument? 8 = some 9 ∧
      (s.tree.parameters 8 = s.tree.argumentsAt 9 <-> s.tree.isListed 9 = true) ∧
      (s.tree.isListed 9 = false -> s.tree.parameters 8 = []) := by
  have htokens : tokenize ⟨.generic, Vocabulary.ofDialect .generic⟩ (Text.of "f( a )") =
      [⟨.name, ['f'], some 0⟩, ⟨.punctuation, ['('], some 1⟩, ⟨.whitespace, [' '], some 2⟩,
       ⟨.name, ['a'], some 3⟩, ⟨.whitespace, [' '], some 4⟩, ⟨.punctuation, [')'], some 5⟩] := by
    decide +kernel
  rcases exists_parsed (p := fun s => s.tree.isKind 8 .function &&
      s.tree.loneArgument? 8 == some 9)
    htokens (by decide +kernel) with ⟨statements, s, hparse, hs, hfound⟩
  rcases Bool.and_eq_true_iff.mp hfound with ⟨hkind, hlone⟩
  exact ⟨statements, s, hparse, hs, hkind, eq_of_beq hlone,
    Tree.parameters_of_lone_argument (eq_of_beq hlone)⟩

/-- A sum is an argument that is not found. -/
theorem lone_argument_lost :
    ¬ forall (sql : Text) (statements : List Statement) (s : Statement) (call arg : NodeId),
      parse sql {} defaultMaxDepth = .ok statements -> s ∈ statements ->
      s.tree.isKind call .function = true -> s.tree.loneArgument? call = some arg ->
      s.tree.parameters call = s.tree.argumentsAt arg := by
  have htokens : tokenize ⟨.generic, Vocabulary.ofDialect .generic⟩ (Text.of "f(a+1)") =
      [⟨.name, ['f'], some 0⟩, ⟨.punctuation, ['('], some 1⟩, ⟨.name, ['a'], some 2⟩,
       ⟨.operator, ['+'], some 3⟩, ⟨.integer, ['1'], some 4⟩, ⟨.punctuation, [')'], some 5⟩] := by
    decide +kernel
  rcases exists_parsed (p := fun s => s.tree.isKind 8 .function &&
      (s.tree.loneArgument? 8 == some 11 && s.tree.parameters 8 != s.tree.argumentsAt 11))
    htokens (by decide +kernel) with ⟨statements, s, hparse, hs, hfound⟩
  rcases Bool.and_eq_true_iff.mp hfound with ⟨hkind, hrest⟩
  rcases Bool.and_eq_true_iff.mp hrest with ⟨hlone, hlost⟩
  intro hall
  exact bne_iff_ne.mp hlost (hall _ statements s 8 11 hparse hs hkind (eq_of_beq hlone))

end SqlLayout
