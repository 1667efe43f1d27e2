import SqlLayout.Layout.LeafFilter
import SqlLayout.Proofs.Text.CaseMap
import SqlLayout.Proofs.Tree.WellFormed

/-!
# Letter case applied twice

Raising or lowering a text twice is doing it once.  Capitalizing is not always: a first
character that is raised into several can leave a capital letter behind it, and the next
time that one is lowered.  Where a case comes to rest on the tokens of a statement, the
filters for keywords and for names do so too.
-/

namespace SqlLayout

/-!
# Texts
-/

namespace LetterCase

/-- Whether a text is left alone the second time: what its first character is raised into
has no capital letter behind the first one. -/
def Settles : LetterCase -> Text -> Prop
  | capitalize, first :: _ => forall c, c ∈ (Text.upperChar first).tail -> Text.lowerChar c = [c]
  | _, _ => True

theorem capitalize_capitalize_iff (first : Char) (rest : Text) :
    capitalize.apply (capitalize.apply (first :: rest)) = capitalize.apply (first :: rest) <->
      forall c, c ∈ (Text.upperChar first).tail -> Text.lowerChar c = [c] := by
  cases hraised : Text.upperChar first with
  | nil =>
      exact absurd hraised (Text.upperChar_ne_nil first)
  | cons head tail =>
      have hhead : Text.upperChar head = [head] :=
        Text.upperChar_of_mem (hraised ▸ List.mem_cons_self)
      have hrest : (rest.flatMap Text.lowerChar).flatMap Text.lowerChar =
          rest.flatMap Text.lowerChar := by
        refine Text.flatMap_lowerChar_eq_self_iff.mpr fun d hd => ?_
        rcases List.mem_flatMap.mp hd with ⟨c, _, hc⟩
        exact Text.lowerChar_of_mem hc
      have honce : capitalize.apply (first :: rest) =
          head :: (tail ++ rest.flatMap Text.lowerChar) := by
        rw [apply, hraised, List.cons_append]
      have htwice : capitalize.apply (head :: (tail ++ rest.flatMap Text.lowerChar)) =
          head :: (tail.flatMap Text.lowerChar ++ rest.flatMap Text.lowerChar) := by
        rw [apply, hhead, List.flatMap_append, hrest]
        rfl
      rw [honce, htwice, List.cons_inj_right, List.append_left_inj, List.tail_cons]
      exact Text.flatMap_lowerChar_eq_self_iff

theorem apply_apply_iff (case : LetterCase) (text : Text) :
    case.apply (case.apply text) = case.apply text <-> case.Settles text := by
  cases case with
  | upper =>
      exact iff_of_true (Text.upper_upper text) trivial
  | lower =>
      exact iff_of_true (Text.lower_lower text) trivial
  | capitalize =>
      cases text with
      | nil =>
          exact iff_of_true rfl trivial
      | cons first rest =>
          exact capitalize_capitalize_iff first rest

end LetterCase

/-!
# Tokens
-/

namespace LeafFilter

/-- The filters that change the case of tokens. -/
def ofCase (case : LetterCase) : List LeafFilter :=
  [keywordCase case, identifierCase case]

/-- A filter for case gives a token another value or leaves it as it is, and what it
gives it leaves alone if the case settles. -/
theorem apply_apply_of_settles {case : LetterCase} {filter : LeafFilter}
    (hfilter : filter ∈ ofCase case) {token : Token} (h : case.Settles token.value) :
    filter.apply (filter.apply token) = filter.apply token := by
  have hvalue := (LetterCase.apply_apply_iff case token.value).mpr h
  rcases List.mem_cons.mp hfilter with rfl | hfilter
  · by_cases hkeyword : token.isKeyword = true
    · have hrecased : Token.isKeyword { token with value := case.apply token.value } = true :=
        hkeyword
      simp only [apply, if_pos hkeyword, if_pos hrecased, hvalue]
    · simp only [apply, if_neg hkeyword]
  · rw [List.mem_singleton.mp hfilter]
    unfold apply
    dsimp only
    split
    · split
      · rw [hvalue]
      · rfl
    · rfl

end LeafFilter

/-!
# Statements
-/

namespace Tree

variable {tree : Tree} {f : Token -> Token}

def modifyTokens (tree : Tree) (f : Token -> Token) (leaves : List NodeId) : Tree :=
  leaves.foldl (fun tree leaf => tree.modifyToken leaf f) tree

theorem leaves_modifyTokens (leaves : List NodeId) (id : NodeId) :
    (tree.modifyTokens f leaves).leaves id = tree.leaves id := by
  induction leaves generalizing tree with
  | nil =>
      rfl
  | cons first rest ih =>
      exact ih.trans (leaves_modifyToken first f id)

theorem modifyToken_eq_self {id : NodeId}
    (h : forall token, tree.token? id = some token -> f token = token) :
    tree.modifyToken id f = tree := by
  rcases tree with ⟨nodes⟩
  rw [modifyToken, modify, mk.injEq]
  apply Array.ext_getElem?
  intro other
  rw [Array.getElem?_modify]
  split
  · rename_i hid
    cases hnode : nodes[other]? with
    | none =>
        rfl
    | some node =>
        rcases node with ⟨parent, token | ⟨kind, children⟩⟩
        · have htoken : token? ⟨nodes⟩ id = some token := by
            rw [hid, token?, content?, hnode]
            rfl
          rw [Option.map_some]
          dsimp only
          rw [h token htoken]
        · rfl
  · rfl

/-- Where rewriting a token twice is rewriting it once, it does not matter how often a
leaf is come to. -/
theorem token?_modifyTokens {leaves : List NodeId}
    (h : forall leaf token, leaf ∈ leaves -> tree.token? leaf = some token ->
      f (f token) = f token) (id : NodeId) :
    (tree.modifyTokens f leaves).token? id =
      if id ∈ leaves then (tree.token? id).map f else tree.token? id := by
  induction leaves generalizing tree with
  | nil =>
      rw [if_neg List.not_mem_nil]
      rfl
  | cons first rest ih =>
      have htwice : ((tree.token? first).map f).map f = (tree.token? first).map f := by
        cases htoken : tree.token? first with
        | none =>
            rfl
        | some token =>
            rw [Option.map_some, Option.map_some, h first token List.mem_cons_self htoken]
      have hrest : forall leaf token, leaf ∈ rest ->
          (tree.modifyToken first f).token? leaf = some token -> f (f token) = f token := by
        intro leaf token hleaf htoken
        rw [token?_modifyToken] at htoken
        split at htoken
        · rename_i hfirst
          rw [hfirst] at htoken
          rw [htoken, Option.map_some] at htwice
          rw [Option.some.inj htwice, Option.some.inj htwice]
        · exact h leaf token (List.mem_cons_of_mem _ hleaf) htoken
      refine (ih hrest).trans ?_
      rw [token?_modifyToken]
      by_cases hfirst : id = first
      · rw [if_pos hfirst, hfirst, htwice, ite_self, if_pos List.mem_cons_self]
      · have hmem : id ∈ first :: rest <-> id ∈ rest := by
          rw [List.mem_cons, or_iff_right hfirst]
        rw [if_neg hfirst]
        exact if_congr hmem.symm rfl rfl

theorem modifyTokens_eq_self {leaves : List NodeId}
    (h : forall leaf token, leaf ∈ leaves -> tree.token? leaf = some token -> f token = token) :
    tree.modifyTokens f leaves = tree := by
  induction leaves with
  | nil =>
      rfl
  | cons first rest ih =>
      rw [modifyTokens, List.foldl_cons,
        modifyToken_eq_self fun token => h first token List.mem_cons_self]
      exact ih fun leaf token hleaf => h leaf token (List.mem_cons_of_mem _ hleaf)

theorem modifyTokens_twice {leaves : List NodeId}
    (h : forall leaf token, leaf ∈ leaves -> tree.token? leaf = some token ->
      f (f token) = f token) :
    (tree.modifyTokens f leaves).modifyTokens f leaves = tree.modifyTokens f leaves := by
  refine modifyTokens_eq_self fun leaf token hleaf htoken => ?_
  rw [token?_modifyTokens h, if_pos hleaf] at htoken
  rcases Option.map_eq_some_iff.mp htoken with ⟨old, hold, rfl⟩
  exact h leaf old hleaf hold

end Tree

namespace Statement

variable {s : Statement} {case : LetterCase}

/-- All texts of a statement are left alone the second time. -/
def Settles (s : Statement) (case : LetterCase) : Prop :=
  forall leaf token, leaf ∈ s.tree.leaves s.root -> s.tree.token? leaf = some token ->
    case.Settles token.value

theorem filterLeaves_single (s : Statement) (filter : LeafFilter) :
    s.filterLeaves [filter] =
      { s with tree := s.tree.modifyTokens filter.apply (s.tree.leaves s.root) } :=
  rfl

theorem filterLeaves_twice (h : s.Settles case) {filter : LeafFilter}
    (hfilter : filter ∈ LeafFilter.ofCase case) :
    (s.filterLeaves [filter]).filterLeaves [filter] = s.filterLeaves [filter] := by
  rw [filterLeaves_single, filterLeaves_single]
  dsimp only
  rw [Tree.leaves_modifyTokens, Tree.modifyTokens_twice]
  intro leaf token hleaf htoken
  exact LeafFilter.apply_apply_of_settles hfilter (h leaf token hleaf htoken)

end Statement

/-- A case comes to rest on a text at once just if the text settles, and the filters of
the case come to rest on a statement all of whose texts do. -/
theorem letter_case_twice (case : LetterCase) :
    (forall text, case.apply (case.apply text) = case.apply text <-> case.Settles text) ∧
      forall s : Statement, s.Settles case -> forall filter, filter ∈ LeafFilter.ofCase case ->
        (s.filterLeaves [filter]).filterLeaves [filter] = s.filterLeaves [filter] :=
  ⟨case.apply_apply_iff, fun _ hs _ hfilter => Statement.filterLeaves_twice hs hfilter⟩

/-- Capitals behind a first letter with one capital are lowered for good. -/
theorem letter_case_twice_name :
    exists s : Statement, s.text = Text.of "iSS" ∧ s.Settles .capitalize ∧
      (s.filterLeaves [.identifierCase .capitalize]).text = Text.of "Iss" ∧
      (s.filterLeaves [.identifierCase .capitalize]).filterLeaves [.identifierCase .capitalize] =
        s.filterLeaves [.identifierCase .capitalize] := by
  let s : Statement := Statement.ofTokens [⟨.name, ['i', 'S', 'S'], some 0⟩]
  have hsettles : s.Settles .capitalize := by
    intro leaf token hleaf htoken
    have hleaves : s.tree.leaves s.root = [0] := by decide
    have hname : s.tree.token? 0 = some ⟨.name, ['i', 'S', 'S'], some 0⟩ := by decide
    rw [hleaves] at hleaf
    rw [List.mem_singleton.mp hleaf, hname] at htoken
    cases htoken
    intro c hc
    have htail : (Text.upperChar 'i').tail = [] := by decide
    rw [htail] at hc
    cases hc
  refine ⟨s, by decide, hsettles, by decide, ?_⟩
  exact (letter_case_twice .capitalize).2 s hsettles _ (by decide)

/-- A sharp s is capitalized into two letters S, of which the second is lowered the next
time. -/
theorem capitalize_sharp_s :
    LetterCase.capitalize.apply ['ß'] = ['S', 'S'] ∧
      LetterCase.capitalize.apply (LetterCase.capitalize.apply ['ß']) ≠
        LetterCase.capitalize.apply ['ß'] := by
  decide

end SqlLayout
