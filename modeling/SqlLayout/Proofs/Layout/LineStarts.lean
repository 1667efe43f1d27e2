import SqlLayout.Proofs.Layout.Courses
import SqlLayout.Proofs.Layout.FilledLists
import SqlLayout.Proofs.Layout.KeywordBreaks
import SqlLayout.Proofs.Tree.Traversals

/-!
# Children that start a line

A child starts a line if a blank that opens one stands right before it.  A break puts
such a blank before one child and may take the blank away that was there.  So it
changes what stands before that child and nothing else.
-/

namespace SqlLayout

/-!
# Left neighbours
-/

def leftIn (item : NodeId) (ids : List NodeId) : Option NodeId :=
  (ids.takeWhile (· != item)).getLast?

section

variable {item word left : NodeId} {front back rest : List NodeId}

theorem takeWhile_of_not_mem (h : item ∉ front) :
    (front ++ rest).takeWhile (· != item) = front ++ rest.takeWhile (· != item) := by
  apply List.takeWhile_append_of_pos
  intro id hid
  exact bne_iff_ne.mpr fun heq => h (heq ▸ hid)

theorem leftIn_self (h : item ∉ front) : leftIn item (front ++ item :: back) = front.getLast? := by
  rw [leftIn, takeWhile_of_not_mem h, List.takeWhile_cons_of_neg (by simp), List.append_nil]

theorem leftIn_of_mem (h : item ∈ front) : leftIn item (front ++ rest) = leftIn item front := by
  rcases List.eq_append_cons_of_mem h with ⟨before, behind, rfl, hfirst⟩
  rw [List.append_assoc, List.cons_append, leftIn_self hfirst, leftIn_self hfirst]

theorem leftIn_behind (h : item ∉ front) (hne : item ≠ word) :
    leftIn item (front ++ word :: back) = leftIn item (word :: back) := by
  have hword : (word != item) = true := bne_iff_ne.mpr (Ne.symm hne)
  rw [leftIn, leftIn, takeWhile_of_not_mem h,
    List.takeWhile_cons_of_pos (p := fun id => id != item) hword,
    List.getLast?_append_of_ne_nil _ (List.cons_ne_nil _ _)]

theorem mem_of_leftIn (h : leftIn item front = some left) : left ∈ front :=
  (List.takeWhile_sublist _).subset (List.mem_of_getLast? h)

end

namespace Text

def opensLine (value : Text) : Bool := value.head? == some '\n'

/-- A text that ends with a line break. -/
def closesLine (value : Text) : Bool :=
  value.getLast? == some '\n' || value.getLast? == some '\r'

def opensIndented (value : Text) : Bool := value.opensLine && !value.closesLine

end Text

theorem Indenter.opensLine_newline (i : Indenter) : i.newline.opensLine = true := rfl

namespace Tree

variable {tree middle after : Tree} {list item word : NodeId} {front old new back : List NodeId}
  {newline : Text} {p : Text -> Bool}

def leftHas (tree : Tree) (list item : NodeId) (p : Text -> Bool) : Bool :=
  match leftIn item (tree.children list) with
  | some left => tree.tokenHas left fun token => token.isWhitespace && p token.value
  | none => false

/-- Whether a blank that opens a line stands right before a child. -/
def startsLine (tree : Tree) (list item : NodeId) : Bool := tree.leftHas list item Text.opensLine

theorem leftHas_congr (hleft : leftIn item (after.children list) = leftIn item (tree.children list))
    (htokens : forall left, leftIn item (tree.children list) = some left ->
      after.token? left = tree.token? left) :
    after.leftHas list item p = tree.leftHas list item p := by
  unfold leftHas
  rw [hleft]
  cases hsome : leftIn item (tree.children list) with
  | none =>
      rfl
  | some left =>
      exact tokenHas_congr (htokens left hsome) _

theorem leftHas_iff :
    tree.leftHas list item p = true <-> exists left token,
      leftIn item (tree.children list) = some left ∧ tree.token? left = some token ∧
        token.isWhitespace = true ∧ p token.value = true := by
  unfold leftHas
  cases leftIn item (tree.children list) with
  | none =>
      simp
  | some left =>
      dsimp only
      rw [tokenHas_iff]
      simp

theorem leftHas_of_imp {q : Text -> Bool} (himp : forall value, p value = true -> q value = true)
    (h : tree.leftHas list item p = true) : tree.leftHas list item q = true := by
  rcases leftHas_iff.mp h with ⟨left, token, hleft, htoken, hblank, hvalue⟩
  exact leftHas_iff.mpr ⟨left, token, hleft, htoken, hblank, himp _ hvalue⟩

theorem SameList.leftHas_eq (h : tree.SameList list after) :
    after.leftHas list item p = tree.leftHas list item p := by
  apply leftHas_congr
  · rw [h.children_eq]
  · exact fun left hleft => h.token?_eq left (mem_of_leftIn hleft)

/-!
# One break
-/

/-- Before a word in a list a blank may go and a new one may come in. -/
structure Restarted (tree : Tree) (list : NodeId) (newline : Text)
    (front old : List NodeId) (word : NodeId) (new back : List NodeId) (after : Tree) : Prop where
  relines : Relines list tree after
  children_eq : tree.children list = front ++ old ++ word :: back
  children_after : after.children list = front ++ new ++ word :: back
  old_blank : forall id, id ∈ old -> tree.isWhitespace id = true
  new_token : forall id, id ∈ new -> after.token? id = some (.blank newline)

namespace Restarted

variable (hwf : tree.WellFormed) (hlist : tree.isGroup list = true)
  (h : Restarted tree list newline front old word new back after)
include hwf hlist h

theorem leftHas_of_ne (hitem : item ∈ tree.solidChildren list) (hne : item ≠ word) :
    after.leftHas list item p = tree.leftHas list item p := by
  have hrelaid := h.relines.relaidAt hwf hlist
  rcases List.mem_filter.mp hitem with ⟨hmem, hsolid⟩
  have hold : item ∉ old := fun hin => by
    rw [h.old_blank item hin] at hsolid
    cases hsolid
  have hnew : item ∉ new := fun hin => by
    have hblank : after.isWhitespace item = true :=
      tokenHas_iff.mpr ⟨_, h.new_token item hin, rfl⟩
    rw [hrelaid.isWhitespace_eq (hwf.child_lt_size hmem)] at hblank
    rw [hblank] at hsolid
    cases hsolid
  apply leftHas_congr
  · rw [h.children_after, h.children_eq]
    by_cases hfront : item ∈ front
    · rw [List.append_assoc, List.append_assoc, leftIn_of_mem hfront, leftIn_of_mem hfront]
    · rw [leftIn_behind (by simp [hfront, hnew]) hne, leftIn_behind (by simp [hfront, hold]) hne]
  · intro left hleft
    have hin := mem_of_leftIn hleft
    refine (observers_congr (hrelaid.content?_eq left (hwf.child_lt_size hin) ?_)).2.1
    rintro rfl
    exact hwf.not_mem_children_self _ hin

theorem leftHas_word (hnew : exists id, new = [id]) : after.leftHas list word p = p newline := by
  have hrelaid := h.relines.relaidAt hwf hlist
  have hnodup := hrelaid.wellFormed.nodup_children list
  rcases hnew with ⟨id, rfl⟩
  rw [h.children_after] at hnodup
  unfold leftHas
  rw [h.children_after, leftIn_self (by grind), List.getLast?_concat]
  dsimp only
  rw [tokenHas, h.new_token id (by simp)]
  rfl

end Restarted

theorem Restarted.refl (newline : Text) (h : tree.children list = front ++ word :: back) :
    Restarted tree list newline front [] word [] back tree :=
  ⟨Relines.refl, by rw [List.append_nil, h], by rw [List.append_nil, h], nofun, nofun⟩

theorem Restarted.insert (h : Restarted tree list newline front old word [] back middle)
    (hlist : middle.isGroup list = true) :
    Restarted tree list newline front old word [middle.size] back
      (middle.insertBlank list front.length newline) := by
  have hinserted := inserted_insertAt hlist front.length (.blank newline)
  have hmiddle := h.children_after
  rw [List.append_nil] at hmiddle
  refine ⟨h.relines.insert _ _, h.children_eq, ?_, h.old_blank, ?_⟩
  · have hafter := hinserted.children_after_list
    rw [hmiddle, List.take_left, List.drop_left] at hafter
    rw [List.append_assoc, List.singleton_append]
    exact hafter
  · intro id hid
    rw [List.mem_singleton.mp hid]
    exact hinserted.token?_new

theorem Restarted.remove (hwf : tree.WellFormed) {blank : NodeId}
    (h : tree.children list = front ++ blank :: word :: back)
    (hblank : tree.isWhitespace blank = true) (newline : Text) :
    Restarted tree list newline front [blank] word [] back (tree.removeAt list front.length) := by
  have hchild : tree.child? list front.length = some blank := by
    rw [child?, h, List.getElem?_append_right (Nat.le_refl _), Nat.sub_self,
      List.getElem?_cons_zero]
  refine ⟨Relines.refl.remove hchild hblank, by simp [h], ?_, ?_, ?_⟩
  · rw [children_removeAt hwf hchild, h, List.eraseIdx_append_of_length_le (Nat.le_refl _),
      Nat.sub_self, List.append_nil]
    rfl
  · intro id hid
    rw [List.mem_singleton.mp hid]
    exact hblank
  · intro id hid
    cases hid

theorem split_of_child? {place : Nat} (hchild : tree.child? list place = some word) :
    exists front back, tree.children list = front ++ word :: back ∧ front.length = place := by
  rcases List.getElem?_eq_some_iff.mp hchild with ⟨hlt, hword⟩
  refine ⟨(tree.children list).take place, (tree.children list).drop (place + 1), ?_,
    List.length_take_of_le (Nat.le_of_lt hlt)⟩
  rw [← hword, ← List.drop_eq_getElem_cons hlt, List.take_append_drop]

theorem exists_indexOf? (hmem : item ∈ tree.children list) :
    exists place, tree.indexOf? list item = some place ∧ tree.child? list place = some item := by
  unfold indexOf?
  cases hfound : (tree.children list).findIdx? (· == item) with
  | none =>
      rw [List.findIdx?_eq_none_iff] at hfound
      simpa using hfound item hmem
  | some place =>
      rcases List.findIdx?_eq_some_iff_getElem.mp hfound with ⟨hlt, heq, _⟩
      refine ⟨place, rfl, ?_⟩
      rw [child?, List.getElem?_eq_getElem hlt, eq_of_beq heq]

theorem Restarted.mem_children (h : Restarted tree list newline front [] word new back after)
    (hitem : item ∈ tree.children list) : item ∈ after.children list := by
  rw [h.children_eq] at hitem
  rw [h.children_after]
  simp only [List.mem_append, List.mem_cons, List.not_mem_nil, or_false] at hitem ⊢
  exact hitem.imp_left Or.inl

theorem exists_restarted (hlist : tree.isGroup list = true) (hword : word ∈ tree.children list)
    (newline : Text) :
    exists place front back, tree.indexOf? list word = some place ∧
      Restarted tree list newline front [] word [tree.size] back
        (tree.insertBlank list place newline) := by
  rcases exists_indexOf? hword with ⟨place, hplace, hchild⟩
  rcases split_of_child? hchild with ⟨front, back, hsplit, hfront⟩
  have hrestart := (Restarted.refl newline hsplit).insert hlist
  rw [hfront] at hrestart
  exact ⟨place, front, back, hplace, hrestart⟩

theorem exists_dropped (hwf : tree.WellFormed) {place : Nat}
    (hchild : tree.child? list place = some word) (newline : Text) :
    exists front old back, place = (front ++ old).length ∧
      Restarted tree list newline front old word [] back
        (if tree.blankBefore list place then (tree.removeAt list (place - 1), place - 1)
          else (tree, place)).1 ∧
      (if tree.blankBefore list place then (tree.removeAt list (place - 1), place - 1)
        else (tree, place)).2 = front.length := by
  rcases split_of_child? hchild with ⟨before, back, hsplit, hlength⟩
  split
  · rename_i hplace
    rw [blankBefore, Bool.and_eq_true, decide_eq_true_eq] at hplace
    rcases childHas_iff.mp hplace.2 with ⟨blank, hbefore, hblank⟩
    rcases List.eq_nil_or_concat before with rfl | ⟨front, last, rfl⟩
    · exact absurd hplace.1 (by simp [← hlength])
    · rw [List.concat_eq_append, List.length_append, List.length_singleton] at hlength
      have hfront : place - 1 = front.length := by omega
      rw [List.concat_eq_append, List.append_assoc, List.singleton_append] at hsplit
      rw [hfront, child?, hsplit, List.getElem?_append_right (Nat.le_refl _), Nat.sub_self,
        List.getElem?_cons_zero] at hbefore
      cases hbefore
      refine ⟨front, [blank], back, by simp [hlength], ?_, hfront⟩
      rw [hfront]
      exact Restarted.remove hwf hsplit hblank newline
  · exact ⟨before, [], back, by simp [hlength], Restarted.refl newline hsplit, hlength.symm⟩

/-!
# Words that break lines
-/

/-- A keyword that starts a statement. -/
def isStatementWord (tree : Tree) (id : NodeId) : Bool :=
  tree.isCategory id .dml || tree.isCategory id .ddl

/-- A keyword that starts a clause. -/
def isClauseWord (tree : Tree) (id : NodeId) : Bool :=
  tree.isCategory id .keyword && breaksLine (tree.normalized id)

theorem isStatementWord_congr {id : NodeId} (h : after.token? id = tree.token? id) :
    after.isStatementWord id = tree.isStatementWord id := by
  unfold isStatementWord isCategory category?
  rw [h]

theorem isClauseWord_congr {id : NodeId} (h : after.token? id = tree.token? id) :
    after.isClauseWord id = tree.isClauseWord id := by
  unfold isClauseWord isCategory category? normalized
  rw [h]
  cases tree.token? id with
  | none =>
      rfl
  | some token =>
      rfl

theorem isClauseWord_of_isStatementWord {id : NodeId} (h : tree.isStatementWord id = true) :
    tree.isClauseWord id = false := by
  unfold isStatementWord isCategory at h
  unfold isClauseWord isCategory
  rcases Bool.or_eq_true_iff.mp h with hcategory | hcategory
  · rw [eq_of_beq hcategory]
    rfl
  · rw [eq_of_beq hcategory]
    rfl

end Tree

namespace Indenting

open Tree

variable {tree after : Tree} {list item : NodeId} {newline : Text} {p : Text -> Bool}

theorem splitNextStatement_restarts {idx next : Nat} (hwf : tree.WellFormed)
    (hlist : tree.isGroup list = true)
    (h : splitNextStatement newline list tree idx = some (after, next)) :
    after = tree ∨ exists front old word new back,
      Restarted tree list newline front old word [new] back after ∧
        tree.isStatementWord word = true := by
  unfold splitNextStatement at h
  split at h
  · cases h
  · cases h
    exact Or.inl rfl
  · rename_i place word _ hnext
    rcases nextBy_some hnext with ⟨_, hchild, hword, _⟩
    rcases exists_dropped hwf hchild newline with ⟨front, old, back, _, hdrop, hplace⟩
    right
    split at h
    · rename_i hblank
      rw [if_pos hblank] at hdrop hplace
      cases h
      have hinsert := hdrop.insert ((hdrop.relines.relaidAt hwf hlist).reblanked.isGroup_of_isGroup
        hlist)
      rw [← hplace] at hinsert
      exact ⟨front, old, word, _, back, hinsert, hword⟩
    · rename_i hblank
      rw [if_neg hblank] at hdrop hplace
      cases h
      have hinsert := hdrop.insert hlist
      rw [← hplace] at hinsert
      exact ⟨front, old, word, _, back, hinsert, hword⟩

/-- A step of the walk that starts lines for clauses.  None is started where the text
before the word ends one. -/
theorem splitNextKeyword_restarts {idx next : Nat} (hwf : tree.WellFormed)
    (hlist : tree.isGroup list = true)
    (h : splitNextKeyword newline list tree idx = some (after, next)) :
    exists front old word new back,
      Restarted tree list newline front old word new back after ∧
        tree.isClauseWord word = true ∧ idx <= (front ++ old).length ∧
        next = (front ++ new).length + 1 ∧
        ((exists id, new = [id]) ∨ new = [] ∧ exists prev,
          (front ++ old).getLast? = some prev ∧ (tree.value prev).closesLine = true) := by
  unfold splitNextKeyword at h
  split at h
  · cases h
  · rename_i place hnext
    rcases nextBreak_some hnext with ⟨hle, word, hchild, hword⟩
    rcases exists_dropped hwf hchild newline with ⟨front, old, back, hold, hdrop, hplace⟩
    dsimp only at h
    generalize (if tree.blankBefore list place then (tree.removeAt list (place - 1), place - 1)
      else (tree, place)) = dropped at h hdrop hplace
    split at h
    · rename_i hends
      cases h
      rw [Bool.and_eq_true, decide_eq_true_eq] at hends
      rcases childHas_iff.mp hends.2 with ⟨prev, hprev, hcloses⟩
      refine ⟨front, old, word, [], back, hdrop, hword, by omega, by simp [hplace],
        Or.inr ⟨rfl, prev, ?_, hcloses⟩⟩
      rw [child?, hdrop.children_eq, List.getElem?_append_left (by omega)] at hprev
      rw [List.getLast?_eq_getElem?, ← hold]
      exact hprev
    · cases h
      have hinsert := hdrop.insert ((hdrop.relines.relaidAt hwf hlist).reblanked.isGroup_of_isGroup
        hlist)
      rw [← hplace] at hinsert
      exact ⟨front, old, word, _, back, hinsert, hword, by omega, by simp [hplace],
        Or.inl ⟨_, rfl⟩⟩

/-- Before a step a child starts an indented line, or it starts a line and the walk has
passed it.  So it is after the step. -/
theorem starts_splitNextKeyword {idx next : Nat} (hwf : tree.WellFormed)
    (hlist : tree.isGroup list = true) (hitem : item ∈ tree.solidChildren list)
    (hleft : tree.leftHas list item Text.opensIndented = true ∨
      tree.startsLine list item = true ∧ item ∈ (tree.children list).take idx)
    (hopens : newline.opensLine = true)
    (h : splitNextKeyword newline list tree idx = some (after, next)) :
    after.leftHas list item Text.opensIndented = true ∨
      after.startsLine list item = true ∧ item ∈ (after.children list).take next := by
  rcases splitNextKeyword_restarts hwf hlist h with
    ⟨front, old, word, new, back, hrestart, _, hle, hnext, hnew⟩
  have hnodup := hwf.nodup_children list
  rw [hrestart.children_eq] at hnodup hleft
  have hpast : (after.children list).take next = front ++ new ++ [word] := by
    rw [hrestart.children_after, hnext, List.append_cons]
    apply List.take_left'
    rw [List.length_append, List.length_singleton]
  rw [hpast]
  by_cases hword : item = word
  · subst hword
    have hfirst : item ∉ front ++ old := by
      grind
    -- The walk has not passed the word, so an indented line is started there so far.
    have hindented : tree.leftHas list item Text.opensIndented = true := by
      rcases hleft with hleft | ⟨_, hpassed⟩
      · exact hleft
      · rw [List.take_append_of_le_length hle] at hpassed
        exact absurd (List.mem_of_mem_take hpassed) hfirst
    rcases hnew with hnew | ⟨_, prev, hprev, hcloses⟩
    · refine Or.inr ⟨?_, by simp⟩
      rw [startsLine, hrestart.leftHas_word hwf hlist hnew]
      exact hopens
    · rcases leftHas_iff.mp hindented with ⟨left, token, hleft, htoken, _, hvalue⟩
      rw [hrestart.children_eq, leftIn_self hfirst, hprev, Option.some.injEq] at hleft
      rw [hleft, value_of_token? htoken] at hcloses
      simp [Text.opensIndented, hcloses] at hvalue
  · rw [startsLine, hrestart.leftHas_of_ne hwf hlist hitem hword,
      hrestart.leftHas_of_ne hwf hlist hitem hword]
    refine hleft.imp_right fun hpassed => ⟨hpassed.1, ?_⟩
    rw [List.take_append_of_le_length hle] at hpassed
    have hfront : item ∈ front := by
      rcases List.mem_append.mp (List.mem_of_mem_take hpassed.2) with hfront | hold
      · exact hfront
      · have hsolid := (List.mem_filter.mp hitem).2
        rw [hrestart.old_blank item hold] at hsolid
        cases hsolid
    simp [hfront]

/-!
# Walks that break lines
-/

/-- A tree that an earlier one has become by edits of one list, with a child that is not
blank. -/
structure Edited (tree : Tree) (list item : NodeId) (after : Tree) : Prop where
  relaid : tree.RelaidAt (fun id => id = list) after
  isGroup_list : after.isGroup list = true
  mem_item : item ∈ after.solidChildren list
  token?_item : after.token? item = tree.token? item

namespace Edited

variable {middle : Tree}

theorem refl (hwf : tree.WellFormed) (hlist : tree.isGroup list = true)
    (hitem : item ∈ tree.solidChildren list) : Edited tree list item tree :=
  ⟨RelaidAt.refl hwf _, hlist, hitem, rfl⟩

theorem next (h : Edited tree list item middle) (hnext : Relines list middle after) :
    Edited tree list item after := by
  have hrelaid := hnext.relaidAt h.relaid.wellFormed h.isGroup_list
  rcases List.mem_filter.mp h.mem_item with ⟨hmem, hsolid⟩
  have hitem := h.relaid.wellFormed.child_lt_size hmem
  refine ⟨h.relaid.trans hrelaid fun _ _ hid => hid,
    hrelaid.reblanked.isGroup_of_isGroup h.isGroup_list, ?_, ?_⟩
  · rw [hrelaid.solidChildren_eq list (lt_size_of_isGroup h.isGroup_list)]
    exact h.mem_item
  · rw [hrelaid.reblanked.token?_eq hitem (by simpa using hsolid), h.token?_item]

theorem sweep {step : Tree -> Nat -> Option (Tree × Nat)} {kept : Tree -> Nat -> Prop}
    (hrelines : forall {tree after : Tree} {idx next : Nat},
      step tree idx = some (after, next) -> Relines list tree after)
    (hstep : forall middle idx after next, Edited tree list item middle -> kept middle idx ->
      step middle idx = some (after, next) -> kept after next)
    (budget idx : Nat) (h : Edited tree list item middle) (hkept : kept middle idx) :
    exists last, kept (Tree.sweep step budget idx middle) last := by
  induction budget generalizing middle idx with
  | zero =>
      exact ⟨idx, hkept⟩
  | succ budget ih =>
      unfold Tree.sweep
      cases hnext : step middle idx with
      | none =>
          exact ⟨idx, hkept⟩
      | some result =>
          exact ih _ (h.next (hrelines hnext)) (hstep middle idx result.1 result.2 h hkept hnext)

/-- A walk that starts lines for the words of a test leaves what stands in front of any
other child as it is. -/
theorem leftHas_sweep {step : Tree -> Nat -> Option (Tree × Nat)} {starts : Tree -> NodeId -> Bool}
    (h : Edited tree list item tree)
    (hrelines : forall {tree after : Tree} {idx next : Nat},
      step tree idx = some (after, next) -> Relines list tree after)
    (hrestarts : forall {tree after : Tree} {idx next : Nat}, tree.WellFormed ->
      tree.isGroup list = true -> step tree idx = some (after, next) ->
      after = tree ∨ exists newline front old word new back,
        Restarted tree list newline front old word new back after ∧ starts tree word = true)
    (hother : forall {middle : Tree}, middle.token? item = tree.token? item ->
      starts middle item = false) (budget : Nat) :
    (Tree.sweep step budget 0 tree).leftHas list item p = tree.leftHas list item p := by
  have hstep : forall middle idx after next, Edited tree list item middle ->
      middle.leftHas list item p = tree.leftHas list item p ->
      step middle idx = some (after, next) ->
      after.leftHas list item p = tree.leftHas list item p := by
    intro middle idx after next hedited hleft hnext
    have hwf := hedited.relaid.wellFormed
    rcases hrestarts hwf hedited.isGroup_list hnext with
      rfl | ⟨newline, front, old, word, new, back, hrestart, hstarts⟩
    · exact hleft
    · rw [← hleft]
      apply hrestart.leftHas_of_ne hwf hedited.isGroup_list hedited.mem_item
      rintro rfl
      rw [hother hedited.token?_item] at hstarts
      cases hstarts
  rcases Edited.sweep hrelines hstep budget 0 h rfl with ⟨_, hlast⟩
  exact hlast

end Edited

section

variable {w : Indenting} (hwf : w.tree.WellFormed) (hlist : w.tree.isGroup list = true)
  (hitem : item ∈ w.tree.solidChildren list)
include hwf hlist hitem

theorem leftHas_splitStatements (hword : w.tree.isStatementWord item = false) :
    (w.splitStatements list).tree.leftHas list item p = w.tree.leftHas list item p := by
  refine (Edited.refl hwf hlist hitem).leftHas_sweep relines_splitNextStatement ?_
    (fun hsame => (isStatementWord_congr hsame).trans hword) _
  intro tree after idx next hwf hlist hnext
  rcases splitNextStatement_restarts hwf hlist hnext with
    hsame | ⟨front, old, word, new, back, hrestart⟩
  · exact Or.inl hsame
  · exact Or.inr ⟨_, front, old, word, [new], back, hrestart⟩

theorem startsLine_splitStatements (hstarts : w.tree.startsLine list item = true) :
    (w.splitStatements list).tree.startsLine list item = true := by
  have hstep : forall tree idx after next, Edited w.tree list item tree ->
      tree.startsLine list item = true ->
      splitNextStatement w.indenter.newline list tree idx = some (after, next) ->
      after.startsLine list item = true := by
    intro tree idx after next hedited hleft hnext
    have hwf' := hedited.relaid.wellFormed
    rcases splitNextStatement_restarts hwf' hedited.isGroup_list hnext with
      rfl | ⟨front, old, word, new, back, hrestart, _⟩
    · exact hleft
    · by_cases hword : item = word
      · rw [hword, startsLine, hrestart.leftHas_word hwf' hedited.isGroup_list ⟨new, rfl⟩]
        exact Indenter.opensLine_newline _
      · rw [startsLine, hrestart.leftHas_of_ne hwf' hedited.isGroup_list hedited.mem_item hword]
        exact hleft
  rcases Edited.sweep relines_splitNextStatement hstep (w.tree.childCount list) 0
    (Edited.refl hwf hlist hitem) hstarts with ⟨_, hlast⟩
  exact hlast

theorem leftHas_splitKeywords (hword : w.tree.isClauseWord item = false) :
    (w.splitKeywords list).tree.leftHas list item p = w.tree.leftHas list item p := by
  refine (Edited.refl hwf hlist hitem).leftHas_sweep relines_splitNextKeyword ?_
    (fun hsame => (isClauseWord_congr hsame).trans hword) _
  intro tree after idx next hwf hlist hnext
  rcases splitNextKeyword_restarts hwf hlist hnext with
    ⟨front, old, word, new, back, hrestart, hstarts, _⟩
  exact Or.inr ⟨_, front, old, word, new, back, hrestart, hstarts⟩

/-- A clause word that starts an indented line is given a line again, and the walk comes
to it once. -/
theorem startsLine_splitKeywords (hstarts : w.tree.leftHas list item Text.opensIndented = true) :
    (w.splitKeywords list).tree.startsLine list item = true := by
  have hstep : forall tree idx after next, Edited w.tree list item tree ->
      (tree.leftHas list item Text.opensIndented = true ∨
        tree.startsLine list item = true ∧ item ∈ (tree.children list).take idx) ->
      splitNextKeyword w.indenter.newline list tree idx = some (after, next) ->
      (after.leftHas list item Text.opensIndented = true ∨
        after.startsLine list item = true ∧ item ∈ (after.children list).take next) :=
    fun tree idx after next hedited hleft hnext => starts_splitNextKeyword
      hedited.relaid.wellFormed hedited.isGroup_list hedited.mem_item hleft
      (Indenter.opensLine_newline _) hnext
  rcases Edited.sweep relines_splitNextKeyword hstep (w.tree.childCount list) 0
    (Edited.refl hwf hlist hitem) (Or.inl hstarts) with ⟨_, hlast | hlast⟩
  · exact leftHas_of_imp (fun _ h => (Bool.and_eq_true_iff.mp h).1) hlast
  · exact hlast.1

end

end Indenting
end SqlLayout
