import SqlLayout.Layout.Formatter
import SqlLayout.Proofs.Grouping.InnerRoses
import SqlLayout.Proofs.Grouping.Operands
import SqlLayout.Proofs.Layout.FilledLists
import SqlLayout.Proofs.Layout.Handlers

/-!
# What the margin writes

The margin looks at a statement as a row of pieces: blanks, and units that it writes
whole, each with the blank right before it in the same list.  What it does to the tree
is told here by what it does to this row.
-/

namespace SqlLayout

/-- A blank, or a token or group that is written whole with the blank before it. -/
inductive Piece where
  | blank (token : Token)
  | unit (space : Option Token) (body : List Token)

def Piece.tokens : Piece -> List Token
  | blank token => [token]
  | unit space body => space.toList ++ body

def Piece.blanks : Piece -> List Token
  | blank token => [token]
  | unit space _ => space.toList

namespace Rose

def blank? : Rose -> Option Token
  | .token t => if t.isWhitespace = true then some t else none
  | .group _ _ => none

def keepsWhole (kind : GroupKind) (children : List Rose) : Bool :=
  [GroupKind.identifier, .function, .typedLiteral].elem kind &&
    !Margin.hasBreak ((tokensOf children).flatMap Token.value)

def isWhole : Rose -> Bool
  | .token t => !t.isWhitespace
  | .group kind children => keepsWhole kind children

mutual

/-- The pieces of a rose, given the blank before it; a blank waits for what comes next. -/
def piecesBehind : Option Token -> Rose -> List Piece
  | space, .token t =>
      if t.isWhitespace = true then space.toList.map .blank else [.unit space [t]]
  | space, .group kind children =>
      if keepsWhole kind children = true then [.unit space (tokensOf children)]
      else space.toList.map .blank ++ piecesOf none children

def piecesOf : Option Token -> List Rose -> List Piece
  | space, [] => space.toList.map .blank
  | space, rose :: rest => rose.piecesBehind space ++ piecesOf rose.blank? rest

end

/-- The pieces inside of a group. -/
def pieces : Rose -> List Piece
  | .token _ => []
  | .group _ children => piecesOf none children

end Rose

namespace Rose

variable {rose : Rose} {space : Option Token}

theorem blank?_of_isWhole (h : rose.isWhole = true) : rose.blank? = none := by
  cases rose with
  | token t =>
      rw [isWhole, Bool.not_eq_true'] at h
      rw [blank?, h]
      rfl
  | group kind children =>
      rfl

theorem isBlank_of_isWhole (h : rose.isWhole = true) : rose.isBlank = false := by
  cases rose with
  | token t =>
      rw [isWhole, Bool.not_eq_true'] at h
      exact h
  | group kind children =>
      rfl

theorem piecesBehind_of_isWhole (h : rose.isWhole = true) :
    rose.piecesBehind space = [.unit space rose.tokens] := by
  cases rose with
  | token t =>
      rw [isWhole, Bool.not_eq_true'] at h
      rw [piecesBehind, h]
      rfl
  | group kind children =>
      rw [isWhole] at h
      rw [piecesBehind, if_pos h, tokens]

theorem eq_of_blank? {t : Token} (h : rose.blank? = some t) :
    rose = .token t ∧ t.isWhitespace = true := by
  cases rose with
  | token other =>
      rw [blank?] at h
      split at h
      · rename_i hblank
        cases h
        exact ⟨rfl, hblank⟩
      · cases h
  | group kind children =>
      cases h

theorem flatMap_space (space : Option Token) :
    (space.toList.map Piece.blank).flatMap Piece.tokens = space.toList := by
  cases space <;> rfl

mutual

theorem tokens_piecesBehind : forall (space : Option Token) (rose : Rose),
    (rose.piecesBehind space).flatMap Piece.tokens ++ rose.blank?.toList =
      space.toList ++ rose.tokens
  | space, .token t => by
      rw [piecesBehind, blank?, tokens]
      split
      · rw [flatMap_space]
        rfl
      · rw [List.flatMap_singleton]
        exact List.append_nil _
  | space, .group kind children => by
      rw [piecesBehind, tokens, blank?, Option.toList_none, List.append_nil]
      split
      · rw [List.flatMap_singleton]
        rfl
      · rw [List.flatMap_append, flatMap_space, tokens_piecesOf]
        rfl

theorem tokens_piecesOf : forall (space : Option Token) (roses : List Rose),
    (piecesOf space roses).flatMap Piece.tokens = space.toList ++ tokensOf roses
  | space, [] => by
      rw [piecesOf, flatMap_space, tokensOf, List.append_nil]
  | space, rose :: rest => by
      rw [piecesOf, List.flatMap_append, tokens_piecesOf, tokensOf, ← List.append_assoc,
        tokens_piecesBehind, List.append_assoc]

end

theorem blanks_of_mem_space (hspace : forall t, space = some t -> t.isWhitespace = true)
    {piece : Piece} (h : piece ∈ space.toList.map Piece.blank) :
    forall t, t ∈ piece.blanks -> t.isWhitespace = true := by
  rcases List.mem_map.mp h with ⟨other, hother, rfl⟩
  intro t ht
  rw [List.mem_singleton.mp ht]
  exact hspace other (Option.mem_toList.mp hother)

theorem unit_not_mem_space (before : Option Token) (body : List Token) :
    Piece.unit before body ∉ space.toList.map Piece.blank := by
  intro h
  rcases List.mem_map.mp h with ⟨other, _, hother⟩
  cases hother

mutual

theorem blanks_piecesBehind : forall (space : Option Token) (rose : Rose),
    (forall t, space = some t -> t.isWhitespace = true) ->
    forall piece, piece ∈ rose.piecesBehind space ->
      forall t, t ∈ piece.blanks -> t.isWhitespace = true
  | space, .token t, hspace, piece, hpiece => by
      rw [piecesBehind] at hpiece
      split at hpiece
      · exact blanks_of_mem_space hspace hpiece
      · rw [List.mem_singleton.mp hpiece]
        intro t ht
        exact hspace t (Option.mem_toList.mp ht)
  | space, .group kind children, hspace, piece, hpiece => by
      rw [piecesBehind] at hpiece
      split at hpiece
      · rw [List.mem_singleton.mp hpiece]
        intro t ht
        exact hspace t (Option.mem_toList.mp ht)
      · rcases List.mem_append.mp hpiece with hfront | hinner
        · exact blanks_of_mem_space hspace hfront
        · refine blanks_piecesOf none children ?_ piece hinner
          intro t hnone
          cases hnone

theorem blanks_piecesOf : forall (space : Option Token) (roses : List Rose),
    (forall t, space = some t -> t.isWhitespace = true) ->
    forall piece, piece ∈ piecesOf space roses ->
      forall t, t ∈ piece.blanks -> t.isWhitespace = true
  | space, [], hspace, piece, hpiece => by
      rw [piecesOf] at hpiece
      exact blanks_of_mem_space hspace hpiece
  | space, rose :: rest, hspace, piece, hpiece => by
      rw [piecesOf] at hpiece
      rcases List.mem_append.mp hpiece with hfirst | hrest
      · exact blanks_piecesBehind space rose hspace piece hfirst
      · exact blanks_piecesOf rose.blank? rest (fun t ht => (eq_of_blank? ht).2) piece hrest

end

mutual

theorem bodies_piecesBehind : forall (space : Option Token) (rose : Rose) (before : Option Token)
    (body : List Token), Piece.unit before body ∈ rose.piecesBehind space ->
    exists whole, (whole = rose ∨ whole ∈ rose.inner) ∧ whole.isWhole = true ∧
      whole.tokens = body
  | space, .token t, before, body, hpiece => by
      rw [piecesBehind] at hpiece
      split at hpiece
      · exact absurd hpiece (unit_not_mem_space before body)
      · rename_i hsolid
        rw [List.mem_singleton, Piece.unit.injEq] at hpiece
        refine ⟨.token t, Or.inl rfl, ?_, hpiece.2.symm⟩
        rw [isWhole, Bool.not_eq_true']
        exact Bool.eq_false_iff.mpr hsolid
  | space, .group kind children, before, body, hpiece => by
      rw [piecesBehind] at hpiece
      split at hpiece
      · rename_i hwhole
        rw [List.mem_singleton, Piece.unit.injEq] at hpiece
        exact ⟨.group kind children, Or.inl rfl, hwhole, hpiece.2.symm⟩
      · rcases List.mem_append.mp hpiece with hfront | hinner
        · exact absurd hfront (unit_not_mem_space before body)
        · rcases bodies_piecesOf none children before body hinner with
            ⟨whole, hmem, hwhole, htokens⟩
          exact ⟨whole, Or.inr hmem, hwhole, htokens⟩

theorem bodies_piecesOf : forall (space : Option Token) (roses : List Rose)
    (before : Option Token) (body : List Token), Piece.unit before body ∈ piecesOf space roses ->
    exists whole, whole ∈ innerOf roses ∧ whole.isWhole = true ∧ whole.tokens = body
  | space, [], before, body, hpiece => by
      rw [piecesOf] at hpiece
      exact absurd hpiece (unit_not_mem_space before body)
  | space, rose :: rest, before, body, hpiece => by
      rw [piecesOf] at hpiece
      rw [innerOf]
      rcases List.mem_append.mp hpiece with hfirst | hrest
      · rcases bodies_piecesBehind space rose before body hfirst with
          ⟨whole, hmem, hwhole, htokens⟩
        refine ⟨whole, ?_, hwhole, htokens⟩
        rcases hmem with rfl | hinner
        · exact List.mem_cons_self
        · exact List.mem_cons_of_mem _ (List.mem_append_left _ hinner)
      · rcases bodies_piecesOf rose.blank? rest before body hrest with
          ⟨whole, hmem, hwhole, htokens⟩
        exact ⟨whole, List.mem_cons_of_mem _ (List.mem_append_right _ hmem), hwhole, htokens⟩

end

end Rose

namespace Margin

def passBlank (m : Margin) (value : Text) : Margin :=
  if hasBreak value = true then { m with line := (Text.lineTail? value).getD [] }
  else { m with line := m.line ++ value }

def passSpace (m : Margin) : Option Token -> Margin
  | none => m
  | some space => m.passBlank space.value

def breakToken (m : Margin) : Option Token -> Token
  | none => .blank ('\n' :: m.lineIndent)
  | some space => { space with value := '\n' :: m.lineIndent }

def writePiece (m : Margin) : Piece -> List Token × Margin
  | .blank t => ([t], m.passBlank t.value)
  | .unit space body =>
      let m := m.passSpace space
      let value := body.flatMap Token.value
      if m.overflows value = true then
        (m.breakToken space :: body, { m with line := m.lineIndent ++ value })
      else (space.toList ++ body, { m with line := m.line ++ value })

def write (m : Margin) : List Piece -> List Token × Margin
  | [] => ([], m)
  | piece :: rest =>
      ((m.writePiece piece).1 ++ ((m.writePiece piece).2.write rest).1,
        ((m.writePiece piece).2.write rest).2)

theorem write_append (m : Margin) (front back : List Piece) :
    m.write (front ++ back) =
      ((m.write front).1 ++ ((m.write front).2.write back).1,
        ((m.write front).2.write back).2) := by
  induction front generalizing m with
  | nil =>
      rfl
  | cons piece rest ih =>
      rw [List.cons_append, write, write, ih, List.append_assoc]

theorem write_space (m : Margin) (space : Option Token) :
    m.write (space.toList.map .blank) = (space.toList, m.passSpace space) := by
  cases space <;> rfl

end Margin

/-!
# One child
-/

open Tree

variable {tree : Tree} {list id : NodeId}

namespace Tree

theorem WellFormed.value_rose (hwf : tree.WellFormed) (hid : id < tree.size) :
    tree.value id = (tree.rose id).tokens.flatMap Token.value := by
  rw [hwf.tokens_rose hid]
  rfl

end Tree

namespace Margin

open Rose

variable {m : Margin} {visit : NodeId -> Margin × Tree -> Margin × Tree} {budget idx : Nat}

theorem keepsTogether_of_rose (hwf : tree.WellFormed) (hid : id < tree.size) {kind : GroupKind}
    {children : List Rose} (hrose : tree.rose id = .group kind children) :
    keepsTogether tree id = keepsWhole kind children := by
  have hkind := (hwf.kind?_of_rose hid hrose).1
  rw [keepsTogether, isKindIn, hkind, hwf.value_rose hid, hrose]
  rfl

theorem broken_of_isWhole (hwf : tree.WellFormed) (hid : id < tree.size)
    (h : (tree.rose id).isWhole = true) :
    (tree.isGroup id && !keepsTogether tree id) = false := by
  cases hrose : tree.rose id with
  | token t =>
      rw [isGroup_of_token? (hwf.token?_of_rose hid hrose), Bool.false_and]
  | group kind children =>
      rw [hrose, isWhole] at h
      rw [keepsTogether_of_rose hwf hid hrose, h, Bool.not_true, Bool.and_false]

theorem writeChildren_blank (hchild : tree.child? list idx = some id) {token : Token}
    (htoken : tree.token? id = some token) (hblank : token.isWhitespace = true) :
    writeChildren visit list (budget + 1) idx (m, tree) =
      writeChildren visit list budget (idx + 1) (m.passBlank token.value, tree) := by
  have hwhite : tree.isWhitespace id = true := tokenHas_iff.mpr ⟨token, htoken, hblank⟩
  have hvalue : tree.value id = token.value := by
    rw [value, Tree.tokens, WellFormed.leaves_token htoken, List.filterMap_cons_some htoken]
    exact List.append_nil _
  rw [writeChildren, hchild]
  dsimp only
  rw [hvalue, hwhite, isGroup_of_token? htoken, passBlank]
  cases hasBreak token.value <;> simp

theorem writeChildren_group (hchild : tree.child? list idx = some id)
    (hgroup : tree.isGroup id = true) (hkept : keepsTogether tree id = false) :
    writeChildren visit list (budget + 1) idx (m, tree) =
      writeChildren visit list budget (idx + 1) (visit id (m, tree)) := by
  have hwhite : tree.isWhitespace id = false := tokenHas_of_isGroup hgroup _
  rw [writeChildren, hchild]
  dsimp only
  rw [hwhite, hgroup, hkept]
  rfl

theorem writeChildren_unit (hchild : tree.child? list idx = some id)
    (hwhite : tree.isWhitespace id = false)
    (hwhole : (tree.isGroup id && !keepsTogether tree id) = false) :
    writeChildren visit list (budget + 1) idx (m, tree) =
      if m.overflows (tree.value id) = true then
        writeChildren visit list budget ((breakBefore list idx ('\n' :: m.lineIndent) tree).2 + 1)
          ({ m with line := m.lineIndent ++ tree.value id },
            (breakBefore list idx ('\n' :: m.lineIndent) tree).1)
      else
        writeChildren visit list budget (idx + 1)
          ({ m with line := m.line ++ tree.value id }, tree) := by
  rw [writeChildren, hchild]
  dsimp only
  rw [hwhite, hwhole, Bool.false_and, if_neg Bool.false_ne_true, if_neg Bool.false_ne_true,
    Bool.not_false, Bool.and_true]

theorem breakBefore_spec (hwf : tree.WellFormed) (hlist : tree.isGroup list = true)
    {before rest : List Rose} {space : Option Token}
    (hroses : tree.childRoses list = before ++ (space.toList.map .token ++ rest))
    (hspace : forall token, space = some token -> token.isWhitespace = true)
    (hlast : space = none -> forall rose, before.getLast? = some rose -> rose.isBlank = false) :
    exists after,
      breakBefore list (before.length + space.toList.length) ('\n' :: m.lineIndent) tree =
        (after, before.length + 1) ∧
      tree.FilledWithin list after ∧
      after.childRoses list = before ++ .token (m.breakToken space) :: rest := by
  cases space with
  | some token =>
      rcases exists_child_of_childRoses hroses with
        ⟨front, id, back, hsplit, hfront, hrose, hback, hchild⟩
      have hblank := hspace token rfl
      have hid := hwf.child_lt_size (List.mem_of_getElem? hchild)
      have htoken := hwf.token?_of_rose hid hrose
      have hwhite : tree.isWhitespace id = true := tokenHas_iff.mpr ⟨token, htoken, hblank⟩
      refine ⟨tree.setValue id ('\n' :: m.lineIndent), ?_, ?_, ?_⟩
      · rw [breakBefore, Option.toList_some, List.length_singleton, Nat.add_sub_cancel,
          if_neg (Nat.succ_ne_zero _), hchild]
        dsimp only
        rw [if_pos hwhite]
      · exact (filledWithin_setValue hwf hwhite _).of_child hwf (List.mem_of_getElem? hchild)
      · rw [childRoses_setValue hwf hsplit htoken hblank, hfront, hback]
        rfl
  | none =>
      rw [Option.toList_none, List.map_nil, List.nil_append] at hroses
      refine ⟨tree.insertBlank list before.length ('\n' :: m.lineIndent), ?_,
        filledWithin_insertBlank hwf hlist _ _, childRoses_insertBlank hwf hlist hroses _⟩
      rw [breakBefore, Option.toList_none, List.length_nil, Nat.add_zero]
      rcases List.eq_nil_or_concat before with rfl | ⟨front, last, rfl⟩
      · rfl
      · rw [List.concat_eq_append] at hroses hlast ⊢
        have hsolid : last.isBlank = false := by
          apply hlast rfl
          rw [List.getLast?_append_of_ne_nil _ (List.cons_ne_nil _ _)]
          rfl
        rw [List.append_assoc] at hroses
        rcases exists_child_of_childRoses hroses with
          ⟨_, id, _, _, _, hrose, _, hchild⟩
        have hid := hwf.child_lt_size (List.mem_of_getElem? hchild)
        have hwhite : tree.isWhitespace id = false := by
          rw [← hwf.isBlank_rose hid, hrose]
          exact hsolid
        rw [List.length_append, List.length_singleton, Nat.add_sub_cancel,
          if_neg (Nat.succ_ne_zero _), hchild]
        dsimp only
        rw [hwhite, if_neg Bool.false_ne_true]

/-!
# A list
-/

def Writes (fits : Rose -> Prop) (visit : NodeId -> Margin × Tree -> Margin × Tree) : Prop :=
  forall (m : Margin) (tree : Tree) (id : NodeId), tree.WellFormed -> tree.isGroup id = true ->
    fits (tree.rose id) ->
    tree.FilledWithin id (visit id (m, tree)).2 ∧
      ((visit id (m, tree)).2.rose id).tokens = (m.write (tree.rose id).pieces).1 ∧
      (visit id (m, tree)).1 = (m.write (tree.rose id).pieces).2

theorem tokensOf_space (space : Option Token) :
    tokensOf (space.toList.map Rose.token) = space.toList := by
  cases space <;> rfl

section

variable {before rest : List Rose} {space : Option Token} {rose : Rose} (m visit budget)
  (hwf : tree.WellFormed) (hlist : tree.isGroup list = true)
  (hroses : tree.childRoses list = before ++ (space.toList.map .token ++ rose :: rest))
  (hspace : forall token, space = some token -> token.isWhitespace = true)
  (hlast : space = none -> forall rose, before.getLast? = some rose -> rose.isBlank = false)
include hwf hlist hroses hspace hlast

theorem writeChildren_whole (hwhole : rose.isWhole = true) :
    exists after written,
      writeChildren visit list (budget + 1) (before.length + space.toList.length)
          (m.passSpace space, tree) =
        writeChildren visit list budget written.length
          ((m.write (rose.piecesBehind space)).2, after) ∧
      tree.FilledWithin list after ∧ after.childRoses list = written ++ rest ∧
      tokensOf written = tokensOf before ++ (m.write (rose.piecesBehind space)).1 ∧
      written.getLast? = some rose := by
  have hroses' : tree.childRoses list = (before ++ space.toList.map .token) ++ rose :: rest := by
    rw [hroses, List.append_assoc]
  rcases exists_child_of_childRoses hroses' with ⟨_, id, _, _, _, rfl, _, hchild⟩
  rw [List.length_append, List.length_map] at hchild
  have hid := hwf.child_lt_size (List.mem_of_getElem? hchild)
  have hwhite : tree.isWhitespace id = false := by
    rw [← hwf.isBlank_rose hid]
    exact isBlank_of_isWhole hwhole
  rw [writeChildren_unit hchild hwhite (broken_of_isWhole hwf hid hwhole), hwf.value_rose hid,
    piecesBehind_of_isWhole hwhole, write, write, writePiece]
  dsimp only
  split
  · rcases breakBefore_spec (m := m.passSpace space) hwf hlist hroses hspace hlast with
      ⟨after, hbreak, hfill, hafter⟩
    refine ⟨after, before ++ [.token ((m.passSpace space).breakToken space), tree.rose id], ?_,
      hfill, ?_, ?_, ?_⟩
    · rw [hbreak, List.length_append]
      rfl
    · rw [hafter, List.append_assoc]
      rfl
    · rw [tokensOf_append, tokensOf, tokensOf, tokensOf, Rose.tokens, List.append_nil,
        List.append_nil]
      rfl
    · rw [List.getLast?_append_of_ne_nil _ (List.cons_ne_nil _ _)]
      rfl
  · refine ⟨tree, before ++ space.toList.map .token ++ [tree.rose id], ?_,
      FilledWithin.refl hwf list, ?_, ?_, ?_⟩
    · rw [List.length_append, List.length_append, List.length_map, List.length_singleton]
    · rw [hroses', List.append_assoc _ [tree.rose id]]
      rfl
    · rw [tokensOf_append, tokensOf_append, tokensOf_space, tokensOf, tokensOf, List.append_nil,
        List.append_nil, List.append_assoc]
    · rw [List.getLast?_append_of_ne_nil _ (List.cons_ne_nil _ _)]
      rfl

omit hlist hspace hlast in
theorem writeChildren_inner {fits : Rose -> Prop} (hvisit : Writes fits visit) {kind : GroupKind}
    {children : List Rose} (hrose : rose = .group kind children) (hfits : fits rose)
    (hwhole : keepsWhole kind children = false) :
    exists after written,
      writeChildren visit list (budget + 1) (before.length + space.toList.length)
          (m.passSpace space, tree) =
        writeChildren visit list budget written.length
          ((m.write (rose.piecesBehind space)).2, after) ∧
      tree.FilledWithin list after ∧ after.childRoses list = written ++ rest ∧
      tokensOf written = tokensOf before ++ (m.write (rose.piecesBehind space)).1 ∧
      forall rose, written.getLast? = some rose -> rose.isBlank = false := by
  have hroses' : tree.childRoses list = (before ++ space.toList.map .token) ++ rose :: rest := by
    rw [hroses, List.append_assoc]
  have hlength : (before ++ space.toList.map Rose.token).length =
      before.length + space.toList.length := by
    rw [List.length_append, List.length_map]
  rcases exists_child_of_childRoses hroses' with
    ⟨front, id, back, hsplit, hfront, hstands, hback, hchild⟩
  have hid := hwf.child_lt_size (List.mem_of_getElem? hchild)
  have hmem := List.mem_of_getElem? hchild
  rw [hlength] at hchild
  rw [← hstands] at hfits
  rw [hrose] at hstands ⊢
  have hgroup : tree.isGroup id = true :=
    isGroup_iff_kind?.mpr ⟨kind, (hwf.kind?_of_rose hid hstands).1⟩
  rcases hvisit (m.passSpace space) tree id hwf hgroup hfits with ⟨hfill, htokens, hmargin⟩
  rw [hstands, pieces] at htokens hmargin
  rw [piecesBehind, hwhole, if_neg Bool.false_ne_true, write_append, write_space,
    writeChildren_group hchild hgroup ((keepsTogether_of_rose hwf hid hstands).trans hwhole)]
  have hafter := hfill.childRoses_upper hwf hsplit
  generalize visit id (m.passSpace space, tree) = visited at hfill htokens hmargin hafter ⊢
  rcases visited with ⟨later, after⟩
  dsimp only at hfill htokens hmargin hafter ⊢
  refine ⟨after, before ++ space.toList.map .token ++ [after.rose id], ?_,
    hfill.of_child hwf hmem, ?_, ?_, ?_⟩
  · rw [hmargin, List.length_append, hlength]
    rfl
  · rw [hafter, hfront, hback, List.append_assoc _ [after.rose id]]
    rfl
  · rw [tokensOf_append, tokensOf_append, tokensOf_space, tokensOf, tokensOf, htokens,
      List.append_nil, List.append_assoc]
  · intro other hother
    rw [List.getLast?_append_of_ne_nil _ (List.cons_ne_nil _ _), List.getLast?_singleton,
      Option.some.injEq] at hother
    have hlt := Nat.lt_of_lt_of_le hid hfill.size_le
    rw [← hother, hfill.wellFormed.isBlank_rose hlt]
    exact tokenHas_of_isGroup (hfill.reblanked.isGroup_of_isGroup hgroup) _

theorem writeChildren_step {fits : Rose -> Prop} (hvisit : Writes fits visit)
    (hfits : fits rose) :
    exists after written,
      writeChildren visit list (budget + 1) (before.length + space.toList.length)
          (m.passSpace space, tree) =
        writeChildren visit list budget (written.length + rose.blank?.toList.length)
          ((m.write (rose.piecesBehind space)).2.passSpace rose.blank?, after) ∧
      tree.FilledWithin list after ∧
      after.childRoses list = written ++ (rose.blank?.toList.map .token ++ rest) ∧
      tokensOf written = tokensOf before ++ (m.write (rose.piecesBehind space)).1 ∧
      (rose.blank? = none -> forall rose, written.getLast? = some rose ->
        rose.isBlank = false) := by
  cases hwhole : rose.isWhole with
  | true =>
      rcases writeChildren_whole m visit budget hwf hlist hroses hspace hlast hwhole with
        ⟨after, written, hstep, hfill, hafter, htokens, hlater⟩
      rw [blank?_of_isWhole hwhole]
      refine ⟨after, written, hstep, hfill, hafter, htokens, fun _ other hother => ?_⟩
      rw [hlater, Option.some.injEq] at hother
      rw [← hother]
      exact isBlank_of_isWhole hwhole
  | false =>
      cases rose with
      | token t =>
          have hroses' : tree.childRoses list =
              (before ++ space.toList.map .token) ++ .token t :: rest := by
            rw [hroses, List.append_assoc]
          have hlength : (before ++ space.toList.map Rose.token).length =
              before.length + space.toList.length := by
            rw [List.length_append, List.length_map]
          rcases exists_child_of_childRoses hroses' with ⟨_, id, _, _, _, hrose, _, hchild⟩
          have hid := hwf.child_lt_size (List.mem_of_getElem? hchild)
          rw [hlength] at hchild
          rw [isWhole, Bool.not_eq_false'] at hwhole
          rw [piecesBehind, blank?, if_pos hwhole, if_pos hwhole, write_space,
            writeChildren_blank hchild (hwf.token?_of_rose hid hrose) hwhole]
          refine ⟨tree, before ++ space.toList.map .token, ?_, FilledWithin.refl hwf list, hroses',
            ?_, ?_⟩
          · rw [hlength]
            rfl
          · rw [tokensOf_append, tokensOf_space]
          · intro hnone
            cases hnone
      | group kind children =>
          rw [isWhole] at hwhole
          rcases writeChildren_inner m visit budget hwf hroses hvisit rfl hfits hwhole with
            ⟨after, written, hstep, hfill, hafter, htokens, hlater⟩
          exact ⟨after, written, hstep, hfill, hafter, htokens, fun _ => hlater⟩

end

theorem writeChildren_run {fits : Rose -> Prop} (hvisit : Writes fits visit)
    (hwf : tree.WellFormed) (hlist : tree.isGroup list = true)
    {before rest : List Rose} {space : Option Token}
    (hroses : tree.childRoses list = before ++ (space.toList.map .token ++ rest))
    (hspace : forall token, space = some token -> token.isWhitespace = true)
    (hlast : space = none -> forall rose, before.getLast? = some rose -> rose.isBlank = false)
    (hfits : forall rose, rose ∈ rest -> fits rose) (hbudget : rest.length <= budget) :
    exists after,
      writeChildren visit list budget (before.length + space.toList.length)
          (m.passSpace space, tree) = ((m.write (piecesOf space rest)).2, after) ∧
      tree.FilledWithin list after ∧
      tokensOf (after.childRoses list) =
        tokensOf before ++ (m.write (piecesOf space rest)).1 := by
  induction rest generalizing tree before space m budget with
  | nil =>
      have hstop : writeChildren visit list budget (before.length + space.toList.length)
          (m.passSpace space, tree) = (m.passSpace space, tree) := by
        cases budget with
        | zero =>
            rfl
        | succ budget =>
            have hnone : tree.child? list (before.length + space.toList.length) = none := by
              have hend := getElem?_childRoses tree list (before.length + space.toList.length)
              rw [hroses, List.append_nil, List.getElem?_eq_none (by simp)] at hend
              exact Option.map_eq_none_iff.mp hend.symm
            rw [writeChildren, hnone]
      rw [hstop, piecesOf, write_space]
      refine ⟨tree, rfl, FilledWithin.refl hwf list, ?_⟩
      rw [hroses, List.append_nil, tokensOf_append, tokensOf_space]
  | cons rose rest ih =>
      cases budget with
      | zero =>
          cases hbudget
      | succ budget =>
          rcases writeChildren_step m visit budget hwf hlist hroses hspace hlast hvisit
            (hfits rose List.mem_cons_self) with
            ⟨middle, written, hstep, hfill, hmiddle, htokens, hlater⟩
          rcases ih (m := (m.write (rose.piecesBehind space)).2) hfill.wellFormed
            (hfill.reblanked.isGroup_of_isGroup hlist) hmiddle
            (fun token htoken => (eq_of_blank? htoken).2) hlater
            (fun other hother => hfits other (List.mem_cons_of_mem _ hother))
            (Nat.le_of_succ_le_succ hbudget) with ⟨after, hrun, hfill', hafter⟩
          refine ⟨after, ?_, hfill.trans hwf hfill', ?_⟩
          · rw [hstep, hrun, piecesOf, write_append]
          · rw [hafter, htokens, piecesOf, write_append, List.append_assoc]

theorem writes_writeList (depth : Nat) :
    Writes (Nests (fun _ => false) depth) (writeList depth) := by
  induction depth with
  | zero =>
      intro m tree id hwf hgroup hnests
      rcases isGroup_iff_kind?.mp hgroup with ⟨kind, hkind⟩
      rw [hwf.rose_of_kind? hkind] at hnests
      cases hnests with
      | free hfree _ =>
          cases hfree
  | succ depth ih =>
      intro m tree id hwf hgroup hnests
      rcases isGroup_iff_kind?.mp hgroup with ⟨kind, hkind⟩
      have hrose := hwf.rose_of_kind? hkind
      rw [← childRoses] at hrose
      have hfits : forall rose, rose ∈ tree.childRoses id ->
          Nests (fun _ => false) depth rose := by
        rw [hrose] at hnests
        cases hnests with
        | free hfree _ =>
            cases hfree
        | group hall =>
            exact hall
      have hbudget : (tree.childRoses id).length <= tree.childCount id := by
        rw [childRoses, List.length_map]
        exact Nat.le_refl _
      have hroses : tree.childRoses id =
          [] ++ ((none : Option Token).toList.map Rose.token ++ tree.childRoses id) := rfl
      have hspace : forall token, (none : Option Token) = some token ->
          token.isWhitespace = true := by
        intro token hnone
        cases hnone
      have hlast : (none : Option Token) = none -> forall rose,
          ([] : List Rose).getLast? = some rose -> rose.isBlank = false := by
        intro _ rose hnone
        cases hnone
      rcases writeChildren_run (m := m) ih hwf hgroup hroses hspace hlast hfits hbudget with
        ⟨after, hrun, hfill, htokens⟩
      have hwrite : writeList (depth + 1) id (m, tree) =
          ((m.write (piecesOf none (tree.childRoses id))).2, after) := hrun
      have hkind' := (hfill.reblanked.kind?_eq id (lt_size_of_isGroup hgroup)).trans hkind
      rw [hwrite, hrose, pieces, hfill.wellFormed.rose_of_kind? hkind', ← childRoses, Rose.tokens]
      exact ⟨hfill, htokens, rfl⟩

end Margin

/-!
# Statements
-/

namespace Statement

variable {s : Statement}

/-- The pieces of a statement. -/
def pieces (s : Statement) : List Piece := (s.tree.rose s.root).pieces

/-- Breaking the lines of a statement writes its pieces. -/
theorem breakLines_writes (hwf : s.tree.WellFormed) (hroot : s.tree.isGroup s.root = true)
    (m : Margin) :
    (s.breakLines m).1.tokens = (m.write s.pieces).1 ∧
      (s.breakLines m).2 = (m.write s.pieces).2 := by
  have hid := lt_size_of_isGroup hroot
  have hnests : Rose.Nests (fun _ => false) s.tree.size (s.tree.rose s.root) :=
    hwf.nests_rose hid (Nat.le_add_left _ _)
  rcases Margin.writes_writeList s.tree.size m s.tree s.root hwf hroot hnests with
    ⟨hfill, htokens, hmargin⟩
  refine ⟨?_, hmargin⟩
  rw [hfill.wellFormed.tokens_rose (Nat.lt_of_lt_of_le hid hfill.size_le)] at htokens
  exact htokens

theorem exists_children (hwf : s.tree.WellFormed) (hroot : s.tree.isGroup s.root = true) :
    exists kind, s.tree.rose s.root = .group kind (s.tree.childRoses s.root) := by
  rcases isGroup_iff_kind?.mp hroot with ⟨kind, hkind⟩
  exact ⟨kind, hwf.rose_of_kind? hkind⟩

theorem tokens_pieces (hwf : s.tree.WellFormed) (hroot : s.tree.isGroup s.root = true) :
    s.pieces.flatMap Piece.tokens = s.tokens := by
  rcases exists_children hwf hroot with ⟨kind, hrose⟩
  rw [tokens, ← hwf.tokens_rose (lt_size_of_isGroup hroot), pieces, hrose, Rose.pieces,
    Rose.tokens_piecesOf, Rose.tokens]
  rfl

theorem runEach_breakLines {statements : List Statement}
    (h : forall s, s ∈ statements -> s.tree.WellFormed ∧ s.tree.isGroup s.root = true)
    (m : Margin) :
    (StatementFilter.runEach (.breakLines m) statements).flatMap Statement.tokens =
      (m.write (statements.flatMap pieces)).1 := by
  induction statements generalizing m with
  | nil =>
      rfl
  | cons s rest ih =>
      rcases h s List.mem_cons_self with ⟨hwf, hroot⟩
      rcases breakLines_writes hwf hroot m with ⟨htokens, hmargin⟩
      have hrun : StatementFilter.runEach (.breakLines m) (s :: rest) =
          (s.breakLines m).1 :: StatementFilter.runEach (.breakLines (s.breakLines m).2) rest :=
        rfl
      rw [hrun, List.flatMap_cons, ih fun other hother => h other (List.mem_cons_of_mem _ hother),
        List.flatMap_cons, Margin.write_append, htokens, hmargin]

end Statement
end SqlLayout
