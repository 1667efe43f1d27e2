import SqlLayout.Proofs.Layout.LineEnds

/-!
# The pieces of a text

A text starts with a break, with a run without breaks and quotes, with a quoted text, or
with a quote that is never closed.  Which of them it is depends on what follows only for a
carriage return, for the end of a run, and for a quote that is not closed.
-/

namespace SqlLayout
namespace Lines

open Regex

/-!
# Quotes
-/

def isQuote (c : Char) : Bool := c == '"' || c == '\''

/-- The characters that neither break a line nor are a quote. -/
def plainSet : CharSet := .noneOf ['\r', '\n', '\'', '"']

/-- The number of characters up to the quote that closes a quoted text.  A backslash in
front of the text takes its first character along, which may not be a line feed. -/
def closing? (quote : Char) : Bool -> Text -> Option Nat
  | _, [] => none
  | true, c :: rest => if c = '\n' then none else (closing? quote false rest).map (· + 1)
  | false, c :: rest =>
      if c = quote then some 1 else (closing? quote (c == '\\') rest).map (· + 1)

section Closing

variable {quote : Char} {slashed : Bool} {text front rest : Text} {n : Nat}

theorem closing?_append (h : closing? quote slashed front = some n) (rest : Text) :
    closing? quote slashed (front ++ rest) = some n := by
  induction front generalizing slashed n with
  | nil =>
      cases slashed <;> cases h
  | cons c front ih =>
      cases slashed with
      | true =>
          rw [closing?] at h
          rw [List.cons_append, closing?]
          split at h
          next =>
            cases h
          next hfeed =>
            rcases Option.map_eq_some_iff.mp h with ⟨m, hm, rfl⟩
            rw [if_neg hfeed, ih hm]
            rfl
      | false =>
          rw [closing?] at h
          rw [List.cons_append, closing?]
          split at h
          next hquote =>
            rw [if_pos hquote]
            exact h
          next hquote =>
            rcases Option.map_eq_some_iff.mp h with ⟨m, hm, rfl⟩
            rw [if_neg hquote, ih hm]
            rfl

theorem exists_of_closing? (h : closing? quote slashed text = some n) :
    exists front rest, text = front ++ quote :: rest ∧ n = front.length + 1 ∧
      closing? quote slashed (front ++ [quote]) = some n := by
  induction text generalizing slashed n with
  | nil =>
      cases slashed <;> cases h
  | cons c text ih =>
      cases slashed with
      | true =>
          rw [closing?] at h
          split at h
          next =>
            cases h
          next hfeed =>
            rcases Option.map_eq_some_iff.mp h with ⟨m, hm, rfl⟩
            rcases ih hm with ⟨front, rest, rfl, rfl, hfront⟩
            refine ⟨c :: front, rest, rfl, rfl, ?_⟩
            rw [List.cons_append, closing?, if_neg hfeed, hfront]
            rfl
      | false =>
          rw [closing?] at h
          split at h
          next hquote =>
            cases h
            cases hquote
            refine ⟨[], text, rfl, rfl, ?_⟩
            rw [List.nil_append, closing?, if_pos rfl]
          next hquote =>
            rcases Option.map_eq_some_iff.mp h with ⟨m, hm, rfl⟩
            rcases ih hm with ⟨front, rest, rfl, rfl, hfront⟩
            refine ⟨c :: front, rest, rfl, rfl, ?_⟩
            rw [List.cons_append, closing?, if_neg hquote, hfront]
            rfl

theorem closing?_congr {other : Text}
    (h : forall slashed, closing? quote slashed rest = none -> closing? quote slashed other = none)
    (front : Text) (hnone : closing? quote slashed (front ++ rest) = none) :
    closing? quote slashed (front ++ other) = none := by
  induction front generalizing slashed with
  | nil =>
      exact h slashed hnone
  | cons c front ih =>
      cases slashed with
      | true =>
          rw [List.cons_append, closing?] at hnone ⊢
          split at hnone
          next hfeed =>
            rw [if_pos hfeed]
          next hfeed =>
            rw [if_neg hfeed, ih (Option.map_eq_none_iff.mp hnone)]
            rfl
      | false =>
          rw [List.cons_append, closing?] at hnone ⊢
          split at hnone
          next =>
            cases hnone
          next hquote =>
            rw [if_neg hquote, ih (Option.map_eq_none_iff.mp hnone)]
            rfl

end Closing

/-!
# The match
-/

def quotedRest (quote : Char) (slashed : Bool) : Regex :=
  let unit := alt (chars (.noneOf [quote, '\\'])) (char '\\' ++ chars (.noneOf ['\n']))
  if slashed then seq (seq (chars (.noneOf ['\n'])) (star unit)) (char quote)
  else seq (star unit) (char quote)

theorem cut_quotedRest {quote : Char} (hquote : isQuote quote = true)
    (before after : Option Char) :
    cut ([quotedRest quote false].flatMap (heads before after)) =
      ([(.noneOf [quote, '\\'], quotedRest quote false),
        (.oneOf ['\\'], quotedRest quote true), (.oneOf [quote], .empty)], false) := by
  rcases Bool.or_eq_true_iff.mp hquote with h | h
  · rw [eq_of_beq h]
    rfl
  · rw [eq_of_beq h]
    rfl

theorem cut_slashedRest (quote : Char) (before after : Option Char) :
    cut ([quotedRest quote true].flatMap (heads before after)) =
      ([(.noneOf ['\n'], quotedRest quote false)], false) := rfl

theorem run_quotedRest {quote : Char} (hquote : isQuote quote = true) (before : Option Char)
    (slashed : Bool) (text : Text) :
    run before [quotedRest quote slashed] text = closing? quote slashed text := by
  have hslash : quote ≠ '\\' := by
    rintro rfl
    cases hquote
  induction text generalizing before slashed with
  | nil =>
      cases slashed with
      | true =>
          rfl
      | false =>
          rw [run, cut_quotedRest hquote]
          rfl
  | cons c rest ih =>
      cases slashed with
      | true =>
          rw [run_cons, cut_slashedRest, closing?, if_neg Bool.false_ne_true, Option.or_none]
          by_cases hfeed : c = '\n'
          · rw [if_pos hfeed, hfeed]
            exact congrArg (Option.map (· + 1)) (run_nil _ rest)
          · have hadvance : advance c [(CharSet.noneOf ['\n'], quotedRest quote false)] =
                [quotedRest quote false] := by
              simp [advance, CharSet.has, hfeed]
            rw [if_neg hfeed, hadvance, ih]
      | false =>
          rw [run_cons, cut_quotedRest hquote, closing?, if_neg Bool.false_ne_true,
            Option.or_none]
          by_cases hclose : c = quote
          · have hadvance : advance c [(CharSet.noneOf [quote, '\\'], quotedRest quote false),
                (.oneOf ['\\'], quotedRest quote true), (.oneOf [quote], .empty)] = [.empty] := by
              simp [advance, CharSet.has, hclose, hslash]
            rw [if_pos hclose, hadvance, run_empty]
            rfl
          · have hadvance : advance c [(CharSet.noneOf [quote, '\\'], quotedRest quote false),
                (.oneOf ['\\'], quotedRest quote true), (.oneOf [quote], .empty)] =
                [quotedRest quote (c == '\\')] := by
              by_cases hc : c = '\\'
              · simp [advance, CharSet.has, hc, Ne.symm hslash]
              · rw [beq_eq_false_iff_ne.mpr hc]
                simp [advance, CharSet.has, hc, hclose]
            rw [if_neg hclose, hadvance, ih]

def pieceWays : List (CharSet × Regex) :=
  [(.oneOf ['\r'], chars (.oneOf ['\n'])), (.oneOf ['\r'], .empty), (.oneOf ['\n'], .empty),
    (plainSet, star (chars plainSet)),
    (.oneOf ['"'], quotedRest '"' false), (.oneOf ['\''], quotedRest '\'' false)]

theorem cut_piece (before after : Option Char) :
    cut ([piece].flatMap (heads before after)) = (pieceWays, false) := by
  have hpiece : piece =
      alt (seq (chars (.oneOf ['\r'])) (chars (.oneOf ['\n']))) (alt (chars (.oneOf ['\r']))
        (alt (chars (.oneOf ['\n'])) (alt (plus (chars (.noneOf ['\r', '\n', '\'', '"'])))
          (alt (quotedPiece '"') (quotedPiece '\''))))) := by
    decide
  rw [hpiece]
  rfl

theorem matchLength?_cons (c : Char) (rest : Text) :
    piece.matchLength? (c :: rest) = (run (some c) (advance c pieceWays) rest).map (· + 1) := by
  rw [matchLength?, run_cons, cut_piece, if_neg Bool.false_ne_true, Option.or_none]

theorem matchLength?_feed (rest : Text) : piece.matchLength? ('\n' :: rest) = some 1 := by
  have hadvance : advance '\n' pieceWays = [.empty] := by
    rfl
  rw [matchLength?_cons, hadvance, run_empty]
  rfl

theorem matchLength?_return {rest : Text} (h : rest.head? ≠ some '\n') :
    piece.matchLength? ('\r' :: rest) = some 1 := by
  have hadvance : advance '\r' pieceWays = [chars (.oneOf ['\n']), .empty] := by
    rfl
  rw [matchLength?_cons, hadvance]
  cases rest with
  | nil =>
      rfl
  | cons c rest =>
      have hc : c ≠ '\n' := by
        simpa using h
      have hcut : cut ([chars (.oneOf ['\n']), Regex.empty].flatMap
          (heads (some '\r') (some c))) = ([(.oneOf ['\n'], .empty)], true) := rfl
      have hnone : advance c [(CharSet.oneOf ['\n'], Regex.empty)] = [] := by
        simp [advance, CharSet.has, hc]
      rw [run_cons, hcut, hnone, run_nil]
      rfl

theorem matchLength?_quote {quote : Char} (hquote : isQuote quote = true) (rest : Text) :
    piece.matchLength? (quote :: rest) = (closing? quote false rest).map (· + 1) := by
  have hadvance : advance quote pieceWays = [quotedRest quote false] := by
    rcases Bool.or_eq_true_iff.mp hquote with h | h
    · rw [eq_of_beq h]
      rfl
    · rw [eq_of_beq h]
      rfl
  rw [matchLength?_cons, hadvance, run_quotedRest hquote]

theorem not_has_plainSet {c : Char} (h : plainSet.has c = false) :
    c = '\r' ∨ c = '\n' ∨ isQuote c = true := by
  unfold plainSet CharSet.has at h
  have hmem := List.elem_iff.mp (Bool.not_eq_eq_eq_not.mp h)
  simp only [List.mem_cons, List.not_mem_nil, or_false] at hmem
  rcases hmem with rfl | rfl | rfl | rfl
  · exact Or.inl rfl
  · exact Or.inr (Or.inl rfl)
  · exact Or.inr (Or.inr rfl)
  · exact Or.inr (Or.inr rfl)

theorem matchLength?_plain {c : Char} (hc : plainSet.has c = true) (rest : Text) :
    piece.matchLength? (c :: rest) = some ((rest.takeWhile plainSet.has).length + 1) := by
  have hadvance : advance c pieceWays = [star (chars plainSet)] := by
    have hne : c ≠ '\r' ∧ c ≠ '\n' ∧ c ≠ '\'' ∧ c ≠ '"' := by
      simpa [plainSet, CharSet.has] using hc
    simp [pieceWays, advance, hc]
    simp [CharSet.has, hne]
  rw [matchLength?_cons, hadvance, run_star_chars]
  rfl

/-!
# Pieces
-/

theorem piecesWithin_eq {budget more : Nat} {text : Text} (h : text.length <= budget)
    (hmore : text.length <= more) : piecesWithin budget text = piecesWithin more text := by
  induction budget generalizing more text with
  | zero =>
      rw [List.eq_nil_of_length_eq_zero (Nat.le_zero.mp h)]
      cases more <;> rfl
  | succ budget ih =>
      cases text with
      | nil =>
          cases more <;> rfl
      | cons c rest =>
          cases more with
          | zero =>
              cases hmore
          | succ more =>
              have hrest : rest.length <= budget := Nat.le_of_succ_le_succ h
              have hrest' : rest.length <= more := Nat.le_of_succ_le_succ hmore
              unfold piecesWithin
              split
              next n _ =>
                have hdrop : (rest.drop n).length <= rest.length := by
                  rw [List.length_drop]
                  exact Nat.sub_le _ _
                rw [ih (Nat.le_trans hdrop hrest) (Nat.le_trans hdrop hrest')]
              next =>
                rw [ih hrest hrest']

theorem pieces_of_match {c : Char} {front rest : Text}
    (h : piece.matchLength? (c :: (front ++ rest)) = some (front.length + 1)) :
    pieces (c :: (front ++ rest)) = (c :: front) :: pieces rest := by
  have hrest : rest.length <= (front ++ rest).length := by
    rw [List.length_append]
    exact Nat.le_add_left _ _
  unfold pieces
  rw [List.length_cons, piecesWithin, h]
  dsimp only
  rw [List.take_left, List.drop_left, piecesWithin_eq hrest (Nat.le_refl _)]

theorem pieces_of_no_match {c : Char} {rest : Text} (h : piece.matchLength? (c :: rest) = none) :
    pieces (c :: rest) = [c] :: pieces rest := by
  unfold pieces
  rw [List.length_cons, piecesWithin, h]

/-- The piece that a text starts with, in front of the rest of the text. -/
inductive Leads : Text -> Text -> Prop where
  | feed {rest : Text} : Leads ['\n'] rest
  | returnFeed {rest : Text} : Leads ['\r', '\n'] rest
  | carriage {rest : Text} : rest.head? ≠ some '\n' -> Leads ['\r'] rest
  | plain {front rest : Text} : front ≠ [] -> (forall c, c ∈ front -> plainSet.has c = true) ->
      (forall c, rest.head? = some c -> plainSet.has c = false) -> Leads front rest
  | quoted {quote : Char} {body rest : Text} : isQuote quote = true ->
      closing? quote false (body ++ [quote]) = some (body.length + 1) ->
      Leads (quote :: (body ++ [quote])) rest
  | lone {quote : Char} {rest : Text} : isQuote quote = true ->
      closing? quote false rest = none -> Leads [quote] rest

namespace Leads

variable {front rest text : Text}

theorem ne_nil (h : Leads front rest) : front ≠ [] := by
  cases h with
  | plain hne _ _ =>
      exact hne
  | feed | returnFeed | carriage | quoted | lone =>
      exact List.cons_ne_nil _ _

theorem pieces_append (h : Leads front rest) : pieces (front ++ rest) = front :: pieces rest := by
  cases h with
  | feed =>
      change pieces ('\n' :: ([] ++ rest)) = ['\n'] :: pieces rest
      exact pieces_of_match (matchLength?_feed rest)
  | returnFeed =>
      change pieces ('\r' :: (['\n'] ++ rest)) = ['\r', '\n'] :: pieces rest
      exact pieces_of_match (matchLength?_return_feed rest)
  | carriage hfeed =>
      change pieces ('\r' :: ([] ++ rest)) = ['\r'] :: pieces rest
      exact pieces_of_match (matchLength?_return hfeed)
  | plain hne hplain hstop =>
      cases front with
      | nil =>
          exact absurd rfl hne
      | cons c front =>
          apply pieces_of_match
          have hrun : (front ++ rest).takeWhile plainSet.has = front := by
            rw [List.takeWhile_append_of_pos fun d hd => hplain d (List.mem_cons_of_mem _ hd)]
            cases rest with
            | nil =>
                exact List.append_nil front
            | cons d rest =>
                rw [List.takeWhile_cons_of_neg (Bool.not_eq_true _ ▸ hstop d rfl),
                  List.append_nil]
          rw [matchLength?_plain (hplain c List.mem_cons_self), hrun]
  | @quoted quote body _ hquote hclosing =>
      apply pieces_of_match
      rw [matchLength?_quote hquote, closing?_append hclosing, List.length_append]
      rfl
  | @lone quote _ hquote hclosing =>
      change pieces (quote :: rest) = [quote] :: pieces rest
      apply pieces_of_no_match
      rw [matchLength?_quote hquote, hclosing]
      rfl

end Leads

theorem exists_leads {text : Text} (h : text ≠ []) :
    exists front rest, text = front ++ rest ∧ Leads front rest := by
  rcases List.exists_cons_of_ne_nil h with ⟨c, rest, rfl⟩
  cases hc : plainSet.has c with
  | true =>
      refine ⟨(c :: rest).takeWhile plainSet.has, (c :: rest).dropWhile plainSet.has,
        List.takeWhile_append_dropWhile.symm, .plain ?_ ?_ ?_⟩
      · rw [List.takeWhile_cons_of_pos hc]
        exact List.cons_ne_nil _ _
      · exact List.all_eq_true.mp List.all_takeWhile
      · intro d hd
        have hstop := List.head?_dropWhile_not plainSet.has (c :: rest)
        rw [hd] at hstop
        exact hstop
  | false =>
      rcases not_has_plainSet hc with rfl | rfl | hquote
      · by_cases hfeed : rest.head? = some '\n'
        · rcases List.head?_eq_some_iff.mp hfeed with ⟨tail, rfl⟩
          exact ⟨['\r', '\n'], tail, rfl, .returnFeed⟩
        · exact ⟨['\r'], rest, rfl, .carriage hfeed⟩
      · exact ⟨['\n'], rest, rfl, .feed⟩
      · cases hclosing : closing? c false rest with
        | none =>
            exact ⟨[c], rest, rfl, .lone hquote hclosing⟩
        | some n =>
            rcases exists_of_closing? hclosing with ⟨body, tail, rfl, rfl, hbody⟩
            refine ⟨c :: (body ++ [c]), tail, ?_, .quoted hquote hbody⟩
            rw [List.cons_append, List.append_assoc]
            rfl

theorem induction_pieces {motive : Text -> Prop} (nil : motive [])
    (append : forall front rest, Leads front rest -> motive rest -> motive (front ++ rest))
    (text : Text) : motive text := by
  by_cases h : text = []
  · rw [h]
    exact nil
  · rcases exists_leads h with ⟨front, rest, rfl, hleads⟩
    have hshort : rest.length < (front ++ rest).length := by
      rw [List.length_append]
      exact Nat.lt_add_of_pos_left (List.length_pos_iff.mpr hleads.ne_nil)
    exact append front rest hleads (induction_pieces nil append rest)
termination_by text.length

end Lines
end SqlLayout
