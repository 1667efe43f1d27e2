import SqlLayout.Layout.Output
import SqlLayout.Proofs.Regex.Spelling

/-!
# Line ends

A text is cut into characters that stay in the final text and line ends.  A line
end is a break with the blanks before it, and a line feed takes its place.  At
the end of the text there may be blanks without a break, which are dropped.
-/

namespace SqlLayout

/-- A part of a text: a character that stays, or blanks and a break. -/
inductive LinePart where
  | kept (c : Char)
  | ended (blanks ending : Text)
deriving DecidableEq, Repr

namespace LinePart

/-- What the part is in the text. -/
def source : LinePart -> Text
  | kept c => [c]
  | ended blanks ending => blanks ++ ending

/-- What the final text has in its place. -/
def output : LinePart -> Text
  | kept c => [c]
  | ended _ [] => []
  | ended _ (_ :: _) => ['\n']

/-- The text that the parts were cut from. -/
def sources (parts : List LinePart) : Text := parts.flatMap source

/-- The final text. -/
def outputs (parts : List LinePart) : Text := parts.flatMap output

@[simp] theorem sources_nil : sources [] = [] := rfl

@[simp] theorem outputs_nil : outputs [] = [] := rfl

@[simp] theorem sources_cons (part : LinePart) (parts : List LinePart) :
    sources (part :: parts) = part.source ++ sources parts := rfl

@[simp] theorem outputs_cons (part : LinePart) (parts : List LinePart) :
    outputs (part :: parts) = part.output ++ outputs parts := rfl

@[simp] theorem sources_append (front back : List LinePart) :
    sources (front ++ back) = sources front ++ sources back :=
  List.flatMap_append

@[simp] theorem outputs_append (front back : List LinePart) :
    outputs (front ++ back) = outputs front ++ outputs back :=
  List.flatMap_append

def add (c : Char) (parts : List LinePart) : List LinePart :=
  if Text.isBlank c then
    match parts with
    | [] => [ended [c] []]
    | ended blanks ending :: rest => ended (c :: blanks) ending :: rest
    | kept d :: rest => kept c :: kept d :: rest
  else kept c :: parts

def ofPieces : List Text -> List LinePart
  | [] => []
  | piece :: rest =>
      if Lines.isBreak piece then ended [] piece :: ofPieces rest
      else piece.foldr add (ofPieces rest)

end LinePart

/-- The line ends of a text and the characters between them. -/
def lineParts (text : Text) : List LinePart := LinePart.ofPieces (Lines.pieces text)

/-!
# Pieces
-/

namespace Lines

open Regex

theorem piecesWithin_flatten {budget : Nat} {text : Text} (h : text.length <= budget) :
    (piecesWithin budget text).flatten = text := by
  induction budget generalizing text with
  | zero =>
      rw [List.eq_nil_of_length_eq_zero (Nat.le_zero.mp h)]
      rfl
  | succ budget ih =>
      cases text with
      | nil =>
          rfl
      | cons c rest =>
          have hrest : rest.length <= budget := Nat.le_of_succ_le_succ h
          unfold piecesWithin
          split
          · rename_i n _
            have hdrop : (rest.drop n).length <= budget := by
              rw [List.length_drop]
              exact Nat.le_trans (Nat.sub_le _ _) hrest
            rw [List.flatten_cons, ih hdrop, List.cons_append, List.take_append_drop]
          · rw [List.flatten_cons, ih hrest]
            rfl

theorem pieces_flatten (text : Text) : (pieces text).flatten = text :=
  piecesWithin_flatten (Nat.le_refl _)

def isInner (c : Char) : Bool := c != '\r' && c != '\n'

/-- A piece that is not a break has no break in it, or it is quoted and ends with
the quote. -/
def IsProper (piece : Text) : Prop :=
  isBreak piece = true ∨ (forall c, c ∈ piece -> isInner c = true) ∨
    exists front c, piece = front ++ [c] ∧ Text.isBlank c = false

theorem isProper_of_quoted {quote : Char} {text : Text} (hquote : Text.isBlank quote = false)
    (halpha : quote.isAlpha = false) (h : (quotedPiece quote).Spells text) : IsProper text := by
  have hchar : char quote = chars (.oneOf [quote]) := by
    rw [char, halpha]
    rfl
  unfold quotedPiece at h
  rw [hchar] at h
  cases h with
  | @seq _ _ opening rest _ hrest =>
      cases hrest with
      | @seq _ _ body closing _ hclosing =>
          cases hclosing with
          | @chars _ c hc =>
              have heq : c = quote := by
                simpa [CharSet.has] using hc
              refine Or.inr (Or.inr ⟨opening ++ body, c, ?_, ?_⟩)
              · rw [List.append_assoc]
              · rw [heq]
                exact hquote

theorem isProper_of_spells {text : Text} (h : piece.Spells text) : IsProper text := by
  have hpiece : piece =
      alt (seq (chars (.oneOf ['\r'])) (chars (.oneOf ['\n']))) (alt (chars (.oneOf ['\r']))
        (alt (chars (.oneOf ['\n'])) (alt (plus (chars (.noneOf ['\r', '\n', '\'', '"'])))
          (alt (quotedPiece '"') (quotedPiece '\''))))) := by
    decide
  have hone : forall {c d : Char}, (CharSet.oneOf [d]).has c = true -> c = d := by
    intro c d hc
    simpa [CharSet.has] using hc
  rw [hpiece] at h
  rcases spells_alt h with h | h
  · cases h with
    | seq hreturn hfeed =>
        rcases spells_chars hreturn with ⟨c, rfl, hc⟩
        rcases spells_chars hfeed with ⟨d, rfl, hd⟩
        rw [hone hc, hone hd]
        exact Or.inl rfl
  rcases spells_alt h with h | h
  · rcases spells_chars h with ⟨c, rfl, hc⟩
    rw [hone hc]
    exact Or.inl rfl
  rcases spells_alt h with h | h
  · rcases spells_chars h with ⟨c, rfl, hc⟩
    rw [hone hc]
    exact Or.inl rfl
  rcases spells_alt h with h | h
  · refine Or.inr (Or.inl fun c hc => ?_)
    have hset := h.all_plus_chars c hc
    simp [CharSet.has] at hset
    simp [isInner, hset]
  rcases spells_alt h with h | h
  · exact isProper_of_quoted rfl rfl h
  · exact isProper_of_quoted rfl rfl h

theorem matchLength?_return_feed (rest : Text) :
    piece.matchLength? ('\r' :: '\n' :: rest) = some 2 := by
  have hfirst : advance '\r' (cut ([piece].flatMap (heads none (some '\r')))).1 =
      [chars (.oneOf ['\n']), .empty] := by
    decide
  have hsecond : advance '\n' (cut ([chars (.oneOf ['\n']), .empty].flatMap
      (heads (some '\r') (some '\n')))).1 = [.empty] := by
    decide
  rw [matchLength?, run_cons, hfirst, run_cons, hsecond, run_empty]
  rfl

theorem exists_matchLength?_break {c : Char} (h : isInner c = false) (rest : Text) :
    exists n, piece.matchLength? (c :: rest) = some (n + 1) := by
  have hbreak : c = '\r' ∨ c = '\n' := by
    unfold isInner at h
    rw [Bool.and_eq_false_iff, bne_eq_false_iff_eq, bne_eq_false_iff_eq] at h
    exact h
  rcases hbreak with rfl | rfl
  · have hfirst : advance '\r' (cut ([piece].flatMap (heads none (some '\r')))).1 =
        [chars (.oneOf ['\n']), .empty] := by
      decide
    rw [matchLength?, run_cons, hfirst]
    cases rest with
    | nil =>
        exact ⟨0, rfl⟩
    | cons d rest =>
        have hdone : (cut ([chars (.oneOf ['\n']), Regex.empty].flatMap
            (heads (some '\r') (some d)))).2 = true := rfl
        rw [run_cons, hdone]
        cases run (some d) _ rest with
        | none =>
            exact ⟨0, rfl⟩
        | some n =>
            exact ⟨n + 1, rfl⟩
  · have hfirst : advance '\n' (cut ([piece].flatMap (heads none (some '\n')))).1 =
        [.empty] := by
      decide
    rw [matchLength?, run_cons, hfirst, run_empty]
    exact ⟨0, rfl⟩

def AllProper : List Text -> Prop
  | [] => True
  | piece :: rest =>
      IsProper piece ∧ (piece = ['\r'] -> rest.flatten.head? ≠ some '\n') ∧ AllProper rest

theorem allProper_piecesWithin {budget : Nat} {text : Text} (h : text.length <= budget) :
    AllProper (piecesWithin budget text) := by
  induction budget generalizing text with
  | zero =>
      exact trivial
  | succ budget ih =>
      cases text with
      | nil =>
          exact trivial
      | cons c rest =>
          have hrest : rest.length <= budget := Nat.le_of_succ_le_succ h
          unfold piecesWithin
          split
          · rename_i n hmatch
            have hdrop : (rest.drop n).length <= budget := by
              rw [List.length_drop]
              exact Nat.le_trans (Nat.sub_le _ _) hrest
            rcases spells_of_matchLength? hmatch with ⟨hle, hspells⟩
            rw [List.take_succ_cons] at hspells
            refine ⟨isProper_of_spells hspells, ?_, ih hdrop⟩
            rw [piecesWithin_flatten hdrop]
            intro hreturn hfeed
            rw [List.cons.injEq] at hreturn
            rcases hreturn with ⟨rfl, htake⟩
            rcases List.take_eq_nil_iff.mp htake with rfl | rfl
            · rcases List.head?_eq_some_iff.mp hfeed with ⟨tail, rfl⟩
              rw [matchLength?_return_feed] at hmatch
              cases hmatch
            · rw [List.drop_nil] at hfeed
              cases hfeed
          · rename_i hnone
            have hinner : isInner c = true := by
              cases hc : isInner c with
              | true =>
                  rfl
              | false =>
                  rcases exists_matchLength?_break hc rest with ⟨n, hmatch⟩
                  exact absurd hmatch (hnone n)
            refine ⟨Or.inr (Or.inl ?_), ?_, ih hrest⟩
            · intro d hd
              rw [List.mem_singleton.mp hd]
              exact hinner
            · intro hreturn
              cases hreturn
              cases hinner

theorem allProper_pieces (text : Text) : AllProper (pieces text) :=
  allProper_piecesWithin (Nat.le_refl _)

end Lines

namespace LinePart

/-!
# The text
-/

theorem sources_add (c : Char) (parts : List LinePart) :
    sources (add c parts) = c :: sources parts := by
  unfold add
  split
  · split
    · rfl
    · rfl
    · rfl
  · rfl

theorem sources_foldr_add (text : Text) (parts : List LinePart) :
    sources (text.foldr add parts) = text ++ sources parts := by
  induction text with
  | nil =>
      rfl
  | cons c rest ih =>
      rw [List.foldr_cons, sources_add, ih, List.cons_append]

theorem sources_ofPieces (pieces : List Text) : sources (ofPieces pieces) = pieces.flatten := by
  induction pieces with
  | nil =>
      rfl
  | cons piece rest ih =>
      unfold ofPieces
      split
      · rw [sources_cons, ih, List.flatten_cons]
        rfl
      · rw [sources_foldr_add, ih, List.flatten_cons]

/-!
# The final text
-/

def startsKept : List LinePart -> Bool
  | kept _ :: _ => true
  | _ => false

theorem exists_of_startsKept {parts : List LinePart} (h : startsKept parts = true) :
    exists c rest, parts = kept c :: rest := by
  cases parts with
  | nil =>
      cases h
  | cons part rest =>
      cases part with
      | kept c =>
          exact ⟨c, rest, rfl⟩
      | ended blanks ending =>
          cases h

theorem trimEnd_cons (c : Char) (text : Text) :
    Text.trimEnd (c :: text) =
      if Text.isBlank c && (Text.trimEnd text).isEmpty then [] else c :: Text.trimEnd text := by
  unfold Text.trimEnd
  rw [List.reverse_cons, List.dropWhile_append, List.isEmpty_reverse]
  cases hempty : (text.reverse.dropWhile Text.isBlank).isEmpty with
  | false =>
      rw [Bool.and_false, if_neg Bool.false_ne_true, if_neg Bool.false_ne_true,
        List.reverse_append]
      rfl
  | true =>
      rw [if_pos rfl, List.isEmpty_iff.mp hempty, Bool.and_true]
      cases hc : Text.isBlank c with
      | true =>
          rw [List.dropWhile_cons_of_pos hc]
          rfl
      | false =>
          rw [List.dropWhile_cons_of_neg (by rw [hc]; exact Bool.false_ne_true)]
          rfl

def Shows (parts : List LinePart) (line after : Text) : Prop :=
  outputs parts = Text.trimEnd line ++ after ∧
    startsKept parts = !(Text.trimEnd line).isEmpty

theorem Shows.add {parts : List LinePart} {line after : Text} (h : Shows parts line after)
    (c : Char) : Shows (LinePart.add c parts) (c :: line) after := by
  rcases h with ⟨houtputs, hstarts⟩
  unfold Shows LinePart.add
  rw [trimEnd_cons]
  cases hc : Text.isBlank c with
  | false =>
      rw [if_neg Bool.false_ne_true, Bool.false_and, if_neg Bool.false_ne_true, outputs_cons,
        houtputs]
      exact ⟨rfl, rfl⟩
  | true =>
      rw [if_pos rfl, Bool.true_and]
      cases hempty : (Text.trimEnd line).isEmpty with
      | true =>
          rw [List.isEmpty_iff.mp hempty] at houtputs hstarts
          rw [if_pos rfl]
          split
          · exact ⟨houtputs, rfl⟩
          · refine ⟨?_, rfl⟩
            rw [← houtputs]
            rename_i ending rest
            cases ending with
            | nil =>
                rfl
            | cons d ending =>
                rfl
          · cases hstarts
      | false =>
          rw [hempty] at hstarts
          rw [if_neg Bool.false_ne_true]
          split
          · cases hstarts
          · cases hstarts
          · rw [outputs_cons, houtputs]
            exact ⟨rfl, rfl⟩

theorem Shows.foldr_add {parts : List LinePart} {line after : Text} (h : Shows parts line after)
    (text : Text) : Shows (text.foldr LinePart.add parts) (text ++ line) after := by
  induction text with
  | nil =>
      exact h
  | cons c rest ih =>
      exact ih.add c

theorem join_cons (separator first : Text) (rest : List Text) :
    Text.join separator (first :: rest) = first ++ rest.flatMap (separator ++ ·) := by
  induction rest generalizing first with
  | nil =>
      rw [Text.join, List.flatMap_nil, List.append_nil]
  | cons second rest ih =>
      rw [Text.join, ih, List.flatMap_cons, List.append_assoc]
      · simp
      · exact nofun

theorem output_break {blanks ending : Text} (h : Lines.isBreak ending = true) :
    (ended blanks ending).output = ['\n'] := by
  cases ending with
  | nil =>
      cases h
  | cons c ending =>
      rfl

theorem shows_ofPieces (pieces : List Text) :
    exists line lines, Lines.gather pieces = line :: lines ∧
      Shows (ofPieces pieces) line ((lines.map Text.trimEnd).flatMap (['\n'] ++ ·)) := by
  induction pieces with
  | nil =>
      exact ⟨[], [], rfl, rfl, rfl⟩
  | cons piece rest ih =>
      rcases ih with ⟨line, lines, hgather, hshows⟩
      unfold ofPieces Lines.gather
      split
      · rename_i hbreak
        refine ⟨[], line :: lines, by rw [hgather], ?_, rfl⟩
        rw [outputs_cons, output_break hbreak, hshows.1]
        simp [Text.trimEnd]
      · rw [hgather]
        exact ⟨piece ++ line, lines, rfl, hshows.foldr_add piece⟩

theorem outputs_ofPieces (pieces : List Text) :
    outputs (ofPieces pieces) = Text.join ['\n'] ((Lines.gather pieces).map Text.trimEnd) := by
  rcases shows_ofPieces pieces with ⟨line, lines, hgather, houtputs, _⟩
  rw [hgather, houtputs, List.map_cons, join_cons]

/-!
# Line ends are regular
-/

def Trailing (blanks : Text) : Prop :=
  forall c, c ∈ blanks -> Text.isBlank c = true ∧ Lines.isInner c = true

/-- Parts as the serializer cuts them: a carriage return that stays is not the
last character of its line, a break is taken as a whole, and only the last line
may end without one. -/
inductive Regular : List LinePart -> Prop where
  | nil : Regular []
  | kept {c : Char} {parts : List LinePart} :
      (c = '\r' -> startsKept parts = true) -> Regular parts -> Regular (kept c :: parts)
  | ended {blanks ending : Text} {parts : List LinePart} :
      Trailing blanks ->
      Lines.isBreak ending = true ->
      (ending = ['\r'] -> (sources parts).head? ≠ some '\n') ->
      Regular parts ->
      Regular (ended blanks ending :: parts)
  | last {blanks : Text} : blanks ≠ [] -> Trailing blanks -> Regular [ended blanks []]

theorem Regular.add {parts : List LinePart} (h : Regular parts) {c : Char}
    (hc : Text.isBlank c = true -> startsKept parts = false -> Lines.isInner c = true) :
    Regular (LinePart.add c parts) := by
  unfold LinePart.add
  split
  · rename_i hblank
    have hgrown : forall blanks, startsKept parts = false -> Trailing blanks ->
        Trailing (c :: blanks) := by
      intro blanks hstarts hblanks d hd
      rcases List.mem_cons.mp hd with rfl | hd
      · exact ⟨hblank, hc hblank hstarts⟩
      · exact hblanks d hd
    cases h with
    | nil =>
        exact Regular.last (List.cons_ne_nil _ _) (hgrown [] rfl nofun)
    | kept hreturn hrest =>
        exact Regular.kept (fun _ => rfl) (Regular.kept hreturn hrest)
    | ended hblanks hbreak hfeed hrest =>
        exact Regular.ended (hgrown _ rfl hblanks) hbreak hfeed hrest
    | last _ hblanks =>
        exact Regular.last (List.cons_ne_nil _ _) (hgrown _ rfl hblanks)
  · rename_i hsolid
    refine Regular.kept ?_ h
    rintro rfl
    exact absurd rfl hsolid

theorem Regular.foldr_add_solid {parts : List LinePart} (h : Regular parts) (front : Text)
    {c : Char} (hc : Text.isBlank c = false) :
    Regular ((front ++ [c]).foldr LinePart.add parts) ∧
      startsKept ((front ++ [c]).foldr LinePart.add parts) = true := by
  induction front with
  | nil =>
      refine ⟨h.add fun hblank => ?_, ?_⟩
      · rw [hc] at hblank
        cases hblank
      · rw [List.nil_append, List.foldr_cons, List.foldr_nil]
        unfold LinePart.add
        rw [hc]
        rfl
  | cons d front ih =>
      rcases ih with ⟨hregular, hstarts⟩
      refine ⟨hregular.add fun _ hnone => ?_, ?_⟩
      · rw [hstarts] at hnone
        cases hnone
      · rw [List.cons_append, List.foldr_cons]
        generalize (front ++ [c]).foldr LinePart.add parts = rest at hstarts
        unfold LinePart.add
        split
        · split
          · cases hstarts
          · cases hstarts
          · rfl
        · rfl

theorem regular_ofPieces {pieces : List Text} (h : Lines.AllProper pieces) :
    Regular (ofPieces pieces) := by
  induction pieces with
  | nil =>
      exact Regular.nil
  | cons piece rest ih =>
      rcases h with ⟨hproper, hfeed, hrest⟩
      unfold ofPieces
      split
      · rename_i hbreak
        refine Regular.ended nofun hbreak ?_ (ih hrest)
        rw [sources_ofPieces]
        exact hfeed
      · rename_i hbreak
        rcases hproper with hbreak' | hinner | ⟨front, c, rfl, hc⟩
        · exact absurd hbreak' hbreak
        · clear hfeed hbreak
          induction piece with
          | nil =>
              exact ih hrest
          | cons c piece ihpiece =>
              have htail := ihpiece fun d hd => hinner d (List.mem_cons_of_mem _ hd)
              exact htail.add fun _ _ => hinner c List.mem_cons_self
        · exact ((ih hrest).foldr_add_solid front hc).1

end LinePart

theorem lineParts_sources (text : Text) : LinePart.sources (lineParts text) = text := by
  rw [lineParts, LinePart.sources_ofPieces, Lines.pieces_flatten]

theorem lineParts_outputs (text : Text) : LinePart.outputs (lineParts text) = serialize text :=
  LinePart.outputs_ofPieces _

theorem lineParts_regular (text : Text) : LinePart.Regular (lineParts text) :=
  LinePart.regular_ofPieces (Lines.allProper_pieces text)

end SqlLayout
