import SqlLayout.Proofs.Lexer.Marks

/-!
# Reading tokens again

Tokens that were read one after the other are put together to a text, and the
text is read again.  The same tokens come back, blanks aside, if and only if
each of them is found at its own place.
-/

namespace SqlLayout
namespace Token

/-!
# Tokens that fit one after the other
-/

def Fitting : Option Text -> List Token -> Prop
  | _, [] => True
  | tag, token :: rest => token.Fits tag ∧ Fitting (opens tag token.value) rest

def openAfter (tag : Option Text) (tokens : List Token) : Option Text :=
  tokens.foldl (fun tag token => opens tag token.value) tag

theorem fitting_append {tag : Option Text} {front back : List Token} :
    Fitting tag (front ++ back) <-> Fitting tag front ∧ Fitting (openAfter tag front) back := by
  induction front generalizing tag with
  | nil =>
      exact ⟨fun h => ⟨trivial, h⟩, fun h => h.2⟩
  | cons token front ih =>
      constructor
      · rintro ⟨hfits, hrest⟩
        rcases ih.mp hrest with ⟨hfront, hback⟩
        exact ⟨⟨hfits, hfront⟩, hback⟩
      · rintro ⟨⟨hfits, hfront⟩, hback⟩
        exact ⟨hfits, ih.mpr ⟨hfront, hback⟩⟩

def Outside (token : Token) : Prop :=
  token.category ≠ .string ∧ token.category ≠ .builtin

theorem outside_of_isWhitespace {token : Token} (h : token.isWhitespace = true) :
    token.Outside := by
  constructor
  · intro hcategory
    rw [isWhitespace, hcategory] at h
    cases h
  · intro hcategory
    rw [isWhitespace, hcategory] at h
    cases h

theorem Fits.outside {tag : Option Text} {token : Token} (h : token.Fits tag)
    (hout : token.Outside) : tag = none ∧ opens tag token.value = none := by
  cases tag with
  | none =>
      refine ⟨rfl, if_neg ?_⟩
      intro hmark
      exact hout.2 (h.mark rfl hmark)
  | some mark =>
      rcases h.body nofun with hstring | hbuiltin
      · exact absurd hstring hout.1
      · exact absurd hbuiltin hout.2

theorem Fitting.outside {tag : Option Text} {tokens : List Token} (h : Fitting tag tokens)
    (hout : forall token, token ∈ tokens -> token.Outside) (hne : tokens ≠ []) :
    tag = none ∧ openAfter tag tokens = none := by
  induction tokens generalizing tag with
  | nil =>
      exact absurd rfl hne
  | cons token rest ih =>
      rcases h.1.outside (hout token List.mem_cons_self) with ⟨htag, hopens⟩
      refine ⟨htag, ?_⟩
      unfold openAfter
      rw [List.foldl_cons]
      by_cases hrest : rest = []
      · rw [hrest]
        exact hopens
      · exact (ih h.2 (fun other hother => hout other (List.mem_cons_of_mem _ hother)) hrest).2

/-- The texts of the tokens that are not blanks. -/
def solidTexts (tokens : List Token) : List Text :=
  (tokens.filter fun token => !token.isWhitespace).map Token.value

theorem solidTexts_blank {token : Token} (h : token.isWhitespace = true) (rest : List Token) :
    solidTexts (token :: rest) = solidTexts rest := by
  unfold solidTexts
  rw [List.filter_cons_of_neg (by simp [h])]

theorem solidTexts_solid {token : Token} (h : token.isWhitespace = false) (rest : List Token) :
    solidTexts (token :: rest) = token.value :: solidTexts rest := by
  unfold solidTexts
  rw [List.filter_cons_of_pos (by simp [h]), List.map_cons]

/-- Each token that is not a blank is among others with its value and at its
place, the first token standing at a byte offset. -/
def FoundIn (others : List Token) : Nat -> List Token -> Prop
  | _, [] => True
  | offset, token :: rest =>
      (token.isWhitespace = false ->
        exists other, other ∈ others ∧ other.value = token.value ∧
          other.position = some offset) ∧
      FoundIn others (offset + token.byteLength) rest

theorem foundIn_blank {others : List Token} {token : Token} (h : token.isWhitespace = true)
    (offset : Nat) (rest : List Token) :
    FoundIn others offset (token :: rest) <-> FoundIn others (offset + token.byteLength) rest := by
  constructor
  · intro hfound
    exact hfound.2
  · intro hrest
    refine ⟨?_, hrest⟩
    intro hsolid
    rw [h] at hsolid
    cases hsolid

theorem foundIn_cons {first : Token} {others tokens : List Token} {position offset : Nat}
    (hfirst : first.position = some position) (hlt : position < offset) :
    FoundIn (first :: others) offset tokens <-> FoundIn others offset tokens := by
  induction tokens generalizing offset with
  | nil =>
      exact Iff.rfl
  | cons token rest ih =>
      refine and_congr (imp_congr_right fun _ => ?_) (ih (by omega))
      constructor
      · rintro ⟨other, hmem, hvalue, hposition⟩
        rcases List.mem_cons.mp hmem with rfl | htail
        · rw [hfirst, Option.some.injEq] at hposition
          omega
        · exact ⟨other, htail, hvalue, hposition⟩
      · rintro ⟨other, hmem, hvalue, hposition⟩
        exact ⟨other, List.mem_cons_of_mem _ hmem, hvalue, hposition⟩

theorem Contiguous.le_position {offset : Nat} {tokens : List Token} (h : Contiguous offset tokens)
    {token : Token} (hmem : token ∈ tokens) {position : Nat}
    (hposition : token.position = some position) : offset <= position := by
  induction tokens generalizing offset with
  | nil =>
      cases hmem
  | cons first rest ih =>
      rcases List.mem_cons.mp hmem with rfl | htail
      · rw [h.1, Option.some.injEq] at hposition
        exact Nat.le_of_eq hposition
      · exact Nat.le_trans (Nat.le_add_right _ _) (ih h.2 htail)

theorem byteLength_pos {token : Token} (h : token.value ≠ []) : 0 < token.byteLength := by
  unfold byteLength
  cases hvalue : token.value with
  | nil =>
      exact absurd hvalue h
  | cons c rest =>
      rw [Text.byteLength]
      exact Nat.add_pos_left c.utf8Size_pos _

end Token

/-!
# Reading again
-/

namespace Scan

open Token

theorem Emits.fitting {scan : Scan} {tokens : List Token} (h : Emits .default scan tokens)
    (hready : scan.Ready) : Fitting scan.dollarTag tokens := by
  induction h with
  | stop _ =>
      trivial
  | emit hnext _ ih =>
      rcases next?_fits hready hnext with ⟨hfits, hopens⟩
      rcases next?_spec hready hnext with ⟨_, _, _, _, hafter⟩
      refine ⟨hfits, ?_⟩
      rw [← hopens]
      exact ih hafter

theorem Emits.exists_first {scan : Scan} {read : List Token} (h : Emits .default scan read)
    (hrest : scan.rest ≠ []) :
    exists first after others, read = first :: others ∧
      scan.next? .default = some (first, after) ∧ Emits .default after others := by
  cases h with
  | stop hnone =>
      exact absurd (next?_eq_none_iff.mp hnone) hrest
  | emit hnext htail =>
      exact ⟨_, _, _, rfl, hnext, htail⟩

theorem next?_solid {scan after : Scan} {first token : Token} {text : Text}
    (hready : scan.Ready) (hnext : scan.next? .default = some (first, after))
    (hfits : token.Fits scan.dollarTag) (hsolid : token.isWhitespace = false)
    (hrest : scan.rest = token.value ++ text) : first.isWhitespace = false := by
  rcases next?_fits hready hnext with ⟨hfirst, _⟩
  rcases next?_spec hready hnext with ⟨_, _, hsplit, _, _⟩
  cases hwhite : first.isWhitespace with
  | false =>
      rfl
  | true =>
      rcases hfits.solid (hfirst.outside (outside_of_isWhitespace hwhite)).1 hsolid with
        ⟨c, rest, hvalue, hc⟩
      have hblank := hfirst.blank hwhite
      have hne := hfirst.ne_nil
      rw [hrest, hvalue, List.cons_append] at hsplit
      cases hstart : first.value with
      | nil =>
          exact absurd hstart hne
      | cons d others =>
          rw [hstart, List.cons_append] at hsplit
          rw [hstart] at hblank
          rw [List.head_eq_of_cons_eq hsplit, hblank d List.mem_cons_self] at hc
          cases hc

theorem Emits.after_blanks {scan : Scan} {read : List Token} {blanks text : Text}
    (h : Emits .default scan read) (hready : scan.Ready)
    (htag : blanks ≠ [] -> scan.dollarTag = none)
    (hblanks : forall c, c ∈ blanks -> Text.isBlank c = true)
    (htext : blanks ≠ [] -> forall c, text.head? = some c -> Text.isBlank c = false)
    (hrest : scan.rest = blanks ++ text) :
    exists after others, Emits .default after others ∧ after.Ready ∧
      after.dollarTag = scan.dollarTag ∧ after.rest = text ∧
      after.offset = scan.offset + blanks.byteLength ∧ solidTexts read = solidTexts others ∧
      forall tokens, FoundIn read after.offset tokens <-> FoundIn others after.offset tokens := by
  by_cases hne : blanks = []
  · refine ⟨scan, read, h, hready, rfl, ?_, ?_, rfl, fun _ => Iff.rfl⟩
    · rw [hrest, hne, List.nil_append]
    · rw [hne]
      rfl
  · have hnonempty : scan.rest ≠ [] := by
      rw [hrest]
      exact List.append_ne_nil_of_left_ne_nil hne text
    rcases h.exists_first hnonempty with ⟨first, after, others, rfl, hnext, htail⟩
    rcases next?_spec hready hnext with ⟨hvalue, hposition, _, hoffset, hafter⟩
    rcases next?_blanks (htag hne) hrest hne hblanks (htext hne) hnext with
      ⟨hcategory, heq, hremain, hdollar⟩
    have hwhite := isWhitespace_of_category hcategory
    refine ⟨after, others, htail, hafter, ?_, hremain, ?_, solidTexts_blank hwhite _, ?_⟩
    · rw [hdollar, htag hne]
    · rw [hoffset, byteLength, heq]
    · intro tokens
      have hpos := byteLength_pos hvalue
      exact foundIn_cons hposition (by omega)

theorem solidTexts_cons_eq_iff {scan after : Scan} {first token : Token}
    {others rest : List Token} (hready : scan.Ready)
    (hnext : scan.next? .default = some (first, after)) (htail : Emits .default after others)
    (hfirst : first.isWhitespace = false) (hsolid : token.isWhitespace = false)
    (ih : first.value = token.value ->
      (solidTexts others = solidTexts rest <-> FoundIn others after.offset rest)) :
    solidTexts (first :: others) = solidTexts (token :: rest) <->
      FoundIn (first :: others) scan.offset (token :: rest) := by
  rcases next?_spec hready hnext with ⟨hne, hposition, _, hoffset, hafter⟩
  have hlt : scan.offset < after.offset := by
    have hpos := byteLength_pos hne
    omega
  have hhead : (exists other, other ∈ first :: others ∧ other.value = token.value ∧
      other.position = some scan.offset) <-> first.value = token.value := by
    constructor
    · rintro ⟨other, hmem, hvalue, hother⟩
      rcases List.mem_cons.mp hmem with rfl | hlater
      · exact hvalue
      · exact absurd ((htail.contiguous hafter).le_position hlater hother) (Nat.not_le.mpr hlt)
    · intro hvalue
      exact ⟨first, List.mem_cons_self, hvalue, hposition⟩
  rw [solidTexts_solid hfirst, solidTexts_solid hsolid, List.cons.injEq]
  constructor
  · rintro ⟨hvalue, hrest⟩
    refine ⟨fun _ => hhead.mpr hvalue, (foundIn_cons hposition ?_).mpr ?_⟩
    · rw [byteLength, ← hvalue, ← byteLength, ← hoffset]
      exact hlt
    · rw [byteLength, ← hvalue, ← byteLength, ← hoffset]
      exact (ih hvalue).mp hrest
  · rintro ⟨hfound, hrest⟩
    have hvalue := hhead.mp (hfound hsolid)
    rw [byteLength, ← hvalue, ← byteLength, ← hoffset, foundIn_cons hposition hlt] at hrest
    exact ⟨hvalue, (ih hvalue).mpr hrest⟩

/-- The same texts come back where each token is found at its place.  Blanks that
stand before the first token are read on their own. -/
theorem Emits.solidTexts_eq_iff {tokens read : List Token} {scan : Scan} {blanks : Text}
    (h : Emits .default scan read) (hready : scan.Ready) (hfitting : Fitting scan.dollarTag tokens)
    (htag : blanks ≠ [] -> scan.dollarTag = none)
    (hblanks : forall c, c ∈ blanks -> Text.isBlank c = true)
    (hrest : scan.rest = blanks ++ tokens.flatMap Token.value) :
    solidTexts read = solidTexts tokens <->
      FoundIn read (scan.offset + blanks.byteLength) tokens := by
  induction tokens generalizing read scan blanks with
  | nil =>
      have hend : blanks ≠ [] -> forall c, ([] : Text).head? = some c ->
          Text.isBlank c = false := by
        intro _ c hc
        cases hc
      rcases h.after_blanks hready htag hblanks hend hrest with
        ⟨after, others, htail, _, _, hremain, _, htexts, _⟩
      cases htail with
      | stop _ =>
          exact ⟨fun _ => trivial, fun _ => htexts⟩
      | emit hnext _ =>
          rw [next?_eq_none_iff.mpr hremain] at hnext
          cases hnext
  | cons token rest ih =>
      rcases hfitting with ⟨hfits, hfitting⟩
      rw [List.flatMap_cons] at hrest
      cases hwhite : token.isWhitespace with
      | true =>
          -- a blank joins those before it
          rcases hfits.outside (outside_of_isWhitespace hwhite) with ⟨hnone, hopens⟩
          rw [hopens, ← hnone] at hfitting
          have hjoined : forall c, c ∈ blanks ++ token.value -> Text.isBlank c = true := by
            intro c hc
            rcases List.mem_append.mp hc with hold | hnew
            · exact hblanks c hold
            · exact hfits.blank hwhite c hnew
          have hmore := ih h hready hfitting (fun _ => hnone) hjoined
            (by rw [hrest, List.append_assoc])
          rw [Text.byteLength_append, ← Nat.add_assoc] at hmore
          rw [solidTexts_blank hwhite, foundIn_blank hwhite]
          exact hmore
      | false =>
          have hstart : blanks ≠ [] -> forall c,
              (token.value ++ rest.flatMap Token.value).head? = some c ->
                Text.isBlank c = false := by
            intro hne c hc
            rcases hfits.solid (htag hne) hwhite with ⟨d, tail, hvalue, hd⟩
            rw [hvalue, List.cons_append, List.head?_cons, Option.some.injEq] at hc
            rw [← hc]
            exact hd
          rcases h.after_blanks hready htag hblanks hstart hrest with
            ⟨after, others, htail, hafter, hdollar, hremain, hoffset, htexts, hfound⟩
          rw [htexts, ← hoffset, hfound]
          have hnonempty : after.rest ≠ [] := by
            rw [hremain]
            exact List.append_ne_nil_of_left_ne_nil hfits.ne_nil _
          rcases htail.exists_first hnonempty with ⟨first, last, others', rfl, hnext, hlast⟩
          rw [← hdollar] at hfits
          have hsolid := next?_solid hafter hnext hfits hwhite hremain
          apply solidTexts_cons_eq_iff hafter hnext hlast hsolid hwhite
          intro hvalue
          rcases next?_fits hafter hnext with ⟨_, hopens⟩
          rcases next?_spec hafter hnext with ⟨_, _, hsplit, _, hready'⟩
          rw [hremain, hvalue] at hsplit
          rw [hvalue, hdollar] at hopens
          rw [← hopens] at hfitting
          have hnone : forall c, c ∈ ([] : Text) -> Text.isBlank c = true := nofun
          exact ih hlast hready' hfitting (absurd rfl) hnone (List.append_cancel_left hsplit).symm

end Scan

/-- The texts of tokens that fit come back, blanks aside, if and only if each
token is found where it stands. -/
theorem solidTexts_tokenize_iff {tokens : List Token} (h : Token.Fitting none tokens) :
    Token.solidTexts (tokenize .default (tokens.flatMap Token.value)) = Token.solidTexts tokens <->
      Token.FoundIn (tokenize .default (tokens.flatMap Token.value)) 0 tokens :=
  (emits_tokenize .default _).solidTexts_eq_iff (ready_start _) h nofun nofun rfl

end SqlLayout
