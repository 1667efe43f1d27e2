import SqlLayout.Proofs.Lexer.Agreement
import SqlLayout.Proofs.Lexer.Rereading

/-!
# Reading a text and its final form side by side

Two lexers read a text and its final form.  The one that reads the final form
may be behind by some blanks, and a comment that held only blanks is an operator
for it.  Strings they read together, each with its line ends stripped.
-/

namespace SqlLayout

open LinePart

/-!
# Dollar bodies
-/

namespace Text

theorem not_prefix_of_bare {c : Char} {tag text : Text} (hc : isBlank c = false)
    (h : Bare text.head?) : ¬ c :: tag <+: text := by
  rintro ⟨rest, rfl⟩
  rw [h c rfl] at hc
  cases hc

section

variable {tag : Text} (hsolid : forall c, c ∈ tag -> isBlank c = false)
include hsolid

theorem prefix_agrees {parts : List LinePart} (h : Regular parts) :
    tag <+: sources parts <-> tag <+: outputs parts := by
  induction tag generalizing parts with
  | nil =>
      exact ⟨fun _ => List.nil_prefix, fun _ => List.nil_prefix⟩
  | cons c tag ih =>
      have hc := hsolid c List.mem_cons_self
      cases hstarts : startsKept parts with
      | false =>
          rcases bare_heads h hstarts with ⟨hbare, hbare'⟩
          exact iff_of_false (not_prefix_of_bare hc hbare) (not_prefix_of_bare hc hbare')
      | true =>
          rcases exists_of_startsKept hstarts with ⟨d, rest, rfl⟩
          change c :: tag <+: d :: sources rest <-> c :: tag <+: d :: outputs rest
          rw [List.cons_prefix_cons, List.cons_prefix_cons]
          exact and_congr_right fun _ =>
            ih (fun e he => hsolid e (List.mem_cons_of_mem _ he)) h.tail

theorem exists_front_of_prefix {parts : List LinePart} (h : Regular parts)
    (htag : tag <+: sources parts) :
    exists front back, parts = front ++ back ∧ sources front = tag ∧ outputs front = tag := by
  induction tag generalizing parts with
  | nil =>
      exact ⟨[], parts, rfl, rfl, rfl⟩
  | cons c tag ih =>
      have hc := hsolid c List.mem_cons_self
      cases hstarts : startsKept parts with
      | false =>
          exact absurd htag (not_prefix_of_bare hc (bare_heads h hstarts).1)
      | true =>
          rcases exists_of_startsKept hstarts with ⟨d, rest, rfl⟩
          change c :: tag <+: d :: sources rest at htag
          rw [List.cons_prefix_cons] at htag
          rcases htag with ⟨rfl, htag⟩
          rcases ih (fun e he => hsolid e (List.mem_cons_of_mem _ he)) h.tail htag with
            ⟨front, back, rfl, rfl, houtputs⟩
          refine ⟨kept c :: front, back, rfl, rfl, ?_⟩
          rw [outputs_cons, houtputs]
          rfl

variable (hne : tag ≠ [])
include hne

theorem find?_blanks {blanks : Text} (hblanks : forall c, c ∈ blanks -> isBlank c = true)
    (text : Text) : find? tag (blanks ++ text) = (find? tag text).map (· + blanks.length) := by
  induction blanks with
  | nil =>
      exact Option.map_id'.symm
  | cons b blanks ih =>
      have hstart : ¬ tag <+: b :: (blanks ++ text) := by
        cases tag with
        | nil =>
            exact absurd rfl hne
        | cons c tag =>
            apply not_prefix_of_bare (hsolid c List.mem_cons_self)
            intro d hd
            cases hd
            exact hblanks b List.mem_cons_self
      rw [List.cons_append, find?, if_neg (by rw [List.isPrefixOf_iff_prefix]; exact hstart),
        ih fun c hc => hblanks c (List.mem_cons_of_mem _ hc), Option.map_map]
      rfl

theorem find?_agrees {parts : List LinePart} (h : Regular parts) :
    Agree parts (find? tag (sources parts)) (find? tag (outputs parts)) := by
  have hnil : find? tag [] = none := by
    rw [find?, if_neg]
    rw [List.isEmpty_iff]
    exact hne
  induction h with
  | nil =>
      rw [sources_nil, outputs_nil, hnil]
      exact Agree.neither []
  | @kept c parts hreturn hrest ih =>
      have hstart := prefix_agrees hsolid (Regular.kept hreturn hrest)
      have hsame : tag.isPrefixOf (c :: sources parts) = tag.isPrefixOf (c :: outputs parts) := by
        rw [Bool.eq_iff_iff, List.isPrefixOf_iff_prefix, List.isPrefixOf_iff_prefix]
        exact hstart
      change Agree _ (find? tag (c :: sources parts)) (find? tag (c :: outputs parts))
      rw [find?, find?, hsame]
      split
      · exact Agree.zero _
      · exact ih.cons
  | @ended blanks ending parts hblanks hbreak _ _ ih =>
      rw [sources_cons, outputs_cons, source,
        find?_blanks hsolid hne (fun c => blank_of_lineEnd hblanks hbreak),
        find?_blanks hsolid hne (fun c => blank_of_output)]
      exact ih.cons
  | @last blanks _ hblanks =>
      rw [sources_cons, source, List.append_nil, sources_nil,
        find?_blanks hsolid hne fun c hc => (hblanks c hc).1, hnil]
      change Agree _ none (find? tag [])
      rw [hnil]
      exact Agree.neither _

end

end Text

/-!
# Blanks and last characters
-/

namespace LinePart

def isBlankPart : LinePart -> Bool
  | kept c => Text.isBlank c
  | ended _ _ => true

theorem source_ne_nil {part : LinePart} {rest : List LinePart} (h : Regular (part :: rest)) :
    part.source ≠ [] := by
  cases part with
  | kept c =>
      exact List.cons_ne_nil _ _
  | ended blanks ending =>
      exact h.lineEnd.1

/-- Parts that hold no other character than blanks are blank throughout, as they stand
and as they come out. -/
theorem blank_of_flatMap {text : LinePart -> Text} (hkept : forall d, text (kept d) = [d])
    (hended : forall blanks ending rest, Regular (ended blanks ending :: rest) ->
      forall c, c ∈ text (ended blanks ending) -> Text.isBlank c = true)
    {lead rest : List LinePart} (h : Regular (lead ++ rest))
    (hlead : forall part, part ∈ lead -> part.isBlankPart = true) {c : Char}
    (hc : c ∈ lead.flatMap text) : Text.isBlank c = true := by
  induction lead with
  | nil =>
      cases hc
  | cons part lead ih =>
      rcases List.mem_append.mp hc with hpart | hlater
      · cases part with
        | kept d =>
            rw [hkept, List.mem_singleton] at hpart
            rw [hpart]
            exact hlead _ List.mem_cons_self
        | ended blanks ending =>
            exact hended blanks ending _ h c hpart
      · exact ih h.tail (fun other hother => hlead other (List.mem_cons_of_mem _ hother)) hlater

section

variable {lead rest : List LinePart} (h : Regular (lead ++ rest))
  (hlead : forall part, part ∈ lead -> part.isBlankPart = true) {c : Char}

include h hlead

theorem blank_of_sources (hc : c ∈ sources lead) : Text.isBlank c = true :=
  blank_of_flatMap (fun _ => rfl) (fun _ _ _ h => h.lineEnd.2.1) h hlead hc

theorem blank_of_outputs (hc : c ∈ outputs lead) : Text.isBlank c = true :=
  blank_of_flatMap (fun _ => rfl) (fun _ _ _ _ _ => blank_of_output) h hlead hc

end

theorem exists_lead {part : LinePart} (hpart : part.isBlankPart = true) (parts : List LinePart) :
    exists lead rest, parts = lead ++ rest ∧
      (forall other, other ∈ part :: lead -> other.isBlankPart = true) ∧
      forall c, (sources rest).head? = some c -> Text.isBlank c = false := by
  refine ⟨parts.takeWhile isBlankPart, parts.dropWhile isBlankPart,
    List.takeWhile_append_dropWhile.symm, ?_, ?_⟩
  · intro other hother
    rcases List.mem_cons.mp hother with rfl | hother
    · exact hpart
    · exact List.all_eq_true.mp List.all_takeWhile other hother
  · intro c hc
    have hfirst := List.head?_dropWhile_not isBlankPart parts
    generalize parts.dropWhile isBlankPart = rest at hc hfirst
    cases rest with
    | nil =>
        cases hc
    | cons other rest =>
        rw [List.head?_cons] at hfirst
        cases other with
        | kept d =>
            cases hc
            exact hfirst
        | ended blanks ending =>
            cases hfirst

theorem eq_nil_of_output {part : LinePart} {rest : List LinePart}
    (h : Regular (part :: rest)) (hnil : part.output = []) : rest = [] := by
  cases part with
  | kept c =>
      cases hnil
  | ended blanks ending =>
      rcases h.lineEnd.2.2 with hfeed | ⟨_, hrest⟩
      · rw [hfeed] at hnil
        cases hnil
      · exact hrest

theorem sameSide_last {front back : List LinePart} (h : Regular (front ++ back))
    (hne : front ≠ []) (hback : back ≠ []) :
    SameSide (sources front).getLast? (outputs front).getLast? := by
  rcases List.eq_nil_or_concat front with rfl | ⟨init, part, rfl⟩
  · exact absurd rfl hne
  · rw [List.concat_eq_append] at h ⊢
    rw [List.append_assoc] at h
    have hpart : Regular (part :: back) := h.of_append
    have houtput : part.output ≠ [] := fun hnil => hback (eq_nil_of_output hpart hnil)
    have hsources : sources (init ++ [part]) = sources init ++ part.source := by
      simp
    have houtputs : outputs (init ++ [part]) = outputs init ++ part.output := by
      simp
    rw [hsources, houtputs, List.getLast?_append_of_ne_nil _ (source_ne_nil hpart),
      List.getLast?_append_of_ne_nil _ houtput]
    cases part with
    | kept c =>
        exact Or.inl rfl
    | ended blanks ending =>
        rcases hpart.lineEnd with ⟨_, hblank, hfeed | ⟨hnone, _⟩⟩
        · refine Or.inr ⟨fun c hc => hblank c (List.mem_of_getLast? hc), ?_⟩
          rw [hfeed]
          intro c hc
          cases hc
          rfl
        · exact absurd hnone houtput

end LinePart

/-!
# Strings
-/

namespace Token

/-- A quoted string, in single or in double quotes. -/
def isString (token : Token) : Bool :=
  token.category == .singleQuoted || token.category == .doubleQuoted

def stringTexts (tokens : List Token) : List Text :=
  (tokens.filter isString).map Token.value

theorem stringTexts_cons (token : Token) (rest : List Token) :
    stringTexts (token :: rest) =
      (if token.isString then [token.value] else []) ++ stringTexts rest := by
  unfold stringTexts
  rw [List.filter_cons]
  split
  · rfl
  · rfl

theorem head?_of_opens {value mark : Text} (h : opens none value = some mark) :
    mark = value ∧ value.head? = some '$' := by
  unfold opens at h
  dsimp only at h
  split at h
  · rename_i hmark
    cases h
    unfold isDollarMark at hmark
    simp only [Bool.and_eq_true, beq_iff_eq] at hmark
    exact ⟨rfl, hmark.1.2⟩
  · cases h

theorem opens_eq_none {c : Char} (h : c ≠ '$') (rest : Text) : opens none (c :: rest) = none := by
  cases hopen : opens none (c :: rest) with
  | none =>
      rfl
  | some mark =>
      have hhead := (head?_of_opens hopen).2
      cases hhead
      exact absurd rfl h

theorem not_isString_of_isWhitespace {token : Token} (h : token.isWhitespace = true) :
    token.isString = false := by
  unfold isString
  cases hcategory : token.category with
  | singleQuoted =>
      rw [isWhitespace, hcategory] at h
      cases h
  | doubleQuoted =>
      rw [isWhitespace, hcategory] at h
      cases h
  | _ => rfl

end Token

/-- The strings of a text as they are in the final text. -/
def stringOutputs (pairs : List (Token × List LinePart)) : List Text :=
  (pairs.filter fun pair => pair.1.isString).map fun pair => outputs pair.2

/-- Tokens of a text with their parts, and tokens of the final text with the
same strings. -/
def Aligned (read read' : List Token) (parts : List LinePart) : Prop :=
  exists split : List (List LinePart), split.flatten = parts ∧
    split.map sources = read.map Token.value ∧
    Token.stringTexts read' = stringOutputs (read.zip split)

theorem Aligned.step {token : Token} {part rest : List LinePart} {others others' read' : List Token}
    (h : Aligned others others' rest) (hvalue : token.value = sources part)
    (htexts : Token.stringTexts read' =
      (if token.isString then [outputs part] else []) ++ Token.stringTexts others') :
    Aligned (token :: others) read' (part ++ rest) := by
  rcases h with ⟨split, rfl, hvalues, hstrings⟩
  refine ⟨part :: split, List.flatten_cons, ?_, ?_⟩
  · rw [List.map_cons, List.map_cons, hvalue, hvalues]
  · rw [htexts, hstrings, List.zip_cons_cons]
    unfold stringOutputs
    rw [List.filter_cons]
    split
    · rfl
    · rfl

/-!
# One step
-/

namespace Scan

theorem next?_of_outcome {config : LexerConfig} {scan after : Scan} {token : Token}
    {category : Category} {value rest : Text} {tag : Option Text}
    (hrest : scan.rest = value ++ rest)
    (houtcome : scan.outcome config = (category, value.length, tag))
    (h : scan.next? config = some (token, after)) :
    token.category = category ∧ token.value = value ∧ after.rest = rest ∧
      after.dollarTag = tag ∧ after.before = value.getLast? := by
  rcases next?_outcome h with ⟨hcategory, hvalue, htag, _⟩
  rcases next?_after h with ⟨hafter, hbefore⟩
  rw [houtcome] at hcategory hvalue htag hafter
  rw [hrest, List.take_left] at hvalue
  rw [hrest, List.drop_left] at hafter
  rw [hvalue] at hbefore
  exact ⟨hcategory, hvalue, hafter, htag, hbefore⟩

theorem outcome_of_classify {scan : Scan} {category : Category} {value rest : Text}
    (htag : scan.dollarTag = none) (hrest : scan.rest = value ++ rest)
    (hclass : scan.classify .default = (category, value.length)) :
    scan.outcome .default = (category, value.length, Token.opens none value) := by
  rcases outcome_plain htag with ⟨hcategory, hlength, hopens⟩
  rw [hclass] at hcategory hlength
  rw [hlength, hrest, List.take_left] at hopens
  exact Prod.ext hcategory (Prod.ext hlength hopens)

/-- Two lexers side by side: the one that reads the final text may still have
blanks before it. -/
structure Tracks (scan scan' : Scan) (parts : List LinePart) (blanks : Text) : Prop where
  regular : Regular parts
  rest : scan.rest = sources parts
  rest' : scan'.rest = blanks ++ outputs parts
  tag : scan'.dollarTag = scan.dollarTag
  solid : forall mark, scan.dollarTag = some mark ->
    mark ≠ [] ∧ forall c, c ∈ mark -> Text.isBlank c = false
  blank : forall c, c ∈ blanks -> Text.isBlank c = true
  outside : blanks ≠ [] -> scan.dollarTag = none
  bare : blanks ≠ [] -> Bare scan.before
  side : blanks = [] -> parts ≠ [] -> SameSide scan.before scan'.before

namespace Tracks

variable {scan scan' : Scan} {parts : List LinePart} {blanks : Text}

theorem catch_up (h : Tracks scan scan' parts blanks)
    (hstart : forall c, (outputs parts).head? = some c -> Text.isBlank c = false)
    {read' : List Token} (hread : Emits .default scan' read') :
    exists later others, Tracks scan later parts [] ∧ Emits .default later others ∧
      Token.stringTexts read' = Token.stringTexts others := by
  by_cases hne : blanks = []
  · subst hne
    exact ⟨scan', read', h, hread, rfl⟩
  · have hnone := h.outside hne
    have hnonempty : scan'.rest ≠ [] := by
      rw [h.rest']
      exact List.append_ne_nil_of_left_ne_nil hne _
    rcases hread.exists_first hnonempty with ⟨first, later, others, rfl, hnext, htail⟩
    have htag : scan'.dollarTag = none := by
      rw [h.tag, hnone]
    rcases next?_blanks htag h.rest' hne h.blank hstart hnext with
      ⟨hcategory, hvalue, hremain, hlater⟩
    have hwhite := Token.isWhitespace_of_category hcategory
    refine ⟨later, others, ?_, htail, ?_⟩
    · refine ⟨h.regular, h.rest, hremain, by rw [hlater, hnone], h.solid, nofun, absurd rfl,
        absurd rfl, ?_⟩
      intro _ _
      refine Or.inr ⟨h.bare hne, ?_⟩
      rw [(next?_after hnext).2, hvalue]
      intro c hc
      exact h.blank c (List.mem_of_getLast? hc)
    · rw [Token.stringTexts_cons, Token.not_isString_of_isWhitespace hwhite]
      rfl

/-- A token was read from the text, and the other lexer reads so many tokens that
they are side by side again. -/
def Advances (token : Token) (after : Scan) (parts : List LinePart) (read' : List Token) : Prop :=
  exists part rest blanks later others, parts = part ++ rest ∧ token.value = sources part ∧
    Tracks after later rest blanks ∧ Emits .default later others ∧
    Token.stringTexts read' =
      (if token.isString then [outputs part] else []) ++ Token.stringTexts others

section

variable {token : Token} {after : Scan} {read' : List Token}

theorem blank_step {part : LinePart} (h : Tracks scan scan' (part :: parts) blanks)
    (hnext : scan.next? .default = some (token, after)) (hread : Emits .default scan' read')
    (htag : scan.dollarTag = none) (hpart : part.isBlankPart = true) :
    Advances token after (part :: parts) read' := by
  rcases exists_lead hpart parts with ⟨lead, rest, rfl, hlead, hsolid⟩
  have hregular : Regular (part :: lead ++ rest) := h.regular
  have hblank : forall c, c ∈ sources (part :: lead) -> Text.isBlank c = true :=
    fun c => blank_of_sources hregular hlead
  have hne : sources (part :: lead) ≠ [] :=
    List.append_ne_nil_of_left_ne_nil (source_ne_nil h.regular) _
  have hrest : scan.rest = sources (part :: lead) ++ sources rest := by
    rw [h.rest, ← List.cons_append, sources_append]
  rcases next?_blanks htag hrest hne hblank hsolid hnext with
    ⟨hcategory, hvalue, hremain, hdollar⟩
  have hwhite := Token.isWhitespace_of_category hcategory
  refine ⟨part :: lead, rest, blanks ++ outputs (part :: lead), scan', read', rfl, hvalue, ?_,
    hread, ?_⟩
  · refine ⟨hregular.of_append, hremain, ?_, ?_, ?_, ?_, fun _ => hdollar, ?_, ?_⟩
    · rw [h.rest', ← List.cons_append, outputs_append, List.append_assoc]
    · rw [h.tag, htag, hdollar]
    · rw [hdollar]
      exact nofun
    · intro c hc
      rcases List.mem_append.mp hc with hold | hnew
      · exact h.blank c hold
      · exact blank_of_outputs hregular hlead hnew
    · intro _ c hc
      rw [(next?_after hnext).2, hvalue] at hc
      exact hblank c (List.mem_of_getLast? hc)
    · intro hnil hne
      rw [List.append_eq_nil_iff, outputs_cons, List.append_eq_nil_iff] at hnil
      have hend := eq_nil_of_output h.regular hnil.2.1
      exact absurd (List.append_eq_nil_iff.mp hend).2 hne
  · rw [Token.not_isString_of_isWhitespace hwhite]
    rfl

theorem front_step {front back : List LinePart} {category : Category} {tag : Option Text}
    (h : Tracks scan scan' (front ++ back) [])
    (hnext : scan.next? .default = some (token, after)) (hread : Emits .default scan' read')
    (houtputs : outputs front ≠ [])
    (hsolid : forall mark, tag = some mark ->
      mark ≠ [] ∧ forall c, c ∈ mark -> Text.isBlank c = false)
    (houtcome : scan.outcome .default = (category, (sources front).length, tag))
    (houtcome' : scan'.outcome .default = (category, (outputs front).length, tag)) :
    Advances token after (front ++ back) read' := by
  have hrest : scan.rest = sources front ++ sources back := by
    rw [h.rest, sources_append]
  have hrest' : scan'.rest = outputs front ++ outputs back := by
    rw [h.rest', outputs_append]
    rfl
  have hnonempty : scan'.rest ≠ [] := by
    rw [hrest']
    exact List.append_ne_nil_of_left_ne_nil houtputs _
  have hfront : front ≠ [] := by
    rintro rfl
    exact houtputs rfl
  rcases hread.exists_first hnonempty with ⟨first, later, others, rfl, hnext', htail⟩
  rcases next?_of_outcome hrest houtcome hnext with ⟨hcategory, hvalue, hafter, hopen, hbefore⟩
  rcases next?_of_outcome hrest' houtcome' hnext' with
    ⟨hcategory', hvalue', hlater, hopen', hbefore'⟩
  refine ⟨front, back, [], later, others, rfl, hvalue, ?_, htail, ?_⟩
  · refine ⟨h.regular.of_append, hafter, hlater, by rw [hopen, hopen'], ?_, nofun, absurd rfl,
      absurd rfl, ?_⟩
    · rw [hopen]
      exact hsolid
    · intro _ hback
      rw [hbefore, hbefore']
      exact sameSide_last h.regular hfront hback
  · have hstring : first.isString = token.isString := by
      rw [Token.isString, Token.isString, hcategory, hcategory']
    rw [Token.stringTexts_cons, hstring, hvalue']

theorem solid_step {c : Char} (h : Tracks scan scan' (kept c :: parts) [])
    (hnext : scan.next? .default = some (token, after)) (hread : Emits .default scan' read')
    (htag : scan.dollarTag = none) (hc : Text.isBlank c = false)
    (hcomment : ¬ Rule.EmptyComment (kept c :: parts)) :
    Advances token after (kept c :: parts) read' := by
  have hrest' : scan'.rest = outputs (kept c :: parts) := h.rest'
  have hside := h.side rfl (List.cons_ne_nil _ _)
  rcases classify_agrees hc h.regular hcomment h.rest hrest' hside with
    ⟨category, front, back, rfl, hclass, hclass', hdollar⟩
  have hrest := h.rest
  have htag' : scan'.dollarTag = none := by
    rw [h.tag, htag]
  rw [← List.cons_append] at h hrest hrest' ⊢
  rw [sources_append] at hrest
  rw [outputs_append] at hrest'
  have hopens : Token.opens none (outputs (kept c :: front)) =
      Token.opens none (sources (kept c :: front)) := by
    by_cases hmark : c = '$'
    · rw [outputs_eq_sources h.regular (hdollar hmark)]
    · exact (Token.opens_eq_none hmark _).trans (Token.opens_eq_none hmark _).symm
  have houtcome' := outcome_of_classify htag' hrest' hclass'
  rw [hopens] at houtcome'
  refine h.front_step hnext hread (List.cons_ne_nil _ _) ?_
    (outcome_of_classify htag hrest hclass) houtcome'
  intro mark hmark
  rcases Token.head?_of_opens hmark with ⟨rfl, hhead⟩
  cases hhead
  exact ⟨List.cons_ne_nil _ _, hdollar rfl⟩

/-- An empty comment is one token with its line end; in the final text the line
end is left over. -/
theorem comment_step {c : Char} (h : Tracks scan scan' (kept c :: parts) [])
    (hnext : scan.next? .default = some (token, after)) (hread : Emits .default scan' read')
    (htag : scan.dollarTag = none) (hcomment : Rule.EmptyComment (kept c :: parts)) :
    Advances token after (kept c :: parts) read' := by
  rcases hcomment with ⟨blanks, ending, rest, heq⟩
  rw [List.cons.injEq, kept.injEq] at heq
  rcases heq with ⟨rfl, rfl⟩
  have hlineEnd : Regular (ended (' ' :: blanks) ending :: rest) := h.regular.tail
  rcases hlineEnd.lineEnd with ⟨hsource, hblank, houtput⟩
  generalize hpart : ended (' ' :: blanks) ending = part at *
  have hrest : scan.rest = sources [kept '#', part] ++ sources rest := by
    rw [h.rest]
    simp
  have hclass : scan.classify .default = (.lineComment, (sources [kept '#', part]).length) := by
    apply classify_of_emit
    rw [h.rest, ← hpart, Rule.first?_emptyComment (hpart ▸ hlineEnd)]
    simp [source]
  rcases next?_of_outcome hrest (outcome_of_classify htag hrest hclass) hnext with
    ⟨hcategory, hvalue, hafter, hopens, hbefore⟩
  have hrest' : scan'.rest = ['#'] ++ (part.output ++ outputs rest) := h.rest'
  have htag' : scan'.dollarTag = none := by
    rw [h.tag, htag]
  have hnonempty : scan'.rest ≠ [] := by
    rw [hrest']
    exact List.cons_ne_nil _ _
  rcases hread.exists_first hnonempty with ⟨first, later, others, rfl, hnext', htail⟩
  have hbreak : part.output ++ outputs rest = [] ∨
      exists tail, part.output ++ outputs rest = '\n' :: tail := by
    rcases houtput with hfeed | ⟨hnone, rfl⟩
    · exact Or.inr ⟨outputs rest, by rw [hfeed]; rfl⟩
    · exact Or.inl (by rw [hnone]; rfl)
  rcases classify_hash hrest' hbreak with ⟨category, hclass', hsingle, hdouble⟩
  rcases next?_of_outcome hrest' (outcome_of_classify htag' hrest' hclass') hnext' with
    ⟨hcategory', _, hlater, hopens', _⟩
  have hnone : after.dollarTag = none := by
    rw [hopens]
    exact Token.opens_eq_none (by decide) _
  have hnone' : later.dollarTag = none := by
    rw [hopens']
    exact Token.opens_eq_none (by decide) _
  refine ⟨[kept '#', part], rest, part.output, later, others, rfl, hvalue, ?_, htail, ?_⟩
  · refine ⟨hlineEnd.tail, hafter, hlater, by rw [hnone, hnone'], ?_, ?_, fun _ => hnone, ?_, ?_⟩
    · rw [hnone]
      intro mark hmark
      cases hmark
    · intro c hc
      rw [← hpart] at hc
      exact blank_of_output hc
    · intro _ c hc
      have hsources : sources [kept '#', part] = ['#'] ++ part.source := by
        simp [source]
      rw [hbefore, hsources, List.getLast?_append_of_ne_nil _ hsource] at hc
      exact hblank c (List.mem_of_getLast? hc)
    · intro hnil hne
      exact absurd (eq_nil_of_output hlineEnd hnil) hne
  · have hplain : token.isString = false := by
      rw [Token.isString, hcategory]
      rfl
    have hplain' : first.isString = false := by
      rw [Token.isString, hcategory', Bool.or_eq_false_iff, beq_eq_false_iff_ne,
        beq_eq_false_iff_ne]
      exact ⟨hsingle, hdouble⟩
    rw [Token.stringTexts_cons, hplain, hplain']
    rfl

theorem body_step {mark : Text} (h : Tracks scan scan' parts [])
    (hnext : scan.next? .default = some (token, after)) (hread : Emits .default scan' read')
    (htag : scan.dollarTag = some mark) : Advances token after parts read' := by
  rcases h.solid mark htag with ⟨hne, hsolid⟩
  have hrest' : scan'.rest = outputs parts := h.rest'
  have htag' : scan'.dollarTag = some mark := by
    rw [h.tag, htag]
  have hopen := h.solid
  rw [htag] at hopen
  have hfind := Text.find?_agrees hsolid hne h.regular
  rw [← h.rest, ← hrest'] at hfind
  rcases hfind with ⟨hnone, hnone'⟩ | ⟨front, back, rfl, hsome, hsome'⟩
  · have houtcome := outcome_unclosed .default htag hnone
    have houtcome' := outcome_unclosed .default htag' hnone'
    by_cases houtputs : outputs parts = []
    · -- Only blanks are left of the body, and the final text is at its end.
      have hrest : scan.rest = scan.rest ++ [] := (List.append_nil _).symm
      rcases next?_of_outcome hrest houtcome hnext with ⟨hcategory, hvalue, hafter, hafterTag, _⟩
      have hplain : token.isString = false := by
        rw [Token.isString, hcategory]
        rfl
      refine ⟨parts, [], [], scan', read', (List.append_nil _).symm, by rw [hvalue, h.rest], ?_,
        hread, by rw [hplain]; rfl⟩
      refine ⟨Regular.nil, hafter, by rw [hrest', houtputs]; rfl, by rw [hafterTag, htag'], ?_,
        nofun, absurd rfl, absurd rfl, fun _ => absurd rfl⟩
      rw [hafterTag]
      exact hopen
    · rw [h.rest] at houtcome
      rw [hrest'] at houtcome'
      rw [← List.append_nil parts] at h ⊢
      exact h.front_step hnext hread houtputs hopen houtcome houtcome'
  · cases front with
    | nil =>
        have hmark := Text.find?_zero_iff.mp hsome
        rw [h.rest] at hmark
        rcases Text.exists_front_of_prefix hsolid h.regular hmark with
          ⟨front, rest, heq, hsources, houtputs⟩
        have houtcome := outcome_mark .default htag hsome
        have houtcome' := outcome_mark .default htag' hsome'
        rw [heq] at h ⊢
        rw [← hsources] at houtcome
        rw [← houtputs] at hne houtcome'
        refine h.front_step hnext hread hne ?_ houtcome houtcome'
        exact nofun
    | cons part front =>
        have hback : back ≠ [] := by
          rintro rfl
          have hmark := Text.prefix_of_find? hsome
          rw [h.rest, List.append_nil, List.drop_length] at hmark
          exact hne (List.prefix_nil.mp hmark)
        have houtputs : outputs (part :: front) ≠ [] := by
          intro hnil
          rw [outputs_cons, List.append_eq_nil_iff] at hnil
          have hend := eq_nil_of_output h.regular hnil.1
          exact hback (List.append_eq_nil_iff.mp hend).2
        have hsources : sources (part :: front) ≠ [] :=
          List.append_ne_nil_of_left_ne_nil (source_ne_nil h.regular) _
        refine h.front_step hnext hread houtputs hopen
          (outcome_inside .default htag hsome ?_) (outcome_inside .default htag' hsome' ?_)
        · rw [Ne, List.length_eq_zero_iff]
          exact hsources
        · rw [Ne, List.length_eq_zero_iff]
          exact houtputs

theorem Advances.of_stringTexts {others : List Token} (h : Advances token after parts others)
    (heq : Token.stringTexts read' = Token.stringTexts others) :
    Advances token after parts read' := by
  unfold Advances at h ⊢
  rw [heq]
  exact h

theorem advances (h : Tracks scan scan' parts blanks)
    (hnext : scan.next? .default = some (token, after)) (hread : Emits .default scan' read') :
    Advances token after parts read' := by
  cases htag : scan.dollarTag with
  | some mark =>
      have hnil : blanks = [] := by
        by_contra hne
        rw [h.outside hne] at htag
        cases htag
      subst hnil
      exact h.body_step hnext hread htag
  | none =>
      cases parts with
      | nil =>
          rcases next?_outcome hnext with ⟨_, _, _, c, rest, hcons⟩
          rw [h.rest] at hcons
          cases hcons
      | cons part parts =>
          cases hpart : part.isBlankPart with
          | true =>
              exact h.blank_step hnext hread htag hpart
          | false =>
              cases part with
              | ended blanks ending =>
                  cases hpart
              | kept c =>
                  have hstart : forall d, (outputs (kept c :: parts)).head? = some d ->
                      Text.isBlank d = false := by
                    intro d hd
                    cases hd
                    exact hpart
                  rcases h.catch_up hstart hread with ⟨later, others, htracks, hlater, htexts⟩
                  refine Advances.of_stringTexts ?_ htexts
                  by_cases hcomment : Rule.EmptyComment (kept c :: parts)
                  · exact htracks.comment_step hnext hlater htag hcomment
                  · exact htracks.solid_step hnext hlater htag hpart hcomment

end

/-- Lexers that are side by side stay so until both texts are read. -/
theorem aligned {read read' : List Token} (h : Tracks scan scan' parts blanks)
    (hread : Emits .default scan read) (hread' : Emits .default scan' read') :
    Aligned read read' parts := by
  induction hread generalizing scan' parts blanks read' with
  | stop hnone =>
      have hparts : parts = [] := by
        cases parts with
        | nil =>
            rfl
        | cons part parts =>
            have hempty := next?_eq_none_iff.mp hnone
            rw [h.rest, sources_cons, List.append_eq_nil_iff] at hempty
            exact absurd hempty.1 (source_ne_nil h.regular)
      subst hparts
      rcases h.catch_up nofun hread' with ⟨later, others, htracks, hlater, htexts⟩
      refine ⟨[], rfl, rfl, ?_⟩
      rw [htexts]
      cases hlater with
      | stop _ =>
          rfl
      | emit hnext _ =>
          rcases next?_outcome hnext with ⟨_, _, _, c, rest, hcons⟩
          rw [htracks.rest'] at hcons
          cases hcons
  | emit hnext _ ih =>
      rcases h.advances hnext hread' with
        ⟨part, rest, blanks', later, others, rfl, hvalue, htracks, hlater, htexts⟩
      exact (ih htracks hlater).step hvalue htexts

end Tracks
end Scan

/-- The final text has the strings of the text with their line ends stripped. -/
theorem aligned_serialize (sql : Text) :
    Aligned (tokenize .default sql) (tokenize .default (serialize sql)) (lineParts sql) := by
  have htracks : Scan.Tracks { rest := sql } { rest := serialize sql } (lineParts sql) [] :=
    ⟨lineParts_regular sql, (lineParts_sources sql).symm, (lineParts_outputs sql).symm, rfl, nofun,
      nofun, absurd rfl, absurd rfl, fun _ _ => Or.inl rfl⟩
  exact htracks.aligned (emits_tokenize .default sql) (emits_tokenize .default (serialize sql))

end SqlLayout
