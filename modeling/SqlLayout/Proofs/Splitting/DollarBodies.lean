import SqlLayout.Proofs.Lexer.Marks
import SqlLayout.Proofs.Splitting.Reading

/-!
# Dollar bodies from the lexer to the statements

The lexer and the splitter each remember the dollar mark that is open, the one
along the whole text, the other along one statement.  Both follow the same rule,
`Token.markAfter`, and the lexer closes every mark before it reads a semicolon,
so the two agree in front of every token.
-/

namespace SqlLayout
namespace Token

/-!
# The mark that is open
-/

def isMark (mark : Text) (token : Token) : Bool :=
  token.isDollarQuote && token.value == mark

/-- The mark that is open after a token.  `opens` tells it from the text alone,
which is enough for the tokens of the default lexer. -/
def markAfter (tag : Option Text) (token : Token) : Option Text :=
  match tag with
  | none => if token.isDollarQuote then some token.value else none
  | some mark => if token.isMark mark then none else some mark

variable {mark : Text} {token : Token}

theorem markAfter_of_not_dollarQuote (h : token.isDollarQuote = false) (tag : Option Text) :
    markAfter tag token = tag := by
  cases tag with
  | none =>
      exact if_neg (ne_true_of_eq_false h)
  | some mark =>
      rw [markAfter, isMark, h, Bool.false_and]
      rfl

theorem markAfter_opening (h : token.isDollarQuote = true) :
    markAfter none token = some token.value :=
  if_pos h

theorem markAfter_isMark (h : token.isMark mark = true) : markAfter (some mark) token = none :=
  if_pos h

theorem category_of_isDollarQuote (h : token.isDollarQuote = true) : token.category = .builtin :=
  beq_iff_eq.mp (Bool.and_eq_true_iff.mp h).1

theorem isDollarQuote_of_string (h : token.category = .string) : token.isDollarQuote = false := by
  rw [isDollarQuote, h]
  rfl

theorem foldl_markAfter_of_trails {tokens : List Token}
    (h : forall token, token ∈ tokens -> token.trails = true) (tag : Option Text) :
    tokens.foldl markAfter tag = tag := by
  induction tokens with
  | nil =>
      rfl
  | cons token rest ih =>
      have hquote := isDollarQuote_of_trails (h token List.mem_cons_self)
      rw [List.foldl_cons, markAfter_of_not_dollarQuote hquote]
      exact ih fun other hother => h other (List.mem_cons_of_mem _ hother)

/-- A mark that is open was opened by one of the tokens and not closed since, or
it was open before them. -/
theorem exists_opening {tokens : List Token} {tag : Option Text}
    (h : tokens.foldl markAfter tag = some mark) :
    (exists before opening body, tokens = before ++ opening :: body ∧
        opening.isDollarQuote = true ∧ opening.value = mark ∧
        before.foldl markAfter tag = none ∧
        forall token, token ∈ body -> token.isMark mark = false) ∨
      tag = some mark ∧ forall token, token ∈ tokens -> token.isMark mark = false := by
  induction tokens generalizing tag with
  | nil =>
      exact Or.inr ⟨h, fun _ hmem => absurd hmem List.not_mem_nil⟩
  | cons token rest ih =>
      rcases ih h with ⟨before, opening, body, rfl, hquote, hvalue, hbefore, hbody⟩ | ⟨htag, hrest⟩
      · exact Or.inl ⟨token :: before, opening, body, rfl, hquote, hvalue, hbefore, hbody⟩
      · cases tag with
        | none =>
            rw [markAfter] at htag
            split at htag
            · rename_i hquote
              cases htag
              exact Or.inl ⟨[], token, rest, rfl, hquote, rfl, rfl, hrest⟩
            · cases htag
        | some other =>
            rw [markAfter] at htag
            split at htag
            · cases htag
            · rename_i hmark
              cases htag
              refine Or.inr ⟨rfl, ?_⟩
              rw [List.forall_mem_cons]
              exact ⟨Bool.eq_false_iff.mpr hmark, hrest⟩

/-!
# Streams that close their marks
-/

/-- The tokens that belong to an opening mark, and those after them: at most one
string, in which the mark does not occur, and the mark again unless the stream
ends before. -/
inductive DollarBody (mark : Text) : List Token -> List Token -> Prop where
  | cut : DollarBody mark [] []
  | empty {closing : Token} {rest : List Token} :
      closing.isMark mark = true -> DollarBody mark [closing] rest
  | unclosed {body : Token} :
      body.category = .string -> ¬ mark <:+: body.value -> DollarBody mark [body] []
  | closed {body closing : Token} {rest : List Token} :
      body.category = .string -> ¬ mark <:+: body.value -> closing.isMark mark = true ->
      DollarBody mark [body, closing] rest

/-- Tokens of which those inside of a mark are its body or the mark again, given
the mark that is open before them. -/
def Enclosed : Option Text -> List Token -> Prop
  | _, [] => True
  | none, token :: rest => Enclosed (markAfter none token) rest
  | some mark, token :: rest =>
      (token.isMark mark = true ∨
        token.category = .string ∧ ¬ mark <:+: token.value ∧
          forall next, rest.head? = some next -> next.isMark mark = true) ∧
      Enclosed (markAfter (some mark) token) rest

theorem Enclosed.tail {tag : Option Text} {rest : List Token} (h : Enclosed tag (token :: rest)) :
    Enclosed (markAfter tag token) rest := by
  cases tag with
  | none =>
      exact h
  | some mark =>
      exact h.2

theorem Enclosed.append_right {tag : Option Text} {front back : List Token}
    (h : Enclosed tag (front ++ back)) : Enclosed (front.foldl markAfter tag) back := by
  induction front generalizing tag with
  | nil =>
      exact h
  | cons token front ih =>
      exact ih h.tail

theorem Enclosed.exists_body {tokens : List Token} (h : Enclosed (some mark) tokens) :
    exists body rest, tokens = body ++ rest ∧ DollarBody mark body rest := by
  cases tokens with
  | nil =>
      exact ⟨[], [], rfl, .cut⟩
  | cons token rest =>
      rcases h.1 with hclosing | ⟨hstring, hfree, hnext⟩
      · exact ⟨[token], rest, rfl, .empty hclosing⟩
      · cases rest with
        | nil =>
            exact ⟨[token], [], rfl, .unclosed hstring hfree⟩
        | cons next rest =>
            exact ⟨[token, next], rest, rfl, .closed hstring hfree (hnext next rfl)⟩

theorem Enclosed.outside {tag : Option Text} {rest : List Token} (h : Enclosed tag (token :: rest))
    (hbuiltin : token.category ≠ .builtin) (hstring : token.category ≠ .string) : tag = none := by
  cases tag with
  | none =>
      rfl
  | some mark =>
      rcases h.1 with hclosing | hbody
      · exact absurd (category_of_isDollarQuote (Bool.and_eq_true_iff.mp hclosing).1) hbuiltin
      · exact absurd hbody.1 hstring

theorem DollarBody.open_of_front {front back rest : List Token}
    (h : DollarBody mark (front ++ back) rest) (hne : back ≠ []) :
    front.foldl markAfter (some mark) = some mark := by
  cases front with
  | nil =>
      rfl
  | cons token front =>
      generalize hall : token :: front ++ back = all at h
      cases h with
      | cut =>
          cases hall
      | empty _ =>
          rw [List.cons_append, List.cons.injEq, List.append_eq_nil_iff] at hall
          exact absurd hall.2.2 hne
      | unclosed _ _ =>
          rw [List.cons_append, List.cons.injEq, List.append_eq_nil_iff] at hall
          exact absurd hall.2.2 hne
      | closed hstring _ _ =>
          rw [List.cons_append, List.cons.injEq, List.append_eq_singleton_iff] at hall
          rcases hall with ⟨rfl, ⟨rfl, _⟩ | ⟨_, hback⟩⟩
          · rw [List.foldl_cons, List.foldl_nil]
            exact markAfter_of_not_dollarQuote (isDollarQuote_of_string hstring) _
          · exact absurd hback hne

end Token

open Token

/-!
# The lexer
-/

namespace Scan

variable {config : LexerConfig} {scan after : Scan} {token : Token} {mark : Text}

def Marked (scan : Scan) : Prop :=
  forall mark, scan.dollarTag = some mark -> isDollarMark mark = true

theorem ne_nil_of_isDollarMark (h : isDollarMark mark = true) : mark ≠ [] := by
  rintro rfl
  cases h

theorem next?_outside (htag : scan.dollarTag = none)
    (h : scan.next? config = some (token, after)) : after.dollarTag = markAfter none token := by
  rcases next?_outcome h with ⟨hcategory, hvalue, htag', _⟩
  rw [htag', markAfter, isDollarQuote, hcategory, hvalue]
  unfold outcome
  rw [htag]

theorem next?_closing (htag : scan.dollarTag = some mark) (hmark : isDollarMark mark = true)
    (hstart : mark <+: scan.rest) (h : scan.next? config = some (token, after)) :
    token.isMark mark = true ∧ after.dollarTag = none := by
  have houtcome := outcome_mark config htag (Text.find?_zero_iff.mpr hstart)
  rcases next?_outcome h with ⟨hcategory, hvalue, htag', _⟩
  rw [houtcome] at hcategory hvalue htag'
  rw [← List.prefix_iff_eq_take.mp hstart] at hvalue
  refine ⟨?_, htag'⟩
  rw [isMark, isDollarQuote, hcategory, hvalue, hmark]
  simp

theorem next?_body (htag : scan.dollarTag = some mark) (hne : mark ≠ [])
    (hstart : ¬ mark <+: scan.rest) (h : scan.next? config = some (token, after)) :
    token.category = .string ∧ ¬ mark <:+: token.value ∧ after.dollarTag = some mark ∧
      (after.rest = [] ∨ mark <+: after.rest) := by
  have houtcome : scan.outcome config =
      (.string, (Text.find? mark scan.rest).getD scan.rest.length, some mark) := by
    cases hfind : Text.find? mark scan.rest with
    | none =>
        exact outcome_unclosed config htag hfind
    | some n =>
        apply outcome_inside config htag hfind
        rintro rfl
        exact hstart (Text.find?_zero_iff.mp hfind)
  have hrest := (next?_after h).1
  rcases next?_outcome h with ⟨hcategory, hvalue, htag', _⟩
  rw [houtcome] at hcategory hvalue htag' hrest
  refine ⟨hcategory, ?_, htag', ?_⟩
  · rw [hvalue]
    exact Text.not_infix_take_find? hne scan.rest
  · rw [hrest]
    cases hfind : Text.find? mark scan.rest with
    | none =>
        exact Or.inl List.drop_length
    | some n =>
        exact Or.inr (Text.prefix_of_find? hfind)

theorem next?_markAfter (hmarked : scan.Marked) (h : scan.next? config = some (token, after)) :
    after.dollarTag = markAfter scan.dollarTag token ∧ after.Marked := by
  cases htag : scan.dollarTag with
  | none =>
      have hafter := next?_outside htag h
      refine ⟨hafter, ?_⟩
      intro mark hmark
      rw [hafter, markAfter] at hmark
      split at hmark
      · rename_i hquote
        cases hmark
        exact (Bool.and_eq_true_iff.mp hquote).2
      · cases hmark
  | some mark =>
      have hmark := hmarked mark htag
      by_cases hstart : mark <+: scan.rest
      · rcases next?_closing htag hmark hstart h with ⟨hclosing, hafter⟩
        rw [markAfter_isMark hclosing]
        refine ⟨hafter, ?_⟩
        intro other hother
        rw [hafter] at hother
        cases hother
      · rcases next?_body htag (ne_nil_of_isDollarMark hmark) hstart h with
          ⟨hstring, _, hafter, _⟩
        rw [markAfter_of_not_dollarQuote (isDollarQuote_of_string hstring)]
        refine ⟨hafter, ?_⟩
        intro other hother
        rw [hafter, ← htag] at hother
        exact hmarked other hother

/-- The lexer reads nothing but a body and the mark again where a mark is open. -/
theorem Emits.enclosed {tokens : List Token} (h : Emits config scan tokens)
    (hmarked : scan.Marked) : Enclosed scan.dollarTag tokens := by
  induction h with
  | stop _ =>
      exact trivial
  | @emit scan after token tokens hnext hemits ih =>
      rcases next?_markAfter hmarked hnext with ⟨htag', hmarked'⟩
      have hrest := ih hmarked'
      rw [htag'] at hrest
      cases htag : scan.dollarTag with
      | none =>
          rw [htag] at hrest
          exact hrest
      | some mark =>
          rw [htag] at hrest
          refine ⟨?_, hrest⟩
          have hmark := hmarked mark htag
          by_cases hstart : mark <+: scan.rest
          · exact Or.inl (next?_closing htag hmark hstart hnext).1
          · rcases next?_body htag (ne_nil_of_isDollarMark hmark) hstart hnext with
              ⟨hstring, hfree, hafter, hend⟩
            refine Or.inr ⟨hstring, hfree, ?_⟩
            -- The token after the body is the mark: the body ends in front of it.
            intro next hhead
            cases hemits with
            | stop _ =>
                cases hhead
            | emit hnext' _ =>
                cases hhead
                rcases hend with hnil | hstart'
                · rw [next?_eq_none_iff.mpr hnil] at hnext'
                  cases hnext'
                · exact (next?_closing hafter hmark hstart' hnext').1

/-- The place after a number of tokens, or after the last one. -/
def advance (config : LexerConfig) : Nat -> Scan -> Scan
  | 0, scan => scan
  | n + 1, scan =>
      match scan.next? config with
      | none => scan
      | some (_, after) => advance config n after

theorem Emits.dollarTag_advance {read unread : List Token}
    (h : Emits config scan (read ++ unread)) (hmarked : scan.Marked) :
    (scan.advance config read.length).dollarTag = read.foldl markAfter scan.dollarTag := by
  induction read generalizing scan with
  | nil =>
      rfl
  | cons token read ih =>
      cases h with
      | @emit _ after _ _ hnext hemits =>
          rcases next?_markAfter hmarked hnext with ⟨htag, hmarked'⟩
          rw [List.foldl_cons, ← htag, ← ih hemits hmarked', List.length_cons, advance, hnext]

end Scan

theorem marked_start (text : Text) : Scan.Marked { rest := text } := by
  intro mark h
  cases h

theorem enclosed_tokenize (config : LexerConfig) (text : Text) :
    Enclosed none (tokenize config text) :=
  (emits_tokenize config text).enclosed (marked_start text)

/-!
# The splitter
-/

namespace BlockState

variable {s : BlockState} {token : Token} {mark : Text}

theorem dollarTag_stepKeyword (s : BlockState) (category : Category) (word : Text) :
    (s.stepKeyword category word).dollarTag = s.dollarTag := by
  unfold stepKeyword
  dsimp only
  split_ifs
  all_goals rfl

theorem dollarTag_step (s : BlockState) (token : Token) :
    (s.step token).dollarTag = markAfter s.dollarTag token := by
  cases hquote : token.isDollarQuote with
  | false =>
      rw [markAfter_of_not_dollarQuote hquote, step_eq, if_neg (ne_true_of_eq_false hquote)]
      split
      · rfl
      · exact dollarTag_stepKeyword s _ _
  | true =>
      rw [step_dollarQuote hquote]
      unfold stepDollar
      cases htag : s.dollarTag with
      | none =>
          exact (markAfter_opening hquote).symm
      | some mark =>
          dsimp only
          rw [markAfter, isMark, hquote, Bool.true_and, Bool.beq_comm]
          split
          · rfl
          · exact htag

theorem dollarTag_after (s : BlockState) (tokens : List Token) :
    (s.after tokens).dollarTag = tokens.foldl markAfter s.dollarTag := by
  induction tokens generalizing s with
  | nil =>
      rfl
  | cons token rest ih =>
      rw [List.foldl_cons, ← dollarTag_step]
      exact ih (s.step token)

end BlockState

open BlockState

theorem firstStatement_enclosed (s : BlockState) {tokens : List Token}
    (h : Enclosed s.dollarTag tokens) :
    Enclosed none (firstStatement s tokens).2 ∧
      ((firstStatement s tokens).2 ≠ [] ->
        (firstStatement s tokens).1.foldl markAfter s.dollarTag = none) := by
  induction tokens generalizing s with
  | nil =>
      exact ⟨trivial, fun hne => absurd rfl hne⟩
  | cons token rest ih =>
      have hrest := h.tail
      cases hend : (s.step token).isEnd token with
      | true =>
          have hsemicolon := isSemicolon_of_isEnd hend
          have hcategory := category_of_isSemicolon hsemicolon
          have htag : s.dollarTag = none :=
            h.outside (by rw [hcategory]; exact nofun) (by rw [hcategory]; exact nofun)
          have hplain := markAfter_of_not_dollarQuote (isDollarQuote_of_isSemicolon hsemicolon)
          have htrails : (rest.takeWhile Token.trails).foldl markAfter none = none :=
            foldl_markAfter_of_trails (fun _ => List.all_eq_true.mp List.all_takeWhile _) none
          rw [htag, hplain,
            ← List.takeWhile_append_dropWhile (p := Token.trails) (l := rest)] at hrest
          have hlater := hrest.append_right
          rw [htrails] at hlater
          rw [firstStatement_of_isEnd hend]
          refine ⟨hlater, fun _ => ?_⟩
          rw [List.foldl_cons, htag, hplain]
          exact htrails
      | false =>
          rw [← dollarTag_step] at hrest
          rw [firstStatement_of_not_isEnd hend]
          rcases ih (s.step token) hrest with ⟨hlater, hfirst⟩
          refine ⟨hlater, fun hne => ?_⟩
          rw [List.foldl_cons, ← dollarTag_step]
          exact hfirst hne

theorem foldl_markAfter_of_splitTokens {tokens : List Token} {earlier later : List (List Token)}
    (h : Enclosed none tokens) (hsplit : splitTokens tokens = earlier ++ later)
    (hne : later ≠ []) : earlier.flatten.foldl markAfter none = none := by
  induction earlier generalizing tokens with
  | nil =>
      rfl
  | cons first earlier ih =>
      have htokens : tokens ≠ [] := by
        rintro rfl
        cases hsplit
      rw [splitTokens_eq htokens, List.cons_append, List.cons.injEq] at hsplit
      rcases hsplit with ⟨hfirst, hrest⟩
      rcases firstStatement_enclosed {} h with ⟨hlater, htag⟩
      have hmore : (firstStatement {} tokens).2 ≠ [] := by
        intro hnil
        rw [hnil] at hrest
        exact hne (List.append_eq_nil_iff.mp hrest.symm).2
      have hclosed : (firstStatement {} tokens).1.foldl markAfter none = none := htag hmore
      rw [List.flatten_cons, List.foldl_append, ← hfirst, hclosed]
      exact ih hlater hrest

/-- An opening mark of a statement has its body and its closing mark in the same
statement. -/
theorem exists_body_of_statement {read unread later : List Token} {opening : Token}
    (h : Enclosed none (read ++ opening :: (unread ++ later)))
    (hend : later ≠ [] -> (read ++ opening :: unread).foldl markAfter none = none)
    (hopening : opening.isDollarQuote = true) (htag : read.foldl markAfter none = none) :
    exists body rest, unread = body ++ rest ∧ DollarBody opening.value body (rest ++ later) := by
  have hinside := h.append_right
  rw [htag] at hinside
  have hbody := hinside.tail
  rw [markAfter_opening hopening] at hbody
  rcases hbody.exists_body with ⟨body, rest, hall, hbody⟩
  rcases List.append_eq_append_iff.mp hall with
    ⟨missing, hmissing, hlater⟩ | ⟨others, hothers, hrest⟩
  · by_cases hnone : missing = []
    · rw [hnone, List.append_nil] at hmissing
      rw [hnone, List.nil_append] at hlater
      exact ⟨body, [], by rw [hmissing, List.append_nil], by rw [hlater]; exact hbody⟩
    · -- The statement would end inside of the body.
      have hne : later ≠ [] := by
        rw [hlater]
        exact List.append_ne_nil_of_left_ne_nil hnone _
      have hclosed := hend hne
      rw [List.foldl_append, htag, List.foldl_cons, markAfter_opening hopening] at hclosed
      rw [hmissing] at hbody
      rw [hbody.open_of_front hnone] at hclosed
      cases hclosed
  · rw [hrest] at hbody
    exact ⟨body, others, hothers, hbody⟩

/-- In the tokens of a text each opening mark is followed by at most one string,
in which it does not occur, and by the mark again, or the text ends.  In front of
each token the splitter has the same mark open as the lexer, and it keeps an
opening mark, its body and its closing mark in one statement. -/
theorem dollar_bodies_agree (config : LexerConfig) (text : Text) :
    (forall read opening rest, tokenize config text = read ++ opening :: rest ->
      opening.isDollarQuote = true ->
      (Scan.advance config read.length { rest := text }).dollarTag = none ->
      exists body after, rest = body ++ after ∧ DollarBody opening.value body after) ∧
    (forall earlier statement later,
      splitTokens (tokenize config text) = earlier ++ statement :: later ->
      forall read token unread, statement = read ++ token :: unread ->
        (BlockState.after {} read).dollarTag =
            (Scan.advance config (earlier.flatten ++ read).length { rest := text }).dollarTag ∧
          (token.isDollarQuote = true -> (BlockState.after {} read).dollarTag = none ->
            exists body rest, unread = body ++ rest ∧
              DollarBody token.value body (rest ++ later.flatten))) := by
  have henclosed := enclosed_tokenize config text
  have hadvance : forall read unread, tokenize config text = read ++ unread ->
      (Scan.advance config read.length { rest := text }).dollarTag =
        read.foldl markAfter none := by
    intro read unread hall
    have hemits := emits_tokenize config text
    rw [hall] at hemits
    exact hemits.dollarTag_advance (marked_start text)
  constructor
  · intro read opening rest hall hopening htag
    rw [hadvance read _ hall] at htag
    rw [hall] at henclosed
    have hbody := henclosed.append_right.tail
    rw [htag, markAfter_opening hopening] at hbody
    exact hbody.exists_body
  · intro earlier statement later hsplit read token unread hstatement
    have hall := splitTokens_flatten (tokenize config text)
    rw [hsplit, List.flatten_append] at hall
    have hbefore := foldl_markAfter_of_splitTokens henclosed hsplit (List.cons_ne_nil _ _)
    have hsuffix : Enclosed none (statement ++ later.flatten) := by
      rw [← hall] at henclosed
      have hright := henclosed.append_right
      rw [hbefore] at hright
      exact hright
    constructor
    · have htokens : tokenize config text =
          (earlier.flatten ++ read) ++ (token :: unread ++ later.flatten) := by
        rw [← hall, List.flatten_cons, hstatement, List.append_assoc, List.append_assoc]
      rw [hadvance _ _ htokens, dollarTag_after, List.foldl_append, hbefore]
    · intro hopening htag
      rw [dollarTag_after] at htag
      have hfirst := firstStatement_of_splitTokens (splitTokens_suffix hsplit)
      have hend := (firstStatement_enclosed {} hsuffix).2
      rw [List.flatten_cons] at hfirst
      rw [hfirst, hstatement] at hend
      rw [hstatement, List.append_assoc] at hsuffix
      exact exists_body_of_statement hsuffix hend hopening htag

/-- A semicolon in the body of the first of two statements. -/
theorem dollar_bodies_agree_two_statements :
    (exists body after,
      [⟨.string, Text.of ";", some 3⟩, ⟨.builtin, Text.of "$q$", some 4⟩,
          ⟨.punctuation, Text.of ";", some 7⟩, ⟨.name, Text.of "b", some 8⟩] = body ++ after ∧
        DollarBody (Text.of "$q$") body after) ∧
      (BlockState.after {} [⟨.builtin, Text.of "$q$", some 0⟩]).dollarTag =
        (Scan.advance .default 1 { rest := Text.of "$q$;$q$;b" }).dollarTag ∧
      exists body rest,
        [⟨.string, Text.of ";", some 3⟩, ⟨.builtin, Text.of "$q$", some 4⟩,
            ⟨.punctuation, Text.of ";", some 7⟩] = body ++ rest ∧
          DollarBody (Text.of "$q$") body (rest ++ [⟨.name, Text.of "b", some 8⟩]) := by
  have htokens : tokenize .default (Text.of "$q$;$q$;b") =
      [⟨.builtin, Text.of "$q$", some 0⟩, ⟨.string, Text.of ";", some 3⟩,
       ⟨.builtin, Text.of "$q$", some 4⟩, ⟨.punctuation, Text.of ";", some 7⟩,
       ⟨.name, Text.of "b", some 8⟩] := by
    decide
  have hsplit : splitTokens (tokenize .default (Text.of "$q$;$q$;b")) =
      [] ++ [⟨.builtin, Text.of "$q$", some 0⟩, ⟨.string, Text.of ";", some 3⟩,
          ⟨.builtin, Text.of "$q$", some 4⟩, ⟨.punctuation, Text.of ";", some 7⟩] ::
        [[⟨.name, Text.of "b", some 8⟩]] := by
    rw [htokens]
    decide
  rcases dollar_bodies_agree .default (Text.of "$q$;$q$;b") with ⟨hlexer, hsplitter⟩
  refine ⟨hlexer [] _ _ htokens rfl rfl, ?_, ?_⟩
  · exact (hsplitter _ _ _ hsplit [_] _ _ rfl).1
  · exact (hsplitter _ _ _ hsplit [] _ _ rfl).2 rfl rfl

end SqlLayout
