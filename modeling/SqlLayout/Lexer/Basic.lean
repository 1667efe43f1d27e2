import SqlLayout.Keyword
import SqlLayout.Lexer.Rules
import SqlLayout.Token.Basic

/-!
# The lexer

A text is read into tokens that cover it without gaps.  At each place the first
rule that applies decides; a character to which no rule applies becomes an error
token of its own.  After a dollar mark everything up to the same mark is one
string.
-/

namespace SqlLayout

structure LexerOptions where
  dialect : Option Text := none
  keywords : Option (List Text) := none
deriving DecidableEq, Repr

structure LexerConfig where
  dialect : Dialect
  vocabulary : Vocabulary

namespace LexerOptions

/-- The dialect that the options name; without a name it is the generic one. -/
def readDialect (name : Option Text) : Except Error Dialect :=
  match name with
  | some name => Dialect.ofName name
  | none => .ok .generic

def readVocabulary (dialect : Dialect) (keywords : Option (List Text)) :
    Except Error Vocabulary :=
  match keywords with
  | some words => (Vocabulary.ofDialect dialect).extend words
  | none => .ok (Vocabulary.ofDialect dialect)

def check (options : LexerOptions) : Except Error LexerConfig := do
  let dialect ← readDialect options.dialect
  let vocabulary ← readVocabulary dialect options.keywords
  return ⟨dialect, vocabulary⟩

end LexerOptions

/-- A place in the text: the character before it, its byte offset, the dollar
mark that is open there, and the text after it. -/
structure Scan where
  before : Option Char := none
  offset : Nat := 0
  dollarTag : Option Text := none
  rest : Text
deriving DecidableEq, Repr

namespace Scan

def classify (config : LexerConfig) (scan : Scan) : Category × Nat :=
  match Rule.first? (Rule.ofDialect config.dialect) scan.before scan.rest with
  | some (.emit category, n) => (category, n)
  | some (.lookUp, n) => (config.vocabulary.classify (scan.rest.take n), n)
  | none => (.error, 1)

def outcome (config : LexerConfig) (scan : Scan) : Category × Nat × Option Text :=
  match scan.dollarTag with
  | some tag =>
      match Text.find? tag scan.rest with
      | some 0 => (.builtin, tag.length, none)
      | some n => (.string, n, some tag)
      | none => (.string, scan.rest.length, some tag)
  | none =>
      let (category, n) := scan.classify config
      let value := scan.rest.take n
      (category, n, if category == .builtin && Token.isDollarMark value then some value else none)

def next? (config : LexerConfig) (scan : Scan) : Option (Token × Scan) :=
  match scan.rest with
  | [] => none
  | _ :: _ =>
      let (category, n, tag) := scan.outcome config
      let value : Text := scan.rest.take n
      some
        (⟨category, value, some scan.offset⟩,
         { before := value.getLast?,
           offset := scan.offset + value.byteLength,
           dollarTag := tag,
           rest := scan.rest.drop n })

def tokens (config : LexerConfig) : Nat -> Scan -> List Token
  | 0, _ => []
  | budget + 1, scan =>
      match scan.next? config with
      | none => []
      | some (token, scan) => token :: tokens config budget scan

end Scan

/-- The tokens of a text.  Each token takes at least one character, so there are
no more tokens than characters. -/
def tokenize (config : LexerConfig) (text : Text) : List Token :=
  Scan.tokens config text.length { rest := text }

end SqlLayout
