import SqlLayout.Decoding
import SqlLayout.Layout.Formatter

/-!
# The program

The program formats its input with the options that the environment gives.
-/

namespace SqlLayout

/-!
# Settings from the environment

Each setting is read from a variable.  Numbers and truth values may have blanks
around them; a variable that is set to the empty text counts as not set if the
empty text is no value.
-/

structure Settings where
  dialect : Option Text := none
  keywords : Option (List Text) := none
  maxDepth : Nat := defaultMaxDepth
  keywordCase : Option Text := none
  identifierCase : Option Text := none
  reindent : Bool := false
  aligned : Bool := false
  rightMargin : Option Nat := none
  stripComments : Bool := false
  indentWidth : Nat := 2
  outputFormat : Option Text := none
deriving DecidableEq, Repr

abbrev Environment := String -> Option Text

namespace Settings

/-!
# Values
-/

/-- The largest number that a setting can hold. -/
def maxWord : Nat := 0xFFFFFFFFFFFFFFFF

def digitValue? (c : Char) : Option Nat :=
  if c.isDigit then some (c.toNat - '0'.toNat) else none

/-- Reads digits onto a number; the reading ends at the first character that is
no digit and at the first digit that makes the number too large. -/
def readDigits : Nat -> Text -> Except String Nat
  | n, [] => .ok n
  | n, c :: rest =>
      match digitValue? c with
      | none => .error "invalid digit found in string"
      | some d =>
          if maxWord < n * 10 + d then .error "number too large to fit in target type"
          else readDigits (n * 10 + d) rest

/-- Reads a number, with a plus sign in front of it or not. -/
def readNat (text : Text) : Except String Nat :=
  match text with
  | [] => .error "cannot parse integer from empty string"
  | ['+'] => .error "invalid digit found in string"
  | '+' :: digits => readDigits 0 digits
  | digits => readDigits 0 digits

def parseNat (text : Text) : Except Text Nat :=
  match readNat text.trim with
  | .ok n => .ok n
  | .error reason =>
      .error
        (Text.of "invalid value '" ++ text.trim ++ Text.of "' for type u64: " ++ Text.of reason)

def parseBool (text : Text) : Except Text Bool :=
  let word := text.trim.asciiLower
  if [Text.of "1", Text.of "true", Text.of "yes"].elem word then .ok true
  else if [Text.of "0", Text.of "false", Text.of "no"].elem word then .ok false
  else .error (Text.of "invalid value for bool: '" ++ text.trim ++ Text.of "'")

/-!
# Variables
-/

def read (env : Environment) {α : Type} (field key : String) (parse : Text -> Except Text α) :
    Except Error (Option α) :=
  match env key with
  | none => .ok none
  | some text =>
      match parse text with
      | .ok value => .ok (some value)
      | .error reason =>
          if text.isEmpty then .ok none
          else
            .error (.config
              (Text.of "failed to deserialize value `Config::" ++ Text.of field
                ++ Text.of "` from environment variable `" ++ Text.of key ++ Text.of "`: "
                ++ reason))

/-- Reads all settings; the first one that has no value is the error. -/
def ofEnvironment (env : Environment) : Except Error Settings := do
  let maxDepth ← read env "max_depth" "SQLTREE_MAX_DEPTH" parseNat
  let reindent ← read env "reindent" "SQLTREE_REINDENT" parseBool
  let aligned ← read env "reindent_aligned" "SQLTREE_REINDENT_ALIGNED" parseBool
  let rightMargin ← read env "right_margin" "SQLTREE_RIGHT_MARGIN" parseNat
  let stripComments ← read env "strip_comments" "SQLTREE_STRIP_COMMENTS" parseBool
  let indentWidth ← read env "indent_width" "SQLTREE_INDENT_WIDTH" parseNat
  return {
    dialect := env "SQLTREE_DIALECT"
    keywords := (env "SQLTREE_KEYWORDS").map (Text.splitAt ',')
    maxDepth := maxDepth.getD defaultMaxDepth
    keywordCase := env "SQLTREE_KEYWORD_CASE"
    identifierCase := env "SQLTREE_IDENTIFIER_CASE"
    reindent := reindent.getD false
    aligned := aligned.getD false
    rightMargin := rightMargin
    stripComments := stripComments.getD false
    indentWidth := indentWidth.getD 2
    outputFormat := env "SQLTREE_OUTPUT_FORMAT" }

def lexerOptions (s : Settings) : LexerOptions :=
  { dialect := s.dialect, keywords := s.keywords }

def layoutOptions (s : Settings) : Except Error LayoutOptions := do
  let keywordCase ← s.keywordCase.mapM LetterCase.ofName
  let identifierCase ← s.identifierCase.mapM LetterCase.ofName
  let outputFormat ← s.outputFormat.mapM OutputFormat.ofName
  let options : LayoutOptions :=
    { lexer := s.lexerOptions
      keywordCase := keywordCase
      identifierCase := identifierCase
      stripComments := s.stripComments
      reindent := s.reindent
      aligned := s.aligned
      rightMargin := s.rightMargin
      indentWidth := s.indentWidth
      outputFormat := outputFormat.getD .sql
      maxDepth := s.maxDepth }
  options.validate

end Settings

/-!
# From bytes to text
-/

/-- What the program writes: the formatted text, with a line feed at its end. -/
def program (env : Environment) (input : List Nat) : Except Error Text := do
  let settings ← Settings.ofEnvironment env
  let formatter ← Formatter.ofOptions (← settings.layoutOptions)
  let text ← formatter.format (← decode input none)
  return if text.getLast? == some '\n' then text else text ++ ['\n']

end SqlLayout
