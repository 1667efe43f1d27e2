import SqlLayout.Error
import SqlLayout.Regex.Match
import SqlLayout.Statement

/-!
# The form of the output
-/

namespace SqlLayout

/-!
# Statements as strings of a host language

A statement can be written as an assignment of a string in Python or PHP.  The
first one is assigned to `sql`, the later ones to `sql2`, `sql3` and so on.  A
statement of several lines becomes one piece of string for each line.
-/

inductive OutputFormat where
  | sql
  | python
  | php
deriving DecidableEq, Repr

namespace OutputFormat

def label : OutputFormat -> String
  | sql => "sql"
  | python => "python"
  | php => "php"

def all : List OutputFormat := [sql, python, php]

def ofName (name : Text) : Except Error OutputFormat :=
  match all.find? fun f => Text.of f.label == name.trim.asciiLower with
  | some f => .ok f
  | none => .error (.config (Text.of "unknown output format " ++ name.quoted))

end OutputFormat

inductive HostLanguage where
  | python
  | php
deriving DecidableEq, Repr

/-- A wrapper and the number of statements it has wrapped. -/
structure HostWrapper where
  language : HostLanguage
  count : Nat := 0
deriving DecidableEq, Repr

namespace HostWrapper

def ofFormat? : OutputFormat -> Option HostWrapper
  | .sql => none
  | .python => some { language := .python }
  | .php => some { language := .php }

def variableName (language : HostLanguage) (n : Nat) : Text :=
  let base :=
    match language with
    | .python => Text.of "sql"
    | .php => Text.of "$sql"
  if n = 1 then base else base ++ Text.ofNat n

def afterLineFeed? : Text -> Option Text
  | [] => none
  | c :: rest => if c == '\n' then some rest else afterLineFeed? rest

/-- Writes tokens into a string; a blank with a line feed becomes a seam between
two pieces and what stands after the line feed. -/
def writeTokens (seam : Text) (escape : Text -> Text) (tokens : List Token) : Text :=
  tokens.flatMap fun token =>
    match (if token.isWhitespace then afterLineFeed? token.value else none) with
    | some after => seam ++ after
    | none => escape token.value

def writePython (name : Text) (isMultiline : Bool) (tokens : List Token) : Text :=
  let seam := [' ', '\'', '\n'] ++ Text.fill ' ' (name.length + 4) ++ ['\'']
  name ++ Text.of " = " ++ (if isMultiline then ['('] else []) ++ ['\'']
    ++ writeTokens seam (Text.replace '\'' ['\\', '\'']) tokens
    ++ ['\''] ++ (if isMultiline then [')'] else [])

def writePhp (name : Text) (isMultiline : Bool) (tokens : List Token) : Text :=
  let seam := [' ', '"', ';', '\n'] ++ name ++ Text.of " .= \""
  name ++ (if isMultiline then Text.of "  = \"" else Text.of " = \"")
    ++ writeTokens seam (Text.replace '"' ['\\', '"']) tokens
    ++ ['"', ';']

/-- Wraps a statement; blanks at its start only separate it from the one before
and are left out. -/
def wrap (w : HostWrapper) (s : Statement) : Text × HostWrapper :=
  let count := w.count + 1
  let name := variableName w.language count
  let isMultiline := s.text.trim.elem '\n'
  let tokens := s.tokens.dropWhile Token.isWhitespace
  let body :=
    match w.language with
    | .python => writePython name isMultiline tokens
    | .php => writePhp name isMultiline tokens
  ((if 1 < count then ['\n'] else []) ++ body, { w with count := count })

end HostWrapper

/-!
# Lines of the final text

The text is cut at line breaks outside of quotes, and blanks at the end of each
line are dropped.  A quote that is never closed quotes nothing.
-/

namespace Lines

open Regex

/-- A quoted text in which a backslash takes the next character along, which
may not be a line feed. -/
def quotedPiece (quote : Char) : Regex :=
  sequence
    [char quote,
     star (alt (chars (.noneOf [quote, '\\'])) (char '\\' ++ chars (.noneOf ['\n']))),
     char quote]

/-- A line break, a run without breaks and quotes, or a quoted text. -/
def piece : Regex :=
  oneOf
    [text "\r\n", text "\r", text "\n", plus (chars (.noneOf ['\r', '\n', '\'', '"'])),
     quotedPiece '"', quotedPiece '\'']

/-- At most `budget` pieces of a text; a character that starts no piece is one by
itself. -/
def piecesWithin : Nat -> Text -> List Text
  | 0, _ => []
  | _ + 1, [] => []
  | budget + 1, c :: rest =>
      match piece.matchLength? (c :: rest) with
      | some (n + 1) => (c :: rest.take n) :: piecesWithin budget (rest.drop n)
      | _ => [c] :: piecesWithin budget rest

def pieces (text : Text) : List Text := piecesWithin text.length text

def isBreak (piece : Text) : Bool :=
  piece == ['\r', '\n'] || piece == ['\r'] || piece == ['\n']

def gather : List Text -> List Text
  | [] => [[]]
  | piece :: rest =>
      if isBreak piece then [] :: gather rest
      else
        match gather rest with
        | [] => [piece]
        | line :: lines => (piece ++ line) :: lines

end Lines

/-- The lines of a text; a break inside a quoted text does not end a line. -/
def splitLines (text : Text) : List Text := Lines.gather (Lines.pieces text)

/-- The final text: every line without the blanks at its end. -/
def serialize (text : Text) : Text :=
  Text.join ['\n'] ((splitLines text).map Text.trimEnd)

end SqlLayout
