import SqlLayout.Lexer.Basic
import SqlLayout.Statement

/-!
# Splitting a stream of tokens into statements

A semicolon ends a statement where the level of open blocks is not positive.
The body of a created routine and a dollar-quoted body raise the level.  Blanks
and line comments after the semicolon still belong to the statement.
-/

namespace SqlLayout

/-- The blocks that are open in the statement read so far. -/
structure BlockState where
  inDeclare : Bool := false
  dollarTag : Option Text := none
  isCreate : Bool := false
  beginDepth : Nat := 0
  level : Int := 0
deriving DecidableEq, Repr

namespace BlockState

def raise (s : BlockState) : BlockState := { s with level := s.level + 1 }

def sink (s : BlockState) : BlockState := { s with level := s.level - 1 }

/-- A dollar mark opens a body, or closes it if it is the mark that opened it. -/
def stepDollar (s : BlockState) (mark : Text) : BlockState :=
  match s.dollarTag with
  | none => { s.raise with dollarTag := some mark }
  | some tag => if tag == mark then { s.sink with dollarTag := none } else s

def stepKeyword (s : BlockState) (category : Category) (word : Text) : BlockState :=
  if word == Text.of "DECLARE" && s.isCreate && s.beginDepth == 0 then
    { s.raise with inDeclare := true }
  else if word == Text.of "BEGIN" then
    let s := { s with beginDepth := s.beginDepth + 1 }
    if s.inDeclare || s.isCreate then s.raise else s
  else if [Text.of "END IF", Text.of "END FOR", Text.of "END WHILE"].elem word then s.sink
  else if word == Text.of "END" then { s.sink with beginDepth := s.beginDepth - 1 }
  else if category == .ddl && word.startsWith (Text.of "CREATE") then { s with isCreate := true }
  else if [Text.of "IF", Text.of "FOR", Text.of "WHILE"].elem word
      && s.isCreate && 0 < s.beginDepth then
    s.raise
  else s

def step (s : BlockState) (token : Token) : BlockState :=
  if token.category == .builtin && Token.isDollarMark token.value then s.stepDollar token.value
  else if s.dollarTag.isSome || !token.isKeyword then s
  else s.stepKeyword token.category token.normalized

def isEnd (s : BlockState) (token : Token) : Bool :=
  s.level ≤ 0 && token.isPunctuationIn [[';']]

end BlockState

/-- A token that stays with the statement before it. -/
def Token.trails (token : Token) : Bool :=
  token.category == .whitespace || token.category == .lineComment

def firstStatement (s : BlockState) : List Token -> List Token × List Token
  | [] => ([], [])
  | token :: rest =>
      let s := s.step token
      if s.isEnd token then
        (token :: rest.takeWhile Token.trails, rest.dropWhile Token.trails)
      else
        let (first, rest) := firstStatement s rest
        (token :: first, rest)

def splitWithin : Nat -> List Token -> List (List Token)
  | 0, _ => []
  | _ + 1, [] => []
  | budget + 1, tokens =>
      let (first, rest) := firstStatement {} tokens
      first :: splitWithin budget rest

/-- The tokens of each statement.  A statement has at least one token, so there
are no more statements than tokens. -/
def splitTokens (tokens : List Token) : List (List Token) :=
  splitWithin tokens.length tokens

def splitStatements (tokens : List Token) : List Statement :=
  (splitTokens tokens).map Statement.ofTokens

/-!
# From a text to statements
-/

def readStatements (config : LexerConfig) (sql : Text) : List Statement :=
  splitStatements (tokenize config sql)

/-- The grouped statements of a text; the first one that is nested too deeply
fails the whole. -/
def parse (sql : Text) (options : LexerOptions := {}) (limit : Nat := defaultMaxDepth) :
    Except Error (List Statement) := do
  let config ← options.check
  (readStatements config sql).mapM fun s => s.group limit

def parseEach (sql : Text) (options : LexerOptions := {}) (limit : Nat := defaultMaxDepth) :
    Except Error (List (Except Error Statement)) := do
  let config ← options.check
  return (readStatements config sql).map fun s => s.group limit

/-- The texts of the statements, trimmed, without the empty ones. -/
def split (sql : Text) (options : LexerOptions := {}) : Except Error (List Text) := do
  let config ← options.check
  return ((readStatements config sql).map fun s => s.text.trim).filter fun text => !text.isEmpty

end SqlLayout
