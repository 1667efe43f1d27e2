import SqlLayout.Text.CaseMap

/-!
# Tokens

A token is a piece of the source text with its category and, unless it was made
up later, the byte offset at which it was read.
-/

namespace SqlLayout

/-!
# Categories of tokens

Categories form a hierarchy with dotted names.  `isA` asks whether a category
lies at or below another one; equality asks for the category itself.
-/

inductive Category where
  | text
  | whitespace
  | error
  | keyword
  | dml
  | ddl
  | cte
  | order
  | zoneCast
  | command
  | name
  | builtin
  | placeholder
  | literal
  | string
  | singleQuoted
  | doubleQuoted
  | number
  | integer
  | float
  | hexadecimal
  | punctuation
  | operator
  | comparison
  | wildcard
  | comment
  | lineComment
  | lineHint
  | blockComment
  | blockHint
  | assignment
deriving DecidableEq, Repr

namespace Category

/-- All categories, a parent before its children. -/
def all : List Category :=
  [text, whitespace, error, keyword, dml, ddl, cte, order, zoneCast, command, name, builtin,
   placeholder, literal, string, singleQuoted, doubleQuoted, number, integer, float, hexadecimal,
   punctuation, operator, comparison, wildcard, comment, lineComment, lineHint, blockComment,
   blockHint, assignment]

def label : Category -> String
  | text => "Text"
  | whitespace => "Text.Whitespace"
  | error => "Error"
  | keyword => "Keyword"
  | dml => "Keyword.DML"
  | ddl => "Keyword.DDL"
  | cte => "Keyword.CTE"
  | order => "Keyword.Order"
  | zoneCast => "Keyword.TZCast"
  | command => "Keyword.Command"
  | name => "Name"
  | builtin => "Name.Builtin"
  | placeholder => "Name.Placeholder"
  | literal => "Literal"
  | string => "Literal.String"
  | singleQuoted => "Literal.String.Single"
  | doubleQuoted => "Literal.String.Symbol"
  | number => "Literal.Number"
  | integer => "Literal.Number.Integer"
  | float => "Literal.Number.Float"
  | hexadecimal => "Literal.Number.Hexadecimal"
  | punctuation => "Punctuation"
  | operator => "Operator"
  | comparison => "Operator.Comparison"
  | wildcard => "Wildcard"
  | comment => "Comment"
  | lineComment => "Comment.Single"
  | lineHint => "Comment.Single.Hint"
  | blockComment => "Comment.Multiline"
  | blockHint => "Comment.Multiline.Hint"
  | assignment => "Assignment"

def ofLabel? (s : String) : Option Category :=
  all.find? fun c => c.label == s

def parent? : Category -> Option Category
  | whitespace => some text
  | dml | ddl | cte | order | zoneCast | command => some keyword
  | builtin | placeholder => some name
  | string | number => some literal
  | singleQuoted | doubleQuoted => some string
  | integer | float | hexadecimal => some number
  | comparison => some operator
  | lineComment | blockComment => some comment
  | lineHint => some lineComment
  | blockHint => some blockComment
  | _ => none

/-- The category and those above it; the hierarchy has three levels. -/
def lineage (c : Category) : List Category :=
  match c.parent? with
  | none => [c]
  | some p =>
      match p.parent? with
      | none => [c, p]
      | some q => [c, p, q]

def isA (c ancestor : Category) : Bool :=
  c.lineage.elem ancestor

def isKeyword (c : Category) : Bool := c.isA keyword

def isWhitespace (c : Category) : Bool := c.isA whitespace

def isComment (c : Category) : Bool := c.isA comment

end Category

/-!
# Tokens and patterns
-/

structure Token where
  category : Category
  value : Text
  position : Option Nat := none
deriving DecidableEq, Repr

/-- A category together with the values that are accepted; no values accept
every value. -/
structure TokenPattern where
  category : Category
  values : List Text := []
deriving DecidableEq, Repr

namespace Token

def isKeyword (t : Token) : Bool := t.category.isKeyword

def isWhitespace (t : Token) : Bool := t.category.isWhitespace

def isComment (t : Token) : Bool := t.category.isComment

/-- Keywords are compared in upper case with single spaces, all else as it
stands. -/
def normalized (t : Token) : Text :=
  if t.isKeyword then Text.upper (Text.join [' '] (Text.words t.value)) else t.value

/-- The category is exactly the one asked for and the value is accepted, for
keywords up to case and spacing. -/
def hits (t : Token) (p : TokenPattern) : Bool :=
  t.category == p.category &&
    (p.values.isEmpty ||
      if t.isKeyword then p.values.any (Text.sameIgnoringCase t.normalized)
      else p.values.elem t.value)

def isKeywordIn (t : Token) (words : List Text) : Bool :=
  t.hits ⟨.keyword, words⟩

def isPunctuationIn (t : Token) (marks : List Text) : Bool :=
  t.hits ⟨.punctuation, marks⟩

def byteLength (t : Token) : Nat := t.value.byteLength

def covers (t : Token) (offset : Nat) : Bool :=
  match t.position with
  | some start => start ≤ offset && offset < start + t.byteLength
  | none => false

/-- The opening or closing mark of a dollar-quoted body, such as `$$` or
`$tag$`. -/
def isDollarMark (value : Text) : Bool :=
  2 ≤ value.length && value.head? == some '$' && value.getLast? == some '$'

end Token

end SqlLayout
