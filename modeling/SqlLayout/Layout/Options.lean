import SqlLayout.Layout.LeafFilter
import SqlLayout.Layout.Output
import SqlLayout.Lexer.Basic
import SqlLayout.Statement

/-!
# Options of the layout
-/

namespace SqlLayout

structure LayoutOptions where
  lexer : LexerOptions := {}
  keywordCase : Option LetterCase := none
  identifierCase : Option LetterCase := none
  stripComments : Bool := false
  stripWhitespace : Bool := false
  reindent : Bool := false
  aligned : Bool := false
  indentTabs : Bool := false
  indentWidth : Nat := 2
  wrapAfter : Nat := 0
  spaceOperators : Bool := false
  truncateStrings : Option Nat := none
  truncateMarker : Text := Text.of "[...]"
  rightMargin : Option Nat := none
  outputFormat : OutputFormat := .sql
  maxDepth : Nat := defaultMaxDepth
deriving DecidableEq, Repr

namespace LayoutOptions

def minRightMargin : Nat := 10

def problem? (o : LayoutOptions) : Option String :=
  if o.indentWidth < 1 then some "indent_width requires a positive integer"
  else if o.truncateStrings == some 0 then some "truncate_strings requires a positive integer"
  else if (o.rightMargin.getD minRightMargin) < minRightMargin then
    some "right_margin requires an integer of at least 10"
  else if o.reindent && o.aligned then
    some "reindent and reindent_aligned are mutually exclusive"
  else if o.maxDepth < 1 then some "max_depth requires a positive integer"
  else none

/-- Checks all values and adds what they imply: a new indentation starts from
stripped blanks. -/
def validate (o : LayoutOptions) : Except Error LayoutOptions := do
  match o.problem? with
  | some problem => throw (.config (Text.of problem))
  | none => pure ()
  let _ ← o.lexer.check
  return { o with stripWhitespace := o.stripWhitespace || o.reindent || o.aligned }

def indentChar (o : LayoutOptions) : Char := if o.indentTabs then '\t' else ' '

def needsGrouping (o : LayoutOptions) : Bool :=
  o.stripComments || o.stripWhitespace || o.reindent || o.aligned || o.spaceOperators
    || o.rightMargin.isSome

end LayoutOptions
end SqlLayout
