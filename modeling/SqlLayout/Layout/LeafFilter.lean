import SqlLayout.Error
import SqlLayout.Statement
import SqlLayout.Text.CaseMap

/-!
# Changing tokens one by one
-/

namespace SqlLayout

/-!
# Letter case
-/

inductive LetterCase where
  | upper
  | lower
  | capitalize
deriving DecidableEq, Repr

namespace LetterCase

def label : LetterCase -> String
  | upper => "upper"
  | lower => "lower"
  | capitalize => "capitalize"

def all : List LetterCase := [upper, lower, capitalize]

def ofName (name : Text) : Except Error LetterCase :=
  match all.find? fun c => Text.of c.label == name.trim.asciiLower with
  | some c => .ok c
  | none =>
      .error (.config
        (Text.of "invalid case " ++ name.quoted
          ++ Text.of ", expected upper, lower or capitalize"))

/-- Changes the case of a text.  Capitalizing raises the first character and
lowers each of the others by itself. -/
def apply : LetterCase -> Text -> Text
  | upper, text => text.upper
  | lower, text => text.lower
  | capitalize, [] => []
  | capitalize, first :: rest => Text.upperChar first ++ rest.flatMap Text.lowerChar

end LetterCase

/-!
# Filters on single tokens
-/

inductive LeafFilter where
  /-- The case of keywords. -/
  | keywordCase (case : LetterCase)
  /-- The case of names; names in double quotes keep theirs. -/
  | identifierCase (case : LetterCase)
  /-- Strings longer than a width are cut and marked. -/
  | truncate (width : Nat) (marker : Text)
deriving DecidableEq, Repr

namespace LeafFilter

def stripStart? (text start : Text) : Option Text :=
  if List.isPrefixOf start text then some (text.drop start.length) else none

def stripEnd? (text tail : Text) : Option Text :=
  (stripStart? text.reverse tail.reverse).map List.reverse

/-- The quotes around a string: doubled ones count if there is room for two
pairs. -/
def quoteOf (value : Text) : Text :=
  if List.isPrefixOf ['\'', '\''] value && 4 ≤ value.byteLength then ['\'', '\''] else ['\'']

/-- A string whose inner text is longer than `width` keeps that much of it, with
the marker after it. -/
def truncateValue (width : Nat) (marker value : Text) : Text :=
  let quote := quoteOf value
  match (stripStart? value quote).bind (stripEnd? · quote) with
  | none => value
  | some inner =>
      if width < inner.length then quote ++ inner.take width ++ marker ++ quote else value

def apply (filter : LeafFilter) (token : Token) : Token :=
  match filter with
  | keywordCase case =>
      if token.isKeyword then { token with value := case.apply token.value } else token
  | identifierCase case =>
      if (token.category == .name || token.category == .doubleQuoted)
          && token.value.trimStart.head? != some '"' then
        { token with value := case.apply token.value }
      else token
  | truncate width marker =>
      if token.category == .singleQuoted then
        { token with value := truncateValue width marker token.value }
      else token

end LeafFilter

/-- Applies filters to every leaf, all of them to one leaf before the next. -/
def Statement.filterLeaves (s : Statement) (filters : List LeafFilter) : Statement :=
  let filterToken (token : Token) : Token :=
    filters.foldl (fun token filter => filter.apply token) token
  { s with
    tree :=
      (s.tree.leaves s.root).foldl (fun tree leaf => tree.modifyToken leaf filterToken) s.tree }

end SqlLayout
