import SqlLayout.Regex.Match
import SqlLayout.Token.Basic

/-!
# Lexical rules

A rule is a regular expression, what its match becomes, and a condition on the
text around the match.
-/

namespace SqlLayout

/-- What a match becomes: a token of a fixed category, or a word whose category
the vocabulary decides. -/
inductive Action where
  | emit (category : Category)
  | lookUp
deriving DecidableEq, Repr

structure Surroundings where
  before : Option Char
  matched : Text
  after : Text

structure Rule where
  regex : Regex
  action : Action
  guard : Surroundings -> Bool := fun _ => true

namespace Surroundings

def beforeHas (s : Surroundings) (p : Char -> Bool) : Bool :=
  match s.before with
  | some c => p c
  | none => false

def notAfterName (s : Surroundings) : Bool :=
  !s.beforeHas Text.isNameChar

def beforePeriod (s : Surroundings) : Bool :=
  s.after.trimStart.head? == some '.'

def afterPeriod (s : Surroundings) : Bool :=
  s.before == some '.'

def beforeParenthesis (s : Surroundings) : Bool :=
  s.after.head? == some '('

/-- A number does not run into a word, and its minus is a sign only where no
operand stands before it. -/
def numberStandsAlone (s : Surroundings) : Bool :=
  let runsOn :=
    match s.after.head? with
    | some c => Text.isLetter c || c == '_'
    | none => false
  let isMinus :=
    s.matched.head? == some '-'
      && s.beforeHas fun c => Text.isNameChar c || c == ')' || c == ']'
  !runsOn && !isMinus

/-- Brackets quote a name unless they index what stands before them. -/
def notIndexing (s : Surroundings) : Bool :=
  !s.beforeHas fun c => Text.isNameChar c || c == ']' || c == ')'

end Surroundings

namespace Rule

/-- The number of characters the rule takes at the start of a text; an empty
match counts as none. -/
def matchLength? (rule : Rule) (before : Option Char) (text : Text) : Option Nat :=
  match rule.regex.matchLength? text with
  | none => none
  | some 0 => none
  | some n =>
      if rule.guard ⟨before, text.take n, text.drop n⟩ then some n else none

def first? (rules : List Rule) (before : Option Char) (text : Text) : Option (Action × Nat) :=
  rules.findSome? fun rule => (rule.matchLength? before text).map fun n => (rule.action, n)

end Rule
end SqlLayout
