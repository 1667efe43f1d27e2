import SqlLayout.Regex.Basic

/-!
# Matching at the start of a text

All ways to match are followed at once, one character at a time, in the order
of preference.  `heads` lists how an expression can go on from a place in the
text; a way that is done cuts off the ways after it, and of two ways with the
same rest only the first is kept.
-/

namespace SqlLayout
namespace Regex

/-- How a match can go on: it is complete, or it reads a character of a set and
goes on with the rest. -/
inductive Head where
  | done
  | read (set : CharSet) (rest : Regex)
deriving DecidableEq, Repr

def andThen (first second : Regex) : Regex :=
  match first with
  | empty => second
  | _ => seq first second

def isWordAt (c : Option Char) : Bool :=
  match c with
  | some c => Text.isWord c
  | none => false

/-- The ways to go on between the characters `before` and `after`, the preferred
ones first. -/
def heads (before after : Option Char) : Regex -> List Head
  | empty => [.done]
  | chars set => [.read set empty]
  | seq a b =>
      (heads before after a).flatMap fun head =>
        match head with
        | .done => heads before after b
        | .read set rest => [.read set (andThen rest b)]
  | alt a b => heads before after a ++ heads before after b
  | star a =>
      ((heads before after a).flatMap fun head =>
        match head with
        | .done => []
        | .read set rest => [.read set (andThen rest (star a))]) ++ [.done]
  | lazyStar a =>
      .done :: (heads before after a).flatMap fun head =>
        match head with
        | .done => []
        | .read set rest => [.read set (andThen rest (lazyStar a))]
  | wordBoundary => if isWordAt before != isWordAt after then [.done] else []
  | textEnd => if after.isNone then [.done] else []

/-- The ways in front of the first complete one, and whether there is such. -/
def cut : List Head -> List (CharSet × Regex) × Bool
  | [] => ([], false)
  | .done :: _ => ([], true)
  | .read set rest :: heads =>
      let (ways, isDone) := cut heads
      ((set, rest) :: ways, isDone)

/-- The rests of the ways that can read `c`, each once. -/
def advance (c : Char) : List (CharSet × Regex) -> List Regex
  | [] => []
  | (set, rest) :: ways =>
      if set.has c then rest :: (advance c ways).filter (· != rest)
      else advance c ways

def run (before : Option Char) (threads : List Regex) : Text -> Option Nat
  | [] =>
      if (cut (threads.flatMap (heads before none))).2 then some 0 else none
  | c :: rest =>
      let (ways, isDone) := cut (threads.flatMap (heads before (some c)))
      let longer :=
        match advance c ways with
        | [] => none
        | threads => run (some c) threads rest
      match longer with
      | some n => some (n + 1)
      | none => if isDone then some 0 else none

def matchLength? (r : Regex) (text : Text) : Option Nat :=
  run none [r] text

end Regex
end SqlLayout
