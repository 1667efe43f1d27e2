import SqlLayout.Text.Basic
import SqlLayout.Text.Word

/-!
# Patterns
-/

namespace SqlLayout

/-!
# Character sets

The sets of characters that a regular expression can ask for.  A letter stands
for both of its cases and for the characters that fold to it: the long s and
the Kelvin sign.  Recent code points are neither digits nor word characters.
-/

inductive CharSet where
  | any
  | oneOf (cs : List Char)
  | noneOf (cs : List Char)
  | letter (c : Char)
  | blank
  | digit
  | word
  | nameStart
  | either (a b : CharSet)
deriving DecidableEq, Repr

namespace CharSet

/-- The small ASCII letter that a character folds to, if there is one. -/
def foldLetter (c : Char) : Char :=
  if c.toNat < 128 then c.toLower
  else if c.toNat == 0x17F then 's'
  else if c.toNat == 0x212A then 'k'
  else c

/-- The letters an unquoted name may start with: the letters A to Z and the
accented Latin-1 letters up to U-diaeresis, in both cases, the characters that
fold to one of them, and the multiplication sign that lies between them. -/
def startsName (c : Char) : Bool :=
  (foldLetter c).isAlpha
    || (0xC0 ≤ c.toNat && c.toNat ≤ 0xDC)
    || (0xE0 ≤ c.toNat && c.toNat ≤ 0xFC && c.toNat != 0xF7)
    || c.toNat == 0x212B

def has : CharSet -> Char -> Bool
  | any, _ => true
  | oneOf cs, c => cs.elem c
  | noneOf cs, c => !cs.elem c
  | letter l, c => foldLetter c == l
  | blank, c => Text.isBlank c
  | digit, c => Text.isDigit c && !Text.isRecent c
  | word, c => Text.isWord c
  | nameStart, c => startsName c
  | either a b, c => a.has c || b.has c

end CharSet

/-!
# Regular expressions

Regular expressions with an order of preference among the ways to match: the
first alternative before the second, a repetition more often before less often
(or the other way round when it is lazy).
-/

inductive Regex where
  | empty
  | chars (set : CharSet)
  | seq (first second : Regex)
  | alt (first second : Regex)
  | star (body : Regex)
  | lazyStar (body : Regex)
  | wordBoundary
  | textEnd
deriving DecidableEq, Repr

namespace Regex

instance : Append Regex := ⟨seq⟩

def never : Regex := chars (.oneOf [])

def opt (r : Regex) : Regex := alt r empty

def plus (r : Regex) : Regex := seq r (star r)

/-- One of several expressions, the earlier preferred. -/
def oneOf : List Regex -> Regex
  | [] => never
  | [r] => r
  | r :: rest => alt r (oneOf rest)

def sequence : List Regex -> Regex
  | [] => empty
  | [r] => r
  | r :: rest => seq r (sequence rest)

def char (c : Char) : Regex :=
  if c.isAlpha then chars (.letter c.toLower) else chars (.oneOf [c])

def text (s : String) : Regex :=
  sequence (s.toList.map char)

def gap : Regex := plus (chars .blank)

def spaced : List String -> Regex
  | [] => empty
  | [s] => text s
  | s :: rest => seq (text s) (seq gap (spaced rest))

def oneOfTexts (ss : List String) : Regex :=
  oneOf (ss.map text)

end Regex

end SqlLayout
