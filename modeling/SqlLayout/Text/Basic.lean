/-!
# Texts

A text is the list of its characters.  This module holds sets of code points,
blank characters, trimming, splitting into words, searching and the measures of a text.
-/

namespace SqlLayout

abbrev Text := List Char

namespace Text

abbrev of (s : String) : Text := s.toList

def byteLength : Text -> Nat
  | [] => 0
  | c :: rest => c.utf8Size + byteLength rest

/-!
# Sets of code points

A property of characters is given by closed intervals of code points, listed in
increasing order.
-/

abbrev Spans := List (Nat × Nat)

/-- Membership in an increasing list of intervals; the search ends at the first
interval that starts beyond the code point. -/
def Spans.has : Spans -> Nat -> Bool
  | [], _ => false
  | (first, last) :: rest, n =>
      if n < first then false
      else if n ≤ last then true
      else Spans.has rest n

/-!
# Blank characters
-/

/-- The code points of the property `White_Space` outside ASCII. -/
def blankSpans : Spans :=
  [(0x85, 0x85), (0xA0, 0xA0), (0x1680, 0x1680), (0x2000, 0x200A), (0x2028, 0x2029),
   (0x202F, 0x202F), (0x205F, 0x205F), (0x3000, 0x3000)]

def isBlank (c : Char) : Bool :=
  if c.toNat < 128 then c.toNat == 32 || (9 ≤ c.toNat && c.toNat ≤ 13)
  else blankSpans.has c.toNat

def trimStart (text : Text) : Text :=
  text.dropWhile isBlank

def trimEnd (text : Text) : Text :=
  (text.reverse.dropWhile isBlank).reverse

def trim (text : Text) : Text :=
  trimEnd (trimStart text)

/-- The maximal runs of characters that are not blank, given the run read so
far in reverse. -/
def wordsAfter : Text -> Text -> List Text
  | run, [] => if run.isEmpty then [] else [run.reverse]
  | run, c :: rest =>
      if isBlank c then
        if run.isEmpty then wordsAfter [] rest else run.reverse :: wordsAfter [] rest
      else wordsAfter (c :: run) rest

def words (text : Text) : List Text :=
  wordsAfter [] text

/-!
# Searching and joining
-/

def startsWith (text start : Text) : Bool :=
  List.isPrefixOf start text

def find? (needle : Text) : Text -> Option Nat
  | [] => if needle.isEmpty then some 0 else none
  | c :: rest =>
      if List.isPrefixOf needle (c :: rest) then some 0
      else (find? needle rest).map (· + 1)

def replace (old : Char) (new : Text) (text : Text) : Text :=
  text.flatMap fun c => if c == old then new else [c]

/-- The pieces of a text between the separators; there is always one more piece
than there are separators. -/
def splitAt (separator : Char) : Text -> List Text
  | [] => [[]]
  | c :: rest =>
      if c == separator then [] :: splitAt separator rest
      else
        match splitAt separator rest with
        | [] => [[c]]
        | piece :: pieces => (c :: piece) :: pieces

def join (separator : Text) : List Text -> Text
  | [] => []
  | [text] => text
  | text :: rest => text ++ separator ++ join separator rest

def fill (c : Char) (n : Nat) : Text :=
  List.replicate n c

def ofNat (n : Nat) : Text :=
  (Nat.repr n).toList

/-!
# ASCII case
-/

def asciiLower (text : Text) : Text :=
  text.map Char.toLower

def sameIgnoringCase (a b : Text) : Bool :=
  asciiLower a == asciiLower b

end Text
end SqlLayout
