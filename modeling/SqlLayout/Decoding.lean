import SqlLayout.Error
import SqlLayout.Text.Basic

/-!
# From bytes to texts
-/

namespace SqlLayout
namespace Text

/-!
# Decoding bytes

UTF-8 is read strictly: overlong forms, surrogates and code points beyond the
last plane are refused.  Latin-1 reads each byte as one character.
-/

def isContinuation (b : Nat) : Bool :=
  0x80 ≤ b && b ≤ 0xBF

/-- The low six bits of a continuation byte. -/
def payload (b : Nat) : Nat :=
  b - 0x80

/-- Strict UTF-8, with bytes given as numbers below 256. -/
def ofUtf8? : List Nat -> Option Text
  | [] => some []
  | a :: rest =>
      if a < 0x80 then (ofUtf8? rest).map (Char.ofNat a :: ·)
      else if a < 0xC2 then none
      else if a < 0xE0 then
        match rest with
        | b :: rest =>
            if isContinuation b then
              (ofUtf8? rest).map (Char.ofNat ((a - 0xC0) * 0x40 + payload b) :: ·)
            else none
        | _ => none
      else if a < 0xF0 then
        match rest with
        | b :: c :: rest =>
            let point := (a - 0xE0) * 0x1000 + payload b * 0x40 + payload c
            if isContinuation b && isContinuation c && 0x800 ≤ point
                && !(0xD800 ≤ point && point ≤ 0xDFFF) then
              (ofUtf8? rest).map (Char.ofNat point :: ·)
            else none
        | _ => none
      else if a < 0xF5 then
        match rest with
        | b :: c :: d :: rest =>
            let point :=
              (a - 0xF0) * 0x40000 + payload b * 0x1000 + payload c * 0x40 + payload d
            if isContinuation b && isContinuation c && isContinuation d
                && 0x10000 ≤ point && point ≤ 0x10FFFF then
              (ofUtf8? rest).map (Char.ofNat point :: ·)
            else none
        | _ => none
      else none

def ofLatin1 (bytes : List Nat) : Text :=
  bytes.map Char.ofNat

end Text

/-!
# Encodings of the input

Input is UTF-8 unless it says otherwise; bytes that are no UTF-8 are read as
Latin-1, so that there is a text for every input.
-/

inductive Encoding where
  | utf8
  | latin1
deriving DecidableEq, Repr

namespace Encoding

def names : List (String × Encoding) :=
  [("utf-8", utf8), ("utf8", utf8), ("latin-1", latin1), ("latin1", latin1),
   ("iso-8859-1", latin1)]

def ofName (name : Text) : Except Error Encoding :=
  match names.lookup (String.ofList name.trim.asciiLower) with
  | some encoding => .ok encoding
  | none => .error (.unknownEncoding name)

def decode (encoding : Encoding) (bytes : List Nat) : Text :=
  match encoding with
  | utf8 => (Text.ofUtf8? bytes).getD (Text.ofLatin1 bytes)
  | latin1 => Text.ofLatin1 bytes

end Encoding

def decode (bytes : List Nat) (encoding : Option Text) : Except Error Text := do
  let encoding ←
    match encoding with
    | some name => Encoding.ofName name
    | none => .ok .utf8
  return encoding.decode bytes

end SqlLayout
