/-
Strings in `encoding/json`: `Marshal` coerces a string to valid UTF-8
(one replacement character for every byte that starts no valid
encoding), quotes it and escapes some characters, and `Unmarshal` of
that text gives the coerced string back.

# Shape of the model

A string is read as Go's `range` reads it: piece by piece, a piece being
the bytes of one valid character or a single byte that is not the start
of one (`pieces`). What the string decodes to and how it is written are
then two functions of the pieces. The text itself is needed for its
length only, so there is no parser here: the package's documented round
trip is `toValidUTF8`.
-/
import Tokyo3Base.Go.Bytes

namespace Tokyo3Base.Go

-- ==== UTF-8

def isTail (b : UInt8) : Bool := 0x80 ≤ b && b ≤ 0xbf

/-- The second byte that may follow `b0` in a longer encoding: the
narrower ranges leave out overlong forms, surrogates and what is beyond
the last code point. -/
def isSecond (b0 b1 : UInt8) : Bool :=
  if b0 = 0xe0 then 0xa0 ≤ b1 && b1 ≤ 0xbf
  else if b0 = 0xed then 0x80 ≤ b1 && b1 ≤ 0x9f
  else if b0 = 0xf0 then 0x90 ≤ b1 && b1 ≤ 0xbf
  else if b0 = 0xf4 then 0x80 ≤ b1 && b1 ≤ 0x8f
  else isTail b1

/-- How long an encoding that starts with `b0` is; 0 if none does. -/
def leadWidth (b0 : UInt8) : Nat :=
  if b0 < 0x80 then 1
  else if 0xc2 ≤ b0 && b0 ≤ 0xdf then 2
  else if 0xe0 ≤ b0 && b0 ≤ 0xef then 3
  else if 0xf0 ≤ b0 && b0 ≤ 0xf4 then 4
  else 0

/-- The bytes that may follow `b0`. -/
def areTails (b0 : UInt8) : GoString → Bool
  | [] => true
  | b1 :: s => isSecond b0 b1 && s.all isTail

/-- The size of the valid encoding that the string starts with; 0 if it
starts with none. -/
def runeWidth : GoString → Nat
  | [] => 0
  | b0 :: s =>
      let tails := s.take (leadWidth b0 - 1)
      if tails.length + 1 = leadWidth b0 ∧ areTails b0 tails = true then
        leadWidth b0
      else 0

/-- The pieces of a string, of which the first `skip` bytes belong to the
piece before; `none` is a byte that starts no valid encoding. -/
def piecesFrom : Nat → GoString → List (Option GoString)
  | _, [] => []
  | skip + 1, _ :: s => piecesFrom skip s
  | 0, b :: s =>
      match runeWidth (b :: s) with
      | 0 => none :: piecesFrom 0 s
      | w + 1 => some ((b :: s).take (w + 1)) :: piecesFrom w s

def pieces (s : GoString) : List (Option GoString) := piecesFrom 0 s

/-- U+FFFD, encoded. -/
def replacement : GoString := [0xef, 0xbf, 0xbd]

/-- The string that `Unmarshal` gives back for one that was
marshalled. -/
def toValidUTF8 (s : GoString) : GoString :=
  (pieces s).flatMap fun p => p.getD replacement

/-- A string that `Unmarshal` can give. -/
abbrev Text := { s : GoString // ∃ raw, toValidUTF8 raw = s }

/-- What `Unmarshal` gives for a string with these bytes. -/
def Text.decode (raw : GoString) : Text := ⟨toValidUTF8 raw, raw, rfl⟩

/-- `utf8.ValidString`. -/
def isValidUTF8 (s : GoString) : Bool := (pieces s).all Option.isSome

-- ==== writing

/-- A hexadecimal digit, lower case. -/
def hexDigit (n : UInt8) : UInt8 := if n < 10 then 48 + n else 87 + n

/-- How `Marshal` writes one ASCII character: what could end the string
or an HTML element is escaped. -/
def escapeASCII (b : UInt8) : GoString :=
  if b = 0x22 ∨ b = 0x5c then [0x5c, b]
  else if b = 0x08 then ascii "\\b"
  else if b = 0x0c then ascii "\\f"
  else if b = 0x0a then ascii "\\n"
  else if b = 0x0d then ascii "\\r"
  else if b = 0x09 then ascii "\\t"
  else if b < 0x20 ∨ b = 0x3c ∨ b = 0x3e ∨ b = 0x26 then
    ascii "\\u00" ++ [hexDigit (b >>> 4), hexDigit (b &&& 0x0f)]
  else [b]

/-- How `Marshal` writes one piece; U+2028 and U+2029 are escaped. -/
def escapePiece : Option GoString → GoString
  | none => ascii "\\ufffd"
  | some [b] => escapeASCII b
  | some p =>
      if p = [0xe2, 0x80, 0xa8] then ascii "\\u2028"
      else if p = [0xe2, 0x80, 0xa9] then ascii "\\u2029"
      else p

/-- A string as `Marshal` writes it. -/
def quote (s : GoString) : GoString :=
  [0x22] ++ (pieces s).flatMap escapePiece ++ [0x22]

end Tokyo3Base.Go
