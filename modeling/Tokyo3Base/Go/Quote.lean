/-
`strconv.Quote` and the verb `%q`, on lists of bytes.

The text is read character by character, in UTF-8. A character that is
printable stands for itself; which ones beyond ASCII are is a table of
package `unicode` and a parameter here. A byte that starts no character is
written as `\xhh`.
-/
import Tokyo3Base.Go.JSON

namespace Tokyo3Base.Go.Strconv

def hexDigits : Nat → Nat → GoString
  | 0, _ => []
  | width + 1, n => hexDigits width (n / 16) ++ [hexDigit (.ofNat (n % 16))]

/-- The code point of a character that takes more than one byte. -/
def codePoint : GoString → Nat
  | [c, d] => (c.toNat - 0xc0) * 64 + (d.toNat - 0x80)
  | [c, d, e] =>
      ((c.toNat - 0xe0) * 64 + (d.toNat - 0x80)) * 64 + (e.toNat - 0x80)
  | [c, d, e, f] =>
      (((c.toNat - 0xf0) * 64 + (d.toNat - 0x80)) * 64
        + (e.toNat - 0x80)) * 64 + (f.toNat - 0x80)
  | _ => 0

def hexByte (c : UInt8) : GoString := ascii "\\x" ++ hexDigits 2 c.toNat

def quoteASCII (c : UInt8) : GoString :=
  if c = 34 ∨ c = backslash then [backslash, c]
  else if 0x20 ≤ c ∧ c ≤ 0x7e then [c]
  else if c = 7 then ascii "\\a"
  else if c = 8 then ascii "\\b"
  else if c = 12 then ascii "\\f"
  else if c = 10 then ascii "\\n"
  else if c = 13 then ascii "\\r"
  else if c = 9 then ascii "\\t"
  else if c = 11 then ascii "\\v"
  else hexByte c

def quoteRune (isPrint : GoString → Bool) : GoString → GoString
  | [c] => quoteASCII c
  | rune =>
      if isPrint rune then rune
      else if codePoint rune < 0x10000 then
        ascii "\\u" ++ hexDigits 4 (codePoint rune)
      else ascii "\\U" ++ hexDigits 8 (codePoint rune)

/-- The rest of a text, of which so many bytes belong to a character
already written. -/
def quoteFrom (isPrint : GoString → Bool) : Nat → GoString → GoString
  | _, [] => []
  | skip + 1, _ :: s => quoteFrom isPrint skip s
  | 0, c :: s =>
      match runeWidth (c :: s) with
      | 0 => hexByte c ++ quoteFrom isPrint 0 s
      | w + 1 =>
          quoteRune isPrint ((c :: s).take (w + 1)) ++ quoteFrom isPrint w s

/-- `strconv.Quote`. -/
def quote (isPrint : GoString → Bool) (s : GoString) : GoString :=
  34 :: quoteFrom isPrint 0 s ++ [34]

example : quote (fun _ => true) (ascii "a\"b\n\\")
    = ascii "\"a\\\"b\\n\\\\\"" := by decide

example : quote (fun _ => false) [0xc3, 0xa9, 0xc3]
    = ascii "\"\\u00e9\\xc3\"" := by decide

end Tokyo3Base.Go.Strconv
