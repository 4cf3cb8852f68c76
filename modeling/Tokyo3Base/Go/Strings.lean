/-
Package `strings`: searching, trimming and replacing, on lists of bytes.

Where a function moves by characters, UTF-8 is spelled out in bytes. A
walk that has taken more bytes than the one it looks at carries the number
of those still to pass.
-/
import Tokyo3Base.Go.JSON

namespace Tokyo3Base.Go

-- ==== searching

/-- `strings.Index`; `none` is -1. -/
def index : GoString → GoString → Option Nat
  | [], sub => if sub = [] then some 0 else none
  | c :: s, sub =>
      if hasPrefix (c :: s) sub then some 0
      else (index s sub).map (· + 1)

/-- `strings.IndexByte`; `none` is -1. -/
def indexByte (s : GoString) (b : UInt8) : Option Nat := s.findIdx? (· == b)

/-- `strings.Contains`. -/
def contains (s sub : GoString) : Bool := (index s sub).isSome

-- ==== lower case

/-- The letters of ASCII in lower case. -/
def lowerASCII (s : GoString) : GoString :=
  s.map fun c => if 65 ≤ c && c ≤ 90 then c + 32 else c

/-- `strings.ToLower`: beyond ASCII a table of package `unicode`. -/
structure ToLower where
  map : GoString → GoString
  ascii : ∀ s, (∀ c ∈ s, c < 0x80) → map s = lowerASCII s

/-- One that leaves everything else alone. -/
def ToLower.onlyASCII : ToLower := ⟨lowerASCII, fun _ _ => rfl⟩

-- ==== trimming

/-- The white space of ASCII. -/
def isASCIISpace (c : UInt8) : Bool := c == 32 || (9 ≤ c && c ≤ 13)

/-- The white space beyond ASCII, by `unicode.IsSpace`: U+0085, U+00A0,
U+1680, U+2000 to U+200A, U+2028, U+2029, U+202F, U+205F and U+3000. -/
def wideSpaces : List GoString :=
  [[0xc2, 0x85], [0xc2, 0xa0], [0xe1, 0x9a, 0x80]]
    ++ (List.range 11).map (fun n => [0xe2, 0x80, 0x80 + .ofNat n])
    ++ [[0xe2, 0x80, 0xa8], [0xe2, 0x80, 0xa9], [0xe2, 0x80, 0xaf],
      [0xe2, 0x81, 0x9f], [0xe3, 0x80, 0x80]]

/-- How many bytes the white space at the front takes. -/
def spaceWidth (wide : List GoString) : GoString → Nat
  | [] => 0
  | c :: s =>
      if isASCIISpace c then 1
      else ((wide.find? (hasPrefix (c :: s))).map List.length).getD 0

/-- White space is taken off the front. -/
def trimFront (wide : List GoString) : Nat → GoString → GoString
  | _, [] => []
  | n + 1, _ :: s => trimFront wide n s
  | 0, c :: s =>
      match spaceWidth wide (c :: s) with
      | 0 => c :: s
      | n + 1 => trimFront wide n s

/-- `strings.TrimSpace`. -/
def trimSpace (s : GoString) : GoString :=
  (trimFront (wideSpaces.map List.reverse) 0
    (trimFront wideSpaces 0 s).reverse).reverse

/-- `strings.TrimPrefix`. -/
def dropFront (s front : GoString) : GoString :=
  if hasPrefix s front then s.drop front.length else s

-- ==== replacing

/-- `strings.NewReplacer(…).Replace`, no old string being empty: at each
place the first of them that matches. -/
def replaceFrom (pairs : List (GoString × GoString)) :
    Nat → GoString → GoString
  | _, [] => []
  | n + 1, _ :: s => replaceFrom pairs n s
  | 0, c :: s =>
      match pairs.find? fun p => hasPrefix (c :: s) p.1 with
      | some (old, new) => new ++ replaceFrom pairs (old.length - 1) s
      | none => c :: replaceFrom pairs 0 s

/-- `strings.ReplaceAll` of the empty string: before each character, and
at the end. -/
def interleave (new : GoString) : Nat → GoString → GoString
  | _, [] => new
  | n + 1, c :: s => c :: interleave new n s
  | 0, c :: s => new ++ c :: interleave new (runeWidth (c :: s) - 1) s

/-- `strings.ReplaceAll`. -/
def replaceAll (s old new : GoString) : GoString :=
  if old = [] then interleave new 0 s else replaceFrom [(old, new)] 0 s

example : replaceAll (ascii "aaab") (ascii "aa") (ascii "x") = ascii "xab" := by
  decide

example : trimSpace (ascii " \ta b\n" ++ [0xc2, 0xa0]) = ascii "a b" := by
  decide

end Tokyo3Base.Go
