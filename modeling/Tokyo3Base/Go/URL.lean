/-
Packages `net/url` and `net/http`, as far as local redirects use them:
escaping, parsing of a reference that starts with a single slash, and
`http.Redirect`.

`url.Parse` is modelled for such references only. They have no scheme
and no authority, so what it can do is cut the fragment at the first
`#`, refuse control bytes in the rest, cut the query at the first `?`,
and unescape path and fragment, refusing an incomplete escape.
-/
import Tokyo3Base.Go.Path

namespace Tokyo3Base.Go

-- ==== escaping

/-- The value of a hexadecimal digit. -/
def unhex (c : UInt8) : Option UInt8 :=
  if 0x30 ≤ c && c ≤ 0x39 then some (c - 0x30)
  else if 0x61 ≤ c && c ≤ 0x66 then some (c - 0x61 + 10)
  else if 0x41 ≤ c && c ≤ 0x46 then some (c - 0x41 + 10)
  else none

/-- The byte of a complete escape `%hl`. -/
def escape? (h l : UInt8) : Option UInt8 :=
  match unhex h, unhex l with
  | some x, some y => some (x * 16 + y)
  | _, _ => none

/-- `url.unescape` for paths and fragments; `none` is an
`EscapeError`. -/
def unescape : GoString → Option GoString
  | [] => some []
  | [c] => if c = percent then none else some [c]
  | [c, d] => if c = percent ∨ d = percent then none else some [c, d]
  | c :: h :: l :: rest =>
      if c = percent then
        match escape? h l with
        | none => none
        | some b => (unescape rest).map (b :: ·)
      else (unescape (h :: l :: rest)).map (c :: ·)

/-- The text that a path stands for, complete escapes decoded and
anything else taken as it is: how a `Location` is read. -/
def percentDecode : GoString → GoString
  | c :: h :: l :: rest =>
      if c = percent then
        match escape? h l with
        | some b => b :: percentDecode rest
        | none => c :: percentDecode (h :: l :: rest)
      else c :: percentDecode (h :: l :: rest)
  | c :: cs => c :: percentDecode cs
  | [] => []

def upperHex (n : UInt8) : UInt8 :=
  if n < 10 then 0x30 + n else 0x41 + (n - 10)

def lowerHex (n : UInt8) : UInt8 :=
  if n < 10 then 0x30 + n else 0x61 + (n - 10)

/-- A byte that `url.QueryEscape` leaves alone. -/
def unreserved (c : UInt8) : Bool :=
  (0x61 ≤ c && c ≤ 0x7a) || (0x41 ≤ c && c ≤ 0x5a)
    || (0x30 ≤ c && c ≤ 0x39)
    || c == 0x2d || c == 0x5f || c == dot || c == 0x7e

/-- `url.QueryEscape`. -/
def queryEscape (s : GoString) : GoString :=
  s.flatMap fun c =>
    if c = 0x20 then [0x2b]
    else if unreserved c then [c]
    else [percent, upperHex (c / 16), upperHex (c % 16)]

/-- `http.hexEscapeNonASCII`. -/
def hexEscapeNonASCII (s : GoString) : GoString :=
  s.flatMap fun c =>
    if c < 0x80 then [c]
    else [percent, lowerHex (c / 16), lowerHex (c % 16)]

-- ==== parsing

/-- A parsed local reference. -/
structure URL where
  path : GoString
  rawQuery : GoString
  fragment : GoString
deriving DecidableEq

/-- A control byte, which `url.Parse` refuses. -/
def isCTL (c : UInt8) : Bool := c < 0x20 || c == 0x7f

/-- `url.Parse` of a reference that starts with a single slash; `none`
is an error. -/
def parseLocal (raw : GoString) : Option URL :=
  let u := before hash raw
  if u.any isCTL then none
  else
    match unescape (before question u),
        unescape ((fromFirst hash raw).drop 1) with
    | some path, some fragment =>
        some { path := path, rawQuery := (fromFirst question u).drop 1,
               fragment := fragment }
    | _, _ => none

-- ==== redirects

/-- `path.Clean` that keeps a trailing slash, as `http.Redirect` does. -/
def cleanKeepSlash (s : GoString) : GoString :=
  let c := clean s
  if endsIn s slash && !endsIn c slash then c ++ [slash] else c

/-- What `http.Redirect` makes of a reference that starts with a single
slash: everything before the first `?` is cleaned, a fragment included.
One that does not parse is left as it is. -/
def redirectTarget (url : GoString) : GoString :=
  match parseLocal url with
  | none => url
  | some _ =>
      cleanKeepSlash (before question url) ++ fromFirst question url

/-- The `Location` that `http.Redirect` sends. -/
def redirectLocation (url : GoString) : GoString :=
  hexEscapeNonASCII (redirectTarget url)

end Tokyo3Base.Go
