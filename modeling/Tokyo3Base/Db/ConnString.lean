/-
`db/db.go`, the connection strings: `SanitizeDBConn`, `safeConnField` and
`connStrFieldRegexp`.

The expression is

    ^([A-Za-z_][A-Za-z0-9_]*)\s*=\s*('(?:\\.|[^'\\])*'|(?:\\.|[^\s'\\])+|)

where `\s` is `[\t\n\f\r ]` and `.` anything but a line feed. It needs no
backtracking. The key and the white space are read as far as they go,
since neither a letter nor white space can stand for what follows. A
quoted value ends at the first quote that is not escaped; without one, or
if a backslash stands before a line feed or the end, the alternative
fails. The next one is then empty at a quote, and the last one matches
anywhere. Bytes beyond ASCII are matched by every negated class and by
`.`, so that characters and bytes make no difference.
-/
import Tokyo3Base.Go.NetURL

namespace Tokyo3Base.Db

open Go

-- ==== expression

def isWordStart (c : UInt8) : Bool :=
  (65 ≤ c && c ≤ 90) || (97 ≤ c && c ≤ 122) || c == 95

def isWordByte (c : UInt8) : Bool := isWordStart c || (48 ≤ c && c ≤ 57)

/-- `\s`. -/
def isRegexpSpace (c : UInt8) : Bool :=
  c == 9 || c == 10 || c == 12 || c == 13 || c == 32

/-- `(?:\\.|[^'\\])*'`. -/
def matchQuoted : GoString → Option Nat
  | [] => none
  | c :: s =>
      if c = 39 then some 1
      else if c = backslash then
        match s with
        | [] => none
        | d :: s => if d = 10 then none else (matchQuoted s).map (· + 2)
      else (matchQuoted s).map (· + 1)

/-- `(?:\\.|[^\s'\\])*`: the second alternative, and the third if this is
empty. -/
def matchBare : GoString → Nat
  | [] => 0
  | c :: s =>
      if c = backslash then
        match s with
        | [] => 0
        | d :: s => if d = 10 then 0 else matchBare s + 2
      else if isRegexpSpace c || c == 39 then 0
      else matchBare s + 1

/-- The three alternatives of a value. -/
def matchValue (v : GoString) : Nat :=
  if v.head? = some 39 then
    match matchQuoted (v.drop 1) with
    | some n => n + 1
    | none => matchBare v
  else matchBare v

/-- `connStrFieldRegexp.FindStringSubmatchIndex`: the length of the key,
and of the match. -/
def matchField (rest : GoString) : Option (Nat × Nat) :=
  if !rest.head?.any isWordStart then none
  else
    let key := (rest.takeWhile isWordByte).length
    let gap := ((rest.drop key).takeWhile isRegexpSpace).length
    if (rest.drop (key + gap)).head? ≠ some 61 then none
    else
      let text := rest.drop (key + gap + 1)
      let skip := (text.takeWhile isRegexpSpace).length
      some (key, key + gap + 1 + skip + matchValue (text.drop skip))

-- ==== sanitizer

/-- The fields that are kept. -/
def safeFields : List GoString :=
  [ascii "host", ascii "port", ascii "dbname", ascii "sslmode",
    ascii "application_name", ascii "connect_timeout"]

def safeConnField (toLower : ToLower) (key : GoString) : Bool :=
  toLower.map key ∈ safeFields

def invalidConn : GoString := ascii "[invalid database connection string]"

/-- The loop over the fields, at most so many; `none` for a text that does
not match. -/
def sanitizeFields (toLower : ToLower) :
    Nat → GoString → List GoString → Option (List GoString)
  | 0, rest, fields => if rest = [] then some fields else none
  | n + 1, rest, fields =>
      if rest = [] then some fields
      else
        match matchField rest with
        | none => none
        | some (key, len) =>
            sanitizeFields toLower n (trimSpace (rest.drop len))
              (if safeConnField toLower (rest.take key) then
                fields ++ [rest.take len]
              else fields)

/-- `SanitizeDBConn` of a URL. -/
def sanitizeURLConn (toLower : ToLower)
    (parseAddr : NetURL.ParseAddr) (connStr : GoString) : GoString :=
  match NetURL.urlParse parseAddr connStr with
  | .error _ => invalidConn
  | .ok u =>
      if u.scheme ≠ ascii "postgres" ∧ u.scheme ≠ ascii "postgresql" then
        invalidConn
      else
        match NetURL.parseQuery u.rawQuery with
        | .error _ => invalidConn
        | .ok query =>
            let safe := query.filter fun e => safeConnField toLower e.1
            { u with
              user := none, fragment := [], forceQuery := false
              rawQuery := NetURL.Values.encode safe }.string

/-- `SanitizeDBConn`. Each field takes a byte at least, so that there are
no more rounds than bytes. -/
def sanitizeDBConn (toLower : ToLower)
    (parseAddr : NetURL.ParseAddr) (connStr : GoString) : GoString :=
  if contains connStr (ascii "://") then
    sanitizeURLConn toLower parseAddr connStr
  else
    match sanitizeFields toLower connStr.length (trimSpace connStr) [] with
    | none => invalidConn
    | some fields => join 32 fields

end Tokyo3Base.Db
