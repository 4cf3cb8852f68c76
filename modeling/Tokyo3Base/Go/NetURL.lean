/-
Package `net/url`: `Parse`, `URL.String`, `ParseQuery` and
`Values.Encode`, with the errors of `Parse` and the texts they carry.

The release is the one `go.mod` asks for, Go 1.27, with its `GODEBUG`
settings at their defaults. So a host without brackets in an http URL has
one colon at most (`urlstrictcolons`), an opening bracket stands at the
start of a host or nowhere, and a query has no more than 10000 settings
(`urlmaxqueryparams`).

What is not followed is `netip.ParseAddr`, which decides about a host in
square brackets: it is a parameter, a function from the text between the
brackets to an error text or to whether the address is of version 4.
-/
import Tokyo3Base.Go.Path
import Tokyo3Base.Go.Quote
import Tokyo3Base.Go.Strings
import Tokyo3Base.Go.URL

namespace Tokyo3Base.Go.NetURL

-- ==== escaping

/-- The part of a URL that a text belongs to. -/
inductive Mode where
  | path
  | pathSegment
  | host
  | zone
  | userPassword
  | queryComponent
  | fragment
deriving DecidableEq

def isAlnum (c : UInt8) : Bool :=
  (97 ≤ c && c ≤ 122) || (65 ≤ c && c ≤ 90) || (48 ≤ c && c ≤ 57)

def shouldEscape (c : UInt8) (mode : Mode) : Bool :=
  if isAlnum c then false
  else if (mode == .host || mode == .zone)
      && c ∈ ascii "!$&'()*+,;=:[]<>\"" then false
  else if c ∈ ascii "-_.~" then false
  else if c ∈ ascii "$&+,/:;=?@" then
    match mode with
    | .path => c == 63
    | .pathSegment => c == 47 || c == 59 || c == 44 || c == 63
    | .userPassword => c == 64 || c == 47 || c == 63 || c == 58
    | .queryComponent => true
    | .fragment => false
    | .host => true
    | .zone => true
  else if mode == .fragment && c ∈ ascii "!()*" then false
  else true

def escape (s : GoString) (mode : Mode) : GoString :=
  s.flatMap fun c =>
    if c = 32 ∧ mode = .queryComponent then [43]
    else if shouldEscape c mode then
      [percent, upperHex (c / 16), upperHex (c % 16)]
    else [c]

/-- `url.PathEscape`. -/
def pathEscape (s : GoString) : GoString := escape s .pathSegment

def validEncoded (s : GoString) (mode : Mode) : Bool :=
  s.all fun c => c ∈ ascii "!$&'()*+,;=:@[]%" || !shouldEscape c mode

-- ==== reasons

/-- Why `Parse` refuses a URL. -/
inductive Reason where
  | controlCharacter
  | missingScheme
  | colonInFirstSegment
  /-- an `EscapeError` -/
  | escape (s : GoString)
  /-- an `InvalidHostError` -/
  | invalidHost (s : GoString)
  | missingBracket
  | invalidPort (colonPort : GoString)
  | invalidUserinfo
  /-- the error of `netip.ParseAddr` -/
  | invalidAddr (err : GoString)
  | invalidIPLiteral
deriving DecidableEq

/-- The text of an error. -/
def Reason.text (isPrint : GoString → Bool) : Reason → GoString
  | .controlCharacter => ascii "net/url: invalid control character in URL"
  | .missingScheme => ascii "missing protocol scheme"
  | .colonInFirstSegment =>
      ascii "first path segment in URL cannot contain colon"
  | .escape s => ascii "invalid URL escape " ++ Strconv.quote isPrint s
  | .invalidHost s =>
      ascii "invalid character " ++ Strconv.quote isPrint s ++ ascii " in host name"
  | .missingBracket => ascii "missing ']' in host"
  | .invalidPort colonPort =>
      ascii "invalid port " ++ Strconv.quote isPrint colonPort ++ ascii " after host"
  | .invalidUserinfo => ascii "net/url: invalid userinfo"
  | .invalidAddr err => ascii "invalid host: " ++ err
  | .invalidIPLiteral => ascii "invalid IP-literal"

/-- The `*url.Error` of `Parse`: its `URL` and its `Err`. -/
structure ParseError where
  url : GoString
  reason : Reason
deriving DecidableEq

/-- `(*url.Error).Error`: the operation, the quoted URL and the error. -/
def errorText (isPrint : GoString → Bool) (op url err : GoString) :
    GoString :=
  op ++ ascii " " ++ Strconv.quote isPrint url ++ ascii ": " ++ err

-- ==== unescaping

/-- The check of one complete escape. -/
def escapeAllowed (mode : Mode) (h l b : UInt8) : Bool :=
  match mode with
  | .host => 128 ≤ b || (h == 50 && l == 53)
  | .zone => (h == 50 && l == 53) || b == 32 || !shouldEscape b .host
  | _ => true

def unescape (mode : Mode) : GoString → Except Reason GoString
  | [] => .ok []
  | c :: s =>
      if c = percent then
        match s with
        | h :: l :: s' =>
            match escape? h l with
            | none => .error (.escape [c, h, l])
            | some b =>
                if escapeAllowed mode h l b then
                  (unescape mode s').map (b :: ·)
                else .error (.escape [c, h, l])
        | _ => .error (.escape (c :: s))
      else if (mode = .host ∨ mode = .zone) ∧ c < 128
          ∧ shouldEscape c mode = true then
        .error (.invalidHost [c])
      else
        (unescape mode s).map
          ((if c = 43 ∧ mode = .queryComponent then 32 else c) :: ·)

-- ==== authority

/-- The text before and after the last `sep`. -/
def cutLast (sep : UInt8) : GoString → Option (GoString × GoString)
  | [] => none
  | c :: s =>
      match cutLast sep s with
      | some (a, b) => some (c :: a, b)
      | none => if c = sep then some ([], s) else none

/-- The text after the first `sep`: the second result of
`strings.Cut`. -/
def after (sep : UInt8) (s : GoString) : GoString := (fromFirst sep s).drop 1

structure Userinfo where
  username : GoString
  password : Option GoString
deriving DecidableEq

structure URL where
  scheme : GoString
  opaquePart : GoString
  user : Option Userinfo
  host : GoString
  path : GoString
  rawPath : GoString
  omitHost : Bool
  forceQuery : Bool
  rawQuery : GoString
  fragment : GoString
  rawFragment : GoString
deriving DecidableEq

/-- `new(URL)`. -/
def URL.zero : URL :=
  { scheme := [], opaquePart := [], user := none, host := [], path := []
    rawPath := [], omitHost := false, forceQuery := false, rawQuery := []
    fragment := [], rawFragment := [] }

def validOptionalPort : GoString → Bool
  | [] => true
  | c :: s => c == 58 && s.all fun b => 48 ≤ b && b ≤ 57

/-- `netip.ParseAddr`: whether the address is of version 4, or the text
of the error. -/
abbrev ParseAddr := GoString → Except GoString Bool

/-- The text between the brackets of a host, with a zone after the first
`%25`. -/
def unescapeHostname (hostname : GoString) : Except Reason GoString :=
  match index hostname (ascii "%25") with
  | none => unescape .host hostname
  | some zone => do
      let hostPart ← unescape .host (hostname.take zone)
      let zonePart ← unescape .zone (hostname.drop zone)
      .ok (hostPart ++ zonePart)

/-- The text behind the colon where the port of a host without brackets
begins: behind the last colon, or behind the first in an http URL, where a
second colon makes the port invalid. -/
def portText (scheme host : GoString) : Option GoString :=
  if scheme = ascii "http" ∨ scheme = ascii "https" then
    if 58 ∈ host then some (after 58 host) else none
  else (cutLast 58 host).map (·.2)

def parseHost (parseAddr : ParseAddr) (scheme host : GoString) :
    Except Reason GoString :=
  match cutLast 91 host with
  | some (beforeOpen, _) =>
      if beforeOpen ≠ [] then .error .invalidIPLiteral
      else
        match cutLast 93 host with
        | none => .error .missingBracket
        | some (beforeClose, colonPort) => do
            if !validOptionalPort colonPort then
              .error (.invalidPort colonPort)
            else
              let unescapedColonPort ← unescape .host colonPort
              let hostname ← unescapeHostname (beforeClose.drop 1)
              match parseAddr hostname with
              | .error err => .error (.invalidAddr err)
              | .ok true => .error .invalidIPLiteral
              | .ok false =>
                  .ok (ascii "[" ++ hostname ++ ascii "]"
                    ++ unescapedColonPort)
  | none =>
      match portText scheme host with
      | some port =>
          if validOptionalPort (58 :: port) then unescape .host host
          else .error (.invalidPort (58 :: port))
      | none => unescape .host host

def validUserinfo (s : GoString) : Bool :=
  s.all fun c => isAlnum c || c ∈ ascii "-._:~!$&'()*+,;=%@"

/-- The userinfo of an authority, once it is known to be valid. -/
def parseUserinfo (userinfo : GoString) : Except Reason Userinfo :=
  if 58 ∈ userinfo then do
    let username ← unescape .userPassword (before 58 userinfo)
    let password ← unescape .userPassword (after 58 userinfo)
    .ok ⟨username, some password⟩
  else do
    let username ← unescape .userPassword userinfo
    .ok ⟨username, none⟩

/-- `parseAuthority`. The host is read before the userinfo. -/
def parseAuthority (parseAddr : ParseAddr) (scheme authority : GoString) :
    Except Reason (Option Userinfo × GoString) :=
  match cutLast 64 authority with
  | none => do
      let host ← parseHost parseAddr scheme authority
      .ok (none, host)
  | some (userinfo, hostText) => do
      let host ← parseHost parseAddr scheme hostText
      if !validUserinfo userinfo then .error .invalidUserinfo
      else
        let user ← parseUserinfo userinfo
        .ok (some user, host)

def URL.setPath (u : URL) (p : GoString) : Except Reason URL := do
  let path ← unescape .path p
  .ok { u with path := path
               rawPath := if p = escape path .path then [] else p }

def URL.setFragment (u : URL) (f : GoString) : Except Reason URL := do
  let fragment ← unescape .fragment f
  .ok { u with fragment := fragment
               rawFragment :=
                 if f = escape fragment .fragment then [] else f }

-- ==== Parse

def isLetter (c : UInt8) : Bool :=
  (97 ≤ c && c ≤ 122) || (65 ≤ c && c ≤ 90)

/-- The loop of `getScheme` behind the first byte: the scheme and the
text after its colon. -/
def schemeFrom : GoString → Option (GoString × GoString)
  | [] => none
  | c :: s =>
      if c = 58 then some ([], s)
      else if isAlnum c || c ∈ ascii "+-." then
        (schemeFrom s).map fun r => (c :: r.1, r.2)
      else none

/-- `getScheme`; without a scheme the text is left as it is. -/
def getScheme (rawURL : GoString) : Except Reason (GoString × GoString) :=
  match rawURL with
  | [] => .ok ([], [])
  | c :: s =>
      if c = 58 then .error .missingScheme
      else if isLetter c then
        match schemeFrom s with
        | some (scheme, rest) => .ok (c :: scheme, rest)
        | none => .ok ([], rawURL)
      else .ok ([], rawURL)

/-- The query is cut off: what stands before it, `ForceQuery` and
`RawQuery`. -/
def cutQuery (rest : GoString) : GoString × Bool × GoString :=
  if endsIn rest question && rest.count question == 1 then
    (rest.dropLast, true, [])
  else (before question rest, false, after question rest)

/-- The hierarchical part of a URL, whose scheme and query are known. -/
def parseHierarchy (parseAddr : ParseAddr) (u : URL) (rest : GoString) :
    Except Reason URL :=
  if (u.scheme != [] || !hasPrefix rest (ascii "///"))
      && hasPrefix rest (ascii "//") then do
    let authority := before slash (rest.drop 2)
    let (user, host) ← parseAuthority parseAddr u.scheme authority
    { u with user := user, host := host }.setPath
      (fromFirst slash (rest.drop 2))
  else
    { u with omitHost := u.scheme != [] && hasPrefix rest [slash] }.setPath
      rest

/-- `parse`, of a text without a fragment. -/
def parse (parseAddr : ParseAddr) (rawURL : GoString) :
    Except Reason URL :=
  if rawURL.any isCTL then .error .controlCharacter
  else if rawURL = ascii "*" then .ok { URL.zero with path := ascii "*" }
  else do
    let (scheme, text) ← getScheme rawURL
    let (rest, forceQuery, rawQuery) := cutQuery text
    let u := { URL.zero with
      scheme := lowerASCII scheme, forceQuery := forceQuery
      rawQuery := rawQuery }
    if !hasPrefix rest [slash] then
      if u.scheme != [] then .ok { u with opaquePart := rest }
      else if 58 ∈ before slash rest then .error .colonInFirstSegment
      else parseHierarchy parseAddr u rest
    else parseHierarchy parseAddr u rest

/-- `url.Parse`. -/
def urlParse (parseAddr : ParseAddr) (rawURL : GoString) :
    Except ParseError URL :=
  let u := before hash rawURL
  let frag := after hash rawURL
  match parse parseAddr u with
  | .error reason => .error ⟨u, reason⟩
  | .ok url =>
      if frag = [] then .ok url
      else
        match url.setFragment frag with
        | .error reason => .error ⟨rawURL, reason⟩
        | .ok url => .ok url

-- ==== String

/-- `(*Userinfo).String`. -/
def Userinfo.string (u : Userinfo) : GoString :=
  escape u.username .userPassword
    ++ match u.password with
      | none => []
      | some password => 58 :: escape password .userPassword

/-- The encoding that a URL was given with, where it still stands for the
same text. -/
def rawIfValid (raw text : GoString) (mode : Mode) : Option GoString :=
  if raw ≠ [] ∧ validEncoded raw mode = true
      ∧ (unescape mode raw).toOption = some text then some raw
  else none

/-- `(*URL).EscapedPath`. -/
def URL.escapedPath (u : URL) : GoString :=
  match rawIfValid u.rawPath u.path .path with
  | some raw => raw
  | none => if u.path = ascii "*" then ascii "*" else escape u.path .path

/-- `(*URL).EscapedFragment`. -/
def URL.escapedFragment (u : URL) : GoString :=
  match rawIfValid u.rawFragment u.fragment .fragment with
  | some raw => raw
  | none => escape u.fragment .fragment

/-- What `String` writes between the scheme and the path. -/
def URL.authority (u : URL) : GoString :=
  if u.scheme = [] ∧ u.host = [] ∧ u.user = none then []
  else if u.omitHost = true ∧ u.host = [] ∧ u.user = none then []
  else
    (if u.host = [] ∧ u.path = [] ∧ u.user = none then [] else ascii "//")
      ++ (match u.user with
        | none => []
        | some user => user.string ++ [64])
      ++ escape u.host .host

/-- What `String` writes before the query. -/
def URL.hierarchy (u : URL) : GoString :=
  let buf := (if u.scheme = [] then [] else u.scheme ++ [58]) ++
    if u.opaquePart = [] then u.authority else []
  if u.opaquePart ≠ [] then buf ++ u.opaquePart
  else
    let path := u.escapedPath
    let buf := buf ++
      if path ≠ [] ∧ path.head? ≠ some slash ∧ u.host ≠ [] then [slash]
      else []
    buf ++ (if buf = [] ∧ 58 ∈ before slash path then ascii "./" else [])
      ++ path

/-- `(*URL).String`. -/
def URL.string (u : URL) : GoString :=
  u.hierarchy
    ++ (if u.forceQuery = true ∨ u.rawQuery ≠ [] then question :: u.rawQuery
      else [])
    ++ (if u.fragment ≠ [] then hash :: u.escapedFragment else [])

-- ==== queries

/-- `url.Values`, the map with its keys in ascending order. -/
abbrev Values := List (GoString × List GoString)

/-- `m[key] = append(m[key], value)`. -/
def Values.add (key value : GoString) : Values → Values
  | [] => [(key, [value])]
  | (k, vs) :: m =>
      if key = k then (k, vs ++ [value]) :: m
      else if key < k then (key, [value]) :: (k, vs) :: m
      else (k, vs) :: Values.add key value m

/-- One setting of a query: its key and value, nothing for an empty one,
or an error. -/
def parseSetting (setting : GoString) :
    Except Unit (Option (GoString × GoString)) :=
  if 59 ∈ setting then .error ()
  else if setting = [] then .ok none
  else
    match unescape .queryComponent (before 61 setting),
        unescape .queryComponent (after 61 setting) with
    | .ok key, .ok value => .ok (some (key, value))
    | _, _ => .error ()

/-- `defaultMaxParams`: more settings than these are not read. -/
def maxParams : Nat := 10000

/-- `url.ParseQuery`; which error it is makes no difference to its
callers here. -/
def parseQuery (query : GoString) : Except Unit Values :=
  if maxParams < query.count 38 + 1 then .error ()
  else (split 38 query).foldlM (fun m setting =>
    match parseSetting setting with
    | .error err => .error err
    | .ok none => .ok m
    | .ok (some (key, value)) => .ok (Values.add key value m)) []

/-- `URL.Query().Get`: settings with an error are left out, and of those
with the key the first counts. -/
def queryGet (key query : GoString) : GoString :=
  let settings := if maxParams < query.count 38 + 1 then []
    else (split 38 query).filterMap fun setting =>
      match parseSetting setting with
      | .ok entry => entry
      | .error _ => none
  match settings.find? fun entry => entry.1 == key with
  | some entry => entry.2
  | none => []

/-- `Values.Encode`. -/
def Values.encode (m : Values) : GoString :=
  join 38 (m.flatMap fun e => e.2.map fun v =>
    escape e.1 .queryComponent ++ 61 :: escape v .queryComponent)

end Tokyo3Base.Go.NetURL
