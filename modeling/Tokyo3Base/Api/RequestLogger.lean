/-
`api/request_logger.go`, what is taken out of URLs before they are logged:
`isSensitiveLogField`, `SanitizeHeaders`, `sanitizeQuery`, `sanitizeURL`,
`requestPathParams` and `sanitizeRequestURL`.

A map is the list of its entries in the order in which it is iterated. For
`url.Values`, whose order makes no difference here, that is the order of
the keys (`Values`).
-/
import Tokyo3Base.Go.NetURL

namespace Tokyo3Base.Api

open Go NetURL

def redactedLogValue : GoString := ascii "***redacted***"

/-- The parts of a name that make it sensitive. -/
def sensitiveParts : List GoString :=
  [ascii "signature", ascii "auth", ascii "cookie", ascii "key",
    ascii "code", ascii "token", ascii "secret", ascii "password",
    ascii "passwd", ascii "passphrase", ascii "credential",
    ascii "assertion", ascii "session", ascii "nonce", ascii "state",
    ascii "verifier", ascii "csrf", ascii "jwt"]

section Sanitize

variable (toLower : ToLower)

def isSensitiveLogField (name : GoString) : Bool :=
  let key := toLower.map
    (replaceFrom [(ascii "-", []), (ascii "_", [])] 0 name)
  key == ascii "sig" || sensitiveParts.any (contains key)

def sanitizeHeaders (h : List (GoString × List GoString)) :
    List (GoString × List GoString) :=
  h.map fun e => (e.1,
    if isSensitiveLogField toLower e.1 then [redactedLogValue] else e.2)

def sanitizeQuery (values : Values) : Values := sanitizeHeaders toLower values

variable (parseAddr : ParseAddr)

def sanitizeURL (raw : GoString) : GoString :=
  match urlParse parseAddr raw with
  | .error _ => ascii "[invalid URL]"
  | .ok u =>
      let u := { u with user := u.user.map fun _ => ⟨redactedLogValue, none⟩ }
      match parseQuery u.rawQuery with
      | .error _ => { u with rawQuery := [], forceQuery := false }.string
      | .ok query =>
          let rawQuery := (sanitizeQuery toLower query).encode
          { u with
            rawQuery := rawQuery
            forceQuery := if rawQuery = [] then false else u.forceQuery }.string

/-- A map with another one added, whose names that are taken already are
left out. -/
def addParams (params src : List (GoString × GoString)) :
    List (GoString × GoString) :=
  params ++ src.filter fun e => !params.any fun p => p.1 == e.1

/-- `requestPathParams`, of the path parameters of the request and the
client, escaped and raw. -/
def requestPathParams (requestPath clientPath requestRaw clientRaw :
    List (GoString × GoString)) : List (GoString × GoString) :=
  [requestPath, clientPath, requestRaw, clientRaw].foldl addParams []

/-- The loop of `sanitizeRequestURL` over the parameters. -/
def redactParams (u : NetURL.URL)
    (pathParams : List (GoString × GoString)) : NetURL.URL :=
  pathParams.foldl (fun u p =>
    if p.2 ≠ [] ∧ isSensitiveLogField toLower p.1 = true then
      { u with path := replaceAll u.path p.2 redactedLogValue, rawPath := [] }
    else u) u

def sanitizeRequestURL (raw : GoString)
    (pathParams : List (GoString × GoString)) : GoString :=
  match urlParse parseAddr raw with
  | .error _ => sanitizeURL toLower parseAddr raw
  | .ok u => sanitizeURL toLower parseAddr
      (redactParams toLower u pathParams).string

end Sanitize

example : isSensitiveLogField .onlyASCII (ascii "X-Api_Key") = true := by
  decide +kernel

example : isSensitiveLogField .onlyASCII (ascii "design") = false := by
  decide +kernel

end Tokyo3Base.Api
