/-
The verifier of ID tokens and logout tokens (`oidc/oidc.go`): `Verify` and
`VerifyLogoutToken` on the payload of a correctly signed token.

# What go-oidc does

Both start with go-oidc's own `Verify`, which is a parameter (`GoOidc`):
it checks the signature, the issuer, the audience and, unless it is told
to skip that, the expiry. Of what it returns only the issuer and the
subject are read. `GoOidc.AcceptsOwn` is the one thing that is relied on.
The texts of its errors, and those of `encoding/json`, are not modelled.

# Two decodings of one payload

`Verify` keeps `events` as a raw message and decodes that a second time;
`VerifyLogoutToken` decodes it into nested maps at once. The clock is read
once in each.
-/
import Tokyo3Base.Go.JSON
import Tokyo3Base.Go.Unmarshal
import Tokyo3Base.Oidc.Login
import Tokyo3Base.Oidc.Logout

namespace Tokyo3Base.Oidc

open Go

-- ==== go-oidc

/-- What is read of the token that go-oidc returns. -/
structure IDToken where
  issuer : GoString
  subject : GoString
deriving DecidableEq

/-- `IDTokenVerifier.Verify`: for a provider's issuer, a client, and the
option to skip the expiry check, at a time, on a payload whose signature
is correct. -/
abbrev GoOidc := GoString → GoString → Bool → Int → Members → Option IDToken

/-- The values of the members that belong to a field. -/
def valuesOf (name : GoString) (payload : Members) : List Json :=
  (payload.filter fun e => equalFold name e.1).map Prod.snd

/-- An integer that an `int64` holds, and nothing else. -/
def IsDate (values : List Json) : Prop :=
  ∃ literal n, values = [.num literal] ∧ atoi literal = some n

/-- A payload whose registered claims are of the types that OpenID Connect
gives them, without a validity start and distributed claims. -/
structure RegisteredClaims (payload : Members) (iss sub : GoString)
    (aud : List GoString) : Prop where
  iss : decodeField (ascii "iss") decodeString [] payload = some iss
  sub : decodeField (ascii "sub") decodeString [] payload = some sub
  aud : valuesOf (ascii "aud") payload = [.arr (aud.map .str)]
  exp : IsDate (valuesOf (ascii "exp") payload)
  iat : IsDate (valuesOf (ascii "iat") payload)
  absent : ∀ name ∈ [ascii "nbf", ascii "nonce", ascii "at_hash",
    ascii "_claim_names", ascii "_claim_sources"],
    valuesOf name payload = []

/-- With `SkipExpiryCheck` a token of the provider for the client is
accepted, whenever that is, and its issuer and subject are returned. -/
def GoOidc.AcceptsOwn (goidc : GoOidc) : Prop :=
  ∀ issuer clientID now payload sub aud,
    RegisteredClaims payload issuer sub aud → clientID ∈ aud →
    goidc issuer clientID true now payload = some ⟨issuer, sub⟩

-- ==== verifier

/-- An `HTTPVerifier`. `NewHTTPVerifier` refuses empty names, and the
discovery document, a JSON text, has to name the issuer. -/
structure HTTPVerifier where
  issuer : GoString
  audience : GoString
  issuer_ne : issuer ≠ []
  audience_ne : audience ≠ []
  discovered : toValidUTF8 issuer = issuer

inductive VerifyError where
  /-- an error of go-oidc, as it is or after `verify logout token: ` -/
  | goidc
  /-- a decoding error, after `decode token claims: ` or
  `decode logout claims: ` -/
  | claims
  | text (message : GoString)
deriving DecidableEq

/-- The member of `events` that marks a logout token. -/
def backchannelLogoutEvent : GoString :=
  ascii "http://schemas.openid.net/event/backchannel-logout"

/-- Whether an `events` claim is an object that names the event. -/
def hasLogoutEvent (raw : Option Json) : Bool :=
  match raw with
  | none => false
  | some j =>
      match decodeMap decodeRaw none none j with
      | some (some events) => (events.get backchannelLogoutEvent).isSome
      | _ => false

/-- A boolean, or a string that spells `true`. -/
def parseLooseBool : Option Json → Bool
  | some (.bool b) => b
  | some (.str s) => equalFold (ascii "true") s
  | _ => false

/-- The claims that `Verify` returns. -/
structure VerifiedClaims extends Claims where
  email : GoString
  name : GoString
  groups : List GoString
  issuer : GoString
  authTime : Int
  sessionID : GoString
deriving DecidableEq

/-- The claims that `Verify` decodes itself. -/
structure IDTokenBody where
  email : GoString
  emailVerified : Option Json
  name : GoString
  groups : Strings
  nonce : GoString
  authTime : Int
  sid : GoString
  events : Option Json

def decodeIDTokenBody (payload : Members) : Option IDTokenBody := do
  let email ← decodeField (ascii "email") decodeString [] payload
  let emailVerified ← decodeField (ascii "email_verified") decodeRaw none
    payload
  let name ← decodeField (ascii "name") decodeString [] payload
  let groups ← decodeField (ascii "groups") decodeStrings ⟨[], []⟩ payload
  let nonce ← decodeField (ascii "nonce") decodeString [] payload
  let authTime ← decodeField (ascii "auth_time") decodeInt64 0 payload
  let sid ← decodeField (ascii "sid") decodeString [] payload
  let events ← decodeField (ascii "events") decodeRaw none payload
  return { email, emailVerified, name, groups, nonce, authTime, sid, events }

def HTTPVerifier.verify (v : HTTPVerifier) (goidc : GoOidc) (now : Int)
    (payload : Members) : Except VerifyError VerifiedClaims :=
  match goidc v.issuer v.audience false now payload with
  | none => .error .goidc
  | some tok =>
      match decodeIDTokenBody payload with
      | none => .error .claims
      | some raw =>
          if hasLogoutEvent raw.events then
            .error (.text (ascii "logout_token presented as ID token"))
          else
            .ok {
              subject := tok.subject
              email := raw.email
              emailVerified := parseLooseBool raw.emailVerified
              name := raw.name
              groups := raw.groups.value
              nonce := raw.nonce
              issuer := tok.issuer
              authTime := if raw.authTime > 0 then fromUnix raw.authTime else 0
              sessionID := raw.sid }

-- ==== logout tokens

/-- The claims that `VerifyLogoutToken` returns: those that the handler
reads, and the expiry, zero if there is none. -/
structure VerifiedLogout extends LogoutClaims where
  expiresAt : Int
deriving DecidableEq

/-- A `map[string]any`. -/
abbrev Event := Lib.Table GoString Json

/-- The claims that `VerifyLogoutToken` decodes itself. -/
structure LogoutBody where
  sid : GoString
  nonce : Option Json
  jti : GoString
  iat : Option Int
  exp : Option Json
  nbf : Option Json
  events : Option (Lib.Table GoString (Option Event))

def decodeLogoutBody (parseFloat : ParseFloat) (payload : Members) :
    Option LogoutBody := do
  let sid ← decodeField (ascii "sid") decodeString [] payload
  let nonce ← decodeField (ascii "nonce") decodeRaw none payload
  let jti ← decodeField (ascii "jti") decodeString [] payload
  let iat ← decodeField (ascii "iat") decodeInt64Ptr none payload
  let exp ← decodeField (ascii "exp") decodeRaw none payload
  let nbf ← decodeField (ascii "nbf") decodeRaw none payload
  let events ← decodeField (ascii "events")
    (decodeMap (decodeMap (decodeAny parseFloat) .null) none) none payload
  return { sid, nonce, jti, iat, exp, nbf, events }

/-- `logoutNumericDate`; `none` is an error. -/
def logoutNumericDate (raw : Json) : Option Int :=
  match decodeInt64Ptr none raw with
  | some (some seconds) => some (fromUnix seconds)
  | _ => none

/-- The check of `exp`, with the expiry that is returned. -/
def checkExp (now : Int) : Option Json → Option Int
  | none => some 0
  | some raw =>
      match logoutNumericDate raw with
      | some expiresAt =>
          if expiresAt > now - logoutTokenSkew then some expiresAt else none
      | none => none

/-- The check of `nbf`. -/
def checkNbf (now : Int) : Option Json → Bool
  | none => true
  | some raw =>
      match logoutNumericDate raw with
      | some notBefore => !decide (notBefore > now + logoutTokenSkew)
      | none => false

/-- Whether the event is there and an empty object. -/
def isEmptyObject : Option Event → Bool
  | none => false
  | some event => event.size == 0

/-- An error return, unless the condition holds. -/
def require (ok : Bool) (message : GoString) : Except VerifyError Unit :=
  if ok then .ok () else .error (.text message)

/-- An error return, unless there is a value. -/
def requireSome {α : Type} (x : Option α) (message : GoString) :
    Except VerifyError α :=
  match x with
  | some a => .ok a
  | none => .error (.text message)

/-- The checks of `VerifyLogoutToken` on what was decoded. -/
def checkLogout (now : Int) (tok : IDToken) (body : LogoutBody) :
    Except VerifyError VerifiedLogout := do
  require body.nonce.isNone
    (ascii "logout_token has nonce claim (forbidden by spec "
      ++ [0xc2, 0xa7] ++ ascii "2.6)")
  let iat ← requireSome body.iat (ascii "logout_token missing iat")
  require (iatAccepted (fromUnix iat) now)
    (ascii "logout_token iat is in the future or too old")
  let expiresAt ← requireSome (checkExp now body.exp)
    (ascii "logout_token exp is invalid or expired")
  require (checkNbf now body.nbf)
    (ascii "logout_token nbf is invalid or in the future")
  let event ← requireSome
    (body.events.bind fun events => events.get backchannelLogoutEvent)
    (ascii "logout_token missing backchannel-logout event")
  require (isEmptyObject event) (ascii
    "logout_token backchannel-logout event must be an empty object")
  require (!(tok.subject.isEmpty && body.sid.isEmpty))
    (ascii "logout_token missing both sub and sid claims")
  require (!body.jti.isEmpty) (ascii "logout_token missing jti")
  return {
    issuer := tok.issuer
    subject := tok.subject
    sessionID := body.sid
    jti := body.jti
    issuedAt := fromUnix iat
    expiresAt := expiresAt }

def HTTPVerifier.verifyLogoutToken (v : HTTPVerifier) (goidc : GoOidc)
    (parseFloat : ParseFloat) (now : Int) (payload : Members) :
    Except VerifyError VerifiedLogout :=
  match goidc v.issuer v.audience true now payload with
  | none => .error .goidc
  | some tok =>
      match decodeLogoutBody parseFloat payload with
      | none => .error .claims
      | some body => checkLogout now tok body

end Tokyo3Base.Oidc
