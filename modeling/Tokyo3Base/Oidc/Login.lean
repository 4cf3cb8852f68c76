/-
The browser login flow (oidc/login.go): `Begin` and `CallbackHandler`,
and the sealed cookie that carries the pending logins between them.

# The flow cookie

What is sealed is the JSON of a list of flows. A cookie that was sealed
opens to those flows with their strings coerced to valid UTF-8
(`SealedFlows.flows`), because that is what JSON carries; anything else a
client presents opens to nothing, and `Option SealedFlows` is what a
request brings. Sealing fails only by size: the key was checked by
`NewAuthenticator`, and `crypto/rand` does not fail. The size is that of
the text `Marshal` writes, with the 12 byte nonce and the 16 byte tag,
in base64.

# The outside

`CallbackHandler` talks to the token endpoint and the verifier, and to
the session issuer: their answers are `CallbackWorld`. Its outcome is
where it stopped; `completed` is the moment at which the login is handed
over to `CompleteLogin` or, after `NewSession` and `EnrichSession`, to
`IssueSession`.
-/
import Tokyo3Base.Go.Base64
import Tokyo3Base.Go.JSON
import Tokyo3Base.Go.Path
import Tokyo3Base.Go.Strconv
import Tokyo3Base.Go.Time
import Tokyo3Base.Session.Manager

namespace Tokyo3Base.Oidc

open Go

-- ==== the flow

def flowTTL : Int := 10 * minute

def maxPendingFlows : Nat := 3

structure OidcFlow where
  state : GoString
  nonce : GoString
  verifier : GoString
  returnTo : GoString
  extra : GoString
  exp : Int
deriving DecidableEq

/-- The flow as it comes back from its JSON. -/
def OidcFlow.coerced (f : OidcFlow) : OidcFlow where
  state := toValidUTF8 f.state
  nonce := toValidUTF8 f.nonce
  verifier := toValidUTF8 f.verifier
  returnTo := toValidUTF8 f.returnTo
  extra := toValidUTF8 f.extra
  exp := f.exp

/-- The JSON of a flow; an empty `extra` is left out. -/
def OidcFlow.marshal (f : OidcFlow) : GoString :=
  ascii "\x7b\"state\":" ++ quote f.state
    ++ ascii ",\"nonce\":" ++ quote f.nonce
    ++ ascii ",\"verifier\":" ++ quote f.verifier
    ++ ascii ",\"return_to\":" ++ quote f.returnTo
    ++ (if f.extra = [] then []
      else ascii ",\"extra\":" ++ quote f.extra)
    ++ ascii ",\"exp\":" ++ formatInt f.exp ++ ascii "\x7d"

/-- The JSON of `oidcFlowSet`. -/
def marshalFlows (flows : List OidcFlow) : GoString :=
  ascii "\x7b\"flows\":[" ++ join 0x2c (flows.map OidcFlow.marshal)
    ++ ascii "]\x7d"

-- ==== the cookie

/-- The length of the sealed text of some bytes. -/
def sealedLen (text : GoString) : Nat := encodedLen (12 + text.length + 16)

/-- `Set` accepts these flows. -/
def fits (flows : List OidcFlow) : Prop :=
  sealedLen (marshalFlows flows) ≤ Session.maxValueLen

instance (flows : List OidcFlow) : Decidable (fits flows) :=
  inferInstanceAs (Decidable (_ ≤ _))

/-- A sealed flow cookie, by what was sealed. -/
structure SealedFlows where
  payload : List OidcFlow
deriving DecidableEq

/-- What the cookie opens to. -/
def SealedFlows.flows (c : SealedFlows) : List OidcFlow :=
  c.payload.map OidcFlow.coerced

/-- What a response does to the flow cookie, if it writes it. -/
inductive FlowWrite where
  | set (c : SealedFlows)
  | clear
deriving DecidableEq

/-- `Cookie.Set`; `none` is its error. -/
def setFlows (flows : List OidcFlow) : Option FlowWrite :=
  if fits flows then some (.set ⟨flows⟩) else none

/-- `pendingFlows`: the flows of the request's cookie that have not
expired at `now`. -/
def pendingFlows (cookie : Option SealedFlows) (now : Int) :
    List OidcFlow :=
  match cookie with
  | none => []
  | some c => c.flows.filter fun f => decide (f.exp > unix now)

/-- `matchFlow`: the last flow with this state; `none` is its -1. -/
def matchFlow (flows : List OidcFlow) (state : GoString) : Option Nat :=
  flows.zipIdx.foldl
    (fun found p =>
      if p.1.state ≠ [] ∧ state = p.1.state then some p.2 else found)
    none

/-- `consumeFlow`, for an index that is there. -/
def consumeFlow (flows : List OidcFlow) (idx : Nat) : FlowWrite :=
  let rest := flows.eraseIdx idx
  if rest = [] then .clear else (setFlows rest).getD .clear

-- ==== Begin

/-- What the code uses of the `SessionIssuer` and the configuration. -/
structure Authenticator where
  safeReturnTo : GoString → GoString
  requireVerifiedEmail : Bool
  /-- the session issuer implements `CompletionOverride` -/
  override : Bool

/-- The random bytes of one login. -/
structure Entropy where
  state : GoString
  nonce : GoString
  verifier : GoString
  state_length : state.length = 24
  nonce_length : nonce.length = 24
  verifier_length : verifier.length = 32

/-- One call of `Begin`: its randomness, its arguments, and its two clock
readings, the first for the flow's own deadline. -/
structure BeginCall where
  entropy : Entropy
  returnTo : GoString
  extra : GoString
  now : Int
  pendingNow : Int
  /-- the authorize URL could be built, which is tried last -/
  endpoint : Bool

/-- The flow that `Begin` mints. -/
def Authenticator.newFlow (a : Authenticator) (b : BeginCall) : OidcFlow where
  state := rawURLEncode b.entropy.state
  nonce := rawURLEncode b.entropy.nonce
  verifier := rawURLEncode b.entropy.verifier
  returnTo := a.safeReturnTo b.returnTo
  extra := b.extra
  exp := unix (b.now + flowTTL)

/-- The flows `Begin` tries to keep: the newest, at most
`maxPendingFlows`. -/
def newest (flows : List OidcFlow) : List OidcFlow :=
  if flows.length > maxPendingFlows then
    flows.drop (flows.length - maxPendingFlows)
  else flows

/-- `Begin`: what it writes, and whether it returns a URL. -/
def Authenticator.begin (a : Authenticator) (cookie : Option SealedFlows)
    (b : BeginCall) : Option FlowWrite × Bool :=
  let flow := a.newFlow b
  let flows := newest (pendingFlows cookie b.pendingNow ++ [flow])
  match setFlows flows with
  | some w => (some w, b.endpoint)
  | none =>
      if flows.length = 1 then (none, false)
      else
        -- fall back to this login alone
        match setFlows [flow] with
        | some w => (some w, b.endpoint)
        | none => (none, false)

-- ==== CallbackHandler

/-- The query parameters of a callback. -/
structure CallbackQuery where
  state : GoString
  error : GoString
  code : GoString
deriving DecidableEq

/-- The claims of a verified ID token that `CallbackHandler` looks at. -/
structure Claims where
  subject : GoString
  nonce : GoString
  emailVerified : Bool
deriving DecidableEq

/-- What the outside answers during one callback. -/
structure CallbackWorld where
  endpoint : Bool
  /-- the token endpoint: the ID token for a code and a PKCE verifier -/
  exchange : GoString → GoString → Option GoString
  verify : GoString → Option Claims
  newSession : Bool
  enrichSession : Bool

/-- A login handed over: the verifier that was sent to the token
endpoint, the verified claims, and what the flow carried. -/
structure Completion where
  verifier : GoString
  claims : Claims
  returnTo : GoString
  extra : GoString
deriving DecidableEq

/-- Where `CallbackHandler` ends. -/
inductive CallbackOutcome where
  /-- login session expired — start again -/
  | expired
  /-- state mismatch — possible CSRF; start again -/
  | stateMismatch
  /-- IdP returned an error -/
  | idpError
  /-- no authorization code -/
  | noCode
  /-- token exchange failed -/
  | exchangeFailed
  /-- invalid ID token -/
  | invalidToken
  /-- nonce mismatch — possible token replay; start again -/
  | nonceMismatch
  /-- email not verified -/
  | emailNotVerified
  /-- session init failed -/
  | sessionInitFailed
  | completed (c : Completion)
deriving DecidableEq

/-- The callback after its flow was taken out of the cookie. -/
def Authenticator.complete (a : Authenticator) (flow : OidcFlow)
    (q : CallbackQuery) (w : CallbackWorld) : CallbackOutcome :=
  if q.code = [] then .noCode
  else if w.endpoint = false then .exchangeFailed
  else
    match w.exchange q.code flow.verifier with
    | none => .exchangeFailed
    | some idToken =>
        match w.verify idToken with
        | none => .invalidToken
        | some claims =>
            if claims.nonce ≠ flow.nonce then .nonceMismatch
            else if claims.subject = [] then .invalidToken
            else if a.requireVerifiedEmail ∧ claims.emailVerified = false
            then .emailNotVerified
            else if a.override = false
                ∧ (w.newSession = false ∨ w.enrichSession = false)
            then .sessionInitFailed
            else .completed ⟨flow.verifier, claims, flow.returnTo,
              flow.extra⟩

/-- `CallbackHandler`: what it does to the flow cookie and where it
ends. -/
def Authenticator.callback (a : Authenticator)
    (cookie : Option SealedFlows) (now : Int) (q : CallbackQuery)
    (w : CallbackWorld) : Option FlowWrite × CallbackOutcome :=
  let flows := pendingFlows cookie now
  if flows = [] then (some .clear, .expired)
  else
    match matchFlow flows q.state with
    | none => (none, .stateMismatch)
    | some idx =>
        match flows[idx]? with
        | none => (none, .stateMismatch)
        | some flow =>
            (some (consumeFlow flows idx),
              if q.error ≠ [] then .idpError else a.complete flow q w)

end Tokyo3Base.Oidc
