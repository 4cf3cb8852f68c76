/-
Back-channel logout (oidc/backchannel_logout.go): the replay cache for
logout tokens, and the handler around it as a machine of concurrent
requests.

# The request machine

One request to `ServeHTTP` touches shared state twice: `accept` reserves
the token's `jti`, and the deferred `finish` turns the reservation into
a remembered replay or releases it. Everything between the two is the
revoker's work. A request is therefore three steps here, each at its
own reading of the clock: the verifier accepts the token, `accept`
runs, `finish` runs. Requests that fail earlier (method, form, a token
that does not verify) never reach the cache and have no step.

The verifier is a parameter of the source. What the cache relies on is
its `iat` check, transcribed from `VerifyLogoutToken` as `iatAccepted`;
whatever else a verifier demands only removes runs.
-/
import Tokyo3Base.Go.Bytes
import Tokyo3Base.Go.Time

namespace Tokyo3Base.Oidc

open Go

-- ==== constants

def logoutTokenMaxAge : Int := 5 * minute

/-- Tolerated clock drift between the OP and this relying party. -/
def logoutTokenSkew : Int := 30 * second

/-- Spacing of the full-map eviction passes. -/
def jtiSweepInterval : Int := minute

-- ==== the tokens

/-- The claims of a verified logout token that the handler reads. -/
structure LogoutClaims where
  issuer : GoString
  subject : GoString
  sessionID : GoString
  jti : GoString
  issuedAt : Int
deriving DecidableEq

/-- The `iat` check of `VerifyLogoutToken`: not in the future beyond the
skew, and not older than the maximal age. -/
def iatAccepted (issuedAt now : Int) : Bool :=
  !(decide (issuedAt > now + logoutTokenSkew)
    || decide (sub now issuedAt > logoutTokenMaxAge))

-- ==== the cache

structure LogoutJTIEntry where
  seenAt : Int
  pending : Bool
deriving DecidableEq

structure LogoutJTICache where
  seen : GoString → Option LogoutJTIEntry
  window : Int
  lastSweep : Int

def newLogoutJTICache (window : Int) : LogoutJTICache where
  seen := fun _ => none
  window := window
  lastSweep := 0

/-- The floor `NewBackchannelLogoutHandler` puts under the configured
`ReplayWindow`. -/
def replayWindow (configured : Int) : Int :=
  if configured < logoutTokenMaxAge + logoutTokenSkew then
    logoutTokenMaxAge + logoutTokenSkew
  else configured

/-- The eviction pass of `accept`: at most once per interval, drop the
entries that are neither pending nor within the window. -/
def LogoutJTICache.sweep (c : LogoutJTICache) (now : Int) :
    LogoutJTICache :=
  let cutoff := now - c.window
  if isZero c.lastSweep || decide (sub now c.lastSweep ≥ jtiSweepInterval)
  then
    { c with
      lastSweep := now
      seen := fun k =>
        match c.seen k with
        | some entry =>
            if !entry.pending && decide (entry.seenAt < cutoff) then none
            else some entry
        | none => none }
  else c

/-- Record `jti`; false means replay. -/
def LogoutJTICache.accept (c : LogoutJTICache) (jti : GoString)
    (now : Int) : Bool × LogoutJTICache :=
  let cutoff := now - c.window
  let c := c.sweep now
  let fresh := { c with
    seen := fun k =>
      if k = jti then some { seenAt := now, pending := true }
      else c.seen k }
  match c.seen jti with
  | some entry =>
      if entry.pending || !decide (entry.seenAt < cutoff) then (false, c)
      else (true, fresh)
  | none => (true, fresh)

/-- A successful request is remembered from its completion; a failed one
releases its reservation. -/
def LogoutJTICache.finish (c : LogoutJTICache) (jti : GoString)
    (success : Bool) (now : Int) : LogoutJTICache :=
  { c with
    seen := fun k =>
      if k = jti then
        if success then some { seenAt := now, pending := false } else none
      else c.seen k }

-- ==== one request's work

/-- What the injected collaborators do for one request: a revoker call
returns a count or fails, `OnRevoked` is absent or succeeds or fails,
and any of them may panic (the deferred `finish` still runs). -/
structure Work where
  revokeSession : Option Int
  revokeUser : Option (Int × GoString × Bool)
  onRevoked : Option Bool
  panics : Bool

/-- The part of `ServeHTTP` between `accept` and `finish`: the response
status, and whether the request `completed`. -/
def serveAccepted (claims : LogoutClaims) (work : Work) : Nat × Bool :=
  if work.panics then (500, false)
  else
    let revoked : Bool :=
      if claims.sessionID ≠ [] then work.revokeSession.isSome
      -- an unknown user (`ok = false`) is an idempotent success
      else work.revokeUser.isSome
    if !revoked then (500, false)
    else
      match work.onRevoked with
      | some false => (500, false)
      | _ => (200, true)

-- ==== the machine

/-- Where a request is. -/
inductive Phase where
  | idle
  | verified (claims : LogoutClaims)
  | pending (claims : LogoutClaims)
  | finished (claims : LogoutClaims) (success : Bool)
  | replay (claims : LogoutClaims)

/-- The handler's cache, all requests by number, and the latest reading
of the clock. -/
structure Handler where
  jti : LogoutJTICache
  phase : Nat → Phase
  clock : Int

/-- A handler built with the configured `ReplayWindow`, before any
request, at the clock reading `start`. -/
def newBackchannelLogoutHandler (configured start : Int) : Handler where
  jti := newLogoutJTICache (replayWindow configured)
  phase := fun _ => .idle
  clock := start

inductive Action where
  | verify (id : Nat) (claims : LogoutClaims) (now : Int)
  | accept (id : Nat) (now : Int)
  | finish (id : Nat) (work : Work) (now : Int)

def Handler.setPhase (h : Handler) (id : Nat) (p : Phase) : Handler :=
  { h with phase := fun i => if i = id then p else h.phase i }

/-- One step of one request, under a clock that does not run
backwards. -/
def step : Action → Handler → Option Handler
  | .verify id claims now, h =>
      if h.clock ≤ now ∧ iatAccepted claims.issuedAt now = true then
        match h.phase id with
        | .idle => some { h.setPhase id (.verified claims) with clock := now }
        | _ => none
      else none
  | .accept id now, h =>
      if h.clock ≤ now then
        match h.phase id with
        | .verified claims =>
            let (ok, jti) := h.jti.accept claims.jti now
            some { h.setPhase id
              (if ok then .pending claims else .replay claims) with
              jti := jti, clock := now }
        | _ => none
      else none
  | .finish id work now, h =>
      if h.clock ≤ now then
        match h.phase id with
        | .pending claims =>
            let completed := (serveAccepted claims work).2
            some { h.setPhase id (.finished claims completed) with
              jti := h.jti.finish claims.jti completed now, clock := now }
        | _ => none
      else none

end Tokyo3Base.Oidc
