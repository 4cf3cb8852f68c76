/-
The sealed-cookie session manager (session/session.go, and the parts of
sealedcookie/sealedcookie.go it stands on): construction, login, the
access gate with sliding renewal, and in-session updates.

# What a cookie is here

A sealed cookie opens to the session that was sealed and to nothing
else (AES-256-GCM under the manager's key, bound to the cookie's name;
JSON keeps every field, instants to the nanosecond). A request's cookie
is therefore what `Cookie.Read` makes of it: a session, or `none` for
every kind of failure. Whether a session can be sealed is a matter of
size: `Seal` is a parameter that gives the length of the sealed text,
or `none` when marshalling or the random source fails.

# Clock readings

`Now` is called once in `readSession`, once in `maybeExtendIdle`, once
in `UpdateSession` and once in `NewSession`. Nothing says that two of
these readings agree, even within one request, so each is an argument
of its own. The readings that only date a cookie's `Expires` attribute
are left out with it: a sealed session dies by its own `Expiry`.
-/
import Tokyo3Base.Go.Time
import Tokyo3Base.Go.URL

namespace Tokyo3Base

open Go

structure Session where
  subject : GoString
  email : GoString
  name : GoString
  groups : List GoString
  sid : GoString
  expiry : Int
  absoluteExpiry : Int
  csrfSecret : GoString
  extra : GoString
deriving DecidableEq

namespace Session

/-- The identity fields a login fills in. -/
structure Identity where
  subject : GoString
  email : GoString
  name : GoString
  groups : List GoString
  sid : GoString
  extra : GoString
deriving DecidableEq

-- ==== the sealed cookie

def maxValueLen : Nat := 3800

/-- The length of the sealed text of a session, or `none` when it cannot
be sealed. -/
abbrev Seal := Session → Option Nat

/-- What happens to the session cookie in a response. -/
inductive CookieWrite where
  | set (sess : Session)
  | clear
deriving DecidableEq

/-- `Cookie.Set`: the write, or nothing when it errs. -/
def setCookie (canSeal : Seal) (sess : Session) : Option CookieWrite :=
  match canSeal sess with
  | none => none
  | some len => if len > maxValueLen then none else some (.set sess)

-- ==== configuration

def sessionKeySize : Nat := 32

def defaultSessionTTL : Duration := ⟨8 * hour, by decide⟩

def defaultLoginPath : GoString := ascii "/auth/login"

def defaultLogoutPath : GoString := ascii "/auth/logout"

/-- The fields of `Config` that decide something; the clock, the logger,
the proxies and the revocation callback enter where they are called. -/
structure Config where
  requiredGroup : GoString
  sessionKey : GoString
  sessionTTL : Duration
  cookiePrefix : GoString
  loginPath : GoString
  logoutPath : GoString
  exemptPaths : List GoString
  basePath : GoString
  idleTimeout : Duration
  trustedOrigins : Option (List GoString)

/-- `cookiePath`: the scope of the session cookie. -/
def Config.cookiePath (cfg : Config) : GoString :=
  if cfg.basePath = [] then [slash] else cfg.basePath

/-- A byte `net/http` accepts in a cookie's `Path`. -/
def validCookiePathByte (b : UInt8) : Bool :=
  0x20 ≤ b && b < 0x7f && b != 0x3b

/-- A byte of an HTTP token, as a cookie's name must consist of. -/
def isTokenByte (b : UInt8) : Bool :=
  (0x61 ≤ b && b ≤ 0x7a) || (0x41 ≤ b && b ≤ 0x5a)
    || (0x30 ≤ b && b ≤ 0x39)
    || (ascii "!#$%&'*+-.^_|~").contains b || b == 0x60

/-- The errors of `New`, in the order of its checks. -/
inductive ConfigError where
  /-- session: session key is required -/
  | sessionKeyRequired
  /-- session: session key must be 32 bytes, got … -/
  | sessionKeySize (got : Nat)
  /-- session: cookie prefix is required -/
  | cookiePrefixRequired
  /-- session: BasePath must start with '/' -/
  | basePath
  /-- session: cookie: sealedcookie: http: invalid Cookie.Name -/
  | cookieName
  /-- session: cookie: sealedcookie: http: invalid byte … in Cookie.Path -/
  | cookiePathByte
  /-- session: trusted origin …: … -/
  | trustedOrigin (origin : GoString)
deriving DecidableEq

/-- A configuration that `New` accepted, with its defaults filled in. -/
structure Manager where
  cfg : Config
  sessionTTL_pos : 0 < cfg.sessionTTL.val
  basePath_rooted : cfg.basePath = [] ∨ cfg.basePath.head? = some slash
  cookiePath_valid : cfg.cookiePath.all validCookiePathByte = true

/-- The defaults and the `BasePath` normalisation of `New`. -/
def Config.normalise (cfg : Config) : Config :=
  { cfg with
    sessionTTL :=
      if cfg.sessionTTL.val ≤ 0 then defaultSessionTTL else cfg.sessionTTL
    loginPath :=
      if cfg.loginPath = [] then defaultLoginPath else cfg.loginPath
    logoutPath :=
      if cfg.logoutPath = [] then defaultLogoutPath else cfg.logoutPath
    basePath := trimByte cfg.basePath slash }

theorem Config.normalise_sessionTTL_pos (cfg : Config) :
    0 < cfg.normalise.sessionTTL.val := by
  unfold Config.normalise
  dsimp only
  split
  · decide
  · omega

/-- `New`. `originOk` is `CrossOriginProtection.AddTrustedOrigin`'s
verdict. -/
def new (originOk : GoString → Bool) (cfg : Config) :
    Except ConfigError Manager :=
  if cfg.sessionKey.length = 0 then .error .sessionKeyRequired
  else if cfg.sessionKey.length ≠ sessionKeySize then
    .error (.sessionKeySize cfg.sessionKey.length)
  else if cfg.cookiePrefix = [] then .error .cookiePrefixRequired
  else if hroot : cfg.normalise.basePath = []
      ∨ cfg.normalise.basePath.head? = some slash then
    if !(cfg.cookiePrefix ++ ascii "_session").all isTokenByte then
      .error .cookieName
    else if hpath : cfg.normalise.cookiePath.all validCookiePathByte then
      match (cfg.trustedOrigins.getD []).find? fun o => !originOk o with
      | some o => .error (.trustedOrigin o)
      | none =>
          .ok
            { cfg := cfg.normalise
              sessionTTL_pos := cfg.normalise_sessionTTL_pos
              basePath_rooted := hroot
              cookiePath_valid := hpath }
    else .error .cookiePathByte
  else .error .basePath

/-- The exempt set that `New` builds. -/
def Manager.exempt (m : Manager) : List GoString :=
  m.cfg.loginPath :: m.cfg.logoutPath :: m.cfg.exemptPaths

/-- A manager at the root of its host, with these lifetimes, open to
every session. -/
def Manager.ofLifetimes (sessionTTL idleTimeout : Duration)
    (h : 0 < sessionTTL.val) : Manager where
  cfg :=
    { requiredGroup := [], sessionKey := List.replicate 32 0
      sessionTTL := sessionTTL, cookiePrefix := ascii "app"
      loginPath := defaultLoginPath, logoutPath := defaultLogoutPath
      exemptPaths := [], basePath := [], idleTimeout := idleTimeout
      trustedOrigins := none }
  sessionTTL_pos := h
  basePath_rooted := .inl rfl
  cookiePath_valid := rfl

-- ==== login

/-- `NewSession` at clock reading `now`, with a fresh CSRF secret. -/
def Manager.newSession (m : Manager) (now : Int) (secret : GoString) :
    Session :=
  let absExpiry := now + m.cfg.sessionTTL.val
  { subject := [], email := [], name := [], groups := [], sid := []
    expiry :=
      if m.cfg.idleTimeout.val > 0
          ∧ m.cfg.idleTimeout.val < m.cfg.sessionTTL.val then
        now + m.cfg.idleTimeout.val
      else absExpiry
    absoluteExpiry := absExpiry
    csrfSecret := secret
    extra := [] }

/-- The login flow fills in whom it authenticated. -/
def populate (sess : Session) (id : Identity) : Session :=
  { sess with
    subject := id.subject, email := id.email, name := id.name
    groups := id.groups, sid := id.sid, extra := id.extra }

def issueSession (canSeal : Seal) (sess : Session) : Option CookieWrite :=
  setCookie canSeal sess

-- ==== the request

/-- `readSession`: the cookie's session, unless it is dead by `now`. -/
def readSession (cookie : Option Session) (now : Int) : Option Session :=
  match cookie with
  | none => none
  | some sess => if now > sess.expiry then none else some sess

/-- `maybeExtendIdle` at its own reading of the clock: the session for
the handler, and the cookie it writes. -/
def Manager.maybeExtendIdle (m : Manager) (canSeal : Seal)
    (sess : Session) (now : Int) : Session × Option CookieWrite :=
  if m.cfg.idleTimeout.val ≤ 0 then (sess, none)
  else if sub sess.expiry now > m.cfg.idleTimeout.val.tdiv 2 then
    (sess, none)
  else
    let expiry := now + m.cfg.idleTimeout.val
    let extended := { sess with
      expiry :=
        if !isZero sess.absoluteExpiry && decide (expiry > sess.absoluteExpiry)
        then sess.absoluteExpiry else expiry }
    if ¬ extended.expiry > sess.expiry then (sess, none)
    else
      match setCookie canSeal extended with
      | none => (sess, none)
      | some write => (extended, some write)

/-- `UpdateSession`: the cookie it writes, or nothing when it errs.
`mutate` may refuse. -/
def updateSession (canSeal : Seal) (cookie : Option Session) (now : Int)
    (mutate : Session → Option Session) : Option CookieWrite :=
  match readSession cookie now with
  | none => none
  | some sess =>
      match mutate sess with
      | none => none
      | some sess' => setCookie canSeal sess'

-- ==== the gate

structure Request where
  method : GoString
  path : GoString
  rawQuery : GoString
  cookie : Option Session
  /-- The verdict of `http.CrossOriginProtection` on this request. -/
  crossOrigin : Bool

/-- What `Gate` asks of its surroundings while it serves a request. -/
structure GateEnv where
  readAt : Int
  extendAt : Int
  /-- `IsRevoked`: not configured, or its answer; `.error` is an error. -/
  isRevoked : Option (Except Unit Bool)
  canSeal : Seal

/-- How `Gate` answers. `next` carries the session it puts into the
request's context. -/
inductive Outcome where
  | next (sess : Option Session)
  | redirect (url : GoString)
  | error (text : GoString) (code : Nat)
deriving DecidableEq

def methodGet : GoString := ascii "GET"

/-- The answer to a request without a session. -/
def Manager.login (m : Manager) (r : Request) : Outcome :=
  if r.method = methodGet then
    let returnTo := m.cfg.basePath ++ r.path
    let returnTo :=
      if r.rawQuery ≠ [] then returnTo ++ question :: r.rawQuery
      else returnTo
    .redirect (m.cfg.basePath ++ m.cfg.loginPath ++ ascii "?return_to="
      ++ queryEscape returnTo)
  else .error (ascii "authentication required") 401

/-- The checks on a live session, and the handler behind them. -/
def Manager.admit (m : Manager) (r : Request) (env : GateEnv)
    (sess : Session) : Outcome × List CookieWrite :=
  match env.isRevoked with
  | some (.error ()) => (.error (ascii "session check unavailable") 503, [])
  | some (.ok true) =>
      if r.method = methodGet then
        (.redirect (m.cfg.basePath ++ m.cfg.loginPath), [.clear])
      else (.error (ascii "authentication required") 401, [.clear])
  | _ =>
      if m.cfg.requiredGroup ≠ []
          ∧ !sess.groups.contains m.cfg.requiredGroup then
        (.error (ascii "forbidden: requires membership in "
          ++ m.cfg.requiredGroup) 403, [])
      else
        let (sess, write) :=
          m.maybeExtendIdle env.canSeal sess env.extendAt
        (.next (some sess), write.toList)

/-- `Gate`: how it answers, and what it writes before `next` runs. -/
def Manager.gate (m : Manager) (r : Request) (env : GateEnv) :
    Outcome × List CookieWrite :=
  if m.cfg.trustedOrigins.isSome && r.crossOrigin then
    (.error (ascii "cross-origin request rejected") 403, [])
  else if m.exempt.contains r.path then (.next none, [])
  else
    match readSession r.cookie env.readAt with
    | none => (m.login r, [])
    | some sess => m.admit r env sess

end Session

end Tokyo3Base
