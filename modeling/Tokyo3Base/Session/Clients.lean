/-
Runs of the session manager: which cookies exist, who presents them,
and which requests get through.

# Two clients

`Jar` is the careless or hostile client: every cookie ever set is kept,
and any of them is presented in any order, each request at arbitrary
clock readings. The login time travels with a session as a ghost
(`Held.login`), and the log records every request that passed on a
session, with the clock readings `Gate` made for it.

`Browser` is the well-behaved one: it holds one cookie, the last it was
sent, and sends it with every request. Within one response the writes
are applied in order, so the last one wins: `Gate` writes before the
handler runs, and the handler's `UpdateSession` calls follow.
-/
import Tokyo3Base.Session.Manager

namespace Tokyo3Base.Session

open Go

/-- `mutate` leaves both expiry fields of this session alone. -/
def keepsExpiry (mutate : Session → Option Session) (sess : Session) :
    Bool :=
  match mutate sess with
  | none => true
  | some sess' =>
      sess'.expiry == sess.expiry
        && sess'.absoluteExpiry == sess.absoluteExpiry

-- ==== the jar

/-- A session with the clock reading of its login. -/
structure Held where
  session : Session
  login : Int
deriving DecidableEq

/-- A request that `Gate` let through on a session. -/
structure Passed where
  login : Int
  readAt : Int
  extendAt : Int
deriving DecidableEq

/-- What `NewSession` returned, every cookie ever set, and the requests
let through, newest first. -/
structure Jar where
  fresh : List Held
  cookies : List Held
  passed : List Passed
deriving DecidableEq

def Jar.empty : Jar := ⟨[], [], []⟩

/-- Keep what a response sets. -/
def Jar.keep (jar : Jar) (login : Int) (writes : List CookieWrite) : Jar :=
  { jar with
    cookies := writes.filterMap (fun
        | .set sess => some ⟨sess, login⟩
        | .clear => none)
      ++ jar.cookies }

inductive JarAction where
  | newSession (now : Int) (secret : GoString)
  | issue (i : Nat) (id : Identity) (canSeal : Seal)
  | gate (i : Nat) (r : Request) (env : GateEnv)
  | update (i : Nat) (now : Int) (mutate : Session → Option Session)
      (canSeal : Seal)

/-- One step: a login begins or is completed, or a request presents the
`i`-th cookie to `Gate` or to `UpdateSession`. -/
def jarStep (m : Manager) : JarAction → Jar → Option Jar
  | .newSession now secret, jar =>
      some { jar with
        fresh := ⟨m.newSession now secret, now⟩ :: jar.fresh }
  | .issue i id canSeal, jar =>
      match jar.fresh[i]? with
      | none => none
      | some held =>
          some (jar.keep held.login
            (issueSession canSeal (held.session.populate id)).toList)
  | .gate i r env, jar =>
      match jar.cookies[i]? with
      | none => none
      | some held =>
          match m.gate { r with cookie := some held.session } env with
          | (.next (some _), writes) =>
              some { jar.keep held.login writes with
                passed := ⟨held.login, env.readAt, env.extendAt⟩
                  :: jar.passed }
          | (_, writes) => some (jar.keep held.login writes)
  | .update i now mutate canSeal, jar =>
      match jar.cookies[i]? with
      | none => none
      | some held =>
          if keepsExpiry mutate held.session then
            some (jar.keep held.login
              (updateSession canSeal (some held.session) now
                mutate).toList)
          else none

-- ==== the browser

/-- One `UpdateSession` call of a handler. -/
structure Update where
  now : Int
  mutate : Session → Option Session
  canSeal : Seal

/-- One request of the browser: what it asks, what surrounds `Gate`, and
the updates of the handler behind it. -/
structure Visit where
  r : Request
  env : GateEnv
  updates : List Update

/-- The cookie the browser holds, the `AbsoluteExpiry` of its login, the
latest time at which its next request still counts as active, and the
times of the requests that were not let through. -/
structure Browser where
  cookie : Option Session
  absolute : Int
  due : Int
  refused : List Int

/-- A browser that was just sent its login cookie. -/
def Browser.loggedIn (m : Manager) (now : Int) (secret : GoString)
    (id : Identity) : Browser where
  cookie := some ((m.newSession now secret).populate id)
  absolute := now + m.cfg.sessionTTL.val
  due := now + m.cfg.idleTimeout.val
  refused := []

/-- The cookie after the writes of a response: the last one wins. -/
def applyWrites (cookie : Option Session) (writes : List CookieWrite) :
    Option Session :=
  writes.foldl (fun _ write =>
    match write with
    | .set sess => some sess
    | .clear => none) cookie

/-- The cookies that the handler's updates write; each reads the
request's own cookie. -/
def updateWrites (cookie : Option Session) (updates : List Update) :
    List CookieWrite :=
  updates.filterMap fun u => updateSession u.canSeal cookie u.now u.mutate

/-- All writes of a response: `Gate`'s, then those of the handler if it
runs. -/
def Manager.respond (m : Manager) (r : Request) (env : GateEnv)
    (updates : List Update) : Outcome × List CookieWrite :=
  match m.gate r env with
  | (.next sess, writes) =>
      (.next sess, writes ++ updateWrites r.cookie updates)
  | answer => answer

/-- `IsRevoked` is not configured, or says no. -/
def notRevoked : Option (Except Unit Bool) → Bool
  | none => true
  | some (.ok false) => true
  | _ => false

/-- The session has the required group, if there is one. -/
def Manager.inGroup (m : Manager) (sess : Session) : Bool :=
  m.cfg.requiredGroup == [] || sess.groups.contains m.cfg.requiredGroup

/-- The request is in good standing: not cross-origin where that is
checked, not revoked, and with the required group. -/
def Manager.goodStanding (m : Manager) (b : Browser) (v : Visit) : Bool :=
  !(m.cfg.trustedOrigins.isSome && v.r.crossOrigin)
    && notRevoked v.env.isRevoked
    && (b.cookie.map m.inGroup).getD true

/-- An active user: the clock does not run backwards within the request,
the updates leave the expiry alone, and a request that is not exempt
comes in time and in good standing. -/
def Browser.active (m : Manager) (b : Browser) (v : Visit) : Bool :=
  decide (v.env.readAt ≤ v.env.extendAt)
    && v.updates.all (fun u =>
        (b.cookie.map (keepsExpiry u.mutate)).getD true)
    && (m.exempt.contains v.r.path
      || decide (v.env.readAt ≤ b.due) && m.goodStanding b v)

/-- One visit of an active user. -/
def browse (m : Manager) (v : Visit) (b : Browser) : Option Browser :=
  if b.active m v then
    let answer := m.respond { v.r with cookie := b.cookie } v.env v.updates
    let cookie := applyWrites b.cookie answer.2
    if m.exempt.contains v.r.path then some { b with cookie := cookie }
    else
      some { b with
        cookie := cookie
        due := v.env.readAt + m.cfg.idleTimeout.val.tdiv 2
        refused :=
          match answer.1 with
          | .next _ => b.refused
          | _ => v.env.readAt :: b.refused }
  else none

end Tokyo3Base.Session
