/-
Forms of a session (session/session.go): the CSRF tokens that are put into
them, and the cookies that they come back with.

A client keeps every cookie that was ever set for the session and presents
any of them, as in `Session/Clients.lean`, but the updates may change
everything here, the secret too. Whether one on the way to a cookie did is
carried along (`Carried.rotated`).

What a cookie holds went through JSON, so its strings are valid UTF-8: a
secret that is not valid is coerced when it is sealed (`Session.reread`).
-/
import Tokyo3Base.Csrf.Token
import Tokyo3Base.Go.JSON
import Tokyo3Base.Session.Manager

namespace Tokyo3Base.Session

open Go Csrf

-- ==== tokens

def csrfToken (hmac : Hmac) (cookie : Option Session) (now : Int)
    (scope : GoString) (random : RandomBytes) : Except GoString GoString :=
  match readSession cookie now with
  | none => .error
      (ascii "session: no valid session to bind a CSRF token to")
  | some sess =>
      if sess.csrfSecret = [] then .error
        (ascii "session: no valid session to bind a CSRF token to")
      else token hmac sess.csrfSecret scope random

def validateCSRF (hmac : Hmac) (cookie : Option Session) (now : Int)
    (text scope : GoString) : Bool :=
  match readSession cookie now with
  | none => false
  | some sess => validate hmac sess.csrfSecret text scope

-- ==== cookies

/-- A session as it is read from the cookie that it was sealed in. -/
def reread (sess : Session) : Session :=
  { sess with
    subject := toValidUTF8 sess.subject
    email := toValidUTF8 sess.email
    name := toValidUTF8 sess.name
    groups := sess.groups.map toValidUTF8
    sid := toValidUTF8 sess.sid
    csrfSecret := toValidUTF8 sess.csrfSecret }

/-- `mutate` leaves the secret of this session alone. -/
def keepsSecret (mutate : Session → Option Session) (sess : Session) :
    Bool :=
  match mutate sess with
  | none => true
  | some sess' => sess'.csrfSecret == sess.csrfSecret

/-- A cookie, and whether an update on the way to it changed the secret. -/
structure Carried where
  session : Session
  rotated : Bool
deriving DecidableEq

/-- A token in a form, with the cookie of the request that asked for it. -/
structure Form where
  text : GoString
  scope : GoString
  carrier : Carried
deriving DecidableEq

/-- Every cookie that was set, and every form. -/
structure Forms where
  cookies : List Carried
  forms : List Form
deriving DecidableEq

/-- Before any request: the cookie of a session. -/
def Forms.init (root : Session) : Forms := ⟨[⟨root.reread, false⟩], []⟩

/-- Keep what a response sets. -/
def Forms.keep (s : Forms) (rotated : Bool) (writes : List CookieWrite) :
    Forms :=
  { s with
    cookies := s.cookies ++ writes.filterMap (fun
        | .set sess => some ⟨sess.reread, rotated⟩
        | .clear => none) }

inductive FormsAction where
  | gate (i : Nat) (r : Request) (env : GateEnv)
  | update (i : Nat) (now : Int) (mutate : Session → Option Session)
      (canSeal : Seal)
  | form (i : Nat) (now : Int) (scope : GoString) (random : RandomBytes)

/-- One step: a request presents the `i`-th cookie to `Gate`, to
`UpdateSession` or to `CSRFToken`. -/
def formsStep (hmac : Hmac) (m : Manager) :
    FormsAction → Forms → Option Forms
  | .gate i r env, s =>
      s.cookies[i]?.map fun c =>
        s.keep c.rotated (m.gate { r with cookie := some c.session } env).2
  | .update i now mutate canSeal, s =>
      s.cookies[i]?.map fun c =>
        s.keep (c.rotated || !keepsSecret mutate c.session)
          (updateSession canSeal (some c.session) now mutate).toList
  | .form i now scope random, s =>
      s.cookies[i]?.map fun c =>
        match csrfToken hmac (some c.session) now scope random with
        | .error _ => s
        | .ok text => { s with forms := s.forms ++ [⟨text, scope, c⟩] }

end Tokyo3Base.Session
