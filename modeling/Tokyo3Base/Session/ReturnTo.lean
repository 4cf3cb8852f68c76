/-
Where a login returns to: `SafeReturnTo` (session/session.go), the
`Begin` that stores its result and the `CallbackHandler` that redirects
to it (oidc/login.go).

# Three readers of one string

The value of `return_to` is read three times. `SafeReturnTo` parses it
and checks the decoded path. `http.Redirect` cleans the undecoded text
before the first `?`, with the fragment still in it. The browser takes
what comes out, cuts it at `?` or `#`, resolves it, and reads `/\` at
its start like `//`. `InMount` says what the last reader must find.
-/
import Tokyo3Base.Go.JSON
import Tokyo3Base.Go.NetURL
import Tokyo3Base.Session.Manager

namespace Tokyo3Base.Session

open Go

-- ==== the code

/-- The path of a parsed `return_to` is acceptable: no backslash, and
under the mount. -/
def Manager.pathAllowed (m : Manager) (path : GoString) : Bool :=
  let basePath := clean m.cfg.basePath
  let returnPath := clean path
  !path.contains backslash
    && !(basePath != [dot] && basePath != [slash]
      && returnPath != basePath && !hasPrefix returnPath (basePath ++ [slash]))

/-- `SafeReturnTo`. What passes the two prefix checks has no scheme and
no host. -/
def Manager.safeReturnTo (m : Manager) (p : GoString) : GoString :=
  let fallback := m.cfg.basePath ++ [slash]
  if !hasPrefix p [slash] || hasPrefix p [slash, slash] then fallback
  else
    match parseLocal p with
    | none => fallback
    | some u => if m.pathAllowed u.path then p else fallback

/-- The `Location` with which a login ends: `Begin` stores the sanitised
`return_to` in the flow, which is sealed as JSON and so comes back as
valid UTF-8, and `CallbackHandler` redirects to it. -/
def Manager.callbackLocation (m : Manager) (returnTo : GoString) :
    GoString :=
  redirectLocation (toValidUTF8 (m.safeReturnTo returnTo))

-- ==== the purpose

/-- The path of a `Location`: up to the query or the fragment. -/
def locationPath (loc : GoString) : GoString :=
  loc.takeWhile fun c => c != question && c != hash

/-- The query of a `Location`: between the first `?` and the fragment. -/
def locationQuery (loc : GoString) : GoString :=
  NetURL.after question (before hash loc)

/-- Where the browser is sent in the end that a request without a session
is redirected for: it asks for the `Location` of `Gate`, `Begin` reads
`return_to` from the query, and the login ends. -/
def Manager.roundTrip (m : Manager) (r : Request) (env : GateEnv) :
    Option GoString :=
  match (m.gate r env).1 with
  | .redirect url =>
      some (m.callbackLocation (NetURL.queryGet (ascii "return_to")
        (locationQuery (redirectLocation url))))
  | _ => none

/-- A resolved path is the mount's root or lies below it. -/
def Under (base p : GoString) : Prop :=
  p = base ∨ hasPrefix p (base ++ [slash]) = true

instance (base p : GoString) : Decidable (Under base p) :=
  inferInstanceAs (Decidable (_ ∨ _))

/-- A `Location` that a browser resolves on the same origin and inside
the mount: one slash, then neither a slash nor a backslash, and a path
that, decoded and resolved, is under the mount. -/
def InMount (base loc : GoString) : Prop :=
  loc.head? = some slash
    ∧ loc.tail.head? ≠ some slash ∧ loc.tail.head? ≠ some backslash
    ∧ Under base (clean (percentDecode (locationPath loc)))

instance (base loc : GoString) : Decidable (InMount base loc) :=
  inferInstanceAs (Decidable (_ ∧ _ ∧ _ ∧ _))

end Tokyo3Base.Session
