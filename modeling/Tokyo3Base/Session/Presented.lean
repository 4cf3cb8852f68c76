/-
`Gate` on the cookies that a request presents, byte for byte.

`Session/Manager.lean` takes the session out of the request's cookie as
given. Here it is read: the value is decoded, opened and unmarshalled
(`SealedCookie.read`), under the additional data of the session cookie's
name. Under the manager's key there are also other values: the cookies
of `SiblingCookie`, each with a name of its own, and what the package's
`Seal` returned, which is bound to no name.
-/
import Tokyo3Base.SealedCookie.Cookie
import Tokyo3Base.Session.Manager

namespace Tokyo3Base.Session

open Go SealedCookie

-- ==== what was sealed

/-- The name of the session cookie. -/
def Manager.cookieName (m : Manager) : GoString :=
  m.cfg.cookiePrefix ++ ascii "_session"

/-- The name of `SiblingCookie(suffix)`. -/
def Manager.siblingName (m : Manager) (suffix : GoString) : GoString :=
  m.cfg.cookiePrefix ++ ascii "_" ++ suffix

/-- What a value under the manager's key was sealed as: the session
cookie, a sibling cookie with some JSON text, or by the package's
`Seal`. -/
inductive Purpose where
  | session (sess : Session)
  | sibling (suffix json : GoString) (other : suffix ≠ ascii "session")
  | plain (json : GoString)

/-- The additional data. -/
def Purpose.aad (m : Manager) : Purpose → GoString
  | .session _ => SealedCookie.aad m.cookieName
  | .sibling suffix _ _ => SealedCookie.aad (m.siblingName suffix)
  | .plain _ => []

def Purpose.plaintext (codec : Codec Session) : Purpose → GoString
  | .session sess => codec.marshal sess
  | .sibling _ json _ => json
  | .plain json => json

/-- A value that was sealed. -/
structure Made where
  purpose : Purpose
  ciphertext : GoString
  nonce : nonceSize ≤ ciphertext.length

/-- As the call of `SealAAD` that it was. -/
def Made.sealed (m : Manager) (codec : Codec Session) (e : Made) :
    Sealed where
  plaintext := e.purpose.plaintext codec
  aad := e.purpose.aad m
  ciphertext := e.ciphertext
  nonce := e.nonce

/-- Everything sealed so far under the manager's key. -/
structure Issued (m : Manager) (codec : Codec Session) where
  made : List Made
  opens_once : ∀ a ∈ made, ∀ b ∈ made, a.ciphertext = b.ciphertext →
    a.purpose.aad m = b.purpose.aad m →
    a.purpose.plaintext codec = b.purpose.plaintext codec

def Issued.vault {m : Manager} {codec : Codec Session}
    (issued : Issued m codec) : Vault where
  sealed := issued.made.map (Made.sealed m codec)
  opens_once := by
    intro a ha b hb hct haad
    obtain ⟨a', ha', rfl⟩ := List.mem_map.mp ha
    obtain ⟨b', hb', rfl⟩ := List.mem_map.mp hb
    exact issued.opens_once a' ha' b' hb' hct haad

-- ==== the request

/-- A request with its cookies, as names and values. -/
structure Presented where
  method : GoString
  path : GoString
  rawQuery : GoString
  cookies : List (GoString × GoString)
  crossOrigin : Bool

/-- What `Gate` asks of its surroundings; `IsRevoked` is asked about a
session. -/
structure Surroundings where
  readAt : Int
  extendAt : Int
  isRevoked : Option (Session → Except Unit Bool)
  canSeal : Seal

/-- The answer to the question that `Gate` asks, if it asks it. -/
def Surroundings.answer (env : Surroundings) (cookie : Option Session) :
    Option (Except Unit Bool) :=
  match env.isRevoked, cookie with
  | some f, some sess => some (f sess)
  | _, _ => none

/-- `Gate` on a request as it comes. -/
def Manager.gatePresented (m : Manager) {codec : Codec Session}
    (issued : Issued m codec) (r : Presented) (env : Surroundings) :
    Outcome × List CookieWrite :=
  let cookie := SealedCookie.read issued.vault codec m.cookieName r.cookies
  m.gate ⟨r.method, r.path, r.rawQuery, cookie, r.crossOrigin⟩
    ⟨env.readAt, env.extendAt, env.answer cookie, env.canSeal⟩

end Tokyo3Base.Session
