/-
`nats/nats.go`, the redaction: `RedactURL`, `redactServer` and
`RedactError`.

# Errors

`RedactError` changes the `*url.Error` that it finds, and what the errors
around it say then depends on how they make their messages. A wrapper of
`fmt.Errorf` made its message when it was created; another one asks the
error it wraps each time. A `Chain` is such an error with a place for the
`*url.Error`, so that its message is a function of what that one says
now. The `redactedError` that is returned has a message of its own, like
any other `fixed` wrapper.
-/
import Tokyo3Base.Go.NetURL

namespace Tokyo3Base.Nats

open Go

-- ==== URLs

def invalidURL : GoString := ascii "[invalid URL]"

def redactServer (parseAddr : NetURL.ParseAddr) (s : GoString) : GoString :=
  let bare := !contains s (ascii "://")
  match NetURL.urlParse parseAddr (if bare then ascii "nats://" ++ s else s) with
  | .error _ => invalidURL
  | .ok u =>
      if u.opaquePart ≠ [] then invalidURL
      else
        let text := { u with user := none }.string
        if bare then dropFront text (ascii "nats://") else text

def redactURL (parseAddr : NetURL.ParseAddr) (raw : GoString) : GoString :=
  join 44 ((split 44 raw).map fun s => redactServer parseAddr (trimSpace s))

-- ==== errors

/-- An error, with a place for the `*url.Error` in it. -/
inductive Chain where
  /-- the `*url.Error` -/
  | urlError
  /-- an error that wraps nothing -/
  | plain (msg : GoString)
  /-- a wrapper with a message of its own -/
  | fixed (msg : GoString) (err : Chain)
  /-- a wrapper that adds to the message of what it wraps -/
  | adding (front : GoString) (err : Chain) (back : GoString)
deriving DecidableEq

/-- `Error()`, by what the `*url.Error` says. -/
def Chain.message (urlError : GoString) : Chain → GoString
  | .urlError => urlError
  | .plain msg => msg
  | .fixed msg _ => msg
  | .adding front err back => front ++ err.message urlError ++ back

/-- `errors.AsType[*url.Error]` finds one. -/
def Chain.holdsURLError : Chain → Bool
  | .urlError => true
  | .plain _ => false
  | .fixed _ err => err.holdsURLError
  | .adding _ err _ => err.holdsURLError

/-- An error and the `*url.Error` that it wraps, if any. -/
structure Failure where
  chain : Chain
  cause : NetURL.ParseError
deriving DecidableEq

section Message

variable (isPrint : GoString → Bool)

/-- The message of the `*url.Error` of `url.Parse`. -/
def causeText (e : NetURL.ParseError) : GoString :=
  NetURL.errorText isPrint (ascii "parse") e.url (e.reason.text isPrint)

/-- `err.Error()`. -/
def Failure.message (err : Failure) : GoString :=
  err.chain.message (causeText isPrint err.cause)

/-- `RedactError`. The URL that it replaces is not empty, since none that
is empty is refused by `url.Parse`. -/
def redactError (parseAddr : NetURL.ParseAddr) (err : Failure) : Failure :=
  if !err.chain.holdsURLError then err
  else
    let raw := err.cause.url
    let url := redactURL parseAddr raw
    let changed : Failure := { err with cause := { err.cause with url := url } }
    let msg := changed.message isPrint
    let redacted := replaceFrom
      [(Strconv.quote isPrint raw, Strconv.quote isPrint url), (raw, url)]
      0 msg
    if redacted = msg then changed
    else { changed with chain := .fixed redacted err.chain }

end Message

end Tokyo3Base.Nats
