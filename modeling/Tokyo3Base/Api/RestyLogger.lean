/-
`api/resty_logger.go`: what `restyLogger` writes.

Only the arguments of a log call are changed; how they are formatted is
left to package `fmt`, which is a parameter here.
-/
import Tokyo3Base.Api.RequestLogger

namespace Tokyo3Base.Api

open Go NetURL

-- ==== errors

inductive Err where
  | plain (msg : GoString)
  /-- a `*url.Error` -/
  | urlError (op url : GoString) (err : Err)
  /-- a wrapper that adds to the message of what it wraps -/
  | wrap (front : GoString) (err : Err) (back : GoString)
deriving DecidableEq

def Err.message (isPrint : GoString → Bool) : Err → GoString
  | .plain msg => msg
  | .urlError op url err => errorText isPrint op url (err.message isPrint)
  | .wrap front err back => front ++ err.message isPrint ++ back

/-- `errors.AsType[*url.Error]`: the URL of the first one. -/
def Err.url : Err → Option GoString
  | .plain _ => none
  | .urlError _ url _ => some url
  | .wrap _ err _ => err.url

-- ==== logging

/-- An argument of a log call: an error, or something else. -/
inductive Arg (α : Type) where
  | error (err : Err)
  | text (s : GoString)
  | other (a : α)
deriving DecidableEq

inductive Level where
  | error
  | warn
  | debug
deriving DecidableEq

/-- What `Errorf`, `Warnf` and `Debugf` put before the format. -/
def Level.label : Level → GoString
  | .error => ascii "ERROR RESTY "
  | .warn => ascii "WARN RESTY "
  | .debug => ascii "DEBUG RESTY "

section Logger

variable {α : Type} (isPrint : GoString → Bool)
  (redact : GoString → GoString)

def redactArg : Arg α → Arg α
  | .error err =>
      match err.url with
      | none => .error err
      | some url => .text (replaceAll (err.message isPrint) url (redact url))
  | arg => arg

/-- `output`, with what `Print` and `Printf` write. -/
def output (print : GoString → GoString)
    (printf : GoString → List (Arg α) → GoString)
    (format : GoString) (v : List (Arg α)) : GoString :=
  if v = [] then print format
  else printf format (v.map (redactArg isPrint redact))

end Logger

end Tokyo3Base.Api
