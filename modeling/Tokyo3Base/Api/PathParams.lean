/-
Path parameters in the URL of a request: what Resty inserts for the
placeholders of a path, from the four maps of the request and the client.

Resty writes the parameters of `PathParams` escaped and those of
`RawPathParams` as they are. Of parameters with one name the request's come
before the client's and the escaped ones before the raw ones, as in
`requestPathParams`. A placeholder without a parameter is kept.
-/
import Tokyo3Base.Api.RequestLogger

namespace Tokyo3Base.Api

open Go NetURL

/-- A path template is a list of literal texts and placeholders. -/
inductive Part where
  | literal (text : GoString)
  | placeholder (name : GoString)
deriving DecidableEq

/-- The parameters of a request, and of the client that makes it. -/
structure PathParams where
  requestPath : List (GoString × GoString)
  clientPath : List (GoString × GoString)
  requestRaw : List (GoString × GoString)
  clientRaw : List (GoString × GoString)

namespace PathParams

variable (params : PathParams)

/-- The map that `sanitizeRequestURL` gets. -/
def all : List (GoString × GoString) :=
  requestPathParams params.requestPath params.clientPath params.requestRaw
    params.clientRaw

/-- The value of a parameter that is escaped. -/
def escaped (name : GoString) : Option GoString :=
  (params.requestPath.lookup name).or (params.clientPath.lookup name)

/-- The value of a parameter that is not. -/
def raw (name : GoString) : Option GoString :=
  (params.requestRaw.lookup name).or (params.clientRaw.lookup name)

/-- What Resty writes for a placeholder. -/
def inserted (name : GoString) : GoString :=
  match params.escaped name with
  | some value => pathEscape value
  | none =>
      match params.raw name with
      | some value => value
      | none => ascii "\x7b" ++ name ++ ascii "\x7d"

/-- The path of the request. -/
def substitute (parts : List Part) : GoString :=
  parts.flatMap fun
    | .literal text => text
    | .placeholder name => params.inserted name

end PathParams

example : PathParams.substitute
    ⟨[(ascii "id", ascii "a/b")], [], [(ascii "tag", ascii "c/d")], []⟩
    [.literal (ascii "/x/"), .placeholder (ascii "id"), .literal (ascii "/"),
      .placeholder (ascii "tag"), .placeholder (ascii "no")]
      = ascii "/x/a%2Fb/c/d\x7bno\x7d" := by
  decide +kernel

end Tokyo3Base.Api
