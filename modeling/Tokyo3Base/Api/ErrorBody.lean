/-
`api/error_body.go` and the end of `RestyClient.R` (`api/api.go`): how the
body of a response outside 2xx gets to the caller.

# The way of a body

`errorBodyTransport.RoundTrip` takes the response of the base transport and
puts a reader of at most 64 KiB in front of its body. For a body that is
labelled gzip it decodes first, so that the limit counts decoded bytes:

- `gzip.NewReader` finds no byte: the body is empty;
- it fails otherwise: the bytes that it read, from the recording, and then
  the rest of the body, as they came;
- it succeeds: what the decoder delivers.

The label is removed in all three cases. Resty then reads the body to its
end, and a failed read fails `Execute`. What Resty decodes itself is a
parameter; a body without the label, or of length zero, it reads as it is.

# What is left out

A base transport that fails or returns no response or no body; closing the
bodies; the error text of a failed call; what `R` decodes from the body of a
2xx response.
-/
import Tokyo3Base.Go.Gzip
import Tokyo3Base.Go.Strings

namespace Tokyo3Base.Api

open Go

def apiErrorBodyLimit : Nat := 64 * 1024

/-- A response of the base transport, which delivers its body without a
read error. As `net/http` has it, no body comes with a length of zero. -/
structure Response where
  statusCode : Nat
  /-- −1 where it is not known -/
  contentLength : Int
  contentEncoding : GoString
  body : GoString
  no_body : contentLength = 0 → body = []

/-- From `http.StatusOK` up to `http.StatusMultipleChoices`. -/
def isSuccess (status : Nat) : Prop := 200 ≤ status ∧ status < 300

instance (status : Nat) : Decidable (isSuccess status) :=
  inferInstanceAs (Decidable (_ ∧ _))

/-- `strings.EqualFold(…, "gzip")`. No letter outside ASCII folds to one of
these four. -/
def isGzip (contentEncoding : GoString) : Prop :=
  lowerASCII contentEncoding = ascii "gzip"

instance (contentEncoding : GoString) : Decidable (isGzip contentEncoding) :=
  inferInstanceAs (Decidable (_ = _))

/-- What the readers on the way do as they like: how they cut the bytes, the
room in the buffers, and how much of a body the decoder has read, through
its own buffer, when its header turns out to be wrong. -/
structure Reading where
  pace : Pace
  room : Nat → Nat
  recorded : Nat

/-- A response on its way from `errorBodyTransport` to Resty. -/
structure Delivered where
  statusCode : Nat
  contentLength : Int
  contentEncoding : GoString
  body : Body GzipError

/-- Resty in front of a body: it puts a decoder of its own there if the
response still is labelled gzip, unless the length is known to be zero. -/
structure Resty where
  body : Delivered → Except GzipError (Body GzipError)
  plain : ∀ d, ¬ (isGzip d.contentEncoding ∧ d.contentLength ≠ 0) →
    body d = .ok d.body

section RoundTrip

variable (inflate : Inflate) (reading : Reading)

/-- `errorBodyTransport.RoundTrip`, after the base transport's. -/
def roundTrip (resp : Response) : Delivered :=
  if isSuccess resp.statusCode ∨ resp.contentLength = 0 then
    ⟨resp.statusCode, resp.contentLength, resp.contentEncoding,
      ⟨⟨resp.body, .eof⟩, none⟩⟩
  else if isGzip resp.contentEncoding then
    match readHeader resp.body with
    | .error .eof => ⟨resp.statusCode, 0, [], ⟨⟨[], .eof⟩, none⟩⟩
    | .error _ =>
        -- `io.MultiReader` of the recording and the rest
        ⟨resp.statusCode, -1, [],
          ⟨⟨resp.body.take reading.recorded
            ++ resp.body.drop reading.recorded, .eof⟩,
            some apiErrorBodyLimit⟩⟩
    | .ok members =>
        ⟨resp.statusCode, -1, [],
          ⟨gunzip inflate members, some apiErrorBodyLimit⟩⟩
  else
    ⟨resp.statusCode, -1, resp.contentEncoding,
      ⟨⟨resp.body, .eof⟩, some apiErrorBodyLimit⟩⟩

/-- Resty's `Execute`: the response's body, read to its end. There are not
more reads than bytes, and one that finds the end. -/
def execute (resty : Resty) (resp : Response) :
    Option (Except GzipError GoString) :=
  match resty.body (roundTrip inflate reading resp) with
  | .error err => some (.error err)
  | .ok body =>
      readAll reading.pace reading.room (body.stream.data.length + 1) body []

/-- What `R` makes of a response. -/
inductive CallResult where
  /-- `api call failed: …` -/
  | failed (err : GzipError)
  /-- `ErrNotModified` -/
  | notModified
  /-- `*APIError` -/
  | apiError (statusCode : Nat) (body : GoString)
  /-- a success, whose body `R` decodes into the caller's result -/
  | success (body : GoString)
deriving DecidableEq

/-- `RestyClient.R`, from `Execute` on. -/
def callResult (resty : Resty) (resp : Response) : Option CallResult :=
  (execute inflate reading resty resp).map fun
    | .error err => .failed err
    | .ok body =>
        if resp.statusCode = 304 then .notModified
        else if ¬ isSuccess resp.statusCode then
          .apiError resp.statusCode
            (if apiErrorBodyLimit < body.length then
              body.take apiErrorBodyLimit else body)
        else .success body

end RoundTrip

end Tokyo3Base.Api
