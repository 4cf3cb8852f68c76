/-
The polling loop of the device flow (`auth/oidcclient/deviceflow.go`):
`RunDeviceFlow` from the answer of the device authorization endpoint on.

The loop is driven from outside: by the clock, by the context and by the
answers of the token endpoint. A `Round` is what one pass of the loop gets
of them, and the loop is a function of the rounds. It gives the waits that
it starts and the result; while there is none, it waits for more rounds.
What JSON makes of a body that is not status 200 is in the answer already:
decoding errors are ignored there, and what could be decoded is used.
-/
import Tokyo3Base.Go.Strings
import Tokyo3Base.OidcClient.Cache

namespace Tokyo3Base.OidcClient

open Go

/-- The numbers of the device authorization response, each an `int`. -/
structure DeviceAuthorization where
  expiresIn : Int
  interval : Int
deriving DecidableEq

/-- The answer to a poll. -/
inductive PollAnswer where
  /-- `postForm` failed -/
  | failed (err : GoString)
  /-- status 200; the body may not decode -/
  | ok (body : Except GoString TokenResponse)
  /-- any other status, with the members that could be decoded -/
  | refused (error description : GoString)

/-- One pass of the loop: the clock at its start, the error of the context
if that ends before the wait does, the answer, and the clock when it is
parsed. -/
structure Round where
  now : Int
  cancelled : Option GoString
  answer : PollAnswer
  receivedAt : Int

def deviceCodeExpired : GoString :=
  ascii "device code expired before approval"

/-- What `RunDeviceFlow` returns for an answer that ends it. -/
def PollAnswer.outcome (receivedAt : Int) :
    PollAnswer → Except GoString Tokens
  | .failed err => .error (ascii "token poll: " ++ err)
  | .ok (.error err) => .error (ascii "decode token response: " ++ err)
  | .ok (.ok raw) =>
      match parseTokens raw receivedAt with
      | none => .error (ascii "token endpoint returned no access_token")
      | some t => .ok t
  | .refused error description =>
      if error = ascii "access_denied" then
        .error (ascii "authorization denied by user")
      else if error = ascii "expired_token" then .error deviceCodeExpired
      else .error (ascii "token poll: " ++ error ++ ascii " "
        ++ trimSpace description)

/-- The end of a pass: another one with this interval, or the result. -/
inductive Verdict where
  | again (interval : Int)
  | stop (result : Except GoString Tokens)

def afterPoll (interval : Int) (r : Round) : Verdict :=
  match r.answer with
  | .refused error _ =>
      if error = ascii "authorization_pending" then .again interval
      else if error = ascii "slow_down" then
        -- `interval += 5 * time.Second`
        .again (wrap (interval + 5 * second))
      else .stop (r.answer.outcome r.receivedAt)
  | _ => .stop (r.answer.outcome r.receivedAt)

/-- The loop: the waits that it starts, and its result. -/
def pollLoop (deadline : Int) :
    Int → List Round → List Int × Option (Except GoString Tokens)
  | _, [] => ([], none)
  | interval, r :: rounds =>
      if deadline < r.now then ([], some (.error deviceCodeExpired))
      else
        match r.cancelled with
        | some err => ([interval], some (.error err))
        | none =>
            match afterPoll interval r with
            | .stop result => ([interval], some result)
            | .again interval' =>
                let rest := pollLoop deadline interval' rounds
                (interval :: rest.1, rest.2)

/-- A number of the response, or its default. -/
def orDefault (n default : Int) : Int := if n ≤ 0 then default else n

/-- `RunDeviceFlow`, once it is authorized; `start` is the clock when the
deadline is set. -/
def runDeviceFlow (authz : DeviceAuthorization) (start : Int)
    (rounds : List Round) : List Int × Option (Except GoString Tokens) :=
  pollLoop (start + seconds (orDefault authz.expiresIn 900))
    (seconds (orDefault authz.interval 5)) rounds

end Tokyo3Base.OidcClient
