/-
`LoopbackCallback` (auth/oidcclient/loopback.go), the local server that
waits for one browser redirect, and the callback of `RunCodeFlow`
(auth/oidcclient/codeflow.go).

# The system

Callback requests, failures of the server and `Wait` are calls over one
shared state, in any number and order (`Lib.Pool`). The mutex is held from
the check of `done` to the return, the handler's run and the send into the
result channel included. The channel has room for one result; a send into
a full one is not enabled, which is how it would block.

The handler is a function of the request. What else it may depend on is
part of the request: nothing is assumed of requests, so every sequence of
outcomes is possible.

# Bookkeeping

`turns` has what the holders of the lock did, in lock order, and `sent` has
every result ever put into the channel.

# The code flow

`CodeFlow.callback` is the handler of `RunCodeFlow`, for requests that are
given by their query; `CodeFlow.exchange` is what is posted to the token
endpoint after `Wait`.

Left out: shutting the server down after `Wait`, discovery, and what the
token endpoint answers.
-/
import Tokyo3Base.Lib.Lock
import Tokyo3Base.Go.NetURL

namespace Tokyo3Base.OidcClient

open Go Lib

variable {ρ ε : Type}

-- ==== the handler

/-- A response to the browser. -/
structure Reply where
  status : Nat
  body : GoString
deriving DecidableEq

/-- `http.Error`. -/
def httpError (text : GoString) (status : Nat) : Reply :=
  ⟨status, text ++ [10]⟩

structure LoopbackResult (ε : Type) where
  value : GoString
  err : Option ε
deriving DecidableEq

/-- How a run of the handler ends: with a success or a failure, with
`ErrCallbackIgnored`, or with a panic. -/
inductive Outcome (ε : Type) where
  | result (r : LoopbackResult ε)
  | ignored
  | panicked
deriving DecidableEq

/-- What the handler wrote, and how it ended. -/
structure Handled (ε : Type) where
  reply : Reply
  outcome : Outcome ε
deriving DecidableEq

-- ==== the calls

/-- A call that needs the lock: `serve`, or `finish` with the error of the
server. -/
inductive LoopbackTask (ρ ε : Type) where
  | serve (r : ρ)
  | finish (err : ε)
deriving DecidableEq

/-- What the holder of the lock did. -/
inductive Turn (ρ ε : Type) where
  | handled (r : ρ)
  | failed (err : ε)
  | refused (task : LoopbackTask ρ ε)

/-- What `Wait` returns. -/
inductive WaitEnd (ε : Type) where
  | result (r : LoopbackResult ε)
  | timedOut
  | canceled
deriving DecidableEq

/-- How a call ends that had the lock. -/
inductive CallEnd where
  | answered (reply : Reply)
  /-- the handler panicked, and the server closed the connection -/
  | aborted
  | finished (first : Bool)
deriving DecidableEq

/-- Where a call is. -/
inductive LoopbackPhase (ρ ε : Type) where
  | idle
  | acquire (task : LoopbackTask ρ ε)
  | check (task : LoopbackTask ρ ε)
  | handling (r : ρ)
  | sending (r : LoopbackResult ε) (next : CallEnd)
  | returned (r : CallEnd)
  | waiting
  | waited (r : WaitEnd ε)
deriving DecidableEq

/-- The fields of `LoopbackCallback`, and the bookkeeping. -/
structure LoopbackCallback (ρ ε : Type) where
  done : Bool
  resultCh : List (LoopbackResult ε)
  turns : List (Turn ρ ε)
  sent : List (LoopbackResult ε)

def LoopbackCallback.init : LoopbackCallback ρ ε := ⟨false, [], [], []⟩

/-- `make(chan loopbackResult, 1)`. -/
def resultChCap : Nat := 1

inductive LoopbackEvent (ρ ε : Type) where
  | request (r : ρ)
  | serverFailed (err : ε)
  | wait
  | lock
  | check
  | handle
  | send
  | receive
  | timeout
  | ctxDone

/-- The phases that hold `mu`. -/
def LoopbackPhase.holds : LoopbackPhase ρ ε → Bool
  | .check _ | .handling _ | .sending _ _ => true
  | _ => false

def LoopbackCallback.turn (lc : LoopbackCallback ρ ε) (t : Turn ρ ε) :
    LoopbackCallback ρ ε :=
  { lc with turns := lc.turns ++ [t] }

def callbackReceived : Reply :=
  httpError (ascii "callback already received") 409

/-- What a call is told that comes after the decision. -/
def LoopbackTask.refusal : LoopbackTask ρ ε → CallEnd
  | .serve _ => .answered callbackReceived
  | .finish _ => .finished false

def LoopbackCallback.act (handle : ρ → Handled ε) (_ : Nat)
    (e : LoopbackEvent ρ ε) (lc : LoopbackCallback ρ ε)
    (ph : LoopbackPhase ρ ε) :
    Option (LoopbackCallback ρ ε × LoopbackPhase ρ ε) :=
  match ph, e with
  | .idle, .request r => some (lc, .acquire (.serve r))
  | .idle, .serverFailed err => some (lc, .acquire (.finish err))
  | .idle, .wait => some (lc, .waiting)
  | .acquire task, .lock => some (lc, .check task)
  | .check task, .check =>
      if lc.done then
        some (lc.turn (.refused task), .returned task.refusal)
      else
        match task with
        | .serve r => some (lc, .handling r)
        | .finish err =>
            some ({ lc.turn (.failed err) with done := true },
              .sending ⟨[], some err⟩ (.finished true))
  | .handling r, .handle =>
      match (handle r).outcome with
      | .ignored =>
          some (lc.turn (.handled r), .returned (.answered (handle r).reply))
      | .panicked => some (lc.turn (.handled r), .returned .aborted)
      | .result res =>
          some ({ lc.turn (.handled r) with done := true },
            .sending res (.answered (handle r).reply))
  | .sending res next, .send =>
      if lc.resultCh.length < resultChCap then
        some ({ lc with
          resultCh := lc.resultCh ++ [res]
          sent := lc.sent ++ [res] }, .returned next)
      else none
  | .waiting, .receive =>
      match lc.resultCh with
      | res :: rest =>
          some ({ lc with resultCh := rest }, .waited (.result res))
      | [] => none
  | .waiting, .timeout => some (lc, .waited .timedOut)
  | .waiting, .ctxDone => some (lc, .waited .canceled)
  | _, _ => none

/-- `StartLoopbackCallback`: nobody has called yet. -/
def startLoopbackCallback :
    Pool (LoopbackCallback ρ ε) (LoopbackPhase ρ ε) :=
  .start .init .idle

def loopbackStep (handle : ρ → Handled ε) :
    Nat × LoopbackEvent ρ ε →
      Pool (LoopbackCallback ρ ε) (LoopbackPhase ρ ε) →
      Option (Pool (LoopbackCallback ρ ε) (LoopbackPhase ρ ε)) :=
  Pool.step LoopbackPhase.holds (LoopbackCallback.act handle)

-- ==== the code flow

/-- A run of `RunCodeFlow`, with the secrets that it drew. -/
structure CodeFlow where
  clientID : GoString
  redirectURI : GoString
  state : GoString
  verifier : GoString

/-- The handler of `RunCodeFlow`, for a request with this query. -/
def CodeFlow.callback (f : CodeFlow) (query : GoString) : Handled GoString :=
  if NetURL.queryGet (ascii "state") query ≠ f.state then
    ⟨httpError (ascii "state mismatch") 400, .ignored⟩
  else
    let e := NetURL.queryGet (ascii "error") query
    if e ≠ [] then
      ⟨httpError (ascii "Auth error: " ++ e) 400,
        .result ⟨[], some (ascii "auth server returned error: " ++ e
          ++ ascii " (" ++ NetURL.queryGet (ascii "error_description") query
          ++ ascii ")")⟩⟩
    else
      let code := NetURL.queryGet (ascii "code") query
      if code = [] then
        ⟨httpError (ascii "no code") 400,
          .result
            ⟨[], some (ascii "authorization server returned no code")⟩⟩
      else
        ⟨⟨200, ascii "<html><body><h2>Login successful</h2>"
            ++ ascii "<p>You may close this tab.</p></body></html>\n"⟩,
          .result ⟨code, none⟩⟩

/-- What `exchangeCodeAt` posts, besides `grant_type`. -/
structure ExchangeForm where
  clientID : GoString
  code : GoString
  redirectURI : GoString
  codeVerifier : GoString
deriving DecidableEq

/-- `RunCodeFlow` after `Wait`: the exchange, if it comes to one. -/
def CodeFlow.exchange (f : CodeFlow) : WaitEnd GoString →
    Option ExchangeForm
  | .result ⟨code, none⟩ =>
      some ⟨f.clientID, code, f.redirectURI, f.verifier⟩
  | .result ⟨_, some _⟩ => none
  | .timedOut => none
  | .canceled => none

end Tokyo3Base.OidcClient
