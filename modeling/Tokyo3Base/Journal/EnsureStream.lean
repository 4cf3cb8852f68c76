/-
`ensureStream` (journal/jetstream/jetstream.go): the stream of a `Source`,
looked up by one caller at a time and kept once it is found.

# The system

Any number of calls, with a context each, over the fields `stream` and
`lookup`. `streamMu` is held for two short sections: at the top of the
loop, where a call returns, waits or leads, and at the end of a lookup,
in the deferred function of `fetchStream`. Neither blocks while it holds
the lock, so each is one action.

A lookup ends with a stream, with an error, or with a panic. After a panic
the named results are still zero, and the deferred function takes that for
a success: it stores a nil stream.

# Channels

The channel that the waiters of a lookup wait on is the number of the
lookup. `closed` has the channels that were closed.

# Bookkeeping

`ended` has the callers whose lookup has ended, with what it came to.
-/
import Mathlib.Logic.Function.Basic

namespace Tokyo3Base.Journal

variable {S ε : Type}

/-- What `s.js.Stream` comes to. -/
inductive LookupEnd (S ε : Type) where
  | success (stream : S)
  | error (err : ε)
  | panicked
deriving DecidableEq

/-- The named results of `fetchStream` when its deferred function runs. -/
def LookupEnd.results : LookupEnd S ε → Option S × Option ε
  | .success stream => (some stream, none)
  | .error err => (none, some err)
  | .panicked => (none, none)

/-- How a call ends. A failure is `jetstream stream %q: ` and its cause. -/
inductive EnsureEnd (S ε : Type) where
  | stream (stream : S)
  | failed (cause : ε)
  | panicked
deriving DecidableEq

/-- What the leader returns. -/
def LookupEnd.ends : LookupEnd S ε → EnsureEnd S ε
  | .success stream => .stream stream
  | .error err => .failed err
  | .panicked => .panicked

/-- Where a call of `ensureStream` is. -/
inductive StreamPhase (S ε : Type) where
  | idle
  /-- at the top of the loop -/
  | top
  | waiting (inFlight : Nat)
  /-- in `s.js.Stream` -/
  | leading (done : Nat)
  /-- in the deferred function, before the lock -/
  | fetched (done : Nat) (r : LookupEnd S ε)
  | returned (r : EnsureEnd S ε)
deriving DecidableEq

/-- The fields of `Source` in question, and the calls. -/
structure StreamSource (S ε : Type) where
  stream : Option S
  lookup : Option Nat
  closed : List Nat
  started : Nat
  ended : List (Nat × LookupEnd S ε)
  ctxErr : Nat → Option ε
  calls : Nat → StreamPhase S ε

def StreamSource.init : StreamSource S ε where
  stream := none
  lookup := none
  closed := []
  started := 0
  ended := []
  ctxErr := fun _ => none
  calls := fun _ => .idle

def StreamSource.move (s : StreamSource S ε) (p : Nat)
    (ph : StreamPhase S ε) : StreamSource S ε :=
  { s with calls := Function.update s.calls p ph }

/-- The section at the top of the loop. -/
def StreamSource.enter (s : StreamSource S ε) (p : Nat) :
    StreamSource S ε :=
  match s.stream with
  | some stream => s.move p (.returned (.stream stream))
  | none =>
      match s.lookup with
      | some inFlight => s.move p (.waiting inFlight)
      | none =>
          { s.move p (.leading s.started) with
            lookup := some s.started
            started := s.started + 1 }

/-- The section of the deferred function. -/
def StreamSource.publish (s : StreamSource S ε) (p done : Nat)
    (r : LookupEnd S ε) : StreamSource S ε :=
  { s.move p (.returned r.ends) with
    stream :=
      match r.results with
      | (stream, none) => stream
      | (_, some _) => s.stream
    lookup := none
    closed := done :: s.closed }

inductive EnsureEvent (S ε : Type) where
  | call
  | cancel (err : ε)
  | enter
  | fetch (r : LookupEnd S ε)
  | publish
  | wake
  | ctxDone

/-- One event of one call; `none` where it cannot happen. -/
def StreamSource.step (a : Nat × EnsureEvent S ε)
    (s : StreamSource S ε) : Option (StreamSource S ε) :=
  match s.calls a.1, a.2 with
  | .idle, .call => some (s.move a.1 .top)
  | _, .cancel err =>
      some { s with
        ctxErr := Function.update s.ctxErr a.1
          (some ((s.ctxErr a.1).getD err)) }
  | .top, .enter => some (s.enter a.1)
  | .leading done, .fetch r =>
      some { s.move a.1 (.fetched done r) with
        ended := s.ended ++ [(a.1, r)] }
  | .fetched done r, .publish => some (s.publish a.1 done r)
  | .waiting inFlight, .wake =>
      if inFlight ∈ s.closed then some (s.move a.1 .top) else none
  | .waiting _, .ctxDone =>
      (s.ctxErr a.1).map fun err => s.move a.1 (.returned (.failed err))
  | _, _ => none

end Tokyo3Base.Journal
