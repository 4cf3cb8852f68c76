/-
A `Source` (journal/jetstream) with any number of subscriptions: the
calls of `Subscribe` with their consumers on the server, the two
goroutines that each leaves behind, and `Close`.

# One subscription

`Subscribe` probes the stream any number of times, each time with a
consumer that it deletes, creates the consumer that stays, and opens the
iterator over its messages. Then it starts the watcher, which waits for
the end of the context, for `Close` or for the reader, and stops the
iterator, and the reader, which takes messages from the iterator and
offers them on the channel. Which policy is picked, and with how many
probes, is the subject of `Journal/Subscribe.lean`; here any number of
them may happen.

# Nondeterminism

A `select` takes any case that is ready, so each case is an action. So
is what the server does: it may put a message into the iterator, fail a
request, or drop a consumer that was idle for too long. A consumer
exists once the call was given its name; one whose creation failed on
the way back is the server's to drop. `Next` may fail at any time. After
`Stop` it may still return a message that is in the buffer.

# Bookkeeping

`sent` is what the server put into the iterator and `taken` what `Next`
has returned. `asked` lists the deletions that were asked for, newest
first, and `refused` those that failed. To close a closed channel, or to
send on one, is a panic in Go, and is marked here.
-/
import Mathlib.Logic.Function.Basic
import Tokyo3Base.Journal.Tracker

namespace Tokyo3Base.Journal

open Go

-- ==== messages

/-- A message of the server; its metadata may be unreadable. -/
structure RawMsg where
  metadata : Option (UInt64 × Int)
  data : GoString
deriving DecidableEq

/-- `decodeMsg`; `none` is its error. -/
def decodeMsg (m : RawMsg) : Option Msg :=
  m.metadata.map fun stamp => ⟨stamp.1, stamp.2, m.data⟩

-- ==== the server

/-- The consumers of the stream. -/
structure Consumers where
  next : Nat
  live : List Nat
  asked : List Nat
  refused : List Nat

/-- What is asked of the server, and whether it grants it. -/
inductive ConsumerRequest where
  | create
  | delete (name : Nat) (ok : Bool)
deriving DecidableEq

def Consumers.handle (c : Consumers) : Option ConsumerRequest → Consumers
  | none => c
  | some .create =>
      { c with
        next := c.next + 1
        live := c.next :: c.live }
  | some (.delete name true) =>
      { c with
        live := c.live.filter (· ≠ name)
        asked := name :: c.asked }
  | some (.delete name false) =>
      { c with
        asked := name :: c.asked
        refused := name :: c.refused }

-- ==== a subscription

/-- Where the call of `Subscribe` is, with the consumer that it has. -/
inductive Setup where
  | idle
  | choosing
  | probing (name : Nat)
  | opening (name : Nat)
  | aborting (name : Nat)
  | failed
  | running (name : Nat)
deriving DecidableEq

/-- Where the reader is: in `Next`, in the `select`, or in one of its
deferred calls. -/
inductive Reader where
  | next
  | offer (m : Msg)
  | closeDone
  | closeCh
  | stopIter
  | release
  | exited
deriving DecidableEq

inductive Watcher where
  | waiting
  | stopIter
  | exited
deriving DecidableEq

structure Subscriber where
  setup : Setup
  ctxDone : Bool
  buffer : List RawMsg
  stopped : Bool
  done : Bool
  closed : Bool
  reader : Reader
  watcher : Watcher
  received : List Msg
  sent : List RawMsg
  taken : List RawMsg
  panicked : Bool

def Subscriber.init : Subscriber where
  setup := .idle
  ctxDone := false
  buffer := []
  stopped := false
  done := false
  closed := false
  reader := .next
  watcher := .waiting
  received := []
  sent := []
  taken := []
  panicked := false

/-- The steps of the call. -/
inductive CallEvent where
  | begin
  /-- a server call other than the opening of the iterator fails -/
  | fail
  | probe
  | releaseProbe (ok : Bool)
  | create
  | messages
  | messagesError
  | releaseAborted (ok : Bool)
deriving DecidableEq

/-- `Subscribe`, until it returns; `fresh` is the name that the server
gives to a new consumer. -/
def Subscriber.call (fresh : Nat) (e : CallEvent) (s : Subscriber) :
    Option (Subscriber × Option ConsumerRequest) :=
  match e, s.setup with
  | .begin, .idle => some ({ s with setup := .choosing }, none)
  | .fail, .choosing => some ({ s with setup := .failed }, none)
  | .probe, .choosing =>
      some ({ s with setup := .probing fresh }, some .create)
  | .releaseProbe ok, .probing name =>
      some ({ s with setup := .choosing }, some (.delete name ok))
  | .create, .choosing =>
      some ({ s with setup := .opening fresh }, some .create)
  | .messages, .opening name =>
      some ({ s with setup := .running name }, none)
  | .messagesError, .opening name =>
      some ({ s with setup := .aborting name }, none)
  | .releaseAborted ok, .aborting name =>
      some ({ s with setup := .failed }, some (.delete name ok))
  | _, _ => none

/-- The steps of the two goroutines. -/
inductive GoEvent where
  | wake
  | watcherStop
  | next
  | nextClosed
  | nextError
  | send
  | quit
  | closeDone
  | closeCh
  | readerStop
  | release (ok : Bool)
deriving DecidableEq

/-- The watcher: one of the cases of its `select`, then `Stop`. -/
def Subscriber.watch (closing : Bool) (s : Subscriber) : Option Subscriber :=
  match s.watcher with
  | .waiting =>
      if s.ctxDone || closing || s.done then
        some { s with watcher := .stopIter }
      else none
  | _ => none

/-- `Next` returns a message; one whose metadata cannot be read is
dropped. -/
def Subscriber.takeNext (s : Subscriber) : Option Subscriber :=
  match s.reader, s.buffer with
  | .next, m :: rest =>
      some { s with
        buffer := rest
        taken := s.taken ++ [m]
        reader :=
          match decodeMsg m with
          | some out => .offer out
          | none => .next }
  | _, _ => none

/-- The goroutines of a subscription that has the consumer `name`. -/
def Subscriber.go (closing : Bool) (name : Nat) (e : GoEvent) (s : Subscriber) :
    Option (Subscriber × Option ConsumerRequest) :=
  match e, s.reader, s.watcher with
  | .wake, _, _ => (s.watch closing).map (·, none)
  | .watcherStop, _, .stopIter =>
      some ({ s with stopped := true, watcher := .exited }, none)
  | .next, _, _ => s.takeNext.map (·, none)
  | .nextClosed, .next, _ =>
      if s.stopped then some ({ s with reader := .closeDone }, none)
      else none
  | .nextError, .next, _ => some ({ s with reader := .closeDone }, none)
  | .send, .offer m, _ =>
      some ({ s with
        received := s.received ++ [m]
        reader := .next
        panicked := s.panicked || s.closed }, none)
  | .quit, .offer _, _ =>
      if s.ctxDone || closing then
        some ({ s with reader := .closeDone }, none)
      else none
  | .closeDone, .closeDone, _ =>
      some ({ s with
        done := true
        reader := .closeCh
        panicked := s.panicked || s.done }, none)
  | .closeCh, .closeCh, _ =>
      some ({ s with
        closed := true
        reader := .stopIter
        panicked := s.panicked || s.closed }, none)
  | .readerStop, .stopIter, _ =>
      some ({ s with stopped := true, reader := .release }, none)
  | .release ok, .release, _ =>
      some ({ s with reader := .exited }, some (.delete name ok))
  | _, _, _ => none

-- ==== the source

structure Source where
  closing : Bool
  consumers : Consumers
  subs : Nat → Subscriber

def Source.init : Source where
  closing := false
  consumers := ⟨0, [], [], []⟩
  subs := fun _ => .init

def Source.setSub (s : Source) (i : Nat) (sub : Subscriber)
    (r : Option ConsumerRequest) : Source :=
  { s with
    consumers := s.consumers.handle r
    subs := Function.update s.subs i sub }

inductive SourceAction where
  /-- `Source.Close`; `closeOnce` makes every later one a no-op -/
  | close
  /-- the server drops a consumer that was idle for too long -/
  | reap (name : Nat)
  | cancel (i : Nat)
  /-- the server puts a message into the iterator -/
  | deliver (i : Nat) (m : RawMsg)
  | call (i : Nat) (e : CallEvent)
  | go (i : Nat) (e : GoEvent)
deriving DecidableEq

/-- One action; `none` where it cannot happen. -/
def Source.step (a : SourceAction) (s : Source) : Option Source :=
  match a with
  | .close => some { s with closing := true }
  | .reap name =>
      some { s with
        consumers := { s.consumers with
          live := s.consumers.live.filter (· ≠ name) } }
  | .cancel i =>
      some (s.setSub i { s.subs i with ctxDone := true } none)
  | .deliver i m =>
      match (s.subs i).setup with
      | .running _ =>
          some (s.setSub i { s.subs i with
            buffer := (s.subs i).buffer ++ [m]
            sent := (s.subs i).sent ++ [m] } none)
      | _ => none
  | .call i e =>
      ((s.subs i).call s.consumers.next e).map fun r =>
        s.setSub i r.1 r.2
  | .go i e =>
      match (s.subs i).setup with
      | .running name =>
          ((s.subs i).go s.closing name e).map fun r =>
            s.setSub i r.1 r.2
      | _ => none

end Tokyo3Base.Journal
