/-
`Tracker` (journal/tracker.go): a bounded ring of the newest decoded
records of a journal, kept current by `Run` across subscriptions that
end and subscriptions that fail.

# The loop as a machine

`Run` has three places where it waits for something outside: in
`Subscribe`, in `ingest` for the next message, and between two
subscriptions for the timer. `RunPhase` names them, and `Tracker.step`
says what `Run` does with each thing that can happen there. Which
messages arrive is up to the source; the machines over a particular
source (a journal without resets, a stream that may be recreated) put
their own guard in front of `RunEvent.message`.

# The ring

`insert` re-sorts with `sort.SliceStable`. For a strict weak order the
stable sort of a list is unique, so any stable sort models it; here it
is `List.mergeSort`, with "not newer" as its order.
-/
import Tokyo3Base.Go.Bytes

namespace Tokyo3Base.Journal

open Go

-- ==== vocabulary

/-- One record read back from a journal. -/
structure Msg where
  seq : UInt64
  time : Int
  data : GoString
deriving DecidableEq

def defaultTrackerSize : Int64 := 500

/-- The fields of `TrackerConfig` that decide something. -/
structure TrackerConfig (τ : Type) where
  decode : Msg → Option τ
  less : Option (τ → τ → Bool)
  max : Int64
  resubscribeWait : Int

/-- A tracker as `NewTracker` leaves it: the ring has room. -/
structure Tracker (τ : Type) where
  decode : Msg → Option τ
  less : Option (τ → τ → Bool)
  max : Int64
  retry : Int
  max_pos : 0 < max

variable {τ : Type}

/-- `NewTracker`, for a source and a decoder that are there. -/
def newTracker (cfg : TrackerConfig τ) : Tracker τ where
  decode := cfg.decode
  less := cfg.less
  max := if cfg.max ≤ 0 then defaultTrackerSize else cfg.max
  retry := cfg.resubscribeWait
  max_pos := by
    split
    · decide
    · exact Int64.not_le.mp ‹_›

-- ==== the ring

/-- The ring, newest first, and the newest sequence ingested. -/
structure TrackerState (τ : Type) where
  ring : List τ
  lastSeq : UInt64
deriving DecidableEq

def TrackerState.init : TrackerState τ := ⟨[], 0⟩

/-- How many records the ring holds at most. -/
def Tracker.cap (t : Tracker τ) : Nat := t.max.toInt.toNat

def Tracker.insert (t : Tracker τ) (ring : List τ) (v : τ) : List τ :=
  let ring :=
    match t.less with
    | some less => (ring ++ [v]).mergeSort fun a b => !less b a
    | none => v :: ring
  ring.take t.cap

/-- What `ingest` does with one message. -/
def Tracker.ingest (t : Tracker τ) (s : TrackerState τ) (msg : Msg) :
    TrackerState τ :=
  -- sequences only go backwards across a reset of the stream
  let ring := if msg.seq < s.lastSeq then [] else s.ring
  match t.decode msg with
  | some v => ⟨t.insert ring v, msg.seq⟩
  | none => ⟨ring, msg.seq⟩

/-- One subscription that delivers these messages and is never cut. -/
def Tracker.uninterrupted (t : Tracker τ) (msgs : List Msg) :
    TrackerState τ :=
  msgs.foldl t.ingest .init

-- ==== the loop

/-- What `Run` returns. -/
inductive RunResult where
  | closed
  | canceled
  | refused
deriving DecidableEq

/-- Where `Run` is. -/
inductive RunPhase where
  | subscribing
  | ingesting
  | waiting
  | returned (r : RunResult)
deriving DecidableEq

/-- What can happen to `Run`. -/
inductive RunEvent where
  | subscribed
  | subscribeFailed (ctxErr : Bool)
  | message (msg : Msg)
  | closed
  | ctxDone
  | elapsed
deriving DecidableEq

/-- `Run` at one of its waiting places. -/
structure RunState (τ : Type) where
  phase : RunPhase
  tracker : TrackerState τ
deriving DecidableEq

def RunState.init : RunState τ := ⟨.subscribing, .init⟩

/-- The resume point `Run` passes to `Subscribe`: 0 stands for none. -/
def TrackerState.from (s : TrackerState τ) : UInt64 :=
  if s.lastSeq > 0 then s.lastSeq + 1 else 0

/-- One event of `Run`; `none` where it cannot happen. -/
def Tracker.step (t : Tracker τ) (e : RunEvent) (s : RunState τ) :
    Option (RunState τ) :=
  match s.phase, e with
  | .subscribing, .subscribed => some { s with phase := .ingesting }
  | .subscribing, .subscribeFailed ctxErr =>
      if t.retry ≤ 0 ∨ ctxErr then
        some { s with phase := .returned .refused }
      else some { s with phase := .waiting }
  | .ingesting, .message msg =>
      some { s with tracker := t.ingest s.tracker msg }
  | .ingesting, .closed =>
      if t.retry ≤ 0 then some { s with phase := .returned .closed }
      else some { s with phase := .waiting }
  | .ingesting, .ctxDone => some { s with phase := .returned .canceled }
  | .waiting, .ctxDone => some { s with phase := .returned .canceled }
  | .waiting, .elapsed => some { s with phase := .subscribing }
  | _, _ => none

-- ==== a journal without resets

/-- `Run` over a journal: what the current subscription has still to
deliver, and, for the statements only, everything ingested so far. -/
structure Following (τ : Type) where
  run : RunState τ
  remaining : List Msg
  ingested : List Msg
deriving DecidableEq

/-- A `Source` over the journal: `Subscribe` with a resume point delivers
exactly the records from there on, in order; without one it delivers
those from `start` on, where its replay window begins. -/
def sourceFrom (journal : List Msg) (start resume : UInt64) : List Msg :=
  let first := if resume > 0 then resume else start
  journal.filter fun m => decide (first ≤ m.seq)

def Following.init : Following τ := ⟨.init, [], []⟩

/-- One event of `Run` over the journal. A subscription may end at any
place, and only its next message can arrive. -/
def Tracker.follow (t : Tracker τ) (journal : List Msg) (start : UInt64)
    (e : RunEvent) (s : Following τ) : Option (Following τ) :=
  match e with
  | .subscribed =>
      (t.step e s.run).map fun run =>
        { s with
          run := run
          remaining := sourceFrom journal start s.run.tracker.from }
  | .message msg =>
      match s.remaining with
      | [] => none
      | next :: rest =>
          if msg = next then
            (t.step e s.run).map fun run =>
              ⟨run, rest, s.ingested ++ [msg]⟩
          else none
  | _ => (t.step e s.run).map fun run => { s with run := run }

end Tokyo3Base.Journal
