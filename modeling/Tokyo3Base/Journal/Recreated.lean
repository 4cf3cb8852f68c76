/-
`Tracker.Run` over a JetStream source whose stream may be deleted and
created again while nobody is subscribed.

# Incarnations

The ring holds decoded records, and two streams may hold equal ones. To
say which stream a record came from, the machine runs the tracker at the
type of records with the number of their stream (`Tracker.stamped`). The
code never looks at that number: without it the ring is the code's ring
(`plain_ingest`, in the proofs).

# The source

`Subscribe` is the model of `Subscribe.lean`, interleaving with
publishers included. A created consumer delivers the matching records
from its start on, each the least one not yet delivered; records may age
out of the stream at any time. A failed `Subscribe` is an event of the
tracker alone: what is published meanwhile are events of their own.
-/
import Tokyo3Base.Journal.Tracker
import Tokyo3Base.Journal.Subscribe

namespace Tokyo3Base.Journal

variable {τ ε : Type}

-- ==== the tracker

/-- The tracker while the stream is the `epoch`-th of its name. -/
def Tracker.stamped (t : Tracker τ) (epoch : Nat) : Tracker (Nat × τ) where
  decode m := (t.decode m).map fun v => (epoch, v)
  less := t.less.map fun less a b => less a.2 b.2
  max := t.max
  retry := t.retry
  max_pos := t.max_pos

/-- What the code holds. -/
def TrackerState.plain (s : TrackerState (Nat × τ)) : TrackerState τ :=
  ⟨s.ring.map Prod.snd, s.lastSeq⟩

-- ==== the stream

/-- The records below `upTo` age out. -/
def Stream.expire (s : Stream) (upTo : Nat) : Stream where
  firstSeq := max s.firstSeq (min upTo (s.lastSeq + 1))
  lastSeq := s.lastSeq
  matching := s.matching.filter (upTo ≤ ·)
  first_le := by
    have := s.first_le
    omega
  first_pos := fun h => Nat.le_trans (s.first_pos h) (Nat.le_max_left _ _)
  bounds := by
    intro m hm
    obtain ⟨hm, hle⟩ := Finset.mem_filter.mp hm
    have := s.bounds m hm
    omega

-- ==== the machine

/-- The tracker and its stream. `seen` is the incarnation the last record
came from; it is there for the statements only, as are the numbers in
the ring and the consumer. -/
structure Tracking (τ : Type) where
  run : RunState (Nat × τ)
  stream : Stream
  epoch : Nat
  consumer : Option Consumer
  cursor : Nat
  seen : Nat

/-- `Run` before its first `Subscribe`, on any stream. -/
def Tracking.init (stream : Stream) : Tracking τ :=
  ⟨.init, stream, 0, none, 0, 0⟩

/-- What can happen to the two. -/
inductive StreamEvent (ε : Type) where
  | publish (hit : Bool)
  | expire (upTo : Nat)
  | recreate
  | subscribe (agenda : List (Tick ε))
  | tracker (e : RunEvent)

/-- One event; `none` where it cannot happen. -/
def Tracker.track (t : Tracker τ) (e : StreamEvent ε) (s : Tracking τ) :
    Option (Tracking τ) :=
  match e with
  | .publish hit => some { s with stream := s.stream.publish hit }
  | .expire upTo => some { s with stream := s.stream.expire upTo }
  | .recreate =>
      -- only while the tracker is disconnected
      if s.run.phase = .ingesting then none
      else some { s with stream := .fresh, epoch := s.epoch + 1 }
  | .subscribe agenda =>
      match subscribe t.max s.run.tracker.from ⟨s.stream, agenda⟩ with
      | .error _ => none
      | .ok c =>
          ((t.stamped s.epoch).step .subscribed s.run).map fun run =>
            { s with
              run := run
              stream := c.atCreate
              consumer := some c
              cursor := c.start }
  | .tracker .subscribed => none
  | .tracker (.message m) =>
      if s.stream.IsNext s.cursor m.seq.toNat then
        ((t.stamped s.epoch).step (.message m) s.run).map fun run =>
          { s with
            run := run
            cursor := m.seq.toNat + 1
            seen := s.epoch }
      else none
  | .tracker e =>
      ((t.stamped s.epoch).step e s.run).map fun run => { s with run := run }

end Tokyo3Base.Journal
