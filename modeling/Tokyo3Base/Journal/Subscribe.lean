/-
`Source.Subscribe` against a stream that other parties keep writing to.

# The server

JetStream itself is outside the source; it enters as `Stream`, a
snapshot of what the server holds, with the assumptions the client code
relies on as definitions: a publish takes the next sequence, a probe
counts the matching records at that moment, and a consumer delivers, of
the records stored before it was created, those its policy `selects`.

# The interleaving

Subscribe performs a sequence of server calls: read the stream info,
probe any number of times, create the consumer. Between two calls any
number of publishes may land. `World.agenda` is that schedule, one
`Tick` per server call: what is published before the call takes effect
and whether the call fails. Every interleaving of Subscribe with
publishers is one agenda, so quantifying over agendas is quantifying
over interleavings. An exhausted agenda means that nobody publishes any
more and no call fails.

Out of scope here: resolving the stream handle (`ensureStream`) and the
delivery goroutine that runs after the consumer exists.
-/
import Tokyo3Base.Lib.Tail
import Tokyo3Base.Journal.Policy

namespace Tokyo3Base.Journal

open Lib

-- ==== the server

/-- What the server holds of one stream: the range of sequences and which
of them match the subscriber's subject. The range is contiguous (an
emptied stream has `firstSeq = lastSeq + 1`), every matching sequence
lies in it, and a stream that ever stored a record starts at 1 or
later. -/
structure Stream where
  firstSeq : Nat
  lastSeq : Nat
  matching : Finset Nat
  first_le : firstSeq ≤ lastSeq + 1
  first_pos : lastSeq ≠ 0 → 1 ≤ firstSeq
  bounds : ∀ m ∈ matching, 1 ≤ m ∧ firstSeq ≤ m ∧ m ≤ lastSeq

/-- A stream nobody has written to yet. -/
def Stream.fresh : Stream where
  firstSeq := 0
  lastSeq := 0
  matching := ∅
  first_le := Nat.zero_le _
  first_pos := fun h => absurd rfl h
  bounds := fun _ hm => absurd hm (Finset.notMem_empty _)

/-- A record is published under the next sequence; `hit` says whether it
matches the subscriber's subject. -/
def Stream.publish (s : Stream) (hit : Bool) : Stream where
  firstSeq := max 1 s.firstSeq
  lastSeq := s.lastSeq + 1
  matching := if hit then insert (s.lastSeq + 1) s.matching
    else s.matching
  first_le := by
    have := s.first_le
    omega
  first_pos := fun _ => Nat.le_max_left _ _
  bounds := by
    have hfirst := s.first_le
    have hold : ∀ m ∈ s.matching,
        1 ≤ m ∧ max 1 s.firstSeq ≤ m ∧ m ≤ s.lastSeq + 1 := by
      intro m hm
      have := s.bounds m hm
      omega
    intro m hm
    cases hit with
    | false => exact hold m hm
    | true =>
        rcases Finset.mem_insert.mp hm with rfl | hm
        · omega
        · exact hold m hm

/-- A batch of publishes, oldest first. -/
def Stream.publishAll (s : Stream) (hits : List Bool) : Stream :=
  hits.foldl Stream.publish s

-- ==== the schedule

/-- What happens up to and at one server call: the records published
before it takes effect (does each match the subject?), and the error
the call ends in, if it fails. -/
structure Tick (ε : Type) where
  published : List Bool
  failed : Option ε

/-- The stream and the schedule of what is still to happen to it. -/
structure World (ε : Type) where
  stream : Stream
  agenda : List (Tick ε)

variable {ε : Type}

/-- Let the publishes of the next tick land, then perform the call. -/
def World.advance (w : World ε) : Except ε (World ε) :=
  match w.agenda with
  | [] => .ok w
  | t :: rest =>
      match t.failed with
      | some e => .error e
      | none => .ok { stream := w.stream.publishAll t.published,
                      agenda := rest }

/-- Publishes still to come, over all ticks. -/
def World.upcoming (w : World ε) : Nat :=
  (w.agenda.flatMap fun t => t.published).length

/-- No sequence of the run reaches `2^64 - 1`. -/
def World.Bounded (w : World ε) : Prop :=
  w.stream.lastSeq + w.upcoming < 2 ^ 64 - 1

-- ==== Subscribe

/-- `Source.pendingFrom`: a probe consumer's `NumPending`. -/
def pendingFrom : PendingFunc (World ε) ε := fun seq w =>
  match w.advance with
  | .error e => .error e
  | .ok w' =>
      .ok (UInt64.ofNat (tailCard w'.stream.matching seq.toNat), w')

/-- The errors `Subscribe` wraps, by the call that failed; `fuel` is the
model's own and never happens. -/
inductive SubscribeError (ε : Type) where
  | streamInfo (err : ε)
  | probeConsumer (err : ε)
  | createConsumer (err : ε)
  | fuel
deriving DecidableEq

/-- A created consumer: its start policy, and the stream as it was when
Subscribe read the info and when the server created the consumer. -/
structure Consumer where
  policy : DeliverPolicy × UInt64
  atInfo : Stream
  atCreate : Stream

/-- `Source.Subscribe`, up to the creation of the consumer. -/
def subscribe (replay : Int64) (startFromSeq : UInt64) (w : World ε) :
    Except (SubscribeError ε) Consumer :=
  match w.advance with
  | .error e => .error (.streamInfo e)
  | .ok w₁ =>
      match pickDeliverPolicy replay startFromSeq
          (UInt64.ofNat w₁.stream.firstSeq)
          (UInt64.ofNat w₁.stream.lastSeq) pendingFrom w₁ with
      | .error (.probe e) => .error (.probeConsumer e)
      | .error .fuel => .error .fuel
      | .ok (d, w₂) =>
          match w₂.advance with
          | .error e => .error (.createConsumer e)
          | .ok w₃ => .ok { policy := d, atInfo := w₁.stream,
                            atCreate := w₃.stream }

/-- The records of `M` that a consumer with policy `d` delivers. -/
def selected (M : Finset Nat) (d : DeliverPolicy × UInt64) : Finset Nat :=
  M.filter (selects d ·)

/-- The records stored before the consumer existed that it delivers. -/
def Consumer.delivered (c : Consumer) : Finset Nat :=
  selected c.atCreate.matching c.policy

/-- The first sequence a created consumer looks at. -/
def Consumer.start (c : Consumer) : Nat :=
  match c.policy.1 with
  | .all => 0
  | .new => c.atCreate.lastSeq + 1
  | .byStartSequence => c.policy.2.toNat

/-- `m` is what a consumer that has come to `cursor` delivers next. -/
def Stream.IsNext (s : Stream) (cursor m : Nat) : Prop :=
  m ∈ s.matching ∧ cursor ≤ m ∧ ∀ k ∈ s.matching, cursor ≤ k → m ≤ k

instance (s : Stream) (cursor m : Nat) : Decidable (s.IsNext cursor m) :=
  inferInstanceAs (Decidable (m ∈ s.matching ∧ cursor ≤ m
    ∧ ∀ k ∈ s.matching, cursor ≤ k → m ≤ k))

/-- What a subscriber with a backfill of `replay` is owed, of the records
stored before its consumer existed: the newest `replay` of them (all,
if there are fewer), none published since the info was read left out,
and no more than `replay` beyond those. -/
structure ReplayWindow (replay : Nat) (c : Consumer) : Prop where
  newest : ∃ S ⊆ c.delivered, IsNewest replay c.atCreate.matching S
  live : ∀ m ∈ c.atCreate.matching, c.atInfo.lastSeq < m →
    m ∈ c.delivered
  bounded : c.delivered.card
    ≤ replay + tailCard c.atCreate.matching (c.atInfo.lastSeq + 1)

end Tokyo3Base.Journal
