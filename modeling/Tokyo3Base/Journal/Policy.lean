/-
The start policy of a journal subscription (journal/jetstream/
jetstream.go): which delivery policy an ephemeral consumer is created
with, given a requested backfill and a snapshot of the stream.

# Shape of the model

`pickDeliverPolicy` and `replayStart` are transcribed with the source's
own `uint64` arithmetic (`UInt64` wraps exactly as Go's does), so "no
subtraction underflows" is something to prove and not something the
model grants. The `pending` probe is a network call in the source:
each call may fail, and the stream moves between two calls. It is
therefore a STATEFUL oracle here (`PendingFunc`): a probe takes the
current world and returns the count together with the world after it.
A frozen stream is the special case of a one-point world.

# Fuel

The two loops of `replayStart` have no bound in the source. Both carry
explicit fuel and end in `Fault.fuel` when it runs out; 64 rounds each
always suffice (`Proofs/Search.lean`), so the fault is unreachable and
the fuel is a device of the model only.
-/

namespace Tokyo3Base.Journal

-- ==== vocabulary

/-- The delivery policies `Subscribe` chooses between. -/
inductive DeliverPolicy where
  | all
  | new
  | byStartSequence
deriving DecidableEq

/-- Why a start policy could not be computed: a probe failed with the
transport's own error, or a loop ran out of model fuel. -/
inductive Fault (ε : Type) where
  | probe (err : ε)
  | fuel
deriving DecidableEq

/-- `pendingFunc`: how many matching records have a sequence at or above
the argument, asked of the world `σ` as it is at that moment. -/
abbrev PendingFunc (σ ε : Type) := UInt64 → σ → Except ε (UInt64 × σ)

/-- Rounds granted to each loop of `replayStart`: one per bit of a
sequence number. -/
def loopFuel : Nat := 64

variable {σ ε : Type}

-- ==== replayStart

/-- The downward gallop: `step` doubles until a start holds at least `n`
matches. Returns the bracket `(good, bad)`, or `none` when `firstSeq`
itself holds fewer than `n`. -/
def gallop (pending : PendingFunc σ ε) (n firstSeq : UInt64) :
    Nat → UInt64 → UInt64 → σ →
      Except (Fault ε) (Option (UInt64 × UInt64) × σ)
  | 0, _, _, _ => .error .fuel
  | fuel + 1, bad, step, w =>
      let cand := if bad - firstSeq > step then bad - step else firstSeq
      match pending cand w with
      | .error e => .error (.probe e)
      | .ok (c, w') =>
          if c ≥ n then .ok (some (cand, bad), w')
          else if cand = firstSeq then .ok (none, w')
          else gallop pending n firstSeq fuel cand (step * 2) w'

/-- The bisection of the bracket: `good` holds at least `n` matches and
`bad` fewer, until the two are adjacent. -/
def bisect (pending : PendingFunc σ ε) (n : UInt64) :
    Nat → UInt64 → UInt64 → σ → Except (Fault ε) (UInt64 × σ)
  | 0, _, _, _ => .error .fuel
  | fuel + 1, good, bad, w =>
      if bad - good > 1 then
        let mid := good + (bad - good) / 2
        match pending mid w with
        | .error e => .error (.probe e)
        | .ok (c, w') =>
            if c ≥ n then bisect pending n fuel mid bad w'
            else bisect pending n fuel good mid w'
      else .ok (good, w)

/-- The clamp of `replayStart`: the highest start that can hold `n`
matches, since `n` consecutive sequences hold at most `n`. -/
def replayHigh (n firstSeq lastSeq : UInt64) : UInt64 :=
  if n ≤ lastSeq ∧ lastSeq - n + 1 > firstSeq then lastSeq - n + 1
  else firstSeq

/-- The first sequence to deliver so that a consumer starting there
receives the newest `n` matching records; `none` is the source's
`ok = false`, fewer than `n` records match. -/
def replayStart (n firstSeq lastSeq : UInt64) (pending : PendingFunc σ ε)
    (w : σ) : Except (Fault ε) (Option UInt64 × σ) :=
  let hi := replayHigh n firstSeq lastSeq
  match pending hi w with
  | .error e => .error (.probe e)
  | .ok (c, w₁) =>
      if c ≥ n then .ok (some hi, w₁)
      else if hi = firstSeq then .ok (none, w₁)
      else
        match gallop pending n firstSeq loopFuel hi 1 w₁ with
        | .error e => .error e
        | .ok (none, w₂) => .ok (none, w₂)
        | .ok (some (good, bad), w₂) =>
            match bisect pending n loopFuel good bad w₂ with
            | .error e => .error e
            | .ok (start, w₃) => .ok (some start, w₃)

-- ==== pickDeliverPolicy

/-- The start-policy decision tree: the policy and the consumer's
`OptStartSeq` (read only under `byStartSequence`). -/
def pickDeliverPolicy (replay : Int64)
    (startFromSeq firstSeq lastSeq : UInt64) (pending : PendingFunc σ ε)
    (w : σ) : Except (Fault ε) ((DeliverPolicy × UInt64) × σ) :=
  -- a resume point past the stream's end means the stream was reset
  if startFromSeq > 0 ∧ startFromSeq ≤ lastSeq + 1 then
    .ok ((.byStartSequence, startFromSeq), w)
  else if replay ≤ 0 ∨ lastSeq = 0 then .ok ((.new, 0), w)
  else if replay.toUInt64 ≥ lastSeq then .ok ((.all, 0), w)
  else
    match replayStart replay.toUInt64 firstSeq lastSeq pending w with
    | .error e => .error e
    | .ok (none, w') => .ok ((.all, 0), w')
    | .ok (some start, w') => .ok ((.byStartSequence, start), w')

/-- Does a consumer created with this policy deliver the record `m` that
is ALREADY stored when the consumer is created? -/
def selects (d : DeliverPolicy × UInt64) (m : Nat) : Bool :=
  match d.1 with
  | .all => true
  | .new => false
  | .byStartSequence => decide (d.2.toNat ≤ m)

end Tokyo3Base.Journal
