/-
`sse.Limits` (journal/sse/limits.go): how many event streams may be open at
once, in all and for one client.

# What is modelled

`NewLimits`, `acquire` and the release function that it returns. A slot is
such a release function: the key it has captured, and its `sync.Once`. The
map is a `Lib.Table`, in which a key without an entry reads as 0; deleting
keeps all other keys.

# Concurrency

Both critical sections hold the mutex from the first access to the last,
so each is one action. An invocation of a release function is two: it
enters the `Once`, and later the body runs. In between, other invocations
of the same function wait, and later ones return at once.

The counters are integers without a bound. With a cap they cannot pass
it; without one it would take `2^63` slots that are never released.

Left out: `reject`, and the `Limits` that is nil and allows everything.
-/
import Tokyo3Base.Go.Bytes
import Tokyo3Base.Go.Time
import Tokyo3Base.Lib.Table

namespace Tokyo3Base.Journal

open Go Lib

variable {ρ : Type}

-- ==== configuration

def defaultRetryAfter : Int := 10 * second

/-- `LimitsConfig`, for requests `ρ`; 0 is unlimited. -/
structure LimitsConfig (ρ : Type) where
  maxStreams : Int
  maxPerClient : Int
  clientKey : Option (ρ → GoString)
  retryAfter : Int

/-- A configuration as `NewLimits` leaves it. -/
structure Limits (ρ : Type) extends LimitsConfig ρ where
  maxStreams_nonneg : 0 ≤ maxStreams
  maxPerClient_nonneg : 0 ≤ maxPerClient
  clientKey_isSome : 0 < maxPerClient → clientKey.isSome = true
  retryAfter_pos : 0 < retryAfter

def newLimits (cfg : LimitsConfig ρ) : Except GoString (Limits ρ) :=
  if hneg : cfg.maxStreams < 0 ∨ cfg.maxPerClient < 0 then
    .error (ascii "sse: limits must not be negative")
  else if hkey : 0 < cfg.maxPerClient ∧ cfg.clientKey.isSome = false then
    .error (ascii "sse: ClientKey is required when MaxPerClient is set")
  else .ok
    { cfg with
      retryAfter :=
        if cfg.retryAfter ≤ 0 then defaultRetryAfter else cfg.retryAfter
      maxStreams_nonneg := by omega
      maxPerClient_nonneg := by omega
      clientKey_isSome := fun h => by
        cases hsome : cfg.clientKey.isSome with
        | true => rfl
        | false => exact absurd ⟨h, hsome⟩ hkey
      retryAfter_pos := by
        split
        · decide
        · omega }

/-- The key that a request is counted under. -/
def Limits.key (l : Limits ρ) (r : ρ) : GoString :=
  if h : 0 < l.maxPerClient then
    l.clientKey.get (l.clientKey_isSome h) r
  else []

-- ==== the state

/-- The `sync.Once` of a release function. -/
inductive Once where
  | fresh
  | running
  | done
deriving DecidableEq

/-- A release function. -/
structure Slot where
  key : GoString
  once : Once
deriving DecidableEq

/-- The counters, and the release functions handed out, oldest first. -/
structure LimitsState where
  total : Int
  perClient : Table GoString Int
  slots : List Slot

def LimitsState.init : LimitsState := ⟨0, .empty, []⟩

/-- Reading `perClient[key]`. -/
def LimitsState.client (s : LimitsState) (key : GoString) : Int :=
  (s.perClient.get key).getD 0

/-- `limitScope`: the cap that refused a stream. -/
inductive LimitScope where
  | global
  | client
deriving DecidableEq

-- ==== the calls

/-- `acquire`: the number of the release function, or the cap hit. -/
def Limits.acquire (l : Limits ρ) (r : ρ) (s : LimitsState) :
    Except LimitScope Nat × LimitsState :=
  let key := l.key r
  if 0 < l.maxStreams ∧ l.maxStreams ≤ s.total then (.error .global, s)
  else if 0 < l.maxPerClient ∧ l.maxPerClient ≤ s.client key then
    (.error .client, s)
  else (.ok s.slots.length,
    { total := s.total + 1
      perClient :=
        if 0 < l.maxPerClient then
          s.perClient.set key (s.client key + 1)
        else s.perClient
      slots := s.slots ++ [⟨key, .fresh⟩] })

/-- The map after the count of a key went down by one. -/
def LimitsState.decremented (s : LimitsState) (key : GoString) :
    Table GoString Int :=
  let counts := s.perClient.set key (s.client key - 1)
  if (counts.get key).getD 0 ≤ 0 then
    counts.retain fun k _ => decide (k ≠ key)
  else counts

/-- The body of the release function `i`. -/
def Limits.releaseBody (l : Limits ρ) (i : Nat) (key : GoString)
    (s : LimitsState) : LimitsState where
  total := s.total - 1
  perClient :=
    if 0 < l.maxPerClient then s.decremented key else s.perClient
  slots := s.slots.set i ⟨key, .done⟩

/-- What can happen to a `Limits`. -/
inductive LimitsAction (ρ : Type) where
  | acquire (r : ρ)
  | release (i : Nat)
  | body (i : Nat)

/-- One action; `none` where it cannot happen. -/
def Limits.step (l : Limits ρ) (a : LimitsAction ρ) (s : LimitsState) :
    Option LimitsState :=
  match a with
  | .acquire r => some (l.acquire r s).2
  | .release i =>
      s.slots[i]?.map fun slot =>
        match slot.once with
        | .fresh => { s with slots := s.slots.set i ⟨slot.key, .running⟩ }
        -- waits for the body, or returns at once
        | .running => s
        | .done => s
  | .body i =>
      s.slots[i]?.bind fun slot =>
        match slot.once with
        | .running => some (l.releaseBody i slot.key s)
        | .fresh => none
        | .done => none

end Tokyo3Base.Journal
