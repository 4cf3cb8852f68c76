/-
`ratelimit.Limiter` (ratelimit/ratelimit.go): one token bucket per
source, in a map that is swept of idle buckets and that does not grow
beyond a bound.

# What is modelled

`New`, `allow`, `warnDue` and `sweepLocked`, with the zero time as
"never" where the source uses it so. The map is a `Lib.Table`: the
source iterates over it only to delete, so the order does not matter.
`golang.org/x/time/rate` is `Lib.TokenBucket`, exact and full at first;
rates are rational numbers, of which every finite `float64` is one.

`allow` decides under the mutex which bucket a request is charged to
(`resolve`) and then charges it (`charge`). Calls are taken one after
the other.

Left out: what `Middleware` does with the answer, and the key it
computes for a request.
-/
import Mathlib.Data.Rat.Defs
import Mathlib.Algebra.Field.Rat
import Mathlib.Algebra.Order.Ring.Unbundled.Rat
import Tokyo3Base.Go.Bytes
import Tokyo3Base.Go.Time
import Tokyo3Base.Lib.Table
import Tokyo3Base.Lib.TokenBucket

namespace Tokyo3Base.RateLimit

open Go Lib

-- ==== constants

def idleTTL : Int := 15 * minute

def sweepInterval : Int := 5 * minute

def maxBuckets : Nat := 100000

/-- The key of the bucket that sources share once the map is full. -/
def overflowKey : GoString := ascii "overflow"

def warnInterval : Int := minute

-- ==== the limiter

/-- The fields of `Config` that decide what is admitted. -/
structure Config where
  rps : Rat
  burst : Int

/-- `bucket`: the token bucket of a source, when it was last charged,
and what was last logged about it. -/
structure Bucket where
  lim : TokenBucket Rat
  seen : Int
  lastWarn : Int
  suppressed : Nat

structure Limiter where
  rps : Rat
  burst : Int
  buckets : Table GoString Bucket
  lastSweep : Int
  rps_pos : 0 < rps
  burst_pos : 1 ≤ burst

def new (cfg : Config) : Option Limiter :=
  if h : cfg.rps ≤ 0 then none
  else
    some
      { rps := cfg.rps
        burst := if cfg.burst < 1 then 1 else cfg.burst
        buckets := .empty
        lastSweep := 0
        rps_pos := Rat.not_le.mp h
        burst_pos := by split <;> omega }

/-- An instant for `rate`, in seconds. -/
def seconds (t : Int) : Rat := t / 1000000000

/-- A fresh bucket: `rate.NewLimiter(l.rps, l.burst)`. -/
def Limiter.newBucket (l : Limiter) : Bucket where
  lim := ⟨l.burst, seconds 0⟩
  seen := 0
  lastWarn := 0
  suppressed := 0

/-- Whether `sweepLocked` makes a pass. -/
def Limiter.sweepDue (l : Limiter) (now : Int) : Bool :=
  isZero l.lastSweep || sweepInterval ≤ sub now l.lastSweep

def Limiter.sweepLocked (l : Limiter) (now : Int) : Limiter :=
  if l.sweepDue now then
    { l with
      lastSweep := now
      buckets := l.buckets.retain fun _ b =>
        !decide (idleTTL < sub now b.seen) }
  else l

/-- The first part of `allow`: the limiter after a sweep, if there was
one, and the key and the bucket that the request is charged to. -/
def Limiter.resolve (l : Limiter) (key : GoString) (now : Int) :
    Limiter × GoString × Bucket :=
  match l.buckets.get key with
  | some b => (l, key, b)
  | none =>
      let l' := l.sweepLocked now
      if maxBuckets ≤ l'.buckets.size then
        (l', overflowKey,
          (l'.buckets.get overflowKey).getD l'.newBucket)
      else (l', key, l'.newBucket)

/-- The second part: the bucket is marked as used and asked for a
token. -/
def Limiter.charge (l : Limiter) (key : GoString) (b : Bucket)
    (now : Int) : Bool × Limiter :=
  let r := b.lim.take l.rps l.burst (seconds now)
  (r.1, { l with
    buckets := l.buckets.set key { b with lim := r.2, seen := now } })

def Limiter.allow (l : Limiter) (key : GoString) (now : Int) :
    Bool × Limiter :=
  let r := l.resolve key now
  r.1.charge r.2.1 r.2.2 now

/-- The key whose bucket `warnDue` looks at, and the bucket. -/
def Limiter.warned (l : Limiter) (key : GoString) :
    Option (GoString × Bucket) :=
  match l.buckets.get key with
  | some b => some (key, b)
  | none => (l.buckets.get overflowKey).map fun b => (overflowKey, b)

/-- `warnDue`: whether a line is due, how many were suppressed before
it, and the limiter afterwards. -/
def Limiter.warnDue (l : Limiter) (key : GoString) (now : Int) :
    (Bool × Nat) × Limiter :=
  match l.warned key with
  | none => ((true, 0), l)
  | some (k, b) =>
      if !isZero b.lastWarn && sub now b.lastWarn < warnInterval then
        ((false, 0), { l with
          buckets := l.buckets.set k
            { b with suppressed := b.suppressed + 1 } })
      else
        ((true, b.suppressed), { l with
          buckets := l.buckets.set k
            { b with lastWarn := now, suppressed := 0 } })

-- ==== the runs

/-- A call, at a time that the caller passes in. -/
inductive Call where
  | allow (key : GoString) (now : Int)
  | warnDue (key : GoString) (now : Int)
deriving DecidableEq

def Call.key : Call → GoString
  | .allow key _ => key
  | .warnDue key _ => key

def Call.time : Call → Int
  | .allow _ now => now
  | .warnDue _ now => now

/-- A limiter and what happened to it: which requests were admitted,
and when each bucket was last charged. The code has the first only. -/
structure Traced where
  limiter : Limiter
  admitted : List (GoString × Int)
  charged : GoString → Option Int

def Traced.step (s : Traced) : Call → Traced
  | .allow key now =>
      { limiter := (s.limiter.allow key now).2
        admitted :=
          if (s.limiter.allow key now).1 then s.admitted ++ [(key, now)]
          else s.admitted
        charged := Function.update s.charged
          (s.limiter.resolve key now).2.1 (some now) }
  | .warnDue key now =>
      { s with limiter := (s.limiter.warnDue key now).2 }

/-- Calls from a limiter that `New` returned. -/
def Limiter.serve (l : Limiter) (calls : List Call) : Traced :=
  calls.foldl Traced.step ⟨l, [], fun _ => none⟩

end Tokyo3Base.RateLimit
