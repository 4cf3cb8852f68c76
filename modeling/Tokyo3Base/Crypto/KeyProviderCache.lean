/-
The cache of unwrapped intermediate keys (crypto/cache.go) as a machine
of concurrent `ForKey` calls, shared unwraps and invalidations.

# The steps of a call

`ForKey` hashes the wrapped key, looks the cache up, copies the wrapped
key and reads the generation, asks singleflight for a flight, and waits
for the flight or for its own context. Each of these is a step; the
shared function that singleflight runs is a sequence of steps of its
own (a second lookup, the root's `Unwrap` from beginning to end, the
clock reading and the locked part of `store`, the landing). Sections
under `mu` are single steps.

# Buffers

A wrapped key is a caller's buffer, read through `heap` until the copy
is made. The caller may overwrite it as soon as no call of its own is
running on it (`borrowed`), with a flight still in the air.

# The ghost history

`History` is what the statements are about and no step reads: how many
events have been numbered, the invalidations with the number of the
event and the generation they moved to, the wrapped keys asked for, and
the completed unwraps. A provider carries the `Origin` of its key: the
bytes given to the root's `Unwrap` and the number of the event at which
that call began.
-/
import Mathlib.Logic.Function.Basic
import Tokyo3Base.Go.Bytes

namespace Tokyo3Base.Crypto

open Go

-- ==== digests

/-- `keyDigest`: an array of `sha256.Size` bytes. -/
abbrev KeyDigest := { d : List UInt8 // d.length = 32 }

/-- `flightKey`: one string for a key id, a generation and a digest. -/
def flightKey (keyID : GoString) (gen : UInt64) (digest : KeyDigest) :
    GoString :=
  appendUint64 (keyID ++ [0]) gen ++ digest.val

-- ==== providers

/-- The root `Unwrap` call a key came from: its argument and the event
at which it began. -/
structure Origin where
  wrapped : GoString
  beganAt : Nat
deriving DecidableEq

/-- `LocalKeyProvider`, with the origin of its key. -/
structure LocalKeyProvider where
  masterKey : GoString
  origin : Origin
deriving DecidableEq

/-- `cacheEntry`, with the clock reading at which it was stored. -/
structure CacheEntry where
  provider : LocalKeyProvider
  wrappedDigest : KeyDigest
  expiresAt : Int
  storedAt : Int

/-- How the root's `Unwrap` ends; `ρ` is the type of its errors and of
the values it panics with. -/
inductive RootOutcome (ρ : Type) where
  | plain (key : GoString)
  | fail (err : ρ)
  | panicked (value : ρ)

/-- The errors of `ForKey`: the caller's context, or `unwrap key: …`
around the root's error or around `root key provider panicked: …`. -/
inductive ForKeyError (ρ : Type) where
  | ctx (err : ρ)
  | unwrapKey (err : ρ)
  | unwrapKeyPanicked (value : ρ)

/-- Where a provider was found: unwrapped by the flight itself, or in
the cache, stored and looked up at these clock readings. -/
inductive Via where
  | unwrap
  | cache (storedAt lookedUpAt : Int)
deriving DecidableEq

/-- A provider, and where it was found. -/
structure Served where
  provider : LocalKeyProvider
  via : Via
deriving DecidableEq

variable {ρ : Type}

/-- `KeyProviderCache.unwrap`, as the shared function uses it: a panic
of the root becomes an error. -/
def unwrap (origin : Origin) : RootOutcome ρ →
    Except (ForKeyError ρ) LocalKeyProvider
  | .plain key => .ok ⟨key, origin⟩
  | .fail err => .error (.unwrapKey err)
  | .panicked value => .error (.unwrapKeyPanicked value)

-- ==== flights

inductive FlightPhase (ρ : Type) where
  | recheck
  | begin
  | running (origin : Origin)
  | stamp (provider : LocalKeyProvider)
  | store (provider : LocalKeyProvider) (now : Int)
  | done (result : Except (ForKeyError ρ) Served)
  | landed (result : Except (ForKeyError ρ) Served)

/-- What the shared function closes over. -/
structure Task where
  keyID : GoString
  digest : KeyDigest
  wrapped : GoString
  gen : UInt64

/-- The key under which singleflight runs it. -/
def Task.key (t : Task) : GoString := flightKey t.keyID t.gen t.digest

/-- A singleflight call: its function's closure, and where it is. -/
structure Flight (ρ : Type) where
  task : Task
  phase : FlightPhase ρ

-- ==== calls

/-- A running `ForKey`: its arguments and the digest; and, not read by
any step, the bytes of its buffer and the event at which it began. -/
structure Ask where
  keyID : GoString
  buf : Nat
  digest : KeyDigest
  wrapped : GoString
  beganAt : Nat

inductive Phase (ρ : Type) where
  | idle
  | lookup (a : Ask)
  | missed (a : Ask)
  | join (a : Ask) (wrapped : GoString) (gen : UInt64)
  | wait (a : Ask) (flight : Nat)
  | returned (a : Ask) (result : Except (ForKeyError ρ) Served)
  | root (keyID : GoString)

-- ==== history

/-- An `Invalidate`: the event, and the generation it moved to. -/
structure Invalidation where
  keyID : GoString
  time : Nat
  after : Nat
deriving DecidableEq

/-- A completed root `Unwrap`. -/
structure Unwrapped where
  origin : Origin
  plain : GoString
deriving DecidableEq

structure History where
  events : Nat
  invalidations : List Invalidation
  asked : List GoString
  unwraps : List Unwrapped

-- ==== state

structure World (ρ : Type) where
  clock : Int
  heap : Nat → GoString
  borrowed : Nat → List Nat
  entries : GoString → Option CacheEntry
  generation : UInt64
  unwrapFlights : GoString → Option Nat
  flights : Nat → Option (Flight ρ)
  calls : Nat → Phase ρ
  history : History

def World.init : World ρ where
  clock := 0
  heap := fun _ => []
  borrowed := fun _ => []
  entries := fun _ => none
  generation := 0
  unwrapFlights := fun _ => none
  flights := fun _ => none
  calls := fun _ => .idle
  history := ⟨0, [], [], []⟩

/-- `KeyProviderCache.lookup`. -/
def World.lookup (w : World ρ) (keyID : GoString) (digest : KeyDigest) :
    Option Served :=
  match w.entries keyID with
  | none => none
  | some e =>
      if e.wrappedDigest = digest ∧ w.clock < e.expiresAt then
        some ⟨e.provider, .cache e.storedAt w.clock⟩
      else none

/-- The locked part of `KeyProviderCache.store`, on the entries: expired
ones go, and the new one comes with a positive `ttl`. -/
def purgeAndStore (ttl : Int) (entries : GoString → Option CacheEntry)
    (keyID : GoString) (digest : KeyDigest) (provider : LocalKeyProvider)
    (now : Int) : GoString → Option CacheEntry :=
  let live := fun id => (entries id).filter fun e => now < e.expiresAt
  if ttl > 0 then
    Function.update live keyID (some
      { provider := provider, wrappedDigest := digest,
        expiresAt := now + ttl, storedAt := now })
  else live

def World.setCall (w : World ρ) (c : Nat) (p : Phase ρ) : World ρ :=
  { w with calls := Function.update w.calls c p }

/-- The call returns, and its caller may use the buffer again. -/
def World.answer (w : World ρ) (c : Nat) (a : Ask)
    (result : Except (ForKeyError ρ) Served) : World ρ :=
  { w with
    calls := Function.update w.calls c (.returned a result)
    borrowed := Function.update w.borrowed a.buf
      ((w.borrowed a.buf).filter (· != c)) }

/-- A flight moves on. -/
def World.setFlight (w : World ρ) (i : Nat) (t : Task)
    (p : FlightPhase ρ) : World ρ :=
  { w with flights := Function.update w.flights i (some ⟨t, p⟩) }

-- ==== machine

inductive Action (ρ : Type) where
  | tick (now : Int)
  | overwrite (buf : Nat) (bytes : GoString)
  | invalidate (keyID : GoString)
  | begin (c : Nat) (keyID : GoString) (wrappedKey : Option Nat)
  | lookup (c : Nat)
  | readGeneration (c : Nat)
  | doChan (c : Nat) (i : Nat)
  | receive (c : Nat)
  | ctxDone (c : Nat) (err : ρ)
  | recheck (i : Nat)
  | unwrapBegin (i : Nat)
  | unwrapEnd (i : Nat) (o : RootOutcome ρ)
  | stamp (i : Nat)
  | store (i : Nat)
  | land (i : Nat)

/-- One step. `sha256` is the digest function, `ttl` the cache's. -/
def step (sha256 : GoString → KeyDigest) (ttl : Int) :
    Action ρ → World ρ → Option (World ρ)
  | .tick now, w => some { w with clock := now }
  | .overwrite buf bytes, w =>
      if w.borrowed buf = [] then
        some { w with heap := Function.update w.heap buf bytes }
      else none
  | .invalidate keyID, w =>
      some { w with
        generation := w.generation + 1
        entries := Function.update w.entries keyID none
        history := { w.history with
          events := w.history.events + 1
          invalidations :=
            { keyID := keyID, time := w.history.events,
              after := w.history.invalidations.length + 1 }
              :: w.history.invalidations } }
  | .begin c keyID wrappedKey, w =>
      match w.calls c, wrappedKey with
      -- a nil wrapped key is answered with the root provider
      | .idle, none => some (w.setCall c (.root keyID))
      | .idle, some buf =>
          some { w.setCall c (.lookup
              { keyID := keyID, buf := buf, digest := sha256 (w.heap buf),
                wrapped := w.heap buf, beganAt := w.history.events }) with
            borrowed := Function.update w.borrowed buf
              (c :: w.borrowed buf)
            history := { w.history with
              events := w.history.events + 1
              asked := w.heap buf :: w.history.asked } }
      | _, _ => none
  | .lookup c, w =>
      match w.calls c with
      | .lookup a =>
          match w.lookup a.keyID a.digest with
          | some served => some (w.answer c a (.ok served))
          | none => some (w.setCall c (.missed a))
      | _ => none
  | .readGeneration c, w =>
      match w.calls c with
      -- the copy is made here: the caller cannot write while it waits
      | .missed a =>
          some (w.setCall c (.join a (w.heap a.buf) w.generation))
      | _ => none
  | .doChan c i, w =>
      match w.calls c with
      | .join a wrapped gen =>
          let t : Task :=
            { keyID := a.keyID, digest := a.digest, wrapped := wrapped,
              gen := gen }
          match w.unwrapFlights t.key with
          | some running => some (w.setCall c (.wait a running))
          | none =>
              match w.flights i with
              | some _ => none
              | none =>
                  some { (w.setFlight i t .recheck).setCall c (.wait a i) with
                    unwrapFlights :=
                      Function.update w.unwrapFlights t.key (some i) }
      | _ => none
  | .receive c, w =>
      match w.calls c with
      | .wait a i =>
          match w.flights i with
          | some ⟨_, .landed result⟩ => some (w.answer c a result)
          | _ => none
      | _ => none
  | .ctxDone c err, w =>
      match w.calls c with
      | .wait a _ => some (w.answer c a (.error (.ctx err)))
      | _ => none
  | .recheck i, w =>
      match w.flights i with
      | some ⟨t, .recheck⟩ =>
          match w.lookup t.keyID t.digest with
          | some served => some (w.setFlight i t (.done (.ok served)))
          | none => some (w.setFlight i t .begin)
      | _ => none
  | .unwrapBegin i, w =>
      match w.flights i with
      | some ⟨t, .begin⟩ =>
          some { w.setFlight i t
              (.running ⟨t.wrapped, w.history.events⟩) with
            history := { w.history with
              events := w.history.events + 1 } }
      | _ => none
  | .unwrapEnd i o, w =>
      match w.flights i with
      | some ⟨t, .running origin⟩ =>
          match unwrap origin o with
          | .error e => some (w.setFlight i t (.done (.error e)))
          | .ok provider =>
              some { w.setFlight i t (.stamp provider) with
                history := { w.history with
                  unwraps := ⟨origin, provider.masterKey⟩
                    :: w.history.unwraps } }
      | _ => none
  | .stamp i, w =>
      match w.flights i with
      | some ⟨t, .stamp provider⟩ =>
          some (w.setFlight i t (.store provider w.clock))
      | _ => none
  | .store i, w =>
      match w.flights i with
      | some ⟨t, .store provider now⟩ =>
          let landing := w.setFlight i t (.done (.ok ⟨provider, .unwrap⟩))
          if t.gen ≠ w.generation then some landing
          else
            some { landing with
              entries := purgeAndStore ttl w.entries t.keyID t.digest
                provider now }
      | _ => none
  | .land i, w =>
      match w.flights i with
      | some ⟨t, .done result⟩ =>
          some { w.setFlight i t (.landed result) with
            unwrapFlights :=
              if w.unwrapFlights t.key = some i then
                Function.update w.unwrapFlights t.key none
              else w.unwrapFlights }
      | _ => none

end Tokyo3Base.Crypto
