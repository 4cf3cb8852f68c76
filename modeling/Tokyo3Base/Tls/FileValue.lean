/-
The hot-reload state machine behind the certificate and CA loaders
(tls/reloader/reload.go): `fileValue`, generic in the loaded value.

# Pieces and compositions

`get` runs in three parts, with different lock scopes: the stat before
any lock, the settled check under the read lock and again under the
write lock, and the read with its bookkeeping under the write lock.
Each part is a definition of its own (`settledLocked`, `keptLocked`,
`fromKept`, `afterRead`). `get` composes them for one caller at a time;
`Tls/Concurrent.lean` composes the same parts with other callers and
file writers in between.

# Outcomes

The operating system, the clock and the `maxStale` callback enter as
`Outcome`: what stat and read answer during one call, and what
`time.Now` answers at each of the three places the call may ask. All of
it is arbitrary. In particular the zero time is the source's marker for
"no failure run", and nothing here says that a clock cannot read it.
-/
import Tokyo3Base.Go.Time

namespace Tokyo3Base.Tls

open Go

-- ==== the state

/-- `stamp`: the mtime of each file, in file order; `[]` is Go's nil. -/
abbrev Stamp := List Int

/-- `stamp.equal`: the same mtimes, as instants. -/
def Stamp.equal (s o : Stamp) : Bool := s == o

/-- The mutable fields of a `fileValue`. -/
structure FileValue (τ ε : Type) where
  val : τ
  loaded : Bool
  loadedAt : Stamp
  failedAt : Stamp
  statFailed : Bool
  failSince : Int
  failErr : Option ε

/-- The errors `get` returns: the read's own, or the failure that
outlived `maxStale`, which wraps the latest one. -/
inductive GetError (ε : Type) where
  | read (err : ε)
  | keptPast (limit : Int) (cause : Option ε)
deriving DecidableEq

variable {τ ε : Type} [Inhabited τ]

/-- A `fileValue` before its first load. -/
def FileValue.zero : FileValue τ ε where
  val := default
  loaded := false
  loadedAt := []
  failedAt := []
  statFailed := false
  failSince := 0
  failErr := none

-- ==== the decisions

/-- Are the files unchanged since the last load attempt? A failed stat
(`none`) is settled once it has been reported. -/
def FileValue.settledLocked (f : FileValue τ ε) (stat : Option Stamp) :
    Bool :=
  if !f.loaded then false
  else
    match stat with
    | none => f.statFailed
    | some s =>
        if isZero f.failSince then s.equal f.loadedAt
        else s.equal f.failedAt

/-- The kept value, or the failure once failures have lasted longer than
`maxStale`. -/
def FileValue.keptLocked (maxStale : Option Int) (f : FileValue τ ε)
    (now : Int) : τ × Option (GetError ε) :=
  match maxStale with
  | none => (f.val, none)
  | some limit =>
      if limit > 0 ∧ isZero f.failSince = false
          ∧ sub now f.failSince > limit then
        (default, some (.keptPast limit f.failErr))
      else (f.val, none)

/-- The mtime gate, as it stands under the read lock and once more under
the write lock: what a settled, non-forced call returns. -/
def FileValue.fromKept (maxStale : Option Int) (f : FileValue τ ε)
    (forced : Bool) (stat : Option Stamp) (now : Int) :
    Option (τ × Option (GetError ε)) :=
  if !forced && f.settledLocked stat then some (f.keptLocked maxStale now)
  else none

/-- The observation hooks of a call, run outside the lock. -/
inductive Hook (ε : Type) where
  | swapped (mtime : Int)
  | failed (err : ε)
deriving DecidableEq

/-- What a call returns and reports. -/
structure Result (τ ε : Type) where
  value : τ
  err : Option (GetError ε)
  hook : Option (Hook ε)

/-- Everything `get` does with the outcome of its read: bookkeeping under
the write lock, the hook, and the returned pair. `nowFail` is read only
when a failure run begins, `nowAfter` when its age is checked. -/
def FileValue.afterRead (maxStale : Option Int) (f : FileValue τ ε)
    (forced : Bool) (stat : Option Stamp) (read : Except ε τ)
    (nowFail nowAfter : Int) : Result τ ε × FileValue τ ε :=
  match read with
  | .error e =>
      if !f.loaded then
        ({ value := default, err := some (.read e), hook := none }, f)
      else
        let f' := { f with
          failedAt := stat.getD []
          statFailed := stat.isNone
          failSince := if isZero f.failSince then nowFail else f.failSince
          failErr := some e }
        let kept := f'.keptLocked maxStale nowAfter
        if forced then
          ({ value := kept.1, err := some (.read e), hook := none }, f')
        else
          ({ value := kept.1, err := kept.2, hook := some (.failed e) }, f')
  | .ok v =>
      ({ value := v, err := none,
         hook := some (.swapped ((stat.getD []).headD 0)) },
       { val := v
         loaded := true
         loadedAt := stat.getD f.loadedAt
         failedAt := []
         statFailed := false
         failSince := 0
         failErr := none })

-- ==== get

/-- What the environment answers during one call: a failed stat is
`none`, and so is the limit of a `fileValue` without a `maxStale`. -/
structure Outcome (τ ε : Type) where
  stat : Option Stamp
  maxStale : Option Int
  read : Except ε τ
  nowKept : Int
  nowFail : Int
  nowAfter : Int

/-- `fileValue.get`, one caller at a time. -/
def FileValue.get (forced : Bool) (o : Outcome τ ε)
    (f : FileValue τ ε) : Result τ ε × FileValue τ ε :=
  match f.fromKept o.maxStale forced o.stat o.nowKept with
  | some kept => ({ value := kept.1, err := kept.2, hook := none }, f)
  | none =>
      -- nobody came in between, so the check under the write lock agrees
      f.afterRead o.maxStale forced o.stat o.read o.nowFail o.nowAfter

end Tokyo3Base.Tls
