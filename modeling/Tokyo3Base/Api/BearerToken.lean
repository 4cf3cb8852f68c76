/-
`BearerTokenManager` (`api/bearer_token.go`): a bearer token that any
number of `GetToken` calls share, and the refreshes that replace it.

# Granularity

What the code does under the manager's lock is one step: the fast path
under the read lock, the decision under the write lock, the bookkeeping
of a refresh. So is each of its other actions: a wake-up from the
`select`, a clock reading outside the lock, the start and the end of a
`Refresher` call and of the hook, the `close`. The leader's `go`
statement is part of its decision, since the goroutine may start at any
time after it.

# What a refresh may do

The `Refresher` may return anything, panic, or end its goroutine
(`runtime.Goexit`); the hook likewise. A panic is recovered; an exit is
not, and the goroutine is gone. Neither has to end at all: then there is
simply no such event.

# The clock

A step that reads the clock says what it read. `clock` is the latest
reading of anyone; whether readings may go back is left to the
statements.

# Bookkeeping

A call remembers how many tokens were stored when it began (`since`),
what it read from the clock and what it found held. `stored` lists the
tokens of successful refreshes, `log` when each refresh failed or
succeeded. None of these is read by the code.
-/
import Mathlib.Logic.Function.Basic
import Tokyo3Base.Go.Bytes
import Tokyo3Base.Go.Time
import Tokyo3Base.Lib.Run

namespace Tokyo3Base.Api

open Go

def minRefreshRetry : Int := second

def maxRefreshRetry : Int := 30 * second

-- ==== the manager

/-- The manager. `inflight` names the refresh by its number. -/
structure BearerTokenManager where
  token : GoString
  expiresAt : Int
  hasRefresher : Bool
  hasHook : Bool
  inflight : Option Nat
  nextAttempt : Int
  lifetime : Int
  lastErr : Option GoString

/-- A manager as it is set up before the first call. -/
def BearerTokenManager.seed (token : GoString) (expiresAt : Int)
    (hasRefresher hasHook : Bool) : BearerTokenManager where
  token := token
  expiresAt := expiresAt
  hasRefresher := hasRefresher
  hasHook := hasHook
  inflight := none
  nextAttempt := 0
  lifetime := 0
  lastErr := none

/-- The buffer that `fresh` adds: one longer than half of the lifetime is
clamped to it. -/
def BearerTokenManager.clamp (tm : BearerTokenManager) (buffer : Int) :
    Int :=
  if buffer < 0 ∧ 0 < tm.lifetime then
    max buffer ((-tm.lifetime).tdiv 2)
  else buffer

/-- The clamp, without Go's rounding towards zero. -/
theorem BearerTokenManager.clamp_eq {tm : BearerTokenManager}
    {buffer : Int} (hneg : buffer < 0) (hlife : 0 < tm.lifetime) :
    tm.clamp buffer = max buffer (-(tm.lifetime / 2)) := by
  unfold BearerTokenManager.clamp
  rw [if_pos ⟨hneg, hlife⟩, Int.neg_tdiv,
    Int.tdiv_eq_ediv_of_nonneg (Int.le_of_lt hlife)]

def BearerTokenManager.fresh (tm : BearerTokenManager)
    (buffer now : Int) : Bool :=
  now < tm.expiresAt + tm.clamp buffer

/-- `usable`: refresh due, token not expired. -/
def usable (token : GoString) (expiresAt now : Int) : Bool :=
  token ≠ [] ∧ now < expiresAt

/-- What a call does after its turn under the write lock. -/
inductive Decision where
  | ret (r : Except GoString GoString)
  | join (id : Nat)
  | lead

/-- `errors.New` of a call without a refresher. -/
def errNoRefresher : GoString :=
  ascii "api: bearer token expired and no refresher configured"

/-- The error of a call while a failed refresh is backed off from. -/
def errBackingOff (lastErr : Option GoString) : GoString :=
  ascii "api: bearer token expired and refresh is backing off: "
    ++ lastErr.getD (ascii "%!w(<nil>)")

/-- The part of `GetToken` under the write lock; `now₁` is the reading
of `fresh`, `now₂` the one after it. -/
def BearerTokenManager.decision (tm : BearerTokenManager)
    (buffer now₁ now₂ : Int) : Decision :=
  if tm.fresh buffer now₁ then .ret (.ok tm.token)
  else
    let usable := usable tm.token tm.expiresAt now₂
    match tm.inflight with
    | some id => if usable then .ret (.ok tm.token) else .join id
    | none =>
        if tm.hasRefresher = false then
          if usable then .ret (.ok tm.token)
          else .ret (.error errNoRefresher)
        else if now₂ < tm.nextAttempt then
          if usable then .ret (.ok tm.token)
          else .ret (.error (errBackingOff tm.lastErr))
        else .lead

/-- How a `Refresher` ended, other than by ending its goroutine. -/
inductive RefresherEnd where
  | returned (token : GoString) (expiresAt : Int) (err : Option GoString)
  | panicked (value : GoString)

/-- What `runRefresh` makes of it: a token and its expiry, or an
error. -/
def RefresherEnd.result : RefresherEnd → Except GoString (GoString × Int)
  | .panicked value =>
      .error (ascii "api: bearer token refresher panicked: " ++ value)
  | .returned _ _ (some err) => .error err
  | .returned token expiresAt none =>
      if token = [] then
        .error (ascii "api: bearer token refresher returned an empty token")
      else .ok (token, expiresAt)

/-- The pause after a failed refresh. -/
def retryPause (remaining : Int) : Int :=
  min (max (remaining.tdiv 2) minRefreshRetry) maxRefreshRetry

/-- The bookkeeping of `runRefresh` under the lock. -/
def BearerTokenManager.store (tm : BearerTokenManager)
    (result : Except GoString (GoString × Int)) (now : Int) :
    BearerTokenManager :=
  match result with
  | .ok (token, expiresAt) =>
      { tm with
        token := token
        expiresAt := expiresAt
        lifetime := sub expiresAt now
        nextAttempt := 0
        lastErr := none
        inflight := none }
  | .error err =>
      { tm with
        lastErr := some err
        nextAttempt := now + retryPause (sub tm.expiresAt now)
        inflight := none }

-- ==== the refreshes

/-- Where a refresh is. -/
inductive RefreshPhase where
  | unmade
  /-- the goroutine has been started -/
  | spawned
  /-- the `Refresher` is running -/
  | running
  | finished (result : Except GoString (GoString × Int))
  /-- the hook is running, with these arguments -/
  | reporting (err : GoString) (stillValid : Bool)
  | closing
  | ended
  /-- the goroutine was ended by the `Refresher` or by the hook; the
  outcome had been stored or not -/
  | exited (stored : Bool)

/-- `refreshCall`, with the number of times `done` was closed. -/
structure Refresh where
  phase : RefreshPhase
  err : Option GoString
  closes : Nat

/-- When a refresh failed or succeeded, and with which expiry. -/
inductive Outcome where
  | failed (t : Int)
  | succeeded (t expiresAt : Int)
deriving DecidableEq

/-- The manager, its refreshes, and the bookkeeping. -/
structure Shared where
  tm : BearerTokenManager
  refreshes : Nat → Refresh
  made : Nat
  clock : Int
  stored : List GoString
  log : List Outcome

def Shared.init (tm : BearerTokenManager) (clock : Int) : Shared where
  tm := tm
  refreshes := fun _ => ⟨.unmade, none, 0⟩
  made := 0
  clock := clock
  stored := []
  log := []

def Shared.setRefresh (sh : Shared) (id : Nat) (r : Refresh) : Shared :=
  { sh with refreshes := Function.update sh.refreshes id r }

/-- Refresh `id` goes on to this phase. -/
def Shared.move (sh : Shared) (id : Nat) (ph : RefreshPhase) : Shared :=
  sh.setRefresh id { sh.refreshes id with phase := ph }

inductive RefreshEvent where
  | start (now : Int)
  | refresherEnds (r : RefresherEnd)
  | refresherExits
  | store (now : Int)
  /-- the hook returned, or panicked -/
  | hookEnds
  | hookExits
  | close

/-- What happened, for the log. -/
def outcomeOf (result : Except GoString (GoString × Int)) (now : Int) :
    Outcome :=
  match result with
  | .ok r => .succeeded now r.2
  | .error _ => .failed now

/-- The token that a result stores. -/
def storedBy (result : Except GoString (GoString × Int)) :
    List GoString :=
  match result with
  | .ok r => [r.1]
  | .error _ => []

/-- What follows the bookkeeping: the hook, or the `close`. -/
def afterStore (tm : BearerTokenManager)
    (result : Except GoString (GoString × Int)) (now : Int) :
    RefreshPhase :=
  match result with
  | .ok _ => .closing
  | .error err =>
      if tm.hasHook then
        .reporting err (usable tm.token tm.expiresAt now)
      else .closing

/-- The error that the waiters will see. -/
def errOf (result : Except GoString (GoString × Int)) :
    Option GoString :=
  match result with
  | .ok _ => none
  | .error err => some err

/-- `runRefresh`, its part under the lock. -/
def Shared.store (sh : Shared) (id : Nat)
    (result : Except GoString (GoString × Int)) (now : Int) : Shared :=
  { sh with
    tm := sh.tm.store result now
    refreshes := Function.update sh.refreshes id
      { sh.refreshes id with
        phase := afterStore (sh.tm.store result now) result now
        err := errOf result }
    clock := now
    stored := sh.stored ++ storedBy result
    log := sh.log ++ [outcomeOf result now] }

def Shared.refresh (sh : Shared) (id : Nat) (e : RefreshEvent) :
    Option Shared :=
  match (sh.refreshes id).phase with
  | .spawned =>
      match e with
      | .start now => some { sh.move id .running with clock := now }
      | _ => none
  | .running =>
      match e with
      | .refresherEnds r => some (sh.move id (.finished r.result))
      | .refresherExits => some (sh.move id (.exited false))
      | _ => none
  | .finished result =>
      match e with
      | .store now => some (sh.store id result now)
      | _ => none
  | .reporting _ _ =>
      match e with
      | .hookEnds => some (sh.move id .closing)
      | .hookExits => some (sh.move id (.exited true))
      | _ => none
  | .closing =>
      match e with
      | .close => some (sh.setRefresh id
          { sh.refreshes id with
            phase := .ended
            closes := (sh.refreshes id).closes + 1 })
      | _ => none
  | .unmade | .ended | .exited _ => none

-- ==== GetToken

/-- What a call was given, and what it has seen so far. -/
structure Call where
  buffer : Int
  since : Nat
  readings : List Int
  found : List (GoString × Int)
deriving DecidableEq

/-- The call reads the clock. -/
def Call.reads (c : Call) (now : Int) : Call :=
  { c with readings := c.readings ++ [now] }

/-- The call looks at what the manager holds. -/
def Call.finds (c : Call) (tm : BearerTokenManager) : Call :=
  { c with found := c.found ++ [(tm.token, tm.expiresAt)] }

/-- Where a call of `GetToken` is. -/
inductive CallPhase where
  | idle
  | begun (c : Call)
  | slow (c : Call)
  | waiting (c : Call) (id : Nat) (stale : GoString) (staleExpiry : Int)
  | failed (c : Call) (err stale : GoString) (staleExpiry : Int)
  | reread (c : Call)
  | returned (c : Call) (r : Except GoString GoString) (ctxEnded : Bool)

inductive CallEvent where
  /-- the call, with the buffer in its context if there is one -/
  | getToken (value : Option Int)
  | fastPath (now : Int)
  | slowPath (now₁ now₂ : Int)
  /-- `<-call.done` -/
  | released
  /-- `<-ctx.Done()` -/
  | ctxDone (err : GoString)
  | judge (now : Int)
  | reread

/-- The default buffer: five minutes before the expiry. -/
def defaultBuffer : Int := -5 * minute

/-- A new refresh, owned by the call that decided on it. -/
def Shared.lead (sh : Shared) : Shared :=
  { sh with
    tm := { sh.tm with inflight := some sh.made }
    refreshes := Function.update sh.refreshes sh.made ⟨.spawned, none, 0⟩
    made := sh.made + 1 }

/-- What follows the part under the write lock. -/
def Shared.decided (sh : Shared) (c : Call) (d : Decision) :
    Shared × CallPhase :=
  match d with
  | .ret r => (sh, .returned c r false)
  | .join id => (sh, .waiting c id sh.tm.token sh.tm.expiresAt)
  | .lead =>
      (sh.lead, .waiting c sh.made sh.tm.token sh.tm.expiresAt)

def Shared.call (sh : Shared) (ph : CallPhase) (e : CallEvent) :
    Option (Shared × CallPhase) :=
  match ph with
  | .idle =>
      match e with
      | .getToken value => some (sh, .begun
          ⟨value.getD defaultBuffer, sh.stored.length, [], []⟩)
      | _ => none
  | .begun c =>
      match e with
      | .fastPath now =>
          let c := (c.reads now).finds sh.tm
          some ({ sh with clock := now },
            if sh.tm.fresh c.buffer now then
              .returned c (.ok sh.tm.token) false
            else .slow c)
      | _ => none
  | .slow c =>
      match e with
      | .slowPath now₁ now₂ =>
          let c := ((c.reads now₁).reads now₂).finds sh.tm
          some ({ sh with clock := now₂ }.decided c
            (sh.tm.decision c.buffer now₁ now₂))
      | _ => none
  | .waiting c id stale staleExpiry =>
      match e with
      | .released =>
          if (sh.refreshes id).closes = 0 then none
          else some (sh, match (sh.refreshes id).err with
            | some err => .failed c err stale staleExpiry
            | none => .reread c)
      | .ctxDone err => some (sh, .returned c (.error err) true)
      | _ => none
  | .failed c err stale staleExpiry =>
      match e with
      | .judge now => some ({ sh with clock := now },
          .returned (c.reads now)
            (if usable stale staleExpiry now then .ok stale
              else .error err) false)
      | _ => none
  | .reread c =>
      match e with
      | .reread => some (sh, .returned c (.ok sh.tm.token) false)
      | _ => none
  | .returned _ _ _ => none

-- ==== the system

structure World where
  shared : Shared
  calls : Nat → CallPhase

inductive Event where
  | call (p : Nat) (e : CallEvent)
  | refresh (id : Nat) (e : RefreshEvent)

def World.init (tm : BearerTokenManager) (clock : Int) : World :=
  ⟨.init tm clock, fun _ => .idle⟩

/-- One event of a call or of a refresh. -/
def step (e : Event) (w : World) : Option World :=
  match e with
  | .call p e =>
      (w.shared.call (w.calls p) e).map fun r =>
        ⟨r.1, Function.update w.calls p r.2⟩
  | .refresh id e =>
      (w.shared.refresh id e).map fun sh => { w with shared := sh }

/-- The clock readings of a call's event, in order. -/
def CallEvent.readings : CallEvent → List Int
  | .fastPath now => [now]
  | .slowPath now₁ now₂ => [now₁, now₂]
  | .judge now => [now]
  | _ => []

/-- The clock readings of a refresh's event. -/
def RefreshEvent.readings : RefreshEvent → List Int
  | .start now => [now]
  | .store now => [now]
  | _ => []

/-- The clock readings of an event, in order. -/
def Event.readings : Event → List Int
  | .call _ e => e.readings
  | .refresh _ e => e.readings

end Tokyo3Base.Api
