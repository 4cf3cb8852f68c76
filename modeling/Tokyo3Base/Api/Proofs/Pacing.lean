/-
How often the `Refresher` is called, and that every refresh lets its
waiters go.

# The argument

With a clock that does not go back, each outcome in the log forbids a
call of the `Refresher` for a while: a failure for a second, a success
for half of the new token's lifetime. While a refresh is in flight, the
clock is past all of these (`Allowed`). When it stores its outcome, the
new entry is remembered by the manager: a failure in `nextAttempt`, a
success in `expiresAt` and `lifetime`, from which `fresh` computes its
clamp. The next leader has to get past both (`Paced`).

`done` is closed once a refresh has come to its end. A `Refresher` or a
hook that ends its goroutine (`runtime.Goexit`) is the one way to a
refresh that is over without that.
-/
import Tokyo3Base.Api.Proofs.Flight

namespace Tokyo3Base.Api

open Go

variable {sh sh' : Shared}

-- ==== the pace

/-- This outcome does not forbid a call of the `Refresher` at this
time: a failure does for a second, a success for half of the new token's
lifetime. -/
def Outcome.Allows (o : Outcome) (now : Int) : Prop :=
  match o with
  | .failed t => t + minRefreshRetry ≤ now
  | .succeeded t expiresAt =>
      t < expiresAt → t + (expiresAt - t) / 2 ≤ now

/-- Nothing in the log does. -/
def Allowed (log : List Outcome) (now : Int) : Prop :=
  ∀ o ∈ log, o.Allows now

theorem Outcome.Allows.mono {o : Outcome} {now now' : Int}
    (h : o.Allows now) (hle : now ≤ now') : o.Allows now' := by
  cases o with
  | failed t => exact Int.le_trans h hle
  | succeeded t expiresAt => exact fun hlt => Int.le_trans (h hlt) hle

theorem Allowed.mono {log : List Outcome} {now now' : Int}
    (h : Allowed log now) (hle : now ≤ now') : Allowed log now' :=
  fun o ho => (h o ho).mono hle

/-- What the manager remembers of its latest outcome. -/
def Remembers (tm : BearerTokenManager) (log : List Outcome) : Prop :=
  match log.getLast? with
  | some (.failed t) => t + minRefreshRetry ≤ tm.nextAttempt
      ∧ tm.nextAttempt ≤ t + maxRefreshRetry
  | some (.succeeded t expiresAt) => tm.nextAttempt = 0
      ∧ tm.expiresAt = expiresAt ∧ tm.lifetime = sub expiresAt t
  | none => tm.nextAttempt = 0

/-- The pace of the refreshes: the log but its last entry is past, the
last entry is remembered, and while a refresh is in flight it is past as
well. -/
structure Paced (sh : Shared) : Prop where
  past : Allowed sh.log.dropLast sh.clock
  remembers : Remembers sh.tm sh.log
  flying : sh.tm.inflight ≠ none → Allowed sh.log sh.clock

theorem Paced.tick (h : Paced sh) {now : Int} (hle : sh.clock ≤ now) :
    Paced { sh with clock := now } :=
  ⟨h.past.mono hle, h.remembers, fun hne => (h.flying hne).mono hle⟩

/-- A token that is not fresh, whatever the buffer, has lived for half
of its lifetime. -/
theorem BearerTokenManager.half_of_not_fresh {tm : BearerTokenManager}
    {buffer now t : Int} (hfresh : tm.fresh buffer now = false)
    (hlife : tm.lifetime = sub tm.expiresAt t) (hlt : t < tm.expiresAt) :
    t + (tm.expiresAt - t) / 2 ≤ now := by
  have hnot : ¬ now < tm.expiresAt + tm.clamp buffer :=
    of_decide_eq_false hfresh
  -- a lifetime beyond the longest duration is cut to it
  have hbounds : 0 < tm.lifetime ∧ tm.lifetime ≤ tm.expiresAt - t := by
    rw [hlife]
    unfold sub minDuration maxDuration
    split
    · omega
    · split <;> omega
  by_cases hneg : buffer < 0
  · rw [BearerTokenManager.clamp_eq hneg hbounds.1] at hnot
    omega
  · rw [BearerTokenManager.clamp,
      if_neg fun hand => hneg hand.1] at hnot
    omega

/-- A call that leads is past everything in the log. -/
theorem Paced.allowed (h : Paced sh) {buffer now₁ now₂ : Int}
    (hlead : sh.tm.decision buffer now₁ now₂ = .lead)
    (h₁ : sh.clock ≤ now₁) (h₂ : now₁ ≤ now₂) :
    Allowed sh.log now₂ := by
  obtain ⟨hfresh, -, -, hnext⟩ :=
    BearerTokenManager.decision_lead.mp hlead
  have hremembers := h.remembers
  cases hlast : sh.log.getLast? with
  | none =>
      rw [List.getLast?_eq_none_iff] at hlast
      rw [hlast]
      exact fun o ho => nomatch ho
  | some o =>
      rw [Remembers, hlast] at hremembers
      have hpast := h.past
      obtain ⟨before, hlog⟩ := List.getLast?_eq_some_iff.mp hlast
      rw [hlog, List.dropLast_concat] at hpast
      intro o' ho'
      rw [hlog] at ho'
      rcases List.mem_append.mp ho' with ho' | ho'
      · exact (hpast o' ho').mono (Int.le_trans h₁ h₂)
      · cases List.mem_singleton.mp ho'
        cases o with
        | failed t =>
            exact Int.le_trans hremembers.1 (Int.not_lt.mp hnext)
        | succeeded t expiresAt =>
            intro hlt
            obtain ⟨-, rfl, hlife⟩ := hremembers
            exact Int.le_trans (BearerTokenManager.half_of_not_fresh
              hfresh hlife hlt) h₂

theorem retryPause_bounds (remaining : Int) :
    minRefreshRetry ≤ retryPause remaining
      ∧ retryPause remaining ≤ maxRefreshRetry := by
  unfold retryPause minRefreshRetry maxRefreshRetry second
  omega

/-- A refresh stores its outcome: the log is past, and the new entry is
remembered. -/
theorem Paced.store (h : Allowed sh.log sh.clock) (id : Nat)
    (result : Except GoString (GoString × Int)) {now : Int}
    (hle : sh.clock ≤ now) : Paced (sh.store id result now) where
  past := by
    rw [show (sh.store id result now).log
      = sh.log ++ [outcomeOf result now] from rfl, List.dropLast_concat]
    exact h.mono hle
  remembers := by
    rw [Remembers, show (sh.store id result now).log
      = sh.log ++ [outcomeOf result now] from rfl, List.getLast?_concat]
    cases result with
    | ok r => exact ⟨rfl, rfl, rfl⟩
    | error err =>
        have hpause := retryPause_bounds (sub sh.tm.expiresAt now)
        exact ⟨Int.add_le_add_left hpause.1 now,
          Int.add_le_add_left hpause.2 now⟩
  flying := fun hne => absurd (inflight_store sh.tm result now) hne

/-- The readings of an event go on from the clock. -/
def Steady (e : Event) (w : World) : Prop :=
  (w.shared.clock :: e.readings).Pairwise (· ≤ ·)

instance (e : Event) (w : World) : Decidable (Steady e w) :=
  inferInstanceAs (Decidable (List.Pairwise _ _))

theorem Paced.refresh (h : Paced sh) (hflight : Flight sh) {id : Nat}
    {e : RefreshEvent} (hle : ∀ now ∈ e.readings, sh.clock ≤ now)
    (hstep : sh.refresh id e = some sh') : Paced sh' := by
  obtain ⟨now, rfl, -, rfl⟩ | ⟨ph, -, -, -, -, rfl⟩
    | ⟨result, now, rfl, hph, rfl⟩ | ⟨-, rfl⟩ :=
    Shared.refresh_cases hstep
  · have hnow := hle now (List.mem_singleton_self _)
    exact ⟨(h.tick hnow).past, h.remembers, (h.tick hnow).flying⟩
  · exact ⟨h.past, h.remembers, h.flying⟩
  · have hslot : sh.tm.inflight = some id :=
      (hflight.slot id).mpr (by rw [hph]; rfl)
    exact Paced.store (h.flying (by rw [hslot]; nofun)) id result
      (hle now (List.mem_singleton_self _))
  · exact ⟨h.past, h.remembers, h.flying⟩

theorem Paced.call (h : Paced sh) {ph ph' : CallPhase} {e : CallEvent}
    (hle : (sh.clock :: e.readings).Pairwise (· ≤ ·))
    (hstep : sh.call ph e = some (sh', ph')) : Paced sh' := by
  have hclock : ∀ now ∈ e.readings, sh.clock ≤ now :=
    (List.pairwise_cons.mp hle).1
  obtain ⟨now, rfl, rfl | hnow⟩ | ⟨c, now₁, now₂, rfl, rfl, hd, rfl⟩ :=
    Shared.call_cases hstep
  · exact h
  · exact h.tick (hclock now hnow)
  · have h₁ : sh.clock ≤ now₁ := hclock now₁ List.mem_cons_self
    have h₂ : now₁ ≤ now₂ := (List.pairwise_cons.mp
      (List.pairwise_cons.mp hle).2).1 now₂ (List.mem_singleton_self _)
    have hallowed := h.allowed hd h₁ h₂
    have htick := h.tick (Int.le_trans h₁ h₂)
    exact ⟨htick.past, htick.remembers, fun _ => hallowed⟩

-- ==== the release

/-- The goroutine of the refresh is gone. -/
def RefreshPhase.over : RefreshPhase → Bool
  | .ended | .exited _ => true
  | _ => false

/-- It was ended by the `Refresher` or the hook. -/
def RefreshPhase.killed : RefreshPhase → Bool
  | .exited _ => true
  | _ => false

/-- The `Refresher` or the hook ends the goroutine. -/
def RefreshEvent.exits : RefreshEvent → Bool
  | .refresherExits | .hookExits => true
  | _ => false

/-- The refresh can go on by itself to where `done` is closed once. -/
def Releases (w : World) (id : Nat) : Prop :=
  ∃ es : List RefreshEvent, (∀ e ∈ es, e.exits = false)
    ∧ ∃ w', Lib.run step (es.map (Event.refresh id)) w = some w'
        ∧ (w'.shared.refreshes id).closes = 1

theorem Releases.cons {w w' : World} {id : Nat} {e : RefreshEvent}
    (h : Releases w' id) (hexits : e.exits = false)
    (hstep : step (.refresh id e) w = some w') : Releases w id := by
  obtain ⟨es, hes, w₂, hrun, hcloses⟩ := h
  refine ⟨e :: es, fun e' he' => ?_, w₂, ?_, hcloses⟩
  · rcases List.mem_cons.mp he' with rfl | he'
    · exact hexits
    · exact hes e' he'
  · show (step (.refresh id e) w).bind _ = _
    rw [hstep]
    exact hrun

theorem step_refresh {w : World} {id : Nat} {e : RefreshEvent}
    (h : w.shared.refresh id e = some sh') :
    step (.refresh id e) w = some { w with shared := sh' } :=
  congrArg (Option.map _) h

theorem phase_move (sh : Shared) (id : Nat) (ph : RefreshPhase) :
    (sh.move id ph).refreshes id = { sh.refreshes id with phase := ph } :=
  Function.update_self ..

theorem phase_store (sh : Shared) (id : Nat)
    (result : Except GoString (GoString × Int)) (now : Int) :
    ((sh.store id result now).refreshes id).phase
      = afterStore (sh.tm.store result now) result now := by
  show (Function.update sh.refreshes id _ id).phase = _
  rw [Function.update_self]

theorem releases_closing {w : World} {id : Nat}
    (hflight : Flight w.shared)
    (hph : (w.shared.refreshes id).phase = .closing) :
    Releases w id := by
  have hstep : w.shared.refresh id .close = some (w.shared.setRefresh id
      ⟨.ended, (w.shared.refreshes id).err,
        (w.shared.refreshes id).closes + 1⟩) := by
    unfold Shared.refresh
    rw [hph]
  refine ⟨[.close], fun e he => ?_,
    ⟨w.shared.setRefresh id ⟨.ended, (w.shared.refreshes id).err,
      (w.shared.refreshes id).closes + 1⟩, w.calls⟩, ?_, ?_⟩
  · cases List.mem_singleton.mp he
    rfl
  · show (step (.refresh id .close) w).bind some = _
    rw [step_refresh hstep]
    rfl
  · show (Function.update w.shared.refreshes id _ id).closes = 1
    rw [Function.update_self,
      hflight.notYet id (by rw [hph]; nofun)]

theorem releases_reporting {w : World} {id : Nat}
    (hflight : Flight w.shared) {err : GoString} {stillValid : Bool}
    (hph : (w.shared.refreshes id).phase = .reporting err stillValid) :
    Releases w id := by
  have hstep : w.shared.refresh id .hookEnds
      = some (w.shared.move id .closing) := by
    unfold Shared.refresh
    rw [hph]
  refine Releases.cons (releases_closing (hflight.refresh hstep) ?_) rfl
    (step_refresh hstep)
  rw [phase_move]

theorem releases_finished {w : World} {id : Nat}
    (hflight : Flight w.shared)
    {result : Except GoString (GoString × Int)}
    (hph : (w.shared.refreshes id).phase = .finished result) :
    Releases w id := by
  have hstep : w.shared.refresh id (.store w.shared.clock)
      = some (w.shared.store id result w.shared.clock) := by
    unfold Shared.refresh
    rw [hph]
  have hnext := phase_store w.shared id result w.shared.clock
  have hflight' := hflight.refresh hstep
  refine Releases.cons ?_ rfl (step_refresh hstep)
  obtain ⟨err, sv, h⟩ | h := afterStore_cases
    (w.shared.tm.store result w.shared.clock) result w.shared.clock
  · exact releases_reporting hflight' (hnext.trans h)
  · exact releases_closing hflight' (hnext.trans h)

theorem releases_running {w : World} {id : Nat}
    (hflight : Flight w.shared)
    (hph : (w.shared.refreshes id).phase = .running) :
    Releases w id := by
  have hstep : w.shared.refresh id (.refresherEnds (.panicked []))
      = some (w.shared.move id
          (.finished (RefresherEnd.panicked []).result)) := by
    unfold Shared.refresh
    rw [hph]
  have hnext : ((w.shared.move id (.finished
      (RefresherEnd.panicked []).result)).refreshes id).phase
      = .finished (RefresherEnd.panicked []).result := by
    rw [phase_move]
  exact Releases.cons (releases_finished (hflight.refresh hstep) hnext)
    rfl (step_refresh hstep)

/-- Every refresh that is not over can go on to release its waiters. -/
theorem releases_live {w : World} {id : Nat} (hflight : Flight w.shared)
    (hlive : (w.shared.refreshes id).phase.live = true) :
    Releases w id := by
  cases hph : (w.shared.refreshes id).phase with
  | spawned =>
      have hstep : w.shared.refresh id (.start w.shared.clock)
          = some { w.shared.move id .running with
              clock := w.shared.clock } := by
        unfold Shared.refresh
        rw [hph]
      refine Releases.cons (releases_running (hflight.refresh hstep) ?_)
        rfl (step_refresh hstep)
      show ((w.shared.move id .running).refreshes id).phase = .running
      rw [phase_move]
  | running => exact releases_running hflight hph
  | finished result => exact releases_finished hflight hph
  | reporting err stillValid => exact releases_reporting hflight hph
  | closing => exact releases_closing hflight hph
  | _ =>
      rw [hph] at hlive
      cases hlive

-- ==== the result

structure PacedInv (w : World) : Prop where
  flight : Flight w.shared
  paced : Paced w.shared

theorem PacedInv.step {w w' : World} {e : Event} (h : PacedInv w)
    (hsteady : Steady e w) (hstep : step e w = some w') :
    PacedInv w' := by
  cases e with
  | call p e =>
      obtain ⟨⟨sh', ph'⟩, hcall, rfl⟩ := Option.map_eq_some_iff.mp hstep
      exact ⟨h.flight.call hcall, h.paced.call hsteady hcall⟩
  | refresh id e =>
      obtain ⟨sh', hrefresh, rfl⟩ := Option.map_eq_some_iff.mp hstep
      exact ⟨h.flight.refresh hrefresh, h.paced.refresh h.flight
        (List.pairwise_cons.mp hsteady).1 hrefresh⟩

/-- With a clock that does not go back, in every run: at most one
`Refresher` is running; one that starts does so at least a second after
every failure and past half of the lifetime of every token that was
stored; after a failure, the longest pause later, a call that finds no
fresh token and no refresh in flight makes a refresh; `done` is never
closed twice, and when the goroutine of a refresh is gone, it has been
closed once if and only if neither the `Refresher` nor the hook ended
the goroutine; and a refresh that is not gone can go on to close it. -/
theorem refreshes_paced (token : GoString) (expiresAt : Int)
    (hasRefresher hasHook : Bool) (clock : Int) (es : List Event)
    (w : World)
    (hrun : Lib.run step es
      (.init (.seed token expiresAt hasRefresher hasHook) clock) = some w)
    (hsteady : Lib.Along Steady step es
      (.init (.seed token expiresAt hasRefresher hasHook) clock)) :
    (∀ id id', (w.shared.refreshes id).phase = .running →
      (w.shared.refreshes id').phase = .running → id = id')
    ∧ (∀ id now w', step (.refresh id (.start now)) w = some w' →
        w.shared.clock ≤ now → Allowed w.shared.log now)
    ∧ (∀ t buffer now₁ now₂, w.shared.log.getLast? = some (.failed t) →
        t + maxRefreshRetry ≤ now₂ → w.shared.tm.inflight = none →
        w.shared.tm.hasRefresher = true →
        w.shared.tm.fresh buffer now₁ = false →
        w.shared.tm.decision buffer now₁ now₂ = .lead)
    ∧ (∀ id, (w.shared.refreshes id).closes ≤ 1
        ∧ ((w.shared.refreshes id).phase.over = true →
          ((w.shared.refreshes id).closes = 1
            ↔ (w.shared.refreshes id).phase.killed = false)))
    ∧ ∀ id, (w.shared.refreshes id).phase.live = true →
        Releases w id := by
  have hinit : PacedInv
      (.init (.seed token expiresAt hasRefresher hasHook) clock) :=
    ⟨flight_init _ clock rfl,
      ⟨nofun, rfl, fun hne => absurd rfl hne⟩⟩
  have hw : PacedInv w := Lib.run_invariant_along
    (fun _ _ _ hs h hstep => h.step hs hstep) es hsteady hinit hrun
  refine ⟨fun id id' hid hid' => ?_, fun id now w' hstep hle => ?_,
    fun t buffer now₁ now₂ hlast hnow hfree href hfresh => ?_,
    fun id => ?_, fun id hlive => releases_live hw.flight hlive⟩
  · have h := (hw.flight.slot id).mpr (by rw [hid]; rfl)
    have h' := (hw.flight.slot id').mpr (by rw [hid']; rfl)
    exact Option.some.inj (h.symm.trans h')
  · obtain ⟨sh', hrefresh, -⟩ := Option.map_eq_some_iff.mp hstep
    have hph := Shared.spawned_of_start hrefresh
    have hslot := (hw.flight.slot id).mpr (by rw [hph]; rfl)
    exact (hw.paced.flying (by rw [hslot]; nofun)).mono hle
  · have hremembers := hw.paced.remembers
    rw [Remembers, hlast] at hremembers
    refine BearerTokenManager.decision_lead.mpr
      ⟨hfresh, hfree, href, ?_⟩
    exact Int.not_lt.mpr (Int.le_trans hremembers.2 hnow)
  · cases hph : (w.shared.refreshes id).phase with
    | ended =>
        have h := hw.flight.closed id hph
        rw [h]
        exact ⟨Nat.le_refl 1, fun _ => ⟨fun _ => rfl, fun _ => rfl⟩⟩
    | exited stored =>
        have h := hw.flight.notYet id (by rw [hph]; nofun)
        rw [h]
        exact ⟨Nat.zero_le 1, fun _ => ⟨nofun, nofun⟩⟩
    | _ =>
        have h := hw.flight.notYet id (by rw [hph]; nofun)
        rw [h]
        exact ⟨Nat.zero_le 1, nofun⟩

section Examples

/-- A call finds no token and makes a refresh. -/
def firstCall : List Event :=
  [.call 0 (.getToken none), .call 0 (.fastPath 10),
    .call 0 (.slowPath 10 10), .refresh 0 (.start 10)]

/-- After a success at time 10, good for 100 time units, a call that
asks for more than that makes the next refresh at time 60: the
`Refresher` starts past half of the token's lifetime. -/
theorem refreshes_paced_short :
    let es := firstCall
      ++ [.refresh 0 (.refresherEnds (.returned (ascii "t") 110 none)),
        .refresh 0 (.store 10), .refresh 0 .close,
        .call 1 (.getToken none), .call 1 (.fastPath 60),
        .call 1 (.slowPath 60 60)]
    let start : World := .init (.seed [] 0 true true) 0
    ∃ w, Lib.run step es start = some w
      ∧ (w.shared.refreshes 1).phase.live = true ∧ Releases w 1
      ∧ ∀ now w', step (.refresh 1 (.start now)) w = some w' →
          w.shared.clock ≤ now → Allowed w.shared.log now := by
  intro es start
  have hfacts : (Lib.run step es start).map
      (fun w => (w.shared.refreshes 1).phase.live) = some true := by
    decide +kernel
  obtain ⟨w, hw, hlive⟩ := Option.map_eq_some_iff.mp hfacts
  obtain ⟨-, hstart, -, -, hreleases⟩ := refreshes_paced [] 0 true true 0
    es w hw (by decide +kernel)
  exact ⟨w, hw, hlive, hreleases 1 hlive, hstart 1⟩

/-- A hook that ends its goroutine: the refresh is gone, its call waits,
and `done` was not closed. -/
theorem hook_exit_wedges_waiters :
    (Lib.run step (firstCall
        ++ [.refresh 0 (.refresherEnds (.panicked (ascii "boom"))),
          .refresh 0 (.store 11), .refresh 0 .hookExits])
        (.init (.seed [] 0 true true) 0)).map
      (fun w => ((w.shared.refreshes 0).phase.over,
        (w.shared.refreshes 0).closes, (step (.call 0 .released) w).isSome))
      = some (true, 0, false) := by
  decide +kernel

end Examples

end Tokyo3Base.Api
