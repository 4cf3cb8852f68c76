/-
How long a `fileValue` lives on its last good value: what a sequence of
`get` calls returns, measured against the log of its load attempts.

# The yardstick

The state of a `fileValue` is seven fields that several paths write.
The statements here do not mention them. They speak about the log of
attempts, newest first: each call that read the files left either the
value it loaded or the clock reading at which it failed. `lastLoaded`
is the value of the newest successful attempt and `firstFailed` the
time of the oldest failure after it. `WatchInv` says that the fields
are a summary of that log.

# The zero time

`failSince` doubles as the flag that a failure run is open, with Go's
zero time for "no". A failure at exactly that reading therefore leaves
the run unmarked and the next failure restarts its clock. The staleness
bound is proved for logs without such a failure, and
`get_staleness_zero_reading` is the run that breaks it with one.
-/
import Tokyo3Base.Tls.FileValue

namespace Tokyo3Base.Tls

open Go

variable {τ ε : Type}

-- ==== the log

/-- What a call that read the files left behind. -/
inductive Attempt (τ : Type) where
  | loaded (val : τ)
  | failed (time : Int)
deriving DecidableEq

/-- The value of the most recent successful attempt (newest first). -/
def lastLoaded : List (Attempt τ) → Option τ
  | [] => none
  | .loaded v :: _ => some v
  | .failed _ :: log => lastLoaded log

/-- The time of the first failed attempt since the last success. -/
def firstFailed : List (Attempt τ) → Option Int
  | [] => none
  | .loaded _ :: _ => none
  | .failed t :: log => some ((firstFailed log).getD t)

/-- A failure run begins with an attempt of the log. -/
theorem mem_of_firstFailed {log : List (Attempt τ)} {t : Int}
    (h : firstFailed log = some t) : Attempt.failed t ∈ log := by
  induction log with
  | nil => cases h
  | cons a log ih =>
      cases a with
      | loaded v => cases h
      | failed t' =>
          injection h with h
          cases hrest : firstFailed log with
          | none =>
              rw [hrest] at h
              exact h ▸ List.mem_cons_self
          | some t'' =>
              rw [hrest] at h
              exact List.mem_cons_of_mem _ (ih (h ▸ hrest))

-- ==== the calls

theorem loaded_of_settledLocked {f : FileValue τ ε}
    {stat : Option Stamp} (h : f.settledLocked stat = true) :
    f.loaded = true := by
  cases hl : f.loaded with
  | true => rfl
  | false =>
      simp [FileValue.settledLocked, hl] at h

variable [Inhabited τ]

/-- The attempt of one call; `none` when it returned without reading. -/
def FileValue.attempt (forced : Bool) (o : Outcome τ ε)
    (f : FileValue τ ε) : Option (Attempt τ) :=
  match f.fromKept o.maxStale forced o.stat o.nowKept with
  | some _ => none
  | none =>
      match o.read with
      | .ok v => some (.loaded v)
      | .error _ => some (.failed o.nowFail)

/-- The clock reading at which the call judged the age of the kept
value. -/
def FileValue.judgedAt (forced : Bool) (o : Outcome τ ε)
    (f : FileValue τ ε) : Int :=
  match f.fromKept o.maxStale forced o.stat o.nowKept with
  | some _ => o.nowKept
  | none => o.nowAfter

/-- One call: forced or not, and what the environment answers. -/
structure Call (τ ε : Type) where
  forced : Bool
  outcome : Outcome τ ε

/-- A `fileValue` and the log of its attempts. -/
structure Watched (τ ε : Type) where
  value : FileValue τ ε
  log : List (Attempt τ)

def Watched.call (w : Watched τ ε) (c : Call τ ε) : Watched τ ε where
  value := (w.value.get c.forced c.outcome).2
  log := (w.value.attempt c.forced c.outcome).toList ++ w.log

/-- The state after a sequence of calls on a new `fileValue`. -/
def watch (cs : List (Call τ ε)) : Watched τ ε :=
  cs.foldl Watched.call ⟨.zero, []⟩

theorem watch_append (cs : List (Call τ ε)) (c : Call τ ε) :
    watch (cs ++ [c]) = (watch cs).call c := by
  rw [watch, List.foldl_append]
  rfl

-- ==== one call, by its path

/-- The three ways through `get`: the kept value without a read, a
successful read, a failed one. -/
inductive GetCases (forced : Bool) (o : Outcome τ ε) (f : FileValue τ ε) :
    Prop
  | kept
      (hforced : forced = false)
      (hget : f.get forced o
        = (⟨(f.keptLocked o.maxStale o.nowKept).1,
            (f.keptLocked o.maxStale o.nowKept).2, none⟩, f))
      (hloaded : f.loaded = true)
      (hattempt : f.attempt forced o = none)
      (hjudged : f.judgedAt forced o = o.nowKept)
  | read
      (hget : f.get forced o
        = f.afterRead o.maxStale forced o.stat o.read o.nowFail
            o.nowAfter)
      (hattempt : f.attempt forced o = some (match o.read with
        | .ok v => .loaded v
        | .error _ => .failed o.nowFail))
      (hjudged : f.judgedAt forced o = o.nowAfter)

theorem get_cases (forced : Bool) (o : Outcome τ ε)
    (f : FileValue τ ε) : GetCases forced o f := by
  by_cases hsettled : (!forced && f.settledLocked o.stat) = true
  · have hparts := hsettled
    rw [Bool.and_eq_true, Bool.not_eq_true'] at hparts
    refine .kept hparts.1 ?_ (loaded_of_settledLocked hparts.2) ?_ ?_
    · simp only [FileValue.get, FileValue.fromKept, if_pos hsettled]
    · simp only [FileValue.attempt, FileValue.fromKept, if_pos hsettled]
    · simp only [FileValue.judgedAt, FileValue.fromKept, if_pos hsettled]
  · refine .read ?_ ?_ ?_
    · simp only [FileValue.get, FileValue.fromKept, if_neg hsettled]
    · simp only [FileValue.attempt, FileValue.fromKept, if_neg hsettled]
      cases o.read <;> rfl
    · simp only [FileValue.judgedAt, FileValue.fromKept, if_neg hsettled]

theorem keptLocked_val {f : FileValue τ ε} {maxStale : Option Int}
    {now : Int} (h : (f.keptLocked maxStale now).2 = none) :
    (f.keptLocked maxStale now).1 = f.val := by
  cases maxStale with
  | none => rfl
  | some limit =>
      unfold FileValue.keptLocked at h ⊢
      dsimp only at h ⊢
      split at h
      · cases h
      · rw [if_neg ‹_›]

theorem keptLocked_err {f : FileValue τ ε} {maxStale : Option Int}
    {now : Int} (h : (f.keptLocked maxStale now).2.isSome = true) :
    ∃ limit, maxStale = some limit ∧ 0 < limit ∧ f.failSince ≠ 0
      ∧ limit < now - f.failSince := by
  cases maxStale with
  | none => cases h
  | some limit =>
      unfold FileValue.keptLocked at h
      dsimp only at h
      split at h
      · obtain ⟨hpos, hzero, hold⟩ := ‹_ ∧ _›
        refine ⟨limit, rfl, hpos, ?_, lt_of_lt_sub ?_ hold⟩
        · intro h0
          rw [h0] at hzero
          cases hzero
        · have : minDuration ≤ 0 := by decide
          omega
      · cases h

/-- What a non-forced call returns, in terms of the state it leaves: no
error means the held value; an error of a loaded `fileValue` means that
the held value is refused as too old. -/
theorem get_unforced (o : Outcome τ ε) (f : FileValue τ ε) :
    let r := f.get false o
    (r.1.err = none → r.1.value = r.2.val ∧ r.2.loaded = true)
    ∧ (f.loaded = true → r.1.err.isSome = true → r.2.loaded = true
        ∧ (r.2.keptLocked o.maxStale (f.judgedAt false o)).2.isSome
            = true) := by
  cases get_cases false o f with
  | kept _ hget hloaded _ hjudged =>
      rw [hget, hjudged]
      exact ⟨fun h => ⟨keptLocked_val h, hloaded⟩,
        fun hl h => ⟨hl, h⟩⟩
  | read hget _ hjudged =>
      rw [hget, hjudged]
      cases o.read with
      | ok v =>
          exact ⟨fun _ => ⟨rfl, rfl⟩,
            fun _ h => Bool.noConfusion (show false = true from h)⟩
      | error e =>
          cases hl : f.loaded with
          | false =>
              simp only [FileValue.afterRead, hl, Bool.not_false, if_true]
              exact ⟨fun h => (nomatch h), fun h => (nomatch h)⟩
          | true =>
              simp only [FileValue.afterRead, hl, Bool.not_true,
                Bool.false_eq_true, if_false]
              exact ⟨fun h => ⟨keptLocked_val h, trivial⟩,
                fun _ h => ⟨trivial, h⟩⟩

/-- A forced call always reads, and errs exactly when that fails. -/
theorem get_forced_err (o : Outcome τ ε) (f : FileValue τ ε) :
    (f.get true o).1.err.isSome = true ↔ ∃ e, o.read = .error e := by
  cases get_cases true o f with
  | kept hforced => cases hforced
  | read hget =>
      rw [hget]
      cases o.read with
      | ok v => simp [FileValue.afterRead]
      | error e =>
          refine ⟨fun _ => ⟨e, rfl⟩, fun _ => ?_⟩
          cases hl : f.loaded <;> simp [FileValue.afterRead, hl]

theorem get_clears {f : FileValue τ ε} {forced : Bool}
    {o : Outcome τ ε} {v : τ}
    (h : f.attempt forced o = some (.loaded v)) :
    let after := (f.get forced o).2
    after.failSince = 0 ∧ after.failErr = none ∧ after.failedAt = []
      ∧ after.statFailed = false := by
  cases get_cases forced o f with
  | kept _ _ _ hattempt => cases hattempt.symm.trans h
  | read hget hattempt =>
      rw [hget]
      cases hread : o.read with
      | ok v' => exact ⟨rfl, rfl, rfl, rfl⟩
      | error e =>
          rw [hattempt, hread] at h
          cases h

-- ==== the invariant

/-- The fields summarise the log. -/
structure WatchInv (w : Watched τ ε) : Prop where
  loaded : w.value.loaded = (lastLoaded w.log).isSome
  val : ∀ v, lastLoaded w.log = some v → w.value.val = v
  -- needs the marker: no failure at the zero time
  since : w.value.loaded = true →
    (∀ t, Attempt.failed t ∈ w.log → t ≠ 0) →
    w.value.failSince = (firstFailed w.log).getD 0

theorem afterRead_error_unloaded {f : FileValue τ ε}
    (hl : ¬ f.loaded = true) {maxStale : Option Int} {forced : Bool}
    {stat : Option Stamp} {e : ε} {nowFail nowAfter : Int} :
    (f.afterRead maxStale forced stat (.error e) nowFail nowAfter).2 = f := by
  simp [FileValue.afterRead, hl]

/-- After a load, a failed read keeps the value and dates the failure run. -/
theorem afterRead_error_loaded {f : FileValue τ ε}
    (hl : f.loaded = true) {maxStale : Option Int} {forced : Bool}
    {stat : Option Stamp} {e : ε} {nowFail nowAfter : Int} :
    (f.afterRead maxStale forced stat (.error e) nowFail nowAfter).2
      = { f with
          failedAt := stat.getD []
          statFailed := stat.isNone
          failSince := if isZero f.failSince then nowFail else f.failSince
          failErr := some e } := by
  simp only [FileValue.afterRead, hl, Bool.not_true, Bool.false_eq_true,
    if_false]
  split <;> rfl

/-- A failed read: the value stays and the failure run is dated by its
first failure. -/
theorem WatchInv.failed {w : Watched τ ε} (hI : WatchInv w)
    {maxStale : Option Int} {forced : Bool} {stat : Option Stamp} {e : ε}
    {nowFail nowAfter : Int} :
    WatchInv
      ⟨(w.value.afterRead maxStale forced stat (.error e) nowFail
          nowAfter).2,
       .failed nowFail :: w.log⟩ := by
  by_cases hl : w.value.loaded = true
  · rw [afterRead_error_loaded hl]
    refine ⟨hI.loaded, hI.val, fun _ hnz => ?_⟩
    have hsince := hI.since hl
      fun t ht => hnz t (List.mem_cons_of_mem _ ht)
    dsimp only
    rw [hsince]
    -- an open run has a nonzero start, so the marker is right
    cases hff : firstFailed w.log with
    | none => simp [firstFailed, hff]
    | some t =>
        have ht : t ≠ 0 := hnz t
          (List.mem_cons_of_mem _ (mem_of_firstFailed hff))
        simp [firstFailed, hff, ht]
  · rw [afterRead_error_unloaded hl]
    exact ⟨hI.loaded, hI.val, fun hl' => absurd hl' hl⟩

theorem WatchInv.call {w : Watched τ ε} (hI : WatchInv w)
    (c : Call τ ε) : WatchInv (w.call c) := by
  cases get_cases c.forced c.outcome w.value with
  | kept hforced hget hloaded hattempt hjudged =>
      rw [Watched.call, hget, hattempt]
      exact hI
  | read hget hattempt hjudged =>
      rw [Watched.call, hget, hattempt]
      cases hread : c.outcome.read with
      | error e => exact hI.failed
      | ok v =>
          exact ⟨rfl, fun v' hv' => Option.some.inj hv',
            fun _ _ => rfl⟩

theorem watchInv_watch (cs : List (Call τ ε)) : WatchInv (watch cs) := by
  refine List.foldlRecOn cs Watched.call
    (motive := WatchInv) ?_ fun w hI c _ => hI.call c
  refine ⟨rfl, fun v hv => ?_, fun h => ?_⟩
  · cases hv
  · cases h

/-- A loaded value that is refused: the first failure of the run is
older than the limit. -/
theorem WatchInv.too_old {w : Watched τ ε} (hI : WatchInv w)
    (hl : w.value.loaded = true)
    (hnz : ∀ t, Attempt.failed t ∈ w.log → t ≠ 0)
    {maxStale : Option Int} {now : Int}
    (h : (w.value.keptLocked maxStale now).2.isSome = true) :
    ∃ limit first, maxStale = some limit ∧ 0 < limit
      ∧ firstFailed w.log = some first ∧ limit < now - first := by
  obtain ⟨limit, hmax, hpos, hne, hold⟩ := keptLocked_err h
  have hsince := hI.since hl hnz
  cases hff : firstFailed w.log with
  | none =>
      rw [hff] at hsince
      exact absurd hsince hne
  | some first =>
      rw [hff, Option.getD_some] at hsince
      rw [hsince] at hold
      exact ⟨limit, first, hmax, hpos, rfl, hold⟩

-- ==== the statement

/-- After any calls `cs`, what the call `c` returns. A non-forced call
errs, once something was loaded, only when `maxStale` is positive and
the first failure since the last load is more than that old; without an
error it returns the value loaded last. A forced call errs exactly when
its own read failed. A successful read clears the failure state. -/
theorem get_staleness (cs : List (Call τ ε)) (c : Call τ ε) :
    let f := (watch cs).value
    let r := (f.get c.forced c.outcome).1
    let after := watch (cs ++ [c])
    ((∀ t, Attempt.failed t ∈ after.log → t ≠ 0) →
      (lastLoaded (watch cs).log).isSome = true →
      c.forced = false → r.err.isSome = true →
      ∃ limit first, c.outcome.maxStale = some limit ∧ 0 < limit
        ∧ firstFailed after.log = some first
        ∧ limit < f.judgedAt c.forced c.outcome - first)
    ∧ (c.forced = false → r.err = none →
        lastLoaded after.log = some r.value)
    ∧ (c.forced = true →
        (r.err.isSome = true ↔ ∃ e, c.outcome.read = .error e))
    ∧ (∀ v, f.attempt c.forced c.outcome = some (.loaded v) →
        after.value.failSince = 0 ∧ after.value.failErr = none
        ∧ after.value.failedAt = [] ∧ after.value.statFailed = false) := by
  have hI := watchInv_watch (cs ++ [c])
  rw [watch_append] at hI ⊢
  obtain ⟨forced, o⟩ := c
  refine ⟨fun hnz hload hforced herr => ?_, fun hforced hok => ?_,
    fun hforced => ?_, fun v hv => ?_⟩
  · dsimp only at hforced
    subst hforced
    rw [← (watchInv_watch cs).loaded] at hload
    obtain ⟨hl, hkept⟩ := (get_unforced o _).2 hload herr
    exact hI.too_old hl hnz hkept
  · dsimp only at hforced
    subst hforced
    obtain ⟨hval, hl⟩ := (get_unforced o _).1 hok
    have hsome := hI.loaded.symm.trans hl
    obtain ⟨v, hv⟩ := Option.isSome_iff_exists.mp hsome
    rw [hv, hval]
    exact congrArg some (hI.val v hv).symm
  · dsimp only at hforced
    subst hforced
    exact get_forced_err o _
  · exact get_clears hv

/-- A load, then a failure that a three second limit tolerates for three
seconds and no longer. -/
theorem get_staleness_three_seconds :
    let load : Call Nat Unit := ⟨false, some [1], some 3, .ok 7, 0, 0, 0⟩
    let fail : Call Nat Unit :=
      ⟨false, some [2], some 3, .error (), 10, 10, 10⟩
    let late : Call Nat Unit :=
      ⟨false, some [2], some 3, .error (), 14, 14, 14⟩
    ∃ limit first, some 3 = some limit ∧ 0 < limit
      ∧ firstFailed (watch ([load, fail] ++ [late])).log = some first
      ∧ limit < 14 - first := by
  intro load fail late
  refine (get_staleness [load, fail] late).1 ?_ (by decide) rfl
    (by decide)
  have hlog : (watch ([load, fail] ++ [late])).log
      = [.failed 10, .loaded 7] := by decide
  intro t ht
  rw [hlog] at ht
  simp at ht
  omega

/-- The staleness bound fails for a failure at the zero time: the run's
clock restarts at the second failure, which the clock places earlier,
and the third call errs although the first failure is in its future. -/
theorem get_staleness_zero_reading :
    let load : Call Nat Unit :=
      ⟨false, some [1], some 10, .ok 7, -300, -300, -300⟩
    let zero : Call Nat Unit :=
      ⟨false, some [2], some 10, .error (), 0, 0, 0⟩
    let back : Call Nat Unit :=
      ⟨false, some [3], some 10, .error (), -100, -100, -100⟩
    let late : Call Nat Unit :=
      ⟨false, some [3], some 10, .error (), -50, -50, -50⟩
    let f := (watch [load, zero, back]).value
    (lastLoaded (watch [load, zero, back]).log).isSome = true
    ∧ (f.get false late.outcome).1.err.isSome = true
    ∧ firstFailed (watch [load, zero, back, late]).log = some 0
    ∧ ¬ 10 < f.judgedAt false late.outcome - 0 := by
  decide

end Tokyo3Base.Tls
