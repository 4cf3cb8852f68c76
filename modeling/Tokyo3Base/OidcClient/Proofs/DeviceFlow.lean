/-
The pace of the device flow: each wait is the announced interval and five
seconds more for every `slow_down` so far, no wait starts after the
announced lifetime of the code, and exactly `authorization_pending` and
`slow_down` lead to another one.

All of it is read off the loop by induction on its rounds, with the number
of `slow_down` answers so far as the state. What is assumed is that the
durations fit: the loop computes both by products that wrap around.
-/
import Tokyo3Base.OidcClient.DeviceFlow
import Tokyo3Base.OidcClient.Proofs.Lifetime

namespace Tokyo3Base.OidcClient

open Go

-- ==== answers

def PollAnswer.isSlowDown : PollAnswer → Bool
  | .refused error _ => error == ascii "slow_down"
  | _ => false

/-- The answers after which the flow goes on. -/
def PollAnswer.goesOn : PollAnswer → Bool
  | .refused error _ =>
      error == ascii "authorization_pending" || error == ascii "slow_down"
  | _ => false

def slowDowns (rounds : List Round) : Nat :=
  rounds.countP fun r => r.answer.isSlowDown

theorem slowDowns_cons (r : Round) (rounds : List Round) :
    slowDowns (r :: rounds)
      = slowDowns rounds + if r.answer.isSlowDown then 1 else 0 :=
  List.countP_cons

theorem slowDowns_take_le (rounds : List Round) {i j : Nat} (h : i ≤ j) :
    slowDowns (rounds.take i) ≤ slowDowns (rounds.take j) :=
  (List.take_sublist_take_left h).countP_le

/-- A round that another one follows. -/
structure Round.GoesOn (deadline : Int) (r : Round) : Prop where
  inTime : r.now ≤ deadline
  waited : r.cancelled = none
  answer : r.answer.goesOn = true

/-- How a round ends the flow, if it does. -/
def Round.ends (deadline : Int) (r : Round) :
    Option (Except GoString Tokens) :=
  if deadline < r.now then some (.error deviceCodeExpired)
  else if r.cancelled.isSome then r.cancelled.map .error
  else if r.answer.goesOn then none
  else some (r.answer.outcome r.receivedAt)

theorem ends_eq_none_iff {deadline : Int} {r : Round} :
    r.ends deadline = none ↔ r.GoesOn deadline := by
  unfold Round.ends
  constructor
  · intro h
    split at h
    · cases h
    · rename_i htime
      split at h
      · rename_i hcancel
        obtain ⟨err, herr⟩ := Option.isSome_iff_exists.mp hcancel
        rw [herr] at h
        cases h
      · rename_i hcancel
        split at h
        · rename_i hanswer
          exact ⟨Int.not_lt.mp htime, by simpa using hcancel, hanswer⟩
        · cases h
  · intro h
    rw [if_neg (Int.not_lt.mpr h.inTime), if_neg (by simp [h.waited]),
      if_pos h.answer]

theorem afterPoll_eq (interval : Int) (r : Round) :
    afterPoll interval r
      = if r.answer.goesOn then
          .again (if r.answer.isSlowDown then wrap (interval + 5 * second)
            else interval)
        else .stop (r.answer.outcome r.receivedAt) := by
  unfold afterPoll
  cases hanswer : r.answer with
  | failed err => rfl
  | ok body => rfl
  | refused error description =>
      have hne : ascii "authorization_pending" ≠ ascii "slow_down" := by
        decide
      by_cases hpending : error = ascii "authorization_pending"
      · simp [PollAnswer.goesOn, PollAnswer.isSlowDown, hpending, hne]
      · by_cases hslow : error = ascii "slow_down"
        · simp [PollAnswer.goesOn, PollAnswer.isSlowDown, hslow, hne.symm]
        · simp [PollAnswer.goesOn, hpending, hslow]

-- ==== loop

/-- A round that another one follows starts a wait, and hands on the
interval. -/
theorem pollLoop_goesOn {deadline : Int} {r : Round}
    (h : r.GoesOn deadline) (interval : Int) (rounds : List Round) :
    pollLoop deadline interval (r :: rounds)
      = let rest := pollLoop deadline
          (if r.answer.isSlowDown then wrap (interval + 5 * second)
            else interval) rounds
        (interval :: rest.1, rest.2) := by
  rw [pollLoop, if_neg (Int.not_lt.mpr h.inTime), h.waited, afterPoll_eq,
    if_pos h.answer]

/-- A round that ends the flow starts a wait unless it comes too late. -/
theorem pollLoop_ends {deadline : Int} {r : Round}
    {result : Except GoString Tokens} (h : r.ends deadline = some result)
    (interval : Int) (rounds : List Round) :
    pollLoop deadline interval (r :: rounds)
      = (if r.now ≤ deadline then [interval] else [], some result) := by
  unfold Round.ends at h
  rw [pollLoop]
  split at h
  · rename_i htime
    rw [if_pos htime, if_neg (Int.not_le.mpr htime), ← h]
  · rename_i htime
    rw [if_neg htime, if_pos (Int.not_lt.mp htime)]
    split at h
    · rename_i hcancel
      obtain ⟨err, herr⟩ := Option.isSome_iff_exists.mp hcancel
      rw [herr] at h ⊢
      rw [← h]
      rfl
    · rename_i hcancel
      have hnone : r.cancelled = none := by simpa using hcancel
      split at h
      · cases h
      · rename_i hanswer
        rw [hnone, afterPoll_eq, if_neg hanswer, ← h]

/-- The result is that of the first round that ends the flow. -/
theorem pollLoop_result (deadline interval : Int) (rounds : List Round) :
    (pollLoop deadline interval rounds).2
      = rounds.findSome? (Round.ends deadline) := by
  induction rounds generalizing interval with
  | nil => rfl
  | cons r rounds ih =>
      rw [List.findSome?_cons]
      cases hends : r.ends deadline with
      | none =>
          rw [pollLoop_goesOn (ends_eq_none_iff.mp hends)]
          exact ih _
      | some result => rw [pollLoop_ends hends]

/-- All rounds before a wait have gone on, and its own is in time. -/
def WaitStarts (deadline : Int) (rounds : List Round) (k : Nat) : Prop :=
  (∃ r, rounds[k]? = some r ∧ r.now ≤ deadline)
    ∧ ∀ j < k, ∃ r, rounds[j]? = some r ∧ r.GoesOn deadline

theorem waitStarts_succ {deadline : Int} {r : Round}
    (hgoes : r.GoesOn deadline) (rounds : List Round) (k : Nat) :
    WaitStarts deadline (r :: rounds) (k + 1)
      ↔ WaitStarts deadline rounds k := by
  unfold WaitStarts
  rw [List.getElem?_cons_succ]
  refine and_congr_right fun _ => ⟨fun h j hj => ?_, fun h j hj => ?_⟩
  · exact h (j + 1) (Nat.succ_lt_succ hj)
  · cases j with
    | zero => exact ⟨r, rfl, hgoes⟩
    | succ j => exact h j (Nat.lt_of_succ_lt_succ hj)

/-- Exactly these waits start. -/
theorem pollLoop_started (deadline interval : Int) (rounds : List Round)
    (k : Nat) : k < (pollLoop deadline interval rounds).1.length
      ↔ WaitStarts deadline rounds k := by
  induction rounds generalizing interval k with
  | nil => simp [pollLoop, WaitStarts]
  | cons r rounds ih =>
      cases hends : r.ends deadline with
      | none =>
          have hgoes := ends_eq_none_iff.mp hends
          rw [pollLoop_goesOn hgoes]
          cases k with
          | zero => simp [WaitStarts, hgoes.inTime]
          | succ k =>
              rw [waitStarts_succ hgoes, ← ih]
              exact Nat.add_lt_add_iff_right
      | some result =>
          rw [pollLoop_ends hends]
          have hstop : ¬ r.GoesOn deadline := fun h => by
            rw [ends_eq_none_iff.mpr h] at hends
            cases hends
          cases k with
          | zero =>
              by_cases htime : r.now ≤ deadline <;>
                simp [WaitStarts, htime]
          | succ k =>
              refine iff_of_false ?_ fun h => ?_
              · by_cases htime : r.now ≤ deadline <;> simp [htime]
              · obtain ⟨r', hr', hgoes⟩ := h.2 0 (Nat.zero_lt_succ k)
                obtain rfl : r = r' := Option.some.inj hr'
                exact hstop hgoes

/-- The durations that the loop computes fit, for so many seconds. -/
theorem wrap_interval {n : Int} (hpos : 0 < n)
    (hfits : (n + 5) * second ≤ maxDuration) :
    wrap (n * second + 5 * second) = (n + 5) * second := by
  have heq : n * second + 5 * second = (n + 5) * second := by
    rw [Int.add_mul]
  rw [heq, wrap_eq_self_iff]
  unfold minDuration second maxDuration at *
  omega

/-- Every wait is the interval of the start and five seconds more for each
`slow_down`. -/
theorem pollLoop_waits (deadline : Int) {n : Int} (hpos : 0 < n)
    {rounds : List Round}
    (hfits : ∀ k, WaitStarts deadline rounds k →
      (n + 5 * slowDowns (rounds.take k)) * second ≤ maxDuration) :
    ∀ k w, (pollLoop deadline (n * second) rounds).1[k]? = some w →
      w = (n + 5 * slowDowns (rounds.take k)) * second := by
  induction rounds generalizing n with
  | nil =>
      intro k w h
      simp [pollLoop] at h
  | cons r rounds ih =>
      intro k w h
      have hfirst : n * second = (n + 5 * (slowDowns [] : Nat)) * second := by
        simp [slowDowns]
      cases hends : r.ends deadline with
      | some result =>
          -- the only wait of the loop is the first
          rw [pollLoop_ends hends] at h
          have hlt : k < (if r.now ≤ deadline then [n * second]
              else []).length := by
            obtain ⟨hlt, -⟩ := List.getElem?_eq_some_iff.mp h
            exact hlt
          by_cases htime : r.now ≤ deadline
          · rw [if_pos htime] at h hlt
            obtain rfl : k = 0 := Nat.lt_one_iff.mp hlt
            exact (Option.some.inj h).symm.trans hfirst
          · rw [if_neg htime] at hlt
            exact absurd hlt (Nat.not_lt_zero k)
      | none =>
          have hgoes := ends_eq_none_iff.mp hends
          rw [pollLoop_goesOn hgoes] at h
          cases k with
          | zero => exact (Option.some.inj h).symm.trans hfirst
          | succ k =>
              rw [List.getElem?_cons_succ] at h
              have hrest := fun k hk =>
                hfits (k + 1) ((waitStarts_succ hgoes rounds k).mpr hk)
              simp only [List.take_succ_cons, slowDowns_cons] at hrest ⊢
              by_cases hslow : r.answer.isSlowDown = true
              · -- the interval grows, and the rest counts from there
                rw [if_pos hslow] at h hrest ⊢
                have hnext : ∀ k, WaitStarts deadline rounds k →
                    (n + 5 + 5 * slowDowns (rounds.take k)) * second
                      ≤ maxDuration := fun k hk => by
                  have := hrest k hk
                  unfold second at *
                  omega
                -- one of the waits that follow is started, so the first is
                have hstarts : WaitStarts deadline rounds 0 :=
                  (pollLoop_started deadline _ rounds 0).mp
                    (Nat.zero_lt_of_lt (List.getElem?_eq_some_iff.mp h).1)
                have hstep : (n + 5) * second ≤ maxDuration := by
                  simpa [slowDowns] using hnext 0 hstarts
                rw [wrap_interval hpos hstep] at h
                have hw := ih (by omega) hnext k w h
                unfold second at *
                omega
              · rw [if_neg hslow] at h hrest ⊢
                exact ih hpos hrest k w h

-- ==== flow

/-- The announced end of the flow. -/
def DeviceAuthorization.deadline (authz : DeviceAuthorization)
    (start : Int) : Int :=
  start + orDefault authz.expiresIn 900 * second

/-- A `time.Duration` holds the announced lifetime, and the duration of
every wait that starts before its end. -/
structure PaceFits (authz : DeviceAuthorization) (start : Int)
    (rounds : List Round) : Prop where
  interval : ∀ k, WaitStarts (authz.deadline start) rounds k →
    (orDefault authz.interval 5 + 5 * slowDowns (rounds.take k)) * second
      ≤ maxDuration
  expiresIn : orDefault authz.expiresIn 900 * second ≤ maxDuration

theorem orDefault_pos {n default : Int} (hpos : 0 < default) :
    0 < orDefault n default := by
  unfold orDefault
  split
  · exact hpos
  · omega

theorem seconds_of_fits {n : Int} (hpos : 0 < n)
    (hfits : n * second ≤ maxDuration) : seconds n = n * second := by
  rw [seconds_eq_iff]
  unfold LifetimeFits minDuration second at *
  omega

/-- Where the numbers fit, the loop runs with the announced ones. -/
theorem runDeviceFlow_eq {authz : DeviceAuthorization} {start : Int}
    {rounds : List Round} (hfits : PaceFits authz start rounds) :
    runDeviceFlow authz start rounds
      = pollLoop (authz.deadline start)
          (orDefault authz.interval 5 * second) rounds := by
  unfold runDeviceFlow
  rw [seconds_of_fits (orDefault_pos (by decide)) hfits.expiresIn]
  -- the interval matters only where a wait starts
  cases rounds with
  | nil => rfl
  | cons r rounds =>
      by_cases htime : r.now ≤ authz.deadline start
      · have hinterval := hfits.interval 0 ⟨⟨r, rfl, htime⟩, nofun⟩
        rw [seconds_of_fits (orDefault_pos (by decide))
          (by simpa [slowDowns] using hinterval)]
        rfl
      · have hlate : authz.deadline start < r.now := Int.not_le.mp htime
        rw [pollLoop, pollLoop, if_pos hlate]
        exact if_pos hlate

/-- The pace of the flow, in announced numbers: every wait, which waits
start, and how the flow ends. -/
theorem runDeviceFlow_pace (authz : DeviceAuthorization) (start : Int)
    (rounds : List Round) (hfits : PaceFits authz start rounds) :
    let interval := orDefault authz.interval 5
    let deadline := authz.deadline start
    let flow := runDeviceFlow authz start rounds
    (∀ k w, flow.1[k]? = some w →
        w = (interval + 5 * slowDowns (rounds.take k)) * second)
      ∧ flow.1.Pairwise (· ≤ ·)
      ∧ (∀ w ∈ flow.1, interval * second ≤ w)
      ∧ (∀ k, k < flow.1.length ↔ WaitStarts deadline rounds k)
      ∧ flow.2 = rounds.findSome? (Round.ends deadline) := by
  intro interval deadline flow
  have hwaits : ∀ k w, flow.1[k]? = some w →
      w = (interval + 5 * slowDowns (rounds.take k)) * second := by
    intro k w h
    rw [show flow = _ from runDeviceFlow_eq hfits] at h
    exact pollLoop_waits _ (orDefault_pos (by decide)) hfits.interval k w h
  refine ⟨hwaits, ?_, fun w hw => ?_, fun k => ?_, ?_⟩
  · -- later waits count the `slow_down`s of a longer front part
    rw [List.pairwise_iff_getElem]
    intro i j hi hj hij
    have hmono := slowDowns_take_le rounds (Nat.le_of_lt hij)
    have hwi := hwaits i _ (List.getElem?_eq_getElem hi)
    have hwj := hwaits j _ (List.getElem?_eq_getElem hj)
    rw [hwi, hwj]
    unfold second
    omega
  · obtain ⟨k, hk⟩ := List.mem_iff_getElem?.mp hw
    rw [hwaits k w hk]
    unfold second
    omega
  · rw [show flow = _ from runDeviceFlow_eq hfits]
    exact pollLoop_started deadline _ rounds k
  · rw [show flow = _ from runDeviceFlow_eq hfits]
    exact pollLoop_result deadline _ rounds

/-- A flow of two `slow_down`s: the waits are of 1, 6 and 11 seconds. -/
def slowedRounds : List Round :=
  let slow : PollAnswer := .refused (ascii "slow_down") []
  [⟨0, none, slow, 0⟩, ⟨second, none, slow, second⟩,
    ⟨7 * second, none, .refused (ascii "access_denied") [], 18 * second⟩]

theorem runDeviceFlow_pace_slowed :
    (runDeviceFlow ⟨600, 1⟩ 0 slowedRounds).1
        = [1 * second, 6 * second, 11 * second]
      ∧ ∀ w ∈ (runDeviceFlow ⟨600, 1⟩ 0 slowedRounds).1,
          orDefault 1 5 * second ≤ w := by
  refine ⟨by decide, ?_⟩
  have hfits : PaceFits ⟨600, 1⟩ 0 slowedRounds := by
    refine ⟨fun k _ => ?_, by decide⟩
    have hle : slowDowns (slowedRounds.take k) ≤ slowDowns slowedRounds :=
      (List.take_sublist k slowedRounds).countP_le
    have htwo : slowDowns slowedRounds = 2 := by decide
    show (1 + 5 * (slowDowns (slowedRounds.take k) : Int)) * second ≤ _
    unfold second maxDuration
    omega
  exact (runDeviceFlow_pace ⟨600, 1⟩ 0 slowedRounds hfits).2.2.1

/-- An announced interval of `9223372037` seconds is waited for not at all
(the duration is negative), and an announced lifetime of as many is over
at once. -/
theorem runDeviceFlow_pace_wraps :
    ((runDeviceFlow ⟨600, 9223372037⟩ 0 slowedRounds).1.head?
        = some (-9223372036709551616)
      ∧ ¬ ∀ w ∈ (runDeviceFlow ⟨600, 9223372037⟩ 0 slowedRounds).1,
        orDefault 9223372037 5 * second ≤ w)
    ∧ runDeviceFlow ⟨9223372037, 1⟩ 0 slowedRounds
        = ([], some (.error deviceCodeExpired))
      ∧ ¬ ∀ k, k < (runDeviceFlow ⟨9223372037, 1⟩ 0 slowedRounds).1.length
        ↔ WaitStarts (DeviceAuthorization.deadline ⟨9223372037, 1⟩ 0)
          slowedRounds k := by
  refine ⟨⟨by decide, by decide⟩, rfl, fun h => ?_⟩
  have hwait := (h 0).mpr ⟨⟨_, rfl, by decide⟩, nofun⟩
  exact absurd hwait (by decide)

end Tokyo3Base.OidcClient
