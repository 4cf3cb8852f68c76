/-
What `replayStart` costs, and that its arithmetic is exact, whatever the
probes answer.

# The log

`recorded` is an oracle that keeps a log of its probes, with their
answers, and otherwise answers like the one it wraps
(`replayStart_recorded`). A failed probe hands the log over with its error.
So the log of a search can be read off its result, however it ends.

# The bound

Let `D` be the distance from `firstSeq` to the first probe. The gallop is
in its round `j` only if `2^j ≤ D`, so it has at most as many rounds as `D`
has bits; a bracket that it finds in round `j` is at most `2^j` wide, which
the bisection halves away in `j` probes. With the first probe these are at
most two for each bit.

# Nothing twice

All probes of the gallop are below those before, so none is inside the
bracket that it hands over, and the bisection probes inside the bracket
only, which ends at the new probe.

# Checked arithmetic

The `Checked` functions are the same search with every operation checked.
They find nothing: each operation of the search is exact
(`replayStartChecked_eq`).
-/
import Mathlib.Data.Nat.Size
import Tokyo3Base.Journal.Proofs.Search

namespace Tokyo3Base.Journal

variable {σ ε ρ : Type}

-- ==== the checks

def checkedSub (a b : UInt64) : Option UInt64 :=
  if b ≤ a then some (a - b) else none

def checkedAdd (a b : UInt64) : Option UInt64 :=
  if a.toNat + b.toNat < 2 ^ 64 then some (a + b) else none

def checkedMul (a b : UInt64) : Option UInt64 :=
  if a.toNat * b.toNat < 2 ^ 64 then some (a * b) else none

/-- The candidate of a round; `none` is an operation that wraps. -/
def candChecked (firstSeq bad step : UInt64) : Option UInt64 :=
  (checkedSub bad firstSeq).bind fun width =>
    if width > step then checkedSub bad step else some firstSeq

/-- `gallop`, likewise. -/
def gallopChecked (pending : PendingFunc σ ε) (n firstSeq : UInt64) :
    Nat → UInt64 → UInt64 → σ →
      Option (Except (Fault ε) (Option (UInt64 × UInt64) × σ))
  | 0, _, _, _ => some (.error .fuel)
  | fuel + 1, bad, step, w => do
      let cand ← candChecked firstSeq bad step
      match pending cand w with
      | .error e => some (.error (.probe e))
      | .ok (c, w') =>
          if c ≥ n then some (.ok (some (cand, bad), w'))
          else if cand = firstSeq then some (.ok (none, w'))
          else do
            let step' ← checkedMul step 2
            gallopChecked pending n firstSeq fuel cand step' w'

/-- `bisect`, likewise. -/
def bisectChecked (pending : PendingFunc σ ε) (n : UInt64) :
    Nat → UInt64 → UInt64 → σ → Option (Except (Fault ε) (UInt64 × σ))
  | 0, _, _, _ => some (.error .fuel)
  | fuel + 1, good, bad, w => do
      let width ← checkedSub bad good
      if width > 1 then do
        let mid ← checkedAdd good (width / 2)
        match pending mid w with
        | .error e => some (.error (.probe e))
        | .ok (c, w') =>
            if c ≥ n then bisectChecked pending n fuel mid bad w'
            else bisectChecked pending n fuel good mid w'
      else some (.ok (good, w))

def replayHighChecked (n firstSeq lastSeq : UInt64) : Option UInt64 :=
  if n ≤ lastSeq then do
    let below ← checkedSub lastSeq n
    let high ← checkedAdd below 1
    some (if high > firstSeq then high else firstSeq)
  else some firstSeq

/-- `replayStart`, likewise. -/
def replayStartChecked (n firstSeq lastSeq : UInt64)
    (pending : PendingFunc σ ε) (w : σ) :
    Option (Except (Fault ε) (Option UInt64 × σ)) := do
  let hi ← replayHighChecked n firstSeq lastSeq
  match pending hi w with
  | .error e => some (.error (.probe e))
  | .ok (c, w₁) =>
      if c ≥ n then some (.ok (some hi, w₁))
      else if hi = firstSeq then some (.ok (none, w₁))
      else do
        match ← gallopChecked pending n firstSeq loopFuel hi 1 w₁ with
        | .error e => some (.error e)
        | .ok (none, w₂) => some (.ok (none, w₂))
        | .ok (some (good, bad), w₂) =>
            match ← bisectChecked pending n loopFuel good bad w₂ with
            | .error e => some (.error e)
            | .ok (start, w₃) => some (.ok (some start, w₃))

variable {pending : PendingFunc σ ε} {n firstSeq lastSeq : UInt64}

theorem checkedSub_of_le {a b : UInt64} (h : b.toNat ≤ a.toNat) :
    checkedSub a b = some (a - b) :=
  if_pos (UInt64.le_iff_toNat_le.mpr h)

theorem candChecked_eq {bad step : UInt64} (hlt : firstSeq < bad) :
    candChecked firstSeq bad step
      = some (if bad - firstSeq > step then bad - step else firstSeq) := by
  have hle := Nat.le_of_lt (UInt64.lt_iff_toNat_lt.mp hlt)
  rw [candChecked, checkedSub_of_le hle, Option.bind_some]
  split
  · rename_i hwide
    have hsub := UInt64.toNat_sub_of_le bad firstSeq
      (UInt64.le_iff_toNat_le.mpr hle)
    rw [gt_iff_lt, UInt64.lt_iff_toNat_lt, hsub] at hwide
    exact checkedSub_of_le (by omega)
  · rfl

/-- No operation of the gallop wraps: the sum `bad + step` stays below
`2^64`, and a step that is doubled is below `bad`. -/
theorem gallopChecked_eq (fuel : Nat) :
    ∀ (bad step : UInt64) (w : σ), firstSeq < bad → 0 < step.toNat →
      bad.toNat + step.toNat < 2 ^ 64 →
      gallopChecked pending n firstSeq fuel bad step w
        = some (gallop pending n firstSeq fuel bad step w) := by
  induction fuel with
  | zero => exact fun _ _ _ _ _ _ => rfl
  | succ fuel ih =>
      intro bad step w hlt hstep hsum
      have hlt' := UInt64.lt_iff_toNat_lt.mp hlt
      rw [gallopChecked, candChecked_eq hlt, gallop]
      simp only [Option.bind_eq_bind, Option.bind_some]
      generalize hc : (if bad - firstSeq > step then bad - step
        else firstSeq) = cand
      obtain ⟨hlo, -, -, hexact⟩ := gallop_cand hlt hstep hc
      cases hp : pending cand w with
      | error e => rfl
      | ok r =>
          obtain ⟨c, w'⟩ := r
          dsimp only
          split
          · rfl
          · split
            · rfl
            · rename_i hfirst
              have hex := hexact hfirst
              have hne : cand.toNat ≠ firstSeq.toNat := fun h =>
                hfirst (UInt64.toNat_inj.mp h)
              have hdouble := toNat_mul_two step (by omega)
              have hmul : checkedMul step 2 = some (step * 2) :=
                if_pos (by
                  rw [show (2 : UInt64).toNat = 2 from rfl]
                  omega)
              rw [hmul, Option.bind_some]
              exact ih cand (step * 2) w'
                (UInt64.lt_iff_toNat_lt.mpr (by omega)) (by omega)
                (by omega)

theorem bisectChecked_eq (fuel : Nat) :
    ∀ (good bad : UInt64) (w : σ), good < bad →
      bisectChecked pending n fuel good bad w
        = some (bisect pending n fuel good bad w) := by
  induction fuel with
  | zero => exact fun _ _ _ _ => rfl
  | succ fuel ih =>
      intro good bad w hlt
      obtain ⟨hsub, hwidth⟩ := bisect_width hlt
      have hmid := bisect_mid hlt
      have hbad := bad.toNat_lt
      have hlt' := UInt64.lt_iff_toNat_lt.mp hlt
      rw [bisectChecked, checkedSub_of_le (Nat.le_of_lt hlt'), bisect]
      simp only [Option.bind_eq_bind, Option.bind_some]
      split
      · rename_i hgo
        have hwide := hwidth.mp hgo
        have hadd : checkedAdd good ((bad - good) / 2)
            = some (good + (bad - good) / 2) := if_pos (by
          rw [UInt64.toNat_div, hsub, show (2 : UInt64).toNat = 2 from rfl]
          omega)
        rw [hadd, Option.bind_some]
        generalize good + (bad - good) / 2 = mid at hmid ⊢
        cases hp : pending mid w with
        | error e => rfl
        | ok r =>
            obtain ⟨c, w'⟩ := r
            dsimp only
            split
            · exact ih mid bad w' (UInt64.lt_iff_toNat_lt.mpr (by omega))
            · exact ih good mid w' (UInt64.lt_iff_toNat_lt.mpr (by omega))
      · rfl

theorem replayHighChecked_eq (hlast : lastSeq.toNat < 2 ^ 64 - 1) :
    replayHighChecked n firstSeq lastSeq
      = some (replayHigh n firstSeq lastSeq) := by
  unfold replayHighChecked replayHigh
  by_cases hle : n ≤ lastSeq
  · have hle' := UInt64.le_iff_toNat_le.mp hle
    have hadd : checkedAdd (lastSeq - n) 1 = some (lastSeq - n + 1) :=
      if_pos (by
        rw [UInt64.toNat_sub_of_le _ _ hle,
          show (1 : UInt64).toNat = 1 from rfl]
        omega)
    simp only [hle, if_true, checkedSub_of_le hle', Option.bind_eq_bind,
      Option.bind_some, hadd, true_and]
  · simp only [hle, if_false, false_and]

-- ==== the log

/-- One probe: the sequence that was asked about, and the answer. -/
structure Probe (ε : Type) where
  seq : UInt64
  answer : Except ε UInt64

/-- An oracle that keeps a log of its probes. -/
def recorded (pending : PendingFunc σ ε) :
    PendingFunc (σ × List (Probe ε)) (ε × List (Probe ε)) := fun q s =>
  match pending q s.1 with
  | .error e => .error (e, s.2 ++ [⟨q, .error e⟩])
  | .ok (c, w) => .ok (c, (w, s.2 ++ [⟨q, .ok c⟩]))

/-- A result without the log. -/
def withoutLog : Except (Fault (ε × List (Probe ε)))
    (ρ × (σ × List (Probe ε))) → Except (Fault ε) (ρ × σ)
  | .error (.probe e) => .error (.probe e.1)
  | .error .fuel => .error .fuel
  | .ok r => .ok (r.1, r.2.1)

theorem recorded_error {q : UInt64} {w : σ} {e : ε}
    (h : pending q w = .error e) (t : List (Probe ε)) :
    recorded pending q (w, t) = .error (e, t ++ [⟨q, .error e⟩]) := by
  simp only [recorded, h]

theorem recorded_ok {q c : UInt64} {w w' : σ}
    (h : pending q w = .ok (c, w')) (t : List (Probe ε)) :
    recorded pending q (w, t) = .ok (c, (w', t ++ [⟨q, .ok c⟩])) := by
  simp only [recorded, h]

theorem gallop_recorded (fuel : Nat) :
    ∀ (bad step : UInt64) (w : σ) (t : List (Probe ε)),
      withoutLog (gallop (recorded pending) n firstSeq fuel bad step (w, t))
        = gallop pending n firstSeq fuel bad step w := by
  induction fuel with
  | zero => exact fun _ _ _ _ => rfl
  | succ fuel ih =>
      intro bad step w t
      rw [gallop, gallop]
      generalize (if bad - firstSeq > step then bad - step
        else firstSeq) = cand
      cases hp : pending cand w with
      | error e =>
          rw [recorded_error hp]
          rfl
      | ok r =>
          rw [recorded_ok hp]
          dsimp only
          split
          · rfl
          · split
            · rfl
            · exact ih cand (step * 2) r.2 _

theorem bisect_recorded (fuel : Nat) :
    ∀ (good bad : UInt64) (w : σ) (t : List (Probe ε)),
      withoutLog (bisect (recorded pending) n fuel good bad (w, t))
        = bisect pending n fuel good bad w := by
  induction fuel with
  | zero => exact fun _ _ _ _ => rfl
  | succ fuel ih =>
      intro good bad w t
      rw [bisect, bisect]
      split
      · dsimp only
        cases hp : pending (good + (bad - good) / 2) w with
        | error e =>
            rw [recorded_error hp]
            rfl
        | ok r =>
            rw [recorded_ok hp]
            dsimp only
            split
            · exact ih _ _ r.2 _
            · exact ih _ _ r.2 _
      · rfl

theorem replayStart_recorded (w : σ) (t : List (Probe ε)) :
    withoutLog (replayStart n firstSeq lastSeq (recorded pending) (w, t))
      = replayStart n firstSeq lastSeq pending w := by
  unfold replayStart
  dsimp only
  generalize replayHigh n firstSeq lastSeq = hi
  cases hp : pending hi w with
  | error e =>
      rw [recorded_error hp]
      rfl
  | ok r =>
      obtain ⟨c, w₁⟩ := r
      rw [recorded_ok hp]
      dsimp only
      split
      · rfl
      · split
        · rfl
        · have hgallop := @gallop_recorded σ ε pending n firstSeq loopFuel hi
            1 w₁ (t ++ [⟨hi, .ok c⟩])
          rw [← hgallop]
          generalize gallop (recorded pending) n firstSeq loopFuel hi 1
            (w₁, t ++ [⟨hi, .ok c⟩]) = bracket
          rcases bracket with (e | _) | ⟨_ | ⟨good, bad⟩, w₂, t₂⟩
          · rfl
          · rfl
          · rfl
          · have hbisect := @bisect_recorded σ ε pending n loopFuel good bad
              w₂ t₂
            dsimp only [withoutLog]
            rw [← hbisect]
            generalize bisect (recorded pending) n loopFuel good bad
              (w₂, t₂) = found
            rcases found with (e | _) | ⟨start, w₃, t₃⟩
            · rfl
            · rfl
            · rfl

-- ==== the bounds

/-- Every probe got an answer. -/
def Answered (t : List (Probe ε)) : Prop :=
  ∀ p ∈ t, ∃ c, p.answer = .ok c

/-- The log of a search: no sequence twice, and each within the bounds. -/
structure LogOk (lo hi : Nat) (t : List (Probe ε)) : Prop where
  nodup : (t.map Probe.seq).Nodup
  within : ∀ p ∈ t, lo ≤ p.seq.toNat ∧ p.seq.toNat ≤ hi

/-- The log of a failed search: its last probe is the first to fail. -/
def FailedWith (e : ε) (t : List (Probe ε)) : Prop :=
  ∃ t' q, t = t' ++ [⟨q, .error e⟩] ∧ Answered t'

theorem Answered.snoc {t : List (Probe ε)} (h : Answered t) (q c : UInt64) :
    Answered (t ++ [⟨q, .ok c⟩]) := by
  intro p hp
  rcases List.mem_append.mp hp with hp | hp
  · exact h p hp
  · rw [List.mem_singleton.mp hp]
    exact ⟨c, rfl⟩

theorem LogOk.snoc {lo lo' hi : Nat} {t : List (Probe ε)} {q : UInt64}
    (h : LogOk lo hi t) (hnew : ∀ p ∈ t, p.seq ≠ q) (hlo : lo' ≤ lo)
    (hq : lo' ≤ q.toNat) (hhi : q.toNat ≤ hi) (answer : Except ε UInt64) :
    LogOk lo' hi (t ++ [⟨q, answer⟩]) := by
  refine ⟨?_, fun p hp => ?_⟩
  · rw [List.map_append]
    refine List.nodup_append.mpr ⟨h.nodup, List.pairwise_singleton _ _, ?_⟩
    intro a ha b hb
    obtain ⟨p, hp, rfl⟩ := List.mem_map.mp ha
    rw [List.mem_singleton.mp hb]
    exact hnew p hp
  · rcases List.mem_append.mp hp with hp | hp
    · have := h.within p hp
      omega
    · rw [List.mem_singleton.mp hp]
      exact ⟨hq, hhi⟩

/-- What the log of a finished gallop shows. A bracket at most `2^k` wide
was found in round `k`, and nothing inside it was probed. -/
def GallopLog (n firstSeq hi : UInt64) : Except (Fault (ε × List (Probe ε)))
    (Option (UInt64 × UInt64) × (σ × List (Probe ε))) → Prop
  | .error .fuel => False
  | .error (.probe (e, t)) =>
      LogOk firstSeq.toNat hi.toNat t ∧ FailedWith e t
        ∧ t.length ≤ Nat.size (hi.toNat - firstSeq.toNat) + 1
  | .ok (none, (_, t)) =>
      LogOk firstSeq.toNat hi.toNat t ∧ Answered t
        ∧ t.length ≤ Nat.size (hi.toNat - firstSeq.toNat) + 1
  | .ok (some (good, bad), (_, t)) =>
      LogOk firstSeq.toNat hi.toNat t ∧ Answered t
        ∧ (∃ k, bad.toNat ≤ good.toNat + 2 ^ k ∧ t.length = k + 2
          ∧ k < Nat.size (hi.toNat - firstSeq.toNat))
        ∧ firstSeq.toNat ≤ good.toNat ∧ good < bad ∧ bad.toNat ≤ hi.toNat
        ∧ (∀ p ∈ t, p.seq.toNat ≤ good.toNat ∨ bad.toNat ≤ p.seq.toNat)
        ∧ ∃ c, ⟨good, .ok c⟩ ∈ t ∧ n ≤ c

/-- A probe at an end of a smaller bracket leaves all probes outside it. -/
theorem outside_snoc {good bad good' bad' : Nat} {t : List (Probe ε)}
    {seq : UInt64} {answer : Except ε UInt64}
    (h : ∀ p ∈ t, p.seq.toNat ≤ good ∨ bad ≤ p.seq.toNat)
    (hgood : good ≤ good') (hbad : bad' ≤ bad)
    (hseq : seq.toNat ≤ good' ∨ bad' ≤ seq.toNat) :
    ∀ p ∈ t ++ [⟨seq, answer⟩],
      p.seq.toNat ≤ good' ∨ bad' ≤ p.seq.toNat := by
  intro p hp
  rcases List.mem_append.mp hp with hp | hp
  · exact (h p hp).imp (Nat.le_trans · hgood) (Nat.le_trans hbad)
  · rw [List.mem_singleton.mp hp]
    exact hseq

/-- Round `j` of the gallop: the step is `2^j`, and as many rounds and the
first probe are in the log, all of it at `bad` or above. -/
theorem gallop_log (hi : UInt64) (fuel : Nat) :
    ∀ (j : Nat) (bad step : UInt64) (w : σ) (t : List (Probe ε)),
      j + fuel = 64 → step.toNat = 2 ^ j → firstSeq < bad →
      bad.toNat + step.toNat = hi.toNat + 1 →
      LogOk bad.toNat hi.toNat t → Answered t → t.length = j + 1 →
      GallopLog n firstSeq hi
        (gallop (recorded pending) n firstSeq fuel bad step (w, t)) := by
  induction fuel with
  | zero =>
      intro j bad step w t hj hstep _ _ _ _ _
      have := step.toNat_lt
      obtain rfl : j = 64 := hj
      omega
  | succ fuel ih =>
      intro j bad step w t hj hstep hlt hsum hlog hans hlen
      have hlt' := UInt64.lt_iff_toNat_lt.mp hlt
      have hpos : 0 < step.toNat := by
        rw [hstep]
        exact Nat.two_pow_pos j
      have hround : j < Nat.size (hi.toNat - firstSeq.toNat) :=
        Nat.lt_size.mpr (by omega)
      rw [gallop]
      generalize hc : (if bad - firstSeq > step then bad - step
        else firstSeq) = cand
      obtain ⟨hlo, hhi, hwidth, hexact⟩ := gallop_cand hlt hpos hc
      have hnew : ∀ p ∈ t, p.seq ≠ cand := fun p hp heq => by
        have := (hlog.within p hp).1
        rw [heq] at this
        omega
      have hsnoc : ∀ answer, LogOk firstSeq.toNat hi.toNat
          (t ++ [⟨cand, answer⟩]) :=
        hlog.snoc hnew (Nat.le_of_lt hlt') hlo (by omega)
      have hcount : ∀ answer, (t ++ [(⟨cand, answer⟩ : Probe ε)]).length
          = j + 2 := fun answer => by
        rw [List.length_append, hlen]
        rfl
      cases hp : pending cand w with
      | error e =>
          rw [recorded_error hp]
          refine ⟨hsnoc _, ⟨t, cand, rfl, hans⟩, ?_⟩
          rw [hcount]
          omega
      | ok r =>
          obtain ⟨c, w'⟩ := r
          rw [recorded_ok hp]
          dsimp only
          split
          · rename_i hcn
            refine ⟨hsnoc _, hans.snoc cand c, ⟨j, by omega, hcount _, hround⟩,
              hlo, UInt64.lt_iff_toNat_lt.mpr hhi, by omega,
              outside_snoc (fun p hp => .inr (hlog.within p hp).1)
                (Nat.le_refl _) (Nat.le_refl _) (.inl (Nat.le_refl _)),
              c, List.mem_append_right _ (List.mem_singleton.mpr rfl), hcn⟩
          · split
            · refine ⟨hsnoc _, hans.snoc cand c, ?_⟩
              rw [hcount]
              omega
            · rename_i hfirst
              have hex := hexact hfirst
              have hne : cand.toNat ≠ firstSeq.toNat := fun h =>
                hfirst (UInt64.toNat_inj.mp h)
              have hhi' := hi.toNat_lt
              have hdouble := toNat_mul_two step (by omega)
              refine ih (j + 1) cand (step * 2) w' _ (by omega) ?_
                (UInt64.lt_iff_toNat_lt.mpr (by omega)) (by omega)
                (hlog.snoc hnew (Nat.le_of_lt hhi) (Nat.le_refl _)
                  (by omega) _) (hans.snoc cand c) (hcount _)
              rw [hdouble, hstep, Nat.pow_succ, Nat.mul_comm]

/-- What the log of a search shows, with at most `bound` probes. -/
def SearchLog (n : UInt64) (lo hi bound : Nat) :
    Except (Fault (ε × List (Probe ε)))
      (Option UInt64 × (σ × List (Probe ε))) → Prop
  | .error .fuel => False
  | .error (.probe (e, t)) =>
      LogOk lo hi t ∧ t.length ≤ bound ∧ FailedWith e t
  | .ok (r, (_, t)) =>
      LogOk lo hi t ∧ t.length ≤ bound ∧ Answered t
        ∧ ∀ start ∈ r, ∃ c, ⟨start, .ok c⟩ ∈ t ∧ n ≤ c

/-- A bracket at most `2^k` wide takes `k` probes. -/
theorem bisect_log {lo hi : Nat} (k : Nat) :
    ∀ (fuel : Nat) (good bad : UInt64) (w : σ) (t : List (Probe ε)),
      k < fuel → good < bad → bad.toNat ≤ good.toNat + 2 ^ k →
      lo ≤ good.toNat → bad.toNat ≤ hi → LogOk lo hi t → Answered t →
      (∀ p ∈ t, p.seq.toNat ≤ good.toNat ∨ bad.toNat ≤ p.seq.toNat) →
      (∃ c, ⟨good, .ok c⟩ ∈ t ∧ n ≤ c) →
      SearchLog n lo hi (t.length + k)
        ((bisect (recorded pending) n fuel good bad (w, t)).map
          fun r => (some r.1, r.2)) := by
  induction k with
  | zero =>
      intro fuel good bad w t hfuel hlt hw hlo hhi hlog hans hout hgood
      obtain ⟨fuel, rfl⟩ := Nat.exists_eq_add_one.mpr hfuel
      have hgo : ¬ bad - good > 1 := fun h => by
        have := (bisect_width hlt).2.mp h
        omega
      rw [bisect, if_neg hgo]
      refine ⟨hlog, Nat.le_refl _, hans, fun start hstart => ?_⟩
      cases hstart
      exact hgood
  | succ k ih =>
      intro fuel good bad w t hfuel hlt hw hlo hhi hlog hans hout hgood
      obtain ⟨fuel, rfl⟩ := Nat.exists_eq_add_one.mpr
        (Nat.lt_of_le_of_lt (Nat.zero_le _) hfuel)
      have hwidth := (bisect_width hlt).2
      have hmid := bisect_mid hlt
      rw [bisect]
      split
      · rename_i hgo
        have hwide := hwidth.mp hgo
        have hpow : 2 ^ (k + 1) = 2 * 2 ^ k := by
          rw [Nat.pow_succ, Nat.mul_comm]
        dsimp only
        generalize good + (bad - good) / 2 = mid at hmid ⊢
        have hnew : ∀ p ∈ t, p.seq ≠ mid := fun p hp heq => by
          have := hout p hp
          rw [heq] at this
          omega
        have hsnoc : ∀ answer, LogOk lo hi (t ++ [⟨mid, answer⟩]) :=
          hlog.snoc hnew (Nat.le_refl _) (by omega) (by omega)
        have hcount : ∀ answer, (t ++ [(⟨mid, answer⟩ : Probe ε)]).length + k
            = t.length + (k + 1) := fun answer => by
          rw [List.length_append, List.length_singleton]
          omega
        cases hp : pending mid w with
        | error e =>
            rw [recorded_error hp]
            refine ⟨hsnoc _, ?_, t, mid, rfl, hans⟩
            have := hcount (.error e)
            omega
        | ok r =>
            obtain ⟨c, w'⟩ := r
            rw [recorded_ok hp]
            dsimp only
            rw [← hcount (.ok c)]
            split
            · rename_i hcn
              refine ih fuel mid bad w' _ (by omega)
                (UInt64.lt_iff_toNat_lt.mpr (by omega)) (by omega) (by omega)
                hhi (hsnoc _) (hans.snoc mid c)
                (outside_snoc hout (by omega) (Nat.le_refl _)
                  (.inl (Nat.le_refl _)))
                ⟨c, List.mem_append_right _ (List.mem_singleton.mpr rfl),
                  hcn⟩
            · obtain ⟨d, hd, hdn⟩ := hgood
              refine ih fuel good mid w' _ (by omega)
                (UInt64.lt_iff_toNat_lt.mpr (by omega)) (by omega) hlo
                (by omega) (hsnoc _) (hans.snoc mid c)
                (outside_snoc hout (Nat.le_refl _) (by omega)
                  (.inr (Nat.le_refl _)))
                ⟨d, List.mem_append_left _ hd, hdn⟩
      · refine ⟨hlog, Nat.le_add_right _ _, hans, fun start hstart => ?_⟩
        cases hstart
        exact hgood

-- ==== the whole search

/-- Every oracle is sound for conclusions that say nothing. -/
theorem Sound.any (pending : PendingFunc σ ε) (n : UInt64) :
    Sound pending n (fun _ => True) (fun _ => True) (fun _ _ => True) :=
  ⟨fun _ _ => trivial, fun _ _ _ => trivial, fun _ _ _ => trivial,
    fun _ _ _ => trivial⟩

theorem replayHigh_le (firstSeq lastSeq : UInt64) (hn : 0 < n.toNat) :
    (replayHigh n firstSeq lastSeq).toNat
      ≤ max firstSeq.toNat lastSeq.toNat := by
  rw [replayHigh_toNat firstSeq lastSeq hn]
  omega

/-- Every operation of the search is exact. -/
theorem replayStartChecked_eq (hn : 0 < n.toNat)
    (hlast : lastSeq.toNat < 2 ^ 64 - 1) (w : σ) :
    replayStartChecked n firstSeq lastSeq pending w
      = some (replayStart n firstSeq lastSeq pending w) := by
  have hhigh := replayHigh_toNat firstSeq lastSeq hn
  unfold replayStartChecked replayStart
  rw [replayHighChecked_eq hlast]
  simp only [Option.bind_eq_bind, Option.bind_some]
  generalize replayHigh n firstSeq lastSeq = hi at hhigh ⊢
  cases hp : pending hi w with
  | error e => rfl
  | ok r =>
      obtain ⟨c, w₁⟩ := r
      dsimp only
      split
      · rfl
      · split
        · rfl
        · rename_i hfirst
          have hne : hi.toNat ≠ firstSeq.toNat := fun h =>
            hfirst (UInt64.toNat_inj.mp h)
          have hlt : firstSeq < hi := UInt64.lt_iff_toNat_lt.mpr (by omega)
          have hone : (1 : UInt64).toNat = 1 := rfl
          have hpost := gallop_spec (Sound.any pending n) firstSeq hi
            loopFuel hi 1 w₁ trivial trivial hlt (UInt64.le_refl _)
            (by decide) (by omega)
          rw [gallopChecked_eq loopFuel hi 1 w₁ hlt (by decide) (by omega),
            Option.bind_some]
          generalize gallop pending n firstSeq loopFuel hi 1 w₁ = bracket
            at hpost ⊢
          rcases bracket with (e | _) | ⟨_ | ⟨good, bad⟩, w₂⟩
          · rfl
          · rfl
          · rfl
          · obtain ⟨-, -, -, -, hgood, -, -⟩ := hpost
            dsimp only
            rw [bisectChecked_eq loopFuel good bad w₂
              (UInt64.lt_iff_toNat_lt.mpr hgood), Option.bind_some]
            rcases bisect pending n loopFuel good bad w₂ with e | r
            · rfl
            · rfl

theorem replayStart_log (hn : 0 < n.toNat) (w : σ) {hi : UInt64}
    (hhi : replayHigh n firstSeq lastSeq = hi) :
    SearchLog n firstSeq.toNat hi.toNat
      (2 * Nat.size (hi.toNat - firstSeq.toNat) + 1)
      (replayStart n firstSeq lastSeq (recorded pending) (w, [])) := by
  have hhigh := replayHigh_toNat firstSeq lastSeq hn
  rw [hhi] at hhigh
  have hle : firstSeq.toNat ≤ hi.toNat := by omega
  have hfirstLog : ∀ answer, LogOk firstSeq.toNat hi.toNat
      [(⟨hi, answer⟩ : Probe ε)] := fun answer => by
    refine ⟨List.pairwise_singleton _ _, fun p hp => ?_⟩
    rw [List.mem_singleton.mp hp]
    exact ⟨hle, Nat.le_refl _⟩
  have hanswered : ∀ c, Answered [(⟨hi, .ok c⟩ : Probe ε)] :=
    fun c p hp => ⟨c, by rw [List.mem_singleton.mp hp]⟩
  unfold replayStart
  dsimp only
  rw [hhi]
  cases hp : pending hi w with
  | error e =>
      rw [recorded_error hp]
      exact ⟨hfirstLog _, Nat.le_add_left _ _, [], hi, rfl, nofun⟩
  | ok r =>
      obtain ⟨c, w₁⟩ := r
      rw [recorded_ok hp]
      dsimp only
      split
      · rename_i hcn
        refine ⟨hfirstLog _, Nat.le_add_left _ _, hanswered c,
          fun start hstart => ?_⟩
        cases hstart
        exact ⟨c, List.mem_singleton.mpr rfl, hcn⟩
      · split
        · exact ⟨hfirstLog _, Nat.le_add_left _ _, hanswered c, nofun⟩
        · rename_i hfirst
          have hne : hi.toNat ≠ firstSeq.toNat := fun h =>
            hfirst (UInt64.toNat_inj.mp h)
          have hone : (1 : UInt64).toNat = 1 := rfl
          have hlog : GallopLog n firstSeq hi (gallop (recorded pending) n
              firstSeq loopFuel hi 1 (w₁, [⟨hi, .ok c⟩])) :=
            gallop_log hi loopFuel 0 hi 1 w₁ _ rfl rfl
              (UInt64.lt_iff_toNat_lt.mpr (by omega)) (by omega)
              ⟨List.pairwise_singleton _ _, fun p hp => by
                rw [List.mem_singleton.mp hp]
                exact ⟨Nat.le_refl _, Nat.le_refl _⟩⟩ (hanswered c) rfl
          rw [List.nil_append]
          generalize gallop (recorded pending) n firstSeq loopFuel hi 1
            (w₁, [⟨hi, .ok c⟩]) = bracket at hlog ⊢
          rcases bracket with (e | _) | ⟨_ | ⟨good, bad⟩, w₂, t₂⟩
          · obtain ⟨hok, hfail, hlen⟩ := hlog
            exact ⟨hok, by omega, hfail⟩
          · exact hlog
          · obtain ⟨hok, hans, hlen⟩ := hlog
            exact ⟨hok, by omega, hans, nofun⟩
          · obtain ⟨hok, hans, ⟨k, hwidth, hlen, hk⟩, hlo, hlt, htop, hout,
              hgood⟩ := hlog
            have hsize : Nat.size (hi.toNat - firstSeq.toNat) ≤ 64 :=
              Nat.size_le.mpr (by
                have := hi.toNat_lt
                omega)
            have hfuel : k < loopFuel := by
              show k < 64
              omega
            have hfound : SearchLog n firstSeq.toNat hi.toNat (t₂.length + k)
                ((bisect (recorded pending) n loopFuel good bad (w₂, t₂)).map
                  fun r => (some r.1, r.2)) :=
              bisect_log k loopFuel good bad w₂ t₂ hfuel hlt hwidth hlo htop
                hok hans hout hgood
            dsimp only
            generalize bisect (recorded pending) n loopFuel good bad
              (w₂, t₂) = found at hfound ⊢
            rcases found with (e | _) | ⟨start, w₃, t₃⟩
            · obtain ⟨hok, hlen', hfail⟩ := hfound
              exact ⟨hok, by omega, hfail⟩
            · exact hfound
            · obtain ⟨hok, hlen', hans, hstart⟩ := hfound
              exact ⟨hok, by omega, hans, hstart⟩

theorem LogOk.mono {lo hi hi' : Nat} {t : List (Probe ε)}
    (h : LogOk lo hi t) (hhi : hi ≤ hi') : LogOk lo hi' t :=
  ⟨h.nodup, fun p hp =>
    ⟨(h.within p hp).1, Nat.le_trans (h.within p hp).2 hhi⟩⟩

theorem SearchLog.mono {lo hi hi' bound bound' : Nat} (hhi : hi ≤ hi')
    (hbound : bound ≤ bound') : ∀ {r : Except (Fault (ε × List (Probe ε)))
      (Option UInt64 × (σ × List (Probe ε)))},
      SearchLog n lo hi bound r → SearchLog n lo hi' bound' r
  | .error .fuel, h => h
  | .error (.probe _), ⟨hlog, hlen, hfail⟩ =>
      ⟨hlog.mono hhi, Nat.le_trans hlen hbound, hfail⟩
  | .ok _, ⟨hlog, hlen, hans, hstart⟩ =>
      ⟨hlog.mono hhi, Nat.le_trans hlen hbound, hans, hstart⟩

/-- The search never wraps and never runs out of fuel. Its probes are as
many as two for each bit of the range and one, all different, all within
the range; a start that it finds is one of them, with an answer of at least
`n`, and if it fails then with the error of the last one, the only one. -/
theorem replayStart_probes (hn : 1 ≤ n.toNat)
    (hlast : lastSeq.toNat < 2 ^ 64 - 1) (pending : PendingFunc σ ε)
    (w : σ) :
    withoutLog (replayStart n firstSeq lastSeq (recorded pending) (w, []))
        = replayStart n firstSeq lastSeq pending w
      ∧ SearchLog n firstSeq.toNat (max firstSeq.toNat lastSeq.toNat)
        (2 * Nat.size (max firstSeq.toNat lastSeq.toNat - firstSeq.toNat) + 1)
        (replayStart n firstSeq lastSeq (recorded pending) (w, []))
      ∧ replayStartChecked n firstSeq lastSeq pending w
        = some (replayStart n firstSeq lastSeq pending w) := by
  have hhi := replayHigh_le firstSeq lastSeq hn
  have hsize := Nat.size_le_size (Nat.sub_le_sub_right hhi firstSeq.toNat)
  exact ⟨replayStart_recorded w [],
    (replayStart_log hn w rfl).mono hhi (by omega),
    replayStartChecked_eq hn hlast w⟩

/-- An oracle that contradicts itself: its answers only count the calls. -/
theorem replayStart_probes_counting :
    withoutLog (replayStart 3 1 100
        (recorded fun _ w => (.ok (w, w + 1) : Except Unit _)) (0, []))
        = replayStart 3 1 100 (fun _ w => (.ok (w, w + 1) : Except Unit _)) 0
      ∧ SearchLog 3 1 100 15 (replayStart 3 1 100
        (recorded fun _ w => (.ok (w, w + 1) : Except Unit _)) (0, []))
      ∧ replayStartChecked 3 1 100
          (fun _ w => (.ok (w, w + 1) : Except Unit _)) 0
        = some (replayStart 3 1 100
          (fun _ w => (.ok (w, w + 1) : Except Unit _)) 0) :=
  have h := @replayStart_probes UInt64 Unit 3 1 100 (by decide) (by decide)
    (fun _ w => .ok (w, w + 1)) 0
  ⟨h.1, h.2.1.mono (by decide) (by decide +kernel), h.2.2⟩

end Tokyo3Base.Journal
