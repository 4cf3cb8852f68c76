/-
The probe-driven search of `replayStart`, proved once against an
abstract oracle.

# The contract

A search learns two kinds of facts from its probes, and they age
differently. "Fewer than `n` records match at or above `q`" is wanted
of the stream as it was when the search began, so it is a fact about
`q` alone (`Few`); "at least `n` match" is wanted of the stream as it
is LATER, when the consumer is created, so it is a fact about a world
and `q` that must survive every further probe (`Many`, `stays`).
`Sound` packages exactly this, and nothing about how the oracle counts:
a frozen stream and a growing one are two instances of it.

# Why 64 rounds

- `gallop`: `step · 2^fuel = 2^64` is invariant, and so is the sum
  `bad + step`, which stays below `2^64`. Fuel zero would need
  `step = 2^64`, which no `UInt64` is. The same invariant bounds the
  bracket it hands over by `2^63`.
- `bisect`: a bracket of width at most `2^k` is adjacent after `k`
  rounds, and one more round notices.
-/
import Mathlib.Tactic.Ring
import Tokyo3Base.Journal.Policy

namespace Tokyo3Base.Journal

variable {σ ε : Type}

-- ==== the contract

/-- What a search may conclude from a probe. `Ok` is whatever the oracle
needs of the world, kept by every probe. -/
structure Sound (pending : PendingFunc σ ε) (n : UInt64)
    (Ok : σ → Prop) (Few : Nat → Prop) (Many : σ → Nat → Prop) :
    Prop where
  ok : ∀ {q w c w'}, Ok w → pending q w = .ok (c, w') → Ok w'
  few : ∀ {q w c w'}, Ok w → pending q w = .ok (c, w') → c < n →
    Few q.toNat
  many : ∀ {q w c w'}, Ok w → pending q w = .ok (c, w') → n ≤ c →
    Many w' q.toNat
  stays : ∀ {q w c w' m}, Ok w → pending q w = .ok (c, w') →
    Many w m → Many w' m

variable {pending : PendingFunc σ ε} {n firstSeq lastSeq : UInt64}
  {Ok : σ → Prop} {Few : Nat → Prop} {Many : σ → Nat → Prop}

-- ==== the gallop

theorem toNat_mul_two (step : UInt64) (h : 2 * step.toNat < 2 ^ 64) :
    (step * 2).toNat = 2 * step.toNat := by
  rw [UInt64.toNat_mul, show (2 : UInt64).toNat = 2 from rfl]
  omega

/-- The candidate of one gallop round lies in `[firstSeq, bad)`, at most
`step` below `bad`, and is `bad - step` whenever it is not `firstSeq`:
neither subtraction wraps. -/
theorem gallop_cand {bad step cand : UInt64} (hlt : firstSeq < bad)
    (hstep : 0 < step.toNat)
    (hc : (if bad - firstSeq > step then bad - step else firstSeq) = cand) :
    firstSeq.toNat ≤ cand.toNat ∧ cand.toNat < bad.toNat
      ∧ bad.toNat ≤ cand.toNat + step.toNat
      ∧ (cand ≠ firstSeq → cand.toNat + step.toNat = bad.toNat) := by
  rw [UInt64.lt_iff_toNat_lt] at hlt
  have hsub : (bad - firstSeq).toNat = bad.toNat - firstSeq.toNat :=
    UInt64.toNat_sub_of_le _ _
      (UInt64.le_iff_toNat_le.mpr (Nat.le_of_lt hlt))
  by_cases hg : bad - firstSeq > step
  · rw [if_pos hg] at hc
    rw [gt_iff_lt, UInt64.lt_iff_toNat_lt, hsub] at hg
    have hcand : (bad - step).toNat = bad.toNat - step.toNat :=
      UInt64.toNat_sub_of_le _ _ (UInt64.le_iff_toNat_le.mpr (by omega))
    subst hc
    rw [hcand]
    refine ⟨by omega, by omega, by omega, fun _ => by omega⟩
  · rw [if_neg hg] at hc
    rw [gt_iff_lt, UInt64.lt_iff_toNat_lt, hsub] at hg
    subst hc
    exact ⟨Nat.le_refl _, hlt, by omega, fun h => absurd rfl h⟩

/-- What a finished gallop hands over. -/
def GallopPost (Ok : σ → Prop) (Few : Nat → Prop) (Many : σ → Nat → Prop)
    (firstSeq top : UInt64) :
    Except (Fault ε) (Option (UInt64 × UInt64) × σ) → Prop
  | .error .fuel => False
  | .error (.probe _) => True
  | .ok (none, w) => Ok w ∧ Few firstSeq.toNat
  | .ok (some (good, bad), w) =>
      Ok w ∧ Many w good.toNat ∧ Few bad.toNat
        ∧ firstSeq.toNat ≤ good.toNat ∧ good.toNat < bad.toNat
        ∧ bad.toNat ≤ top.toNat ∧ bad.toNat - good.toNat ≤ 2 ^ 63

/-- The gallop ends within its fuel, with a bracket or with the verdict
that `firstSeq` holds too few. Induction on the fuel; the two arithmetic
invariants are the ones of the module doc. -/
theorem gallop_spec (hs : Sound pending n Ok Few Many)
    (firstSeq top : UInt64) :
    ∀ (fuel : Nat) (bad step : UInt64) (w : σ), Ok w →
      Few bad.toNat → firstSeq < bad → bad ≤ top →
      step.toNat * 2 ^ fuel = 2 ^ 64 →
      bad.toNat + step.toNat < 2 ^ 64 →
      GallopPost Ok Few Many firstSeq top
        (gallop pending n firstSeq fuel bad step w) := by
  intro fuel
  induction fuel with
  | zero =>
      intro bad step w _ _ _ _ hpow _
      have := step.toNat_lt
      omega
  | succ fuel ih =>
      intro bad step w hok hbad hlt htop hpow hsum
      have htop' := UInt64.le_iff_toNat_le.mp htop
      have hpow' : 2 * step.toNat * 2 ^ fuel = 2 ^ 64 := by
        rw [← hpow, Nat.pow_succ]
        ring_nf
      have hstep : 0 < step.toNat := by
        rcases Nat.eq_zero_or_pos step.toNat with h0 | h0
        · rw [h0] at hpow
          omega
        · exact h0
      have hhalf : step.toNat ≤ 2 ^ 63 := by
        have h1 : 2 * step.toNat * 1 ≤ 2 * step.toNat * 2 ^ fuel :=
          Nat.mul_le_mul_left _ Nat.one_le_two_pow
        omega
      simp only [gallop]
      generalize hc : (if bad - firstSeq > step then bad - step
        else firstSeq) = cand
      obtain ⟨hlo, hhi, hwidth, hexact⟩ := gallop_cand hlt hstep hc
      cases hp : pending cand w with
      | error e => trivial
      | ok r =>
          obtain ⟨c, w'⟩ := r
          by_cases hcn : c ≥ n
          · simp only [hcn, if_true]
            exact ⟨hs.ok hok hp, hs.many hok hp hcn, hbad, hlo, hhi,
              htop', by omega⟩
          · have hfew : Few cand.toNat :=
              hs.few hok hp (UInt64.not_le.mp hcn)
            simp only [hcn, if_false]
            by_cases hfirst : cand = firstSeq
            · simp only [hfirst, if_true]
              rw [hfirst] at hfew
              exact ⟨hs.ok hok hp, hfew⟩
            · simp only [hfirst, if_false]
              have hex := hexact hfirst
              have hne : cand.toNat ≠ firstSeq.toNat := fun h =>
                hfirst (UInt64.toNat_inj.mp h)
              have hdouble := toNat_mul_two step (by omega)
              refine ih cand (step * 2) w' (hs.ok hok hp) hfew
                (UInt64.lt_iff_toNat_lt.mpr (by omega))
                (UInt64.le_iff_toNat_le.mpr (by omega)) ?_ ?_
              · rw [hdouble]
                exact hpow'
              · rw [hdouble]
                omega

-- ==== the bisection

/-- What a finished bisection hands over: a start that holds at least `n`
while its successor holds fewer. -/
def BisectPost (Ok : σ → Prop) (Few : Nat → Prop) (Many : σ → Nat → Prop)
    (good bad : UInt64) : Except (Fault ε) (UInt64 × σ) → Prop
  | .error .fuel => False
  | .error (.probe _) => True
  | .ok (start, w) =>
      Ok w ∧ Many w start.toNat ∧ Few (start.toNat + 1)
        ∧ good.toNat ≤ start.toNat ∧ start.toNat < bad.toNat

/-- A narrower bracket gives a stronger verdict. -/
theorem BisectPost.widen {good good' bad bad' : UInt64}
    {r : Except (Fault ε) (UInt64 × σ)}
    (hg : good.toNat ≤ good'.toNat) (hb : bad'.toNat ≤ bad.toNat)
    (h : BisectPost Ok Few Many good' bad' r) :
    BisectPost Ok Few Many good bad r := by
  match r, h with
  | .error (.probe _), _ => trivial
  | .ok (start, w), ⟨hok, hm, hf, hl, hh⟩ =>
      exact ⟨hok, hm, hf, by omega, by omega⟩

/-- Whether the bracket is adjacent: the subtraction does not wrap. -/
theorem bisect_width {good bad : UInt64} (hlt : good < bad) :
    (bad - good).toNat = bad.toNat - good.toNat
      ∧ (bad - good > 1 ↔ good.toNat + 1 < bad.toNat) := by
  rw [UInt64.lt_iff_toNat_lt] at hlt
  have hsub : (bad - good).toNat = bad.toNat - good.toNat :=
    UInt64.toNat_sub_of_le _ _
      (UInt64.le_iff_toNat_le.mpr (Nat.le_of_lt hlt))
  refine ⟨hsub, ?_⟩
  rw [gt_iff_lt, UInt64.lt_iff_toNat_lt, hsub,
    show (1 : UInt64).toNat = 1 from rfl]
  omega

/-- The midpoint: neither does the addition wrap. -/
theorem bisect_mid {good bad : UInt64} (hlt : good < bad) :
    (good + (bad - good) / 2).toNat
      = good.toNat + (bad.toNat - good.toNat) / 2 := by
  have hbad := bad.toNat_lt
  rw [UInt64.toNat_add, UInt64.toNat_div, (bisect_width hlt).1,
    show (2 : UInt64).toNat = 2 from rfl]
  rw [UInt64.lt_iff_toNat_lt] at hlt
  omega

/-- The bisection ends within its fuel. Induction on the width exponent
`k`; the fuel is `k + 1`, one round more than the halvings. -/
theorem bisect_spec (hs : Sound pending n Ok Few Many) :
    ∀ (k : Nat) (good bad : UInt64) (w : σ), Ok w →
      Many w good.toNat → Few bad.toNat → good < bad →
      bad.toNat - good.toNat ≤ 2 ^ k →
      BisectPost Ok Few Many good bad
        (bisect pending n (k + 1) good bad w) := by
  intro k
  induction k with
  | zero =>
      intro good bad w hok hgood hbad hlt hw
      have hstop := (bisect_width hlt).2
      rw [UInt64.lt_iff_toNat_lt] at hlt
      have hadj : bad.toNat = good.toNat + 1 := by omega
      have hgo : ¬ bad - good > 1 := fun h => by
        have := hstop.mp h
        omega
      simp only [bisect, hgo, if_false]
      rw [hadj] at hbad
      exact ⟨hok, hgood, hbad, Nat.le_refl _, hlt⟩
  | succ k ih =>
      intro good bad w hok hgood hbad hlt hw
      have hwidth := (bisect_width hlt).2
      have hmid := bisect_mid hlt
      rw [UInt64.lt_iff_toNat_lt] at hlt
      rw [bisect]
      by_cases hgo : bad - good > 1
      · simp only [hgo, if_true]
        have hwide := hwidth.mp hgo
        have hpow : 2 ^ (k + 1) = 2 * 2 ^ k := by
          rw [Nat.pow_succ, Nat.mul_comm]
        generalize good + (bad - good) / 2 = mid at hmid ⊢
        cases hp : pending mid w with
        | error e => trivial
        | ok r =>
            obtain ⟨c, w'⟩ := r
            by_cases hcn : c ≥ n
            · simp only [hcn, if_true]
              exact (ih mid bad w' (hs.ok hok hp) (hs.many hok hp hcn) hbad
                (UInt64.lt_iff_toNat_lt.mpr (by omega))
                (by omega)).widen (by omega) (Nat.le_refl _)
            · simp only [hcn, if_false]
              exact (ih good mid w' (hs.ok hok hp)
                (hs.stays hok hp hgood)
                (hs.few hok hp (UInt64.not_le.mp hcn))
                (UInt64.lt_iff_toNat_lt.mpr (by omega))
                (by omega)).widen (Nat.le_refl _) (by omega)
      · simp only [hgo, if_false]
        have hadj : bad.toNat = good.toNat + 1 := by
          rw [hwidth] at hgo
          omega
        rw [hadj] at hbad
        exact ⟨hok, hgood, hbad, Nat.le_refl _, hlt⟩

-- ==== replayStart

/-- The clamp, read in `Nat`: the larger of `firstSeq` and the start of
the last `n` sequences. -/
theorem replayHigh_toNat (firstSeq lastSeq : UInt64)
    (hn : 0 < n.toNat) :
    (replayHigh n firstSeq lastSeq).toNat
      = max firstSeq.toNat (lastSeq.toNat + 1 - n.toNat) := by
  have hl := lastSeq.toNat_lt
  unfold replayHigh
  by_cases hle : n ≤ lastSeq
  · have hle' := UInt64.le_iff_toNat_le.mp hle
    have hval : (lastSeq - n + 1).toNat = lastSeq.toNat + 1 - n.toNat := by
      rw [UInt64.toNat_add, UInt64.toNat_sub_of_le _ _ hle,
        show (1 : UInt64).toNat = 1 from rfl]
      omega
    by_cases hgt : lastSeq - n + 1 > firstSeq
    · rw [if_pos ⟨hle, hgt⟩, hval]
      rw [gt_iff_lt, UInt64.lt_iff_toNat_lt, hval] at hgt
      omega
    · rw [if_neg (fun h => hgt h.2)]
      rw [gt_iff_lt, UInt64.lt_iff_toNat_lt, hval] at hgt
      omega
  · rw [if_neg (fun h => hle h.1)]
    rw [UInt64.le_iff_toNat_le] at hle
    omega

/-- What `replayStart` concludes. A start below the clamp is sharp (its
successor holds too few); the clamp itself needs no such witness. -/
def ReplayPost (Ok : σ → Prop) (Few : Nat → Prop) (Many : σ → Nat → Prop)
    (n firstSeq lastSeq : UInt64) :
    Except (Fault ε) (Option UInt64 × σ) → Prop
  | .error .fuel => False
  | .error (.probe _) => True
  | .ok (none, w) => Ok w ∧ Few firstSeq.toNat
  | .ok (some start, w) =>
      Ok w ∧ Many w start.toNat ∧ firstSeq.toNat ≤ start.toNat
        ∧ start.toNat ≤ (replayHigh n firstSeq lastSeq).toNat
        ∧ (start = replayHigh n firstSeq lastSeq ∨ Few (start.toNat + 1))

/-- `replayStart` ends within its fuel and meets `ReplayPost`, for every
sound oracle and every bounds a stream can report. -/
theorem replayStart_spec (hs : Sound pending n Ok Few Many)
    (firstSeq : UInt64) (hn : 0 < n.toNat)
    (hlast : lastSeq.toNat < 2 ^ 64 - 1) {w : σ}
    (hok : Ok w) :
    ReplayPost Ok Few Many n firstSeq lastSeq
      (replayStart n firstSeq lastSeq pending w) := by
  have hhigh := replayHigh_toNat firstSeq lastSeq hn
  unfold replayStart
  dsimp only
  generalize hhi : replayHigh n firstSeq lastSeq = hi at hhigh ⊢
  cases hp : pending hi w with
  | error e => trivial
  | ok r =>
      obtain ⟨c, w₁⟩ := r
      by_cases hcn : c ≥ n
      · simp only [hcn, if_true]
        refine ⟨hs.ok hok hp, hs.many hok hp hcn, by omega, ?_, Or.inl ?_⟩
        · rw [hhi]
        · rw [hhi]
      · have hfew := hs.few hok hp (UInt64.not_le.mp hcn)
        have hok₁ := hs.ok hok hp
        simp only [hcn, if_false]
        by_cases hfirst : hi = firstSeq
        · simp only [hfirst, if_true]
          rw [hfirst] at hfew
          exact ⟨hok₁, hfew⟩
        · simp only [hfirst, if_false]
          have hne : hi.toNat ≠ firstSeq.toNat := fun h =>
            hfirst (UInt64.toNat_inj.mp h)
          have hg := gallop_spec hs firstSeq hi loopFuel hi 1 w₁ hok₁ hfew
            (UInt64.lt_iff_toNat_lt.mpr (by omega)) (UInt64.le_refl _)
            (by decide) (by
              rw [show (1 : UInt64).toNat = 1 from rfl]
              omega)
          match hgr : gallop pending n firstSeq loopFuel hi 1 w₁, hg with
          | .error (.probe e), _ => trivial
          | .ok (none, w₂), h => exact h
          | .ok (some (good, bad), w₂),
            ⟨hok₂, hmany, hfewb, hlo, hlt, htop, hwidth⟩ =>
              have hb := bisect_spec hs 63 good bad w₂ hok₂ hmany hfewb
                (UInt64.lt_iff_toNat_lt.mpr hlt) hwidth
              dsimp only
              match hbr : bisect pending n loopFuel good bad w₂, hb with
              | .error (.probe e), _ => trivial
              | .ok (start, w₃), ⟨hok₃, hm, hf, hge, hlt'⟩ =>
                  refine ⟨hok₃, hm, by omega, ?_, Or.inr hf⟩
                  rw [hhi]
                  omega

section Keeps

variable {Q : σ → Prop} {w w' : σ}

theorem gallop_keeps
    (hQ : ∀ {q w c w'}, pending q w = .ok (c, w') → Q w → Q w')
    {r : Option (UInt64 × UInt64)} :
    ∀ (fuel : Nat) (bad step : UInt64) (w : σ), Q w →
      gallop pending n firstSeq fuel bad step w = .ok (r, w') → Q w' := by
  intro fuel
  induction fuel with
  | zero => exact fun _ _ _ _ h => by cases h
  | succ fuel ih =>
      intro bad step w hw h
      unfold gallop at h
      dsimp only at h
      generalize (if bad - firstSeq > step then bad - step
        else firstSeq) = cand at h
      split at h
      · cases h
      · rename_i hp
        split at h
        · cases h
          exact hQ hp hw
        · split at h
          · cases h
            exact hQ hp hw
          · exact ih _ _ _ (hQ hp hw) h

theorem bisect_keeps
    (hQ : ∀ {q w c w'}, pending q w = .ok (c, w') → Q w → Q w')
    {start : UInt64} :
    ∀ (fuel : Nat) (good bad : UInt64) (w : σ), Q w →
      bisect pending n fuel good bad w = .ok (start, w') → Q w' := by
  intro fuel
  induction fuel with
  | zero => exact fun _ _ _ _ h => by cases h
  | succ fuel ih =>
      intro good bad w hw h
      unfold bisect at h
      dsimp only at h
      split at h
      · split at h
        · cases h
        · rename_i hp
          split at h
          · exact ih _ _ _ (hQ hp hw) h
          · exact ih _ _ _ (hQ hp hw) h
      · cases h
        exact hw

theorem replayStart_keeps
    (hQ : ∀ {q w c w'}, pending q w = .ok (c, w') → Q w → Q w')
    {r : Option UInt64} (hw : Q w)
    (h : replayStart n firstSeq lastSeq pending w = .ok (r, w')) :
    Q w' := by
  unfold replayStart at h
  dsimp only at h
  split at h
  · cases h
  · rename_i hp
    have hw₁ := hQ hp hw
    split at h
    · cases h
      exact hw₁
    · split at h
      · cases h
        exact hw₁
      · split at h
        · cases h
        · rename_i hg
          cases h
          exact gallop_keeps hQ _ _ _ _ hw₁ hg
        · rename_i hg
          have hw₂ := gallop_keeps hQ _ _ _ _ hw₁ hg
          split at h
          · cases h
          · rename_i hb
            cases h
            exact bisect_keeps hQ _ _ _ _ hw₂ hb

/-- Whatever every probe keeps, the decision keeps, however it ends. -/
theorem pickDeliverPolicy_keeps
    (hQ : ∀ {q w c w'}, pending q w = .ok (c, w') → Q w → Q w')
    {replay : Int64} {startFromSeq : UInt64} {d : DeliverPolicy × UInt64}
    (hw : Q w)
    (h : pickDeliverPolicy replay startFromSeq firstSeq lastSeq pending w
      = .ok (d, w')) : Q w' := by
  unfold pickDeliverPolicy at h
  repeat' split at h
  all_goals first
    | (cases h; exact hw)
    | cases h
  all_goals exact replayStart_keeps hQ hw ‹_›

end Keeps

end Tokyo3Base.Journal
