/-
The replay window on a stable stream: `pickDeliverPolicy` selects
exactly the records the journal contract names.

The stream is frozen, so the probe is a pure count (`frozen`) and the
search contract is met with `Few`/`Many` being the two sides of one
comparison. Everything `replayStart` promises then pins the tail down
to size `n`: at the clamp because `n` consecutive sequences hold at
most `n` records, below it because the next cut already holds fewer.
-/
import Tokyo3Base.Journal.Subscribe
import Tokyo3Base.Journal.Proofs.Search

namespace Tokyo3Base.Journal

open Lib

-- ==== the frozen stream

/-- The probe of a stream that does not move: it never fails and counts
the matching sequences `M` at or above the argument. -/
def frozen (M : Finset Nat) : PendingFunc Unit Empty := fun q w =>
  .ok (UInt64.ofNat (tailCard M q.toNat), w)

@[simp] theorem selected_all (M : Finset Nat) (s : UInt64) :
    selected M (.all, s) = M := by
  simp [selected, selects]

@[simp] theorem selected_new (M : Finset Nat) (s : UInt64) :
    selected M (.new, s) = ∅ := by
  simp [selected, selects]

@[simp] theorem selected_byStartSequence (M : Finset Nat) (s : UInt64) :
    selected M (.byStartSequence, s) = tail M s.toNat := by
  simp [selected, selects, tail]

variable {M : Finset Nat} {n firstSeq lastSeq : UInt64}

theorem ofNat_tailCard {last : Nat} (hM : ∀ m ∈ M, m ≤ last)
    (hlast : last < 2 ^ 64 - 1) (q : Nat) :
    (UInt64.ofNat (tailCard M q)).toNat = tailCard M q := by
  have h := tailCard_le (q := q) hM
  rw [UInt64.toNat_ofNat']
  exact Nat.mod_eq_of_lt (by omega)

/-- The frozen probe is a sound oracle: too few and enough are the two
sides of one count. -/
theorem sound_frozen (hM : ∀ m ∈ M, m ≤ lastSeq.toNat)
    (hlast : lastSeq.toNat < 2 ^ 64 - 1) :
    Sound (frozen M) n (fun _ => True) (fun q => tailCard M q < n.toNat)
      (fun _ q => n.toNat ≤ tailCard M q) where
  ok := fun _ _ => trivial
  few := by
    intro q w c w' _ hp hlt
    injection hp with hp
    injection hp with hc _
    rw [← hc, UInt64.lt_iff_toNat_lt, ofNat_tailCard hM hlast] at hlt
    exact hlt
  many := by
    intro q w c w' _ hp hle
    injection hp with hp
    injection hp with hc _
    rw [← hc, UInt64.le_iff_toNat_le, ofNat_tailCard hM hlast] at hle
    exact hle
  stays := fun _ _ h => h

/-- At the clamp at most `n` sequences are left, so at most `n`
records. -/
theorem tailCard_replayHigh (firstSeq : UInt64) (hn : 0 < n.toNat)
    (hM : ∀ m ∈ M, m ≤ lastSeq.toNat) :
    tailCard M (replayHigh n firstSeq lastSeq).toNat ≤ n.toNat := by
  have h := tailCard_le (q := (replayHigh n firstSeq lastSeq).toNat) hM
  rw [replayHigh_toNat firstSeq lastSeq hn] at h ⊢
  omega

-- ==== the window

/-- The replay branch on a stable stream: `replayStart` succeeds, and its
answer is a cut of exactly `n` records, or the verdict that there are
fewer than `n`. -/
theorem replayStart_frozen (hn : 0 < n.toNat)
    (hlast : lastSeq.toNat < 2 ^ 64 - 1)
    (hlo : ∀ m ∈ M, firstSeq.toNat ≤ m)
    (hM : ∀ m ∈ M, m ≤ lastSeq.toNat) :
    (replayStart n firstSeq lastSeq (frozen M) () = .ok (none, ())
        ∧ M.card < n.toNat)
      ∨ ∃ start, replayStart n firstSeq lastSeq (frozen M) ()
          = .ok (some start, ()) ∧ tailCard M start.toNat = n.toNat := by
  have hpost := replayStart_spec (sound_frozen (n := n) hM hlast) firstSeq
    hn hlast (w := ()) trivial
  match hr : replayStart n firstSeq lastSeq (frozen M) (), hpost with
  | .ok (none, ()), ⟨_, hfew⟩ =>
      refine Or.inl ⟨rfl, ?_⟩
      have hfew : tailCard M firstSeq.toNat < n.toNat := hfew
      rw [tailCard, tail_eq_self hlo] at hfew
      exact hfew
  | .ok (some start, ()), ⟨_, hmany, _, _, hsharp⟩ =>
      refine Or.inr ⟨start, rfl, ?_⟩
      rcases hsharp with hhi | hnext
      · have := tailCard_replayHigh firstSeq hn hM
        rw [← hhi] at this
        omega
      · have := tailCard_le_succ (M := M) (q := start.toNat)
        omega

theorem toNat_replay {replay : Int64} (h : ¬ replay ≤ 0) :
    replay.toUInt64.toNat = replay.toInt.toNat
      ∧ 0 < replay.toInt.toNat := by
  rw [Int64.le_iff_toInt_le, show (0 : Int64).toInt = 0 from rfl] at h
  have hle : 0 ≤ replay := by
    rw [Int64.le_iff_toInt_le, show (0 : Int64).toInt = 0 from rfl]
    omega
  refine ⟨?_, by omega⟩
  rw [Int64.toNat_toUInt64_of_le hle]
  rfl

/-- The source's resume test, on numbers: `lastSeq + 1` does not wrap. -/
theorem resumes_iff {startFromSeq : UInt64}
    (hlast : lastSeq.toNat < 2 ^ 64 - 1) :
    startFromSeq > 0 ∧ startFromSeq ≤ lastSeq + 1
      ↔ 1 ≤ startFromSeq.toNat
        ∧ startFromSeq.toNat ≤ lastSeq.toNat + 1 := by
  rw [gt_iff_lt, UInt64.lt_iff_toNat_lt, UInt64.le_iff_toNat_le,
    UInt64.toNat_add, show (0 : UInt64).toNat = 0 from rfl,
    show (1 : UInt64).toNat = 1 from rfl]
  have := startFromSeq.toNat_lt
  omega

/-- With a backfill and no resume point, a stable stream gets a policy
that selects exactly the newest `replay` matching records. -/
theorem pickDeliverPolicy_backfill {replay : Int64} (hpos : ¬ replay ≤ 0)
    {startFromSeq : UInt64}
    (hres : ¬ (startFromSeq > 0 ∧ startFromSeq ≤ lastSeq + 1))
    (hfirst : 1 ≤ firstSeq.toNat) (hlast : lastSeq.toNat < 2 ^ 64 - 1)
    (hM : ∀ m ∈ M, firstSeq.toNat ≤ m ∧ m ≤ lastSeq.toNat) :
    ∃ d, pickDeliverPolicy replay startFromSeq firstSeq lastSeq (frozen M)
        () = .ok (d, ())
      ∧ IsNewest replay.toInt.toNat M (selected M d) := by
  have hupper : ∀ m ∈ M, m ≤ lastSeq.toNat := fun m hm => (hM m hm).2
  have hcard : M.card ≤ lastSeq.toNat :=
    card_le_of_bounds (fun m hm => Nat.le_trans hfirst (hM m hm).1) hupper
  obtain ⟨htoNat, hgt⟩ := toNat_replay hpos
  unfold pickDeliverPolicy
  rw [if_neg hres]
  by_cases hz : lastSeq = 0
  · -- a stream without sequences: nothing is selected, nothing is due
    rw [if_pos (Or.inr hz)]
    refine ⟨_, rfl, ?_⟩
    rw [hz, show (0 : UInt64).toNat = 0 from rfl] at hcard
    rw [selected_new, Finset.card_eq_zero.mp (Nat.le_zero.mp hcard)]
    exact isNewest_self (Nat.zero_le _)
  rw [if_neg fun h => h.elim hpos hz]
  by_cases hall : replay.toUInt64 ≥ lastSeq
  · rw [if_pos hall]
    refine ⟨_, rfl, ?_⟩
    rw [ge_iff_le, UInt64.le_iff_toNat_le, htoNat] at hall
    rw [selected_all]
    exact isNewest_self (Nat.le_trans hcard hall)
  · rw [if_neg hall]
    rcases replayStart_frozen (n := replay.toUInt64) (by omega) hlast
      (fun m hm => (hM m hm).1) hupper
      with ⟨hr, hfew⟩ | ⟨start, hr, hcut⟩
    · rw [hr]
      refine ⟨_, rfl, ?_⟩
      rw [selected_all]
      exact isNewest_self (by omega)
    · rw [hr]
      refine ⟨_, rfl, ?_⟩
      rw [selected_byStartSequence]
      exact isNewest_tail (by omega)

/-- The policy chosen on a stable stream selects exactly the records the
caller asked for: from a resume point inside the stream everything at
or above it; otherwise nothing without a backfill, and with one exactly
the newest `replay` matching records. -/
theorem pickDeliverPolicy_selects (replay : Int64)
    (startFromSeq firstSeq lastSeq : UInt64) (M : Finset Nat)
    (hfirst : 1 ≤ firstSeq.toNat)
    (hlast : lastSeq.toNat < 2 ^ 64 - 1)
    (hM : ∀ m ∈ M, firstSeq.toNat ≤ m ∧ m ≤ lastSeq.toNat) :
    ∃ d, pickDeliverPolicy replay startFromSeq firstSeq lastSeq (frozen M)
        () = .ok (d, ())
      ∧ (1 ≤ startFromSeq.toNat ∧ startFromSeq.toNat ≤ lastSeq.toNat + 1 →
          selected M d = M.filter (startFromSeq.toNat ≤ ·))
      ∧ (¬ (1 ≤ startFromSeq.toNat
            ∧ startFromSeq.toNat ≤ lastSeq.toNat + 1) →
          (replay ≤ 0 → selected M d = ∅)
          ∧ (0 < replay →
              IsNewest replay.toInt.toNat M (selected M d))) := by
  by_cases hres : startFromSeq > 0 ∧ startFromSeq ≤ lastSeq + 1
  · refine ⟨_, if_pos hres, fun _ => ?_,
      fun h => absurd ((resumes_iff hlast).mp hres) h⟩
    rw [selected_byStartSequence]
    rfl
  · have hno := fun h => hres ((resumes_iff hlast).mpr h)
    by_cases hpos : replay ≤ 0
    · refine ⟨_, (if_neg hres).trans (if_pos (Or.inl hpos)),
        fun h => absurd h hno, fun _ => ⟨fun _ => selected_new _ _, ?_⟩⟩
      exact fun h => absurd h (Int64.not_lt.mpr hpos)
    · obtain ⟨d, hd, hnew⟩ :=
        pickDeliverPolicy_backfill hpos hres hfirst hlast hM
      exact ⟨d, hd, fun h => absurd h hno,
        fun _ => ⟨fun h => absurd h hpos, fun _ => hnew⟩⟩

/-- Five sequences, of which 1, 3 and 5 match: a backfill of two selects
the newest two of the three. -/
theorem pickDeliverPolicy_selects_gapped :
    ∃ d, pickDeliverPolicy 2 0 1 5 (frozen {1, 3, 5}) () = .ok (d, ())
      ∧ IsNewest 2 {1, 3, 5} (selected {1, 3, 5} d) := by
  obtain ⟨d, hd, -, h⟩ := pickDeliverPolicy_selects 2 0 1 5 {1, 3, 5}
    (by decide) (by decide) (by decide)
  exact ⟨d, hd, (h (by decide)).2 (by decide)⟩

end Tokyo3Base.Journal
