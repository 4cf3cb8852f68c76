/-
What the map of buckets of `ratelimit.Limiter` holds, over any sequence
of calls.

# The argument

There are two ways into the map. A key of its own is entered only below
`maxBuckets` entries; the shared one is entered at or above that, and
only when it is not there. So the map holds at most `maxBuckets` entries
besides the shared one: `Bounded` says this without counting them
separately, and a sweep that drops the shared entry makes room for the
difference.

The only way out is `sweepLocked`. What it compares with is the time of
the last request charged to the entry (`Charged`).
-/
import Tokyo3Base.RateLimit.Limiter

namespace Tokyo3Base.RateLimit

open Go Lib

variable {l : Limiter} {key k : GoString} {now : Int} {b : Bucket}

-- ==== sweeping

/-- A sweep drops entries and changes none. -/
theorem get_sweepLocked (l : Limiter) (now : Int) (k : GoString) :
    (l.sweepLocked now).buckets.get k = l.buckets.get k
      ∨ (l.sweepLocked now).buckets.get k = none := by
  unfold Limiter.sweepLocked
  split
  · dsimp only
    rw [Table.get_retain]
    cases l.buckets.get k with
    | none => exact .inl rfl
    | some b =>
        rw [Option.filter_some]
        split
        · exact .inl rfl
        · exact .inr rfl
  · exact .inl rfl

/-- And it drops only what has been idle for longer than `idleTTL`. -/
theorem idle_of_swept (h : l.buckets.get k = some b)
    (hswept : (l.sweepLocked now).buckets.get k = none) :
    l.sweepDue now = true ∧ idleTTL < sub now b.seen := by
  unfold Limiter.sweepLocked at hswept
  split at hswept
  · rename_i hdue
    dsimp only at hswept
    rw [Table.get_retain, h, Option.filter_some] at hswept
    split at hswept
    · cases hswept
    · rename_i hidle
      exact ⟨hdue, by simpa using hidle⟩
  · rw [h] at hswept
    cases hswept

theorem size_sweepLocked (l : Limiter) (now : Int) :
    (l.sweepLocked now).buckets.size ≤ l.buckets.size := by
  unfold Limiter.sweepLocked
  split
  · exact Table.size_retain_le _ _
  · exact Nat.le_refl _

-- ==== which bucket

/-- A source with an entry uses it. -/
theorem resolve_of_some (h : l.buckets.get key = some b) (now : Int) :
    l.resolve key now = (l, key, b) := by
  unfold Limiter.resolve
  rw [h]

theorem resolve_of_full (h : l.buckets.get key = none)
    (hfull : maxBuckets ≤ (l.sweepLocked now).buckets.size) :
    l.resolve key now = (l.sweepLocked now, overflowKey,
      ((l.sweepLocked now).buckets.get overflowKey).getD
        (l.sweepLocked now).newBucket) := by
  unfold Limiter.resolve
  rw [h]
  exact if_pos hfull

theorem resolve_of_room (h : l.buckets.get key = none)
    (hroom : (l.sweepLocked now).buckets.size < maxBuckets) :
    l.resolve key now = (l.sweepLocked now, key,
      (l.sweepLocked now).newBucket) := by
  unfold Limiter.resolve
  rw [h]
  exact if_neg (Nat.not_le.mpr hroom)

/-- The limiter that is charged is this one, or this one swept where the
source has no entry. -/
theorem resolve_fst (l : Limiter) (key : GoString) (now : Int) :
    (l.resolve key now).1 = l
      ∨ l.buckets.get key = none
        ∧ (l.resolve key now).1 = l.sweepLocked now := by
  cases h : l.buckets.get key with
  | some b => exact .inl (by rw [resolve_of_some h])
  | none =>
      refine .inr ⟨rfl, ?_⟩
      by_cases hfull : maxBuckets ≤ (l.sweepLocked now).buckets.size
      · rw [resolve_of_full h hfull]
      · rw [resolve_of_room h (Nat.lt_of_not_le hfull)]

/-- Only the entry that is charged changes. -/
theorem get_allow_ne (hk : k ≠ (l.resolve key now).2.1) :
    (l.allow key now).2.buckets.get k = (l.resolve key now).1.buckets.get k :=
  Table.get_set_ne _ hk _

theorem get_allow_self (l : Limiter) (key : GoString) (now : Int) :
    ∃ b, (l.allow key now).2.buckets.get (l.resolve key now).2.1
      = some b ∧ b.seen = now :=
  ⟨_, Table.get_set_self _ _ _, rfl⟩

theorem warned_get {p : GoString × Bucket}
    (h : l.warned key = some p) : l.buckets.get p.1 = some p.2 := by
  unfold Limiter.warned at h
  split at h
  · rename_i b hb
    cases h
    exact hb
  · obtain ⟨b, hb, rfl⟩ := Option.map_eq_some_iff.mp h
    exact hb

/-- `warnDue` touches neither tokens nor times of use, and the map keeps
its entries. -/
theorem get_warnDue (l : Limiter) (key : GoString) (now : Int)
    (k : GoString) :
    ((l.warnDue key now).2.buckets.get k).map (fun b => (b.lim, b.seen))
      = (l.buckets.get k).map fun b => (b.lim, b.seen) := by
  unfold Limiter.warnDue
  cases hw : l.warned key with
  | none => rfl
  | some p =>
      have hget := warned_get hw
      have hset : ∀ c : Bucket, c.lim = p.2.lim → c.seen = p.2.seen →
          ((l.buckets.set p.1 c).get k).map (fun b => (b.lim, b.seen))
            = (l.buckets.get k).map fun b => (b.lim, b.seen) := by
        intro c hlim hseen
        by_cases hk : k = p.1
        · rw [hk, Table.get_set_self, hget, Option.map_some,
            Option.map_some, hlim, hseen]
        · rw [Table.get_set_ne _ hk]
      dsimp only
      split
      · exact hset _ rfl rfl
      · exact hset _ rfl rfl

-- ==== the bound

/-- Besides the shared entry there are at most `maxBuckets`. -/
structure Bounded (l : Limiter) : Prop where
  size : l.buckets.size ≤ maxBuckets + 1
  room : l.buckets.get overflowKey = none →
    l.buckets.size ≤ maxBuckets

theorem Bounded.sweepLocked (h : Bounded l) (now : Int) :
    Bounded (l.sweepLocked now) := by
  refine ⟨Nat.le_trans (size_sweepLocked l now) h.size, fun hnone => ?_⟩
  cases hover : l.buckets.get overflowKey with
  | none => exact Nat.le_trans (size_sweepLocked l now) (h.room hover)
  | some b =>
      -- the shared entry itself was swept
      have hdue := (idle_of_swept hover hnone).1
      have hswept : (l.sweepLocked now).buckets = l.buckets.retain
          fun _ b => !decide (idleTTL < sub now b.seen) := by
        unfold Limiter.sweepLocked
        rw [if_pos hdue]
      rw [hswept] at hnone ⊢
      have := Table.size_retain_lt hover hnone
      have := h.size
      omega

theorem Bounded.set_of_some (h : Bounded l)
    (hk : l.buckets.get k = some b) (c : Bucket) :
    Bounded { l with buckets := l.buckets.set k c } := by
  have hsize := Table.size_set_of_some hk c
  refine ⟨Nat.le_trans hsize h.size, fun hnone => ?_⟩
  refine Nat.le_trans hsize (h.room ?_)
  by_cases hover : overflowKey = k
  · subst hover
    rw [Table.get_set_self] at hnone
    cases hnone
  · rwa [Table.get_set_ne _ hover] at hnone

/-- A new entry of a source's own. -/
theorem Bounded.set_own (hk : l.buckets.get k = none)
    (hroom : l.buckets.size < maxBuckets) (c : Bucket) :
    Bounded { l with buckets := l.buckets.set k c } := by
  have hsize := Table.size_set_of_none hk c
  exact ⟨by dsimp only; omega, fun _ => by dsimp only; omega⟩

/-- The shared entry, where there is none. -/
theorem Bounded.set_shared (h : Bounded l)
    (hover : l.buckets.get overflowKey = none) (c : Bucket) :
    Bounded { l with buckets := l.buckets.set overflowKey c } := by
  have hsize := Table.size_set_of_none hover c
  have := h.room hover
  refine ⟨by dsimp only; omega, fun hnone => ?_⟩
  dsimp only at hnone
  rw [Table.get_set_self] at hnone
  cases hnone

theorem Bounded.allow (h : Bounded l) (key : GoString) (now : Int) :
    Bounded (l.allow key now).2 := by
  unfold Limiter.allow Limiter.charge
  cases hget : l.buckets.get key with
  | some b =>
      rw [resolve_of_some hget]
      exact h.set_of_some hget _
  | none =>
      have hswept := h.sweepLocked now
      by_cases hfull : maxBuckets ≤ (l.sweepLocked now).buckets.size
      · rw [resolve_of_full hget hfull]
        cases hover : (l.sweepLocked now).buckets.get overflowKey with
        | some b => exact hswept.set_of_some hover _
        | none => exact hswept.set_shared hover _
      · have hroom := Nat.lt_of_not_le hfull
        have hnone : (l.sweepLocked now).buckets.get key = none := by
          rcases get_sweepLocked l now key with hsame | hnone
          · rw [hsame, hget]
          · exact hnone
        rw [resolve_of_room hget hroom]
        exact Bounded.set_own hnone hroom _

theorem Bounded.warnDue (h : Bounded l) (key : GoString) (now : Int) :
    Bounded (l.warnDue key now).2 := by
  unfold Limiter.warnDue
  cases hw : l.warned key with
  | none => exact h
  | some p =>
      dsimp only
      split
      · exact h.set_of_some (warned_get hw) _
      · exact h.set_of_some (warned_get hw) _

-- ==== whole runs

/-- The time an entry carries is that of the last request charged to
it. -/
def Charged (s : Traced) : Prop :=
  ∀ k b, s.limiter.buckets.get k = some b → s.charged k = some b.seen

theorem Charged.step {s : Traced} (h : Charged s) (c : Call) :
    Charged (s.step c) := by
  intro k b hb
  cases c with
  | allow key now =>
      by_cases hk : k = (s.limiter.resolve key now).2.1
      · obtain ⟨d, hd, hseen⟩ := get_allow_self s.limiter key now
        rw [← hk] at hd
        cases hb.symm.trans hd
        rw [hseen, hk]
        exact Function.update_self _ _ _
      · have hb' : (s.limiter.allow key now).2.buckets.get k = some b := hb
        rw [get_allow_ne hk] at hb'
        have hold : s.limiter.buckets.get k = some b := by
          rcases resolve_fst s.limiter key now with hsame | ⟨-, hswept⟩
          · rwa [hsame] at hb'
          · rw [hswept] at hb'
            rcases get_sweepLocked s.limiter now k with hsame | hnone
            · rwa [hsame] at hb'
            · rw [hnone] at hb'
              cases hb'
        exact (Function.update_of_ne hk _ _).trans (h k b hold)
  | warnDue key now =>
      have hsame := get_warnDue s.limiter key now k
      have hb' : (s.limiter.warnDue key now).2.buckets.get k = some b := hb
      rw [hb', Option.map_some] at hsame
      obtain ⟨c, hc, hpair⟩ := Option.map_eq_some_iff.mp hsame.symm
      have hseen : c.seen = b.seen := congrArg Prod.snd hpair
      rw [← hseen]
      exact h k c hc

theorem Bounded.step {s : Traced} (h : Bounded s.limiter) (c : Call) :
    Bounded (s.step c).limiter := by
  cases c with
  | allow key now => exact h.allow key now
  | warnDue key now => exact h.warnDue key now

theorem new_empty {cfg : Config} (h : new cfg = some l) :
    l.buckets = .empty ∧ l.lastSweep = 0 := by
  unfold new at h
  split at h
  · cases h
  · cases h
    exact ⟨rfl, rfl⟩

end Tokyo3Base.RateLimit
