/-
How many requests of one source `ratelimit.Limiter` admits in a time
window.

# The argument

A source without an entry gets a full bucket, so what counts is its
`level`: the tokens that its next request will find, with a full bucket
for no entry. A request that is admitted lowers the level by one, time
raises it at the rate, and it is never above the burst; so the requests
admitted from `lo` on, together with the level, stay within
`burst + rps * (now - lo)` (`Paced`).

A sweep replaces a bucket by none. It leaves the level alone if the
bucket was full again by then, which it was if `idleTTL` and one more
nanosecond refill the burst (`Refills`). Otherwise a bucket that was
emptied and swept comes back full too early, and a second burst goes
through (`serve_minted`).
-/
import Mathlib.Tactic.Linarith
import Mathlib.Tactic.Ring
import Mathlib.Data.List.Dedup
import Tokyo3Base.RateLimit.Proofs.Buckets

namespace Tokyo3Base.RateLimit

open Go Lib

variable {l : Limiter} {key k : GoString} {now t τ : Int} {b : Bucket}

-- ==== levels

/-- What the next request of a source finds. -/
def Limiter.level (l : Limiter) (key : GoString) (now : Int) : ℚ :=
  match l.buckets.get key with
  | none => l.burst
  | some b => b.lim.available l.rps l.burst (seconds now)

/-- The time it takes a sweep to find a bucket idle refills the
burst. -/
def Limiter.Refills (l : Limiter) : Prop :=
  (l.burst : ℚ) ≤ l.rps * seconds (idleTTL + 1)

theorem seconds_le {s t : Int} (h : s ≤ t) : seconds s ≤ seconds t := by
  have : (s : ℚ) ≤ (t : ℚ) := Int.cast_le.mpr h
  unfold seconds
  linarith

theorem seconds_sub (s t : Int) :
    seconds (s - t) = seconds s - seconds t := by
  unfold seconds
  rw [Int.cast_sub, sub_div]

theorem Limiter.burst_cast (l : Limiter) : (1 : ℚ) ≤ l.burst := by
  exact_mod_cast l.burst_pos

theorem level_of_none (h : l.buckets.get key = none) :
    l.level key now = l.burst := by
  unfold Limiter.level
  rw [h]

theorem level_of_some (h : l.buckets.get key = some b) :
    l.level key now = b.lim.available l.rps l.burst (seconds now) := by
  unfold Limiter.level
  rw [h]

theorem level_le_burst (l : Limiter) (key : GoString) (now : Int) :
    l.level key now ≤ l.burst := by
  cases h : l.buckets.get key with
  | none => exact (level_of_none h).le
  | some b =>
      rw [level_of_some h]
      exact TokenBucket.available_le_burst

/-- What is known of a bucket: no debt, and no request after the time it
was last used. -/
structure Sound (τ : Int) (b : Bucket) : Prop where
  tokens : 0 ≤ b.lim.tokens
  last : b.lim.last ≤ seconds b.seen
  seen : b.seen ≤ τ

def AllSound (l : Limiter) (τ : Int) : Prop :=
  ∀ k b, l.buckets.get k = some b → Sound τ b

theorem AllSound.level_nonneg (h : AllSound l τ) (key : GoString)
    (now : Int) : 0 ≤ l.level key now := by
  cases hb : l.buckets.get key with
  | none =>
      rw [level_of_none hb]
      exact zero_le_one.trans l.burst_cast
  | some b =>
      rw [level_of_some hb]
      exact TokenBucket.available_nonneg l.rps_pos.le
        (zero_le_one.trans l.burst_cast) (h key b hb).tokens

-- ==== sweeps

theorem sweepLocked_rps (l : Limiter) (now : Int) :
    (l.sweepLocked now).rps = l.rps := by
  unfold Limiter.sweepLocked
  split <;> rfl

theorem sweepLocked_burst (l : Limiter) (now : Int) :
    (l.sweepLocked now).burst = l.burst := by
  unfold Limiter.sweepLocked
  split <;> rfl

/-- A sweep only drops buckets that are full. -/
theorem level_sweepLocked (hsound : AllSound l τ) (hcond : l.Refills)
    (ht : now ≤ t) :
    (l.sweepLocked now).level key t = l.level key t := by
  have hsame : (l.sweepLocked now).buckets.get key = l.buckets.get key →
      (l.sweepLocked now).level key t = l.level key t := by
    intro h
    unfold Limiter.level
    rw [h, sweepLocked_rps, sweepLocked_burst]
  rcases get_sweepLocked l now key with h | hnone
  · exact hsame h
  cases hb : l.buckets.get key with
  | none => exact hsame (hnone.trans hb.symm)
  | some b =>
      obtain ⟨-, hidle⟩ := idle_of_swept hb hnone
      rw [lt_sub_iff (by decide) (by decide)] at hidle
      have hgap : seconds (idleTTL + 1) ≤ seconds t - seconds b.seen := by
        rw [← seconds_sub]
        exact seconds_le (by omega)
      have hfull := hcond.trans
        (mul_le_mul_of_nonneg_left hgap l.rps_pos.le)
      rw [level_of_none hnone, level_of_some hb, sweepLocked_burst,
        TokenBucket.available_idle l.rps_pos.le (hsound key b hb).tokens
          (hsound key b hb).last hfull]

theorem AllSound.sweepLocked (h : AllSound l τ) :
    AllSound (l.sweepLocked now) τ := by
  intro k b hb
  rcases get_sweepLocked l now k with hsame | hnone
  · exact h k b (hsame ▸ hb)
  · rw [hnone] at hb
    cases hb

-- ==== one request

/-- Below the bound on the map every source has its own bucket, with
what its level says. -/
theorem resolve_own (key : GoString) (now : Int)
    (hsize : l.buckets.size < maxBuckets) :
    (l.resolve key now).2.1 = key
      ∧ ∀ t, (l.resolve key now).2.2.lim.available l.rps l.burst
          (seconds t) = (l.resolve key now).1.level key t := by
  cases hb : l.buckets.get key with
  | some b =>
      rw [resolve_of_some hb]
      exact ⟨rfl, fun t => (level_of_some hb).symm⟩
  | none =>
      have hnone : (l.sweepLocked now).buckets.get key = none := by
        rcases get_sweepLocked l now key with h | h
        · rw [h, hb]
        · exact h
      rw [resolve_of_room hb
        (Nat.lt_of_le_of_lt (size_sweepLocked l now) hsize)]
      refine ⟨rfl, fun t => ?_⟩
      rw [level_of_none hnone]
      unfold Limiter.newBucket
      rw [sweepLocked_burst]
      exact TokenBucket.available_full l.rps_pos.le _

theorem resolve_rps (l : Limiter) (key : GoString) (now : Int) :
    (l.resolve key now).1.rps = l.rps
      ∧ (l.resolve key now).1.burst = l.burst := by
  rcases resolve_fst l key now with h | ⟨-, h⟩
  · rw [h]
    exact ⟨rfl, rfl⟩
  · rw [h]
    exact ⟨sweepLocked_rps l now, sweepLocked_burst l now⟩

theorem level_resolve (hsound : AllSound l τ) (hcond : l.Refills)
    (ht : now ≤ t) :
    (l.resolve k now).1.level key t = l.level key t := by
  rcases resolve_fst l k now with h | ⟨-, h⟩
  · rw [h]
  · rw [h, level_sweepLocked hsound hcond ht]

/-- The bucket a request is charged to has no debt, and either it was
last used before or it is full. -/
theorem resolve_bucket (key : GoString) (hsound : AllSound l τ)
    (hτ : τ ≤ now) :
    0 ≤ (l.resolve key now).2.2.lim.tokens
      ∧ ((l.resolve key now).2.2.lim.last ≤ seconds now
        ∨ 1 ≤ (l.resolve key now).2.2.lim.available l.rps l.burst
          (seconds now)) := by
  have hheld : ∀ {l' : Limiter} {k b}, AllSound l' τ →
      l'.buckets.get k = some b →
      0 ≤ b.lim.tokens ∧ b.lim.last ≤ seconds now := by
    intro l' k b h hb
    have hb := h k b hb
    exact ⟨hb.tokens, hb.last.trans (seconds_le (hb.seen.trans hτ))⟩
  have hnew : 0 ≤ (l.sweepLocked now).newBucket.lim.tokens
      ∧ 1 ≤ (l.sweepLocked now).newBucket.lim.available l.rps l.burst
        (seconds now) := by
    unfold Limiter.newBucket
    rw [sweepLocked_burst]
    refine ⟨zero_le_one.trans l.burst_cast, ?_⟩
    rw [TokenBucket.available_full l.rps_pos.le]
    exact l.burst_cast
  cases hb : l.buckets.get key with
  | some b =>
      rw [resolve_of_some hb]
      obtain ⟨htokens, hlast⟩ := hheld hsound hb
      exact ⟨htokens, .inl hlast⟩
  | none =>
      by_cases hfull : maxBuckets ≤ (l.sweepLocked now).buckets.size
      · rw [resolve_of_full hb hfull]
        cases hover : (l.sweepLocked now).buckets.get overflowKey with
        | some b =>
            obtain ⟨htokens, hlast⟩ := hheld hsound.sweepLocked hover
            exact ⟨htokens, .inl hlast⟩
        | none => exact ⟨hnew.1, .inr hnew.2⟩
      · rw [resolve_of_room hb (Nat.lt_of_not_le hfull)]
        exact ⟨hnew.1, .inr hnew.2⟩

theorem AllSound.allow (h : AllSound l τ) (key : GoString)
    (hτ : τ ≤ now) : AllSound (l.allow key now).2 now := by
  intro k b hb
  by_cases hk : k = (l.resolve key now).2.1
  · subst hk
    obtain ⟨hrps, hburst⟩ := resolve_rps l key now
    obtain ⟨htokens, hlast⟩ := resolve_bucket key h hτ
    unfold Limiter.allow Limiter.charge at hb
    dsimp only at hb
    rw [Table.get_set_self, hrps, hburst] at hb
    cases hb
    exact ⟨TokenBucket.take_tokens_nonneg htokens,
      TokenBucket.take_last_le hlast, le_refl now⟩
  · rw [get_allow_ne hk] at hb
    have hold : Sound τ b := by
      rcases resolve_fst l key now with hsame | ⟨-, hswept⟩
      · exact h k b (hsame ▸ hb)
      · exact h.sweepLocked k b (hswept ▸ hb)
    exact ⟨hold.tokens, hold.last, hold.seen.trans hτ⟩

/-- A request of another source leaves the level alone. -/
theorem level_allow_ne (hsound : AllSound l τ) (hcond : l.Refills)
    (hsize : l.buckets.size < maxBuckets) (hk : key ≠ k) (ht : now ≤ t) :
    (l.allow k now).2.level key t = l.level key t := by
  obtain ⟨hown, -⟩ := resolve_own k now hsize
  have hkey : key ≠ (l.resolve k now).2.1 := by
    rwa [hown]
  have hget := get_allow_ne hkey
  have hlevel : (l.allow k now).2.level key t
      = (l.resolve k now).1.level key t := by
    unfold Limiter.level
    rw [hget]
    rfl
  rw [hlevel, level_resolve hsound hcond ht]

/-- A request of the source itself lowers it, if it is admitted. -/
theorem level_allow_self (key : GoString) (hsound : AllSound l τ)
    (hcond : l.Refills) (hsize : l.buckets.size < maxBuckets) (ht : now ≤ t) :
    (l.allow key now).2.level key t
      ≤ l.level key now - (if (l.allow key now).1 then 1 else 0)
        + l.rps * (seconds t - seconds now) := by
  obtain ⟨hown, havail⟩ := resolve_own key now hsize
  obtain ⟨hrps, hburst⟩ := resolve_rps l key now
  have hget : (l.allow key now).2.buckets.get key = some
      { (l.resolve key now).2.2 with
        lim := ((l.resolve key now).2.2.lim.take l.rps l.burst
          (seconds now)).2
        seen := now } := by
    unfold Limiter.allow Limiter.charge
    dsimp only
    rw [hown, Table.get_set_self, hrps, hburst]
  have hok : (l.allow key now).1
      = ((l.resolve key now).2.2.lim.take l.rps l.burst
          (seconds now)).1 := by
    unfold Limiter.allow Limiter.charge
    dsimp only
    rw [hrps, hburst]
  have hrps' : (l.allow key now).2.rps = l.rps := hrps
  have hburst' : (l.allow key now).2.burst = l.burst := hburst
  rw [level_of_some hget, hrps', hburst', hok,
    ← level_resolve (k := key) hsound hcond (le_refl now), ← havail now]
  exact TokenBucket.available_take_le l.rps_pos.le (seconds_le ht)

-- ==== the window

/-- How many requests of a source were admitted in a window. -/
def Traced.admittedIn (s : Traced) (key : GoString) (lo hi : Int) : Nat :=
  (s.admitted.filter fun a =>
    decide (a.1 = key ∧ lo ≤ a.2 ∧ a.2 ≤ hi)).length

variable {s : Traced} {lo hi : Int}

theorem admittedIn_allow (s : Traced) (key k : GoString)
    (lo hi now : Int) :
    (s.step (.allow k now)).admittedIn key lo hi
      = s.admittedIn key lo hi
        + if (s.limiter.allow k now).1 = true ∧ k = key ∧ lo ≤ now
            ∧ now ≤ hi then 1 else 0 := by
  unfold Traced.admittedIn Traced.step
  dsimp only
  cases hok : (s.limiter.allow k now).1 with
  | false => simp
  | true =>
      rw [if_pos rfl, List.filter_append, List.length_append]
      by_cases h : k = key ∧ lo ≤ now ∧ now ≤ hi
      · simp [h]
      · simp [h]

/-- Requests admitted since `lo`, and what is left. -/
structure Paced (key : GoString) (lo hi : Int) (s : Traced) (τ : Int) :
    Prop where
  early : τ < lo → s.admittedIn key lo hi = 0
  ahead : ∀ now, τ ≤ now → lo ≤ now → now ≤ hi →
    (s.admittedIn key lo hi : ℚ) + s.limiter.level key now
      ≤ s.limiter.burst + s.limiter.rps * (seconds now - seconds lo)
  total : (s.admittedIn key lo hi : ℚ)
    ≤ s.limiter.burst + s.limiter.rps * (seconds hi - seconds lo)

theorem step_rps (s : Traced) (c : Call) :
    (s.step c).limiter.rps = s.limiter.rps
      ∧ (s.step c).limiter.burst = s.limiter.burst := by
  cases c with
  | allow key now => exact resolve_rps s.limiter key now
  | warnDue key now =>
      show (s.limiter.warnDue key now).2.rps = _
        ∧ (s.limiter.warnDue key now).2.burst = _
      unfold Limiter.warnDue
      split
      · exact ⟨rfl, rfl⟩
      · split <;> exact ⟨rfl, rfl⟩

/-- A request that is not counted, for whatever reason. -/
theorem Paced.uncounted {c : Call} (h : Paced key lo hi s τ)
    (hτ : τ ≤ now)
    (hcount : (s.step c).admittedIn key lo hi = s.admittedIn key lo hi)
    (hlevel : ∀ t, now ≤ t → lo ≤ t → t ≤ hi →
      (s.admittedIn key lo hi : ℚ) + (s.step c).limiter.level key t
        ≤ s.limiter.burst + s.limiter.rps * (seconds t - seconds lo)) :
    Paced key lo hi (s.step c) now := by
  obtain ⟨hrps, hburst⟩ := step_rps s c
  refine ⟨fun hlo => ?_, fun t ht htlo hthi => ?_, ?_⟩
  · rw [hcount]
    exact h.early (Int.lt_of_le_of_lt hτ hlo)
  · rw [hcount, hrps, hburst]
    exact hlevel t ht htlo hthi
  · rw [hcount, hrps, hburst]
    exact h.total

theorem Paced.own (h : Paced key lo hi s τ)
    (hsound : AllSound s.limiter τ) (hcond : s.limiter.Refills)
    (hsize : s.limiter.buckets.size < maxBuckets) (hτ : τ ≤ now)
    (hlo : lo ≤ now) (hhi : now ≤ hi) :
    Paced key lo hi (s.step (.allow key now)) now := by
  have hcount : ((s.step (.allow key now)).admittedIn key lo hi : ℚ)
      = s.admittedIn key lo hi
        + if (s.limiter.allow key now).1 = true then 1 else 0 := by
    rw [admittedIn_allow]
    simp [hlo, hhi]
  have hnow := h.ahead now hτ hlo hhi
  have hahead : ∀ t, now ≤ t →
      ((s.step (.allow key now)).admittedIn key lo hi : ℚ)
        + (s.step (.allow key now)).limiter.level key t
      ≤ s.limiter.burst
        + s.limiter.rps * (seconds t - seconds lo) := by
    intro t ht
    have hlevel := level_allow_self key hsound hcond hsize ht
    rw [hcount]
    change _ + (s.limiter.allow key now).2.level key t ≤ _
    have hsplit : s.limiter.rps * (seconds t - seconds lo)
        = s.limiter.rps * (seconds now - seconds lo)
          + s.limiter.rps * (seconds t - seconds now) := by ring
    rw [hsplit]
    linarith
  obtain ⟨hrps, hburst⟩ := step_rps s (.allow key now)
  refine ⟨fun h => absurd hlo (Int.not_le.mpr h),
    fun t ht _ _ => ?_, ?_⟩
  · rw [hrps, hburst]
    exact hahead t ht
  · have hnonneg := (hsound.allow key hτ).level_nonneg key hi
    have := hahead hi hhi
    rw [hrps, hburst]
    change 0 ≤ (s.step (.allow key now)).limiter.level key hi at hnonneg
    linarith

theorem Paced.allow (h : Paced key lo hi s τ)
    (hsound : AllSound s.limiter τ) (hcond : s.limiter.Refills)
    (hsize : s.limiter.buckets.size < maxBuckets) (hτ : τ ≤ now) :
    Paced key lo hi (s.step (.allow k now)) now := by
  by_cases hk : k = key
  · subst hk
    by_cases hwindow : lo ≤ now ∧ now ≤ hi
    · exact h.own hsound hcond hsize hτ hwindow.1 hwindow.2
    · refine h.uncounted hτ ?_ fun t ht htlo hthi => ?_
      · rw [admittedIn_allow, if_neg fun hc => hwindow hc.2.2]
        rfl
      · -- the window has not begun, so nothing was admitted in it
        have hbefore : now < lo := by omega
        rw [h.early (Int.lt_of_le_of_lt hτ hbefore)]
        have hlevel := level_le_burst (s.step (.allow k now)).limiter k t
        rw [(step_rps s (.allow k now)).2] at hlevel
        have hgrow := mul_nonneg s.limiter.rps_pos.le
          (sub_nonneg.mpr (seconds_le htlo))
        rw [Nat.cast_zero]
        linarith
  · refine h.uncounted hτ ?_ fun t ht htlo hthi => ?_
    · rw [admittedIn_allow, if_neg fun hc => hk hc.2.1]
      rfl
    · change _ + (s.limiter.allow k now).2.level key t ≤ _
      rw [level_allow_ne hsound hcond hsize (Ne.symm hk) ht]
      exact h.ahead t (hτ.trans ht) htlo hthi

theorem level_warnDue (l : Limiter) (k key : GoString) (now t : Int) :
    (l.warnDue k now).2.level key t = l.level key t := by
  obtain ⟨hrps, hburst⟩ := step_rps ⟨l, [], fun _ => none⟩
    (.warnDue k now)
  change (l.warnDue k now).2.rps = l.rps at hrps
  change (l.warnDue k now).2.burst = l.burst at hburst
  have hget := get_warnDue l k now key
  cases hb : l.buckets.get key with
  | none =>
      rw [hb, Option.map_none, Option.map_eq_none_iff] at hget
      rw [level_of_none hb, level_of_none hget, hburst]
  | some b =>
      rw [hb, Option.map_some] at hget
      obtain ⟨c, hc, hpair⟩ := Option.map_eq_some_iff.mp hget
      have hlim : c.lim = b.lim := congrArg Prod.fst hpair
      rw [level_of_some hb, level_of_some hc, hrps, hburst, hlim]

theorem Paced.warnDue (h : Paced key lo hi s τ) (hτ : τ ≤ now) :
    Paced key lo hi (s.step (.warnDue k now)) now := by
  refine h.uncounted hτ rfl fun t ht htlo hthi => ?_
  change _ + (s.limiter.warnDue k now).2.level key t ≤ _
  rw [level_warnDue]
  exact h.ahead t (hτ.trans ht) htlo hthi

theorem AllSound.warnDue (h : AllSound l τ) (hτ : τ ≤ now) :
    AllSound (l.warnDue key now).2 now := by
  intro k b hb
  have hget := get_warnDue l key now k
  rw [hb, Option.map_some] at hget
  obtain ⟨c, hc, hpair⟩ := Option.map_eq_some_iff.mp hget.symm
  have hlim : c.lim = b.lim := congrArg Prod.fst hpair
  have hseen : c.seen = b.seen := congrArg Prod.snd hpair
  have hold := h k c hc
  exact ⟨hlim ▸ hold.tokens, hlim ▸ hseen ▸ hold.last,
    hseen ▸ hold.seen.trans hτ⟩

-- ==== whole runs

/-- Entries belong to sources that made a request. -/
def KeysIn (l : Limiter) (ks : List GoString) : Prop :=
  ∀ k b, l.buckets.get k = some b → k ∈ ks

theorem KeysIn.size_le {ks : List GoString} (h : KeysIn l ks) :
    l.buckets.size ≤ ks.dedup.length :=
  Table.size_le_of_subset fun k b hb => List.mem_dedup.mpr (h k b hb)

theorem KeysIn.step {ks : List GoString} (h : KeysIn s.limiter ks)
    (hsize : s.limiter.buckets.size < maxBuckets) {c : Call}
    (hc : c.key ∈ ks) : KeysIn (s.step c).limiter ks := by
  intro k b hb
  cases c with
  | allow key now =>
      obtain ⟨hown, -⟩ := resolve_own key now hsize
      by_cases hk : k = key
      · exact hk ▸ hc
      · change (s.limiter.allow key now).2.buckets.get k = some b at hb
        rw [get_allow_ne (by rwa [hown])] at hb
        rcases resolve_fst s.limiter key now with hsame | ⟨-, hswept⟩
        · exact h k b (hsame ▸ hb)
        · rw [hswept] at hb
          rcases get_sweepLocked s.limiter now k with hsame | hnone
          · exact h k b (hsame ▸ hb)
          · rw [hnone] at hb
            cases hb
  | warnDue key now =>
      change (s.limiter.warnDue key now).2.buckets.get k = some b at hb
      have hget := get_warnDue s.limiter key now k
      rw [hb, Option.map_some] at hget
      obtain ⟨d, hd, -⟩ := Option.map_eq_some_iff.mp hget.symm
      exact h k d hd

/-- What holds after every call of a sequence in order. -/
structure Admits (ks : List GoString) (key : GoString) (lo hi : Int)
    (s : Traced) (τ : Int) : Prop where
  paced : Paced key lo hi s τ
  sound : AllSound s.limiter τ
  keysIn : KeysIn s.limiter ks
  refills : s.limiter.Refills

theorem Admits.step {ks : List GoString} (hks : ks.dedup.length < maxBuckets)
    (h : Admits ks key lo hi s τ) {c : Call} (hc : c.key ∈ ks)
    (hτ : τ ≤ c.time) : Admits ks key lo hi (s.step c) c.time := by
  have hsize := Nat.lt_of_le_of_lt h.keysIn.size_le hks
  have hrefills : (s.step c).limiter.Refills := by
    unfold Limiter.Refills
    rw [(step_rps s c).1, (step_rps s c).2]
    exact h.refills
  have hkeys := h.keysIn.step hsize hc
  cases c with
  | allow k now =>
      exact ⟨h.paced.allow h.sound h.refills hsize hτ, h.sound.allow k hτ,
        hkeys, hrefills⟩
  | warnDue k now =>
      exact ⟨h.paced.warnDue hτ, h.sound.warnDue hτ, hkeys, hrefills⟩

theorem Admits.run {ks : List GoString}
    (hks : ks.dedup.length < maxBuckets) (calls : List Call)
    (hcalls : ∀ c ∈ calls, c.key ∈ ks)
    (hsorted : (calls.map Call.time).Pairwise (· ≤ ·))
    (hτ : ∀ c ∈ calls, τ ≤ c.time) (h : Admits ks key lo hi s τ) :
    ∃ τ', Admits ks key lo hi (calls.foldl Traced.step s) τ' := by
  induction calls generalizing s τ with
  | nil => exact ⟨τ, h⟩
  | cons c calls ih =>
      rw [List.map_cons, List.pairwise_cons] at hsorted
      exact ih (fun d hd => hcalls d (List.mem_cons_of_mem _ hd)) hsorted.2
        (fun d hd => hsorted.1 _ (List.mem_map_of_mem hd))
        (h.step hks (hcalls c List.mem_cons_self)
          (hτ c List.mem_cons_self))

-- ==== minting

/-- A request that finds a token in the source's own bucket. -/
theorem step_taken (s : Traced) (key : GoString) (now : Int)
    (hown : (s.limiter.resolve key now).2.1 = key)
    {a : ℚ} (ha : (s.limiter.resolve key now).2.2.lim.available
      s.limiter.rps s.limiter.burst (seconds now) = a) (hone : 1 ≤ a) :
    (s.step (.allow key now)).admitted = s.admitted ++ [(key, now)]
      ∧ (s.step (.allow key now)).limiter.lastSweep
        = (s.limiter.resolve key now).1.lastSweep
      ∧ ∃ b, (s.step (.allow key now)).limiter.buckets.get key = some b
        ∧ b.seen = now ∧ b.lim = ⟨a - 1, seconds now⟩ := by
  obtain ⟨hrps, hburst⟩ := resolve_rps s.limiter key now
  have htake : (s.limiter.resolve key now).2.2.lim.take
      (s.limiter.resolve key now).1.rps
      (s.limiter.resolve key now).1.burst (seconds now)
      = (true, ⟨a - 1, seconds now⟩) := by
    unfold TokenBucket.take
    rw [hrps, hburst, ha]
    exact if_pos hone
  have hok : (s.limiter.allow key now).1 = true :=
    congrArg Prod.fst htake
  refine ⟨if_pos hok, rfl, ?_⟩
  show ∃ b, (s.limiter.allow key now).2.buckets.get key = some b ∧ _
  unfold Limiter.allow Limiter.charge
  dsimp only
  rw [hown, htake]
  exact ⟨_, Table.get_set_self _ _ _, rfl, rfl⟩

/-- Requests that a bucket has the tokens for, all at one time. -/
theorem serve_held (n : Nat) (hb : s.limiter.buckets.get key = some b)
    (hseen : b.seen = now) {a : ℚ} (hlim : b.lim = ⟨a, seconds now⟩)
    (hn : (n : ℚ) ≤ a) (ha : a ≤ s.limiter.burst) {s' : Traced}
    (hs' : (List.replicate n (.allow key now)).foldl Traced.step s = s') :
    s'.admitted = s.admitted ++ List.replicate n (key, now)
      ∧ s'.limiter.lastSweep = s.limiter.lastSweep
      ∧ ∃ b', s'.limiter.buckets.get key = some b' ∧ b'.seen = now := by
  induction n generalizing s b a with
  | zero =>
      subst hs'
      exact ⟨(List.append_nil _).symm, rfl, b, hb, hseen⟩
  | succ n ih =>
      have hresolve := resolve_of_some hb now
      have havail : b.lim.available s.limiter.rps s.limiter.burst
          (seconds now) = a := by
        rw [hlim]
        unfold TokenBucket.available
        rw [sub_self, max_self, mul_zero, add_zero]
        exact min_eq_right ha
      push_cast at hn
      have hone : 1 ≤ a := by
        linarith [(Nat.cast_nonneg n : (0 : ℚ) ≤ n)]
      obtain ⟨hadmitted, hsweep, c, hc, hcseen, hclim⟩ := step_taken s key now
        (by rw [hresolve])
        (by rw [hresolve]; exact havail) hone
      rw [hresolve] at hsweep
      rw [List.replicate_succ, List.foldl_cons] at hs'
      obtain ⟨hadmitted', hsweep', hlast⟩ := ih hc hcseen hclim
        (by linarith) (by rw [(step_rps s _).2]; linarith) hs'
      refine ⟨?_, hsweep'.trans hsweep, hlast⟩
      rw [hadmitted', hadmitted, List.append_assoc, List.replicate_succ]
      rfl

/-- A source without a bucket gets a burst through. -/
theorem serve_burst (now : Int) (hb : s.limiter.buckets.get key = none)
    (hsize : s.limiter.buckets.size < maxBuckets) {s' : Traced}
    (hs' : (List.replicate s.limiter.burst.toNat
      (.allow key now)).foldl Traced.step s = s') :
    s'.admitted
        = s.admitted ++ List.replicate s.limiter.burst.toNat (key, now)
      ∧ s'.limiter.lastSweep = (s.limiter.sweepLocked now).lastSweep
      ∧ ∃ b', s'.limiter.buckets.get key = some b' ∧ b'.seen = now := by
  have hresolve := resolve_of_room hb
    (Nat.lt_of_le_of_lt (size_sweepLocked s.limiter now) hsize)
  obtain ⟨n, hn⟩ : ∃ n : Nat, s.limiter.burst.toNat = n + 1 :=
    ⟨s.limiter.burst.toNat - 1, by have := s.limiter.burst_pos; omega⟩
  have hburst : (s.limiter.burst : ℚ) = n + 1 := by
    have : s.limiter.burst = ((n + 1 : Nat) : Int) := by
      have := s.limiter.burst_pos
      omega
    rw [this]
    push_cast
    rfl
  have havail : (s.limiter.sweepLocked now).newBucket.lim.available
      s.limiter.rps s.limiter.burst (seconds now) = s.limiter.burst := by
    unfold Limiter.newBucket
    rw [sweepLocked_burst]
    exact TokenBucket.available_full s.limiter.rps_pos.le _
  obtain ⟨hadmitted, hsweep, c, hc, hcseen, hclim⟩ := step_taken s key now
    (by rw [hresolve])
    (by rw [hresolve]; exact havail) s.limiter.burst_cast
  rw [hresolve] at hsweep
  rw [hn, List.replicate_succ, List.foldl_cons] at hs'
  obtain ⟨hadmitted', hsweep', hlast⟩ := serve_held n hc hcseen hclim
    (by linarith) (by rw [(step_rps s _).2]; linarith) hs'
  refine ⟨?_, hsweep'.trans hsweep, hlast⟩
  rw [hadmitted', hadmitted, List.append_assoc, hn, List.replicate_succ]
  rfl

/-- Two bursts, with just the time between them that lets a sweep find
the bucket idle. -/
def twoBursts (n : Nat) : List Call :=
  List.replicate n (.allow (ascii "a") 0)
    ++ .allow (ascii "b") (idleTTL + 1)
    :: List.replicate n (.allow (ascii "a") (idleTTL + 1))

theorem KeysIn.run {ks : List GoString} (h : KeysIn s.limiter ks)
    (hks : ks.dedup.length < maxBuckets) (calls : List Call)
    (hcalls : ∀ c ∈ calls, c.key ∈ ks) :
    KeysIn (calls.foldl Traced.step s).limiter ks := by
  induction calls generalizing s with
  | nil => exact h
  | cons c calls ih =>
      have hsize := Nat.lt_of_le_of_lt h.size_le hks
      exact ih (h.step hsize (hcalls c List.mem_cons_self))
        fun d hd => hcalls d (List.mem_cons_of_mem _ hd)

/-- A burst in the window, whatever came before it. -/
theorem le_admittedIn (lo hi : Int) {old : List (GoString × Int)} {n m : Nat}
    (hs : s.admitted = old ++ List.replicate n (key, now))
    (hold : m ≤ (old.filter fun a =>
      decide (a.1 = key ∧ lo ≤ a.2 ∧ a.2 ≤ hi)).length)
    (hlo : lo ≤ now) (hhi : now ≤ hi) :
    m + n ≤ s.admittedIn key lo hi := by
  unfold Traced.admittedIn
  rw [hs, List.filter_append, List.length_append,
    List.filter_replicate_of_pos (by simp [hlo, hhi]),
    List.length_replicate]
  exact Nat.add_le_add_right hold n

/-- The first request of another source sweeps an idle bucket away. -/
theorem step_sweeps (hb : s.limiter.buckets.get key = some b)
    (hother : s.limiter.buckets.get k = none) (hk : key ≠ k)
    (hsize : s.limiter.buckets.size < maxBuckets)
    (hdue : s.limiter.sweepDue now = true)
    (hidle : idleTTL < sub now b.seen) :
    (s.step (.allow k now)).limiter.buckets.get key = none := by
  have hresolve := resolve_of_room hother
    (Nat.lt_of_le_of_lt (size_sweepLocked s.limiter now) hsize)
  have hkey : key ≠ (s.limiter.resolve k now).2.1 := by
    rwa [hresolve]
  refine (get_allow_ne hkey).trans ?_
  rw [hresolve]
  unfold Limiter.sweepLocked
  rw [if_pos hdue]
  dsimp only
  rw [Table.get_retain, hb, Option.filter_some]
  exact if_neg (by simpa using hidle)

theorem foldl_rps (calls : List Call) (s : Traced) :
    (calls.foldl Traced.step s).limiter.rps = s.limiter.rps
      ∧ (calls.foldl Traced.step s).limiter.burst = s.limiter.burst := by
  induction calls generalizing s with
  | nil => exact ⟨rfl, rfl⟩
  | cons c calls ih =>
      exact ⟨(ih (s.step c)).1.trans (step_rps s c).1,
        (ih (s.step c)).2.trans (step_rps s c).2⟩

theorem serve_minted {cfg : Config} (h : new cfg = some l) :
    2 * l.burst.toNat ≤ (l.serve (twoBursts l.burst.toNat)).admittedIn
      (ascii "a") 0 (idleTTL + 1) := by
  obtain ⟨hempty, hsweep⟩ := new_empty h
  have hnone : l.buckets.get (ascii "a") = none := by
    rw [hempty]
    rfl
  have hkeys : ∀ ks, KeysIn l ks := fun ks k b hb => by
    rw [hempty] at hb
    cases hb
  have hfirst : ∀ c ∈ List.replicate l.burst.toNat
      (Call.allow (ascii "a") 0), c.key = ascii "a" := by
    intro c hc
    rw [List.eq_of_mem_replicate hc]
    rfl
  unfold Limiter.serve twoBursts
  rw [List.foldl_append, List.foldl_cons]
  -- the first burst
  have hkeys₁ := KeysIn.run (s := ⟨l, [], fun _ => none⟩)
    (hkeys [ascii "a", ascii "b"]) (by decide) _
    fun c hc => hfirst c hc ▸ List.mem_cons_self
  have honly₁ := KeysIn.run (s := ⟨l, [], fun _ => none⟩)
    (hkeys [ascii "a"]) (by decide) _ fun c hc => hfirst c hc ▸ List.mem_cons_self
  have hburst₁ := (foldl_rps (List.replicate l.burst.toNat
    (Call.allow (ascii "a") 0)) ⟨l, [], fun _ => none⟩).2
  obtain ⟨hadmitted₁, hsweep₁, b, hb, hseen⟩ := serve_burst
    (s := ⟨l, [], fun _ => none⟩) 0 hnone (by rw [hempty]; decide) rfl
  generalize (List.replicate _ _).foldl Traced.step
    ⟨l, [], fun _ => none⟩ = s₁
      at hkeys₁ honly₁ hburst₁ hadmitted₁ hsweep₁ hb ⊢
  -- the other source's request
  have hother : s₁.limiter.buckets.get (ascii "b") = none := by
    cases hget : s₁.limiter.buckets.get (ascii "b") with
    | none => rfl
    | some c => exact absurd (honly₁ _ c hget) (by decide)
  have hdue : s₁.limiter.sweepDue (idleTTL + 1) = true := by
    have hzero : s₁.limiter.lastSweep = 0 := by
      rw [hsweep₁]
      unfold Limiter.sweepLocked
      split
      · rfl
      · exact hsweep
    unfold Limiter.sweepDue
    rw [hzero]
    rfl
  have hsize : ∀ {l' : Limiter}, KeysIn l' [ascii "a", ascii "b"] →
      l'.buckets.size < maxBuckets := fun h =>
    Nat.lt_of_le_of_lt h.size_le (by decide)
  have hgone := step_sweeps hb hother (by decide) (hsize hkeys₁) hdue
    (by rw [hseen]; decide)
  have hkeys₂ := hkeys₁.step (hsize hkeys₁)
    (c := .allow (ascii "b") (idleTTL + 1)) (by decide)
  have hburst₂ := (step_rps s₁
    (.allow (ascii "b") (idleTTL + 1))).2.trans hburst₁
  have hold : l.burst.toNat ≤ (s₁.step
      (.allow (ascii "b") (idleTTL + 1))).admittedIn
        (ascii "a") 0 (idleTTL + 1) := by
    rw [admittedIn_allow]
    have := le_admittedIn 0 (idleTTL + 1) (m := 0)
      hadmitted₁ (Nat.zero_le _) (by decide) (by decide)
    dsimp only at this
    omega
  generalize s₁.step (.allow (ascii "b") (idleTTL + 1)) = s₂
    at hgone hkeys₂ hburst₂ hold ⊢
  -- the second burst
  have hburst₃ : s₂.limiter.burst = l.burst := hburst₂
  obtain ⟨hadmitted₃, -, -⟩ := serve_burst (idleTTL + 1)
    hgone (hsize hkeys₂) rfl
  rw [hburst₃] at hadmitted₃
  have := le_admittedIn 0 (idleTTL + 1) hadmitted₃ hold (by decide) (by decide)
  omega

theorem twoBursts_sorted (n : Nat) :
    ((twoBursts n).map Call.time).Pairwise (· ≤ ·) := by
  unfold twoBursts
  rw [List.map_append, List.map_cons, List.map_replicate,
    List.map_replicate, List.pairwise_append, List.pairwise_cons]
  refine ⟨List.pairwise_replicate.mpr (.inr (le_refl _)),
    ⟨fun t ht => ?_, List.pairwise_replicate.mpr (.inr (le_refl _))⟩,
    fun s hs t ht => ?_⟩
  · rw [List.eq_of_mem_replicate ht]
    exact le_refl _
  · rw [List.eq_of_mem_replicate hs]
    rcases List.mem_cons.mp ht with rfl | ht
    · decide
    · rw [List.eq_of_mem_replicate ht]
      decide

theorem twoBursts_keys (n : Nat) :
    ((twoBursts n).map Call.key).dedup.length < maxBuckets := by
  have hsub : ((twoBursts n).map Call.key).dedup
      ⊆ [ascii "a", ascii "b"] := by
    intro k hk
    obtain ⟨c, hc, rfl⟩ := List.mem_map.mp (List.mem_dedup.mp hk)
    rcases List.mem_append.mp hc with hc | hc
    · rw [List.eq_of_mem_replicate hc]
      decide
    · rcases List.mem_cons.mp hc with rfl | hc
      · decide
      · rw [List.eq_of_mem_replicate hc]
        decide
  exact Nat.lt_of_le_of_lt
    ((List.nodup_dedup _).length_le_of_subset hsub) (by decide)

/-- The requests of a source admitted in a window are within the burst
and the rate, for every sequence of calls in order by fewer than
`maxBuckets` sources, every source and every window, exactly if the
limiter refills its burst in `idleTTL` and a nanosecond. -/
theorem window_bound_iff {cfg : Config} (h : new cfg = some l) :
    (∀ calls : List Call,
      (calls.map Call.time).Pairwise (· ≤ ·) →
      (calls.map Call.key).dedup.length < maxBuckets →
      ∀ key lo hi, lo ≤ hi →
        ((l.serve calls).admittedIn key lo hi : ℚ)
          ≤ l.burst + l.rps * seconds (hi - lo))
      ↔ l.Refills := by
  constructor
  · intro hbound
    have hminted := serve_minted h
    have hle := hbound (twoBursts l.burst.toNat) (twoBursts_sorted _)
      (twoBursts_keys _) (ascii "a") 0 (idleTTL + 1) (by decide)
    have hcast : (l.burst.toNat : ℚ) = l.burst := by
      have : ((l.burst.toNat : Int) : ℚ) = (l.burst : ℚ) := by
        rw [Int.toNat_of_nonneg (by have := l.burst_pos; omega)]
      exact_mod_cast this
    have hminted' : (2 * l.burst : ℚ) ≤ (l.serve
        (twoBursts l.burst.toNat)).admittedIn (ascii "a") 0
          (idleTTL + 1) := by
      rw [← hcast]
      exact_mod_cast hminted
    unfold Limiter.Refills
    rw [Int.sub_zero] at hle
    linarith
  · intro hrefills calls hsorted hkeys key lo hi hle
    obtain ⟨hempty, -⟩ := new_empty h
    have hnone : ∀ k, l.buckets.get k = none := fun k => by
      rw [hempty]
      rfl
    -- all times of the calls are at or after this one
    obtain ⟨τ, hτ⟩ : ∃ τ, ∀ c ∈ calls, τ ≤ c.time := by
      cases calls with
      | nil => exact ⟨0, fun c hc => by cases hc⟩
      | cons c calls =>
          rw [List.map_cons, List.pairwise_cons] at hsorted
          refine ⟨c.time, fun d hd => ?_⟩
          rcases List.mem_cons.mp hd with rfl | hd
          · exact le_refl _
          · exact hsorted.1 _ (List.mem_map_of_mem hd)
    have hstart : Admits (calls.map Call.key) key lo hi
        ⟨l, [], fun _ => none⟩ τ := by
      refine ⟨⟨fun _ => rfl, fun now _ hlo _ => ?_, ?_⟩,
        fun k b hb => ?_, fun k b hb => ?_, hrefills⟩
      · have hgrow := mul_nonneg l.rps_pos.le
          (sub_nonneg.mpr (seconds_le hlo))
        change ((0 : Nat) : ℚ) + l.level key now ≤ _
        rw [level_of_none (hnone key), Nat.cast_zero]
        linarith
      · have hgrow := mul_nonneg l.rps_pos.le
          (sub_nonneg.mpr (seconds_le hle))
        change ((0 : Nat) : ℚ) ≤ _
        rw [Nat.cast_zero]
        linarith [l.burst_cast]
      · rw [hnone k] at hb
        cases hb
      · rw [hnone k] at hb
        cases hb
    obtain ⟨τ', hend⟩ := hstart.run hkeys calls
      (fun c hc => List.mem_map_of_mem hc) hsorted hτ
    obtain ⟨hrps, hburst⟩ := foldl_rps calls ⟨l, [], fun _ => none⟩
    have htotal := hend.paced.total
    rw [hrps, hburst] at htotal
    rw [seconds_sub]
    exact htotal

/-- One request per thousand seconds, two at a time. -/
def slow : Limiter where
  rps := 1 / 1000
  burst := 2
  buckets := .empty
  lastSweep := 0
  rps_pos := by decide +kernel
  burst_pos := by decide

theorem new_slow : new ⟨1 / 1000, 2⟩ = some slow := by
  unfold new
  rw [dif_neg (by decide +kernel)]
  rfl

/-- Four requests in fifteen minutes, where two and nine tenths would
do. -/
theorem window_bound_slow :
    new ⟨1 / 1000, 2⟩ = some slow
      ∧ ((twoBursts 2).map Call.time).Pairwise (· ≤ ·)
      ∧ ((twoBursts 2).map Call.key).dedup.length < maxBuckets
      ∧ (slow.serve (twoBursts 2)).admittedIn (ascii "a") 0
        (idleTTL + 1) = 4
      ∧ (slow.burst : ℚ) + slow.rps * seconds (idleTTL + 1 - 0)
        < 3 := by
  refine ⟨new_slow, twoBursts_sorted 2, twoBursts_keys 2, ?_, ?_⟩ <;>
    decide +kernel

/-- Ten requests per second refill a burst of a thousand in time. -/
theorem window_bound_fast :
    ∃ l, new ⟨10, 1000⟩ = some l ∧ ∀ calls : List Call,
      (calls.map Call.time).Pairwise (· ≤ ·) →
      (calls.map Call.key).dedup.length < maxBuckets →
      ∀ key lo hi, lo ≤ hi →
        ((l.serve calls).admittedIn key lo hi : ℚ)
          ≤ l.burst + l.rps * seconds (hi - lo) := by
  have hsome : (new ⟨10, 1000⟩).map (fun l => (l.rps, l.burst))
      = some (10, 1000) := by decide +kernel
  obtain ⟨l, hl, hpair⟩ := Option.map_eq_some_iff.mp hsome
  refine ⟨l, hl, (window_bound_iff hl).mpr ?_⟩
  have hrps : l.rps = 10 := congrArg Prod.fst hpair
  have hburst : l.burst = 1000 := congrArg Prod.snd hpair
  unfold Limiter.Refills
  rw [hrps, hburst]
  decide +kernel

end Tokyo3Base.RateLimit
