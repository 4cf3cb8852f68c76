/-
The lifetime that a token response announces, and the tokens that
`EnsureFreshTokens` takes from the cache: they are those whose announced
lifetime has at least `accessSkew` left, provided that a `time.Duration`
can hold the lifetime.

`time.Until` saturates and the product with `time.Second` wraps around.
The first makes no difference to a comparison with a duration that is not
negative. The second does: a lifetime of more than 292 years becomes
another one, possibly of the other sign, and every lifetime that does not
fit is read wrong (`seconds_eq_iff`).
-/
import Tokyo3Base.Lib.Run
import Tokyo3Base.OidcClient.Cache

namespace Tokyo3Base.OidcClient

open Go

-- ==== lifetimes

/-- A `time.Duration` can hold so many seconds. -/
def LifetimeFits (n : Int) : Prop :=
  minDuration ≤ n * second ∧ n * second ≤ maxDuration

instance (n : Int) : Decidable (LifetimeFits n) :=
  inferInstanceAs (Decidable (_ ∧ _))

/-- The lifetimes that are read as they were announced. -/
theorem seconds_eq_iff (n : Int) :
    seconds n = n * second ↔ LifetimeFits n :=
  wrap_eq_self_iff

theorem parseTokens_expiration {raw : TokenResponse} {n : Int}
    (hne : raw.accessToken.val ≠ []) (hn : raw.expiresIn = some n)
    (now : Int) : ∃ t, parseTokens raw now = some t
      ∧ t.accessToken = raw.accessToken
      ∧ t.expiration = now + seconds n := by
  refine ⟨_, if_neg hne, rfl, ?_⟩
  rw [hn]
  rfl

-- ==== checks

/-- Tokens pass the check while they have the skew left. -/
theorem isFresh_iff {accessSkew : Duration} (hskew : 0 ≤ accessSkew.val)
    (t : Tokens) (now : Int) : isFresh t accessSkew.val now = true
      ↔ accessSkew.val ≤ t.expiration - now := by
  unfold isFresh
  rw [decide_eq_true_iff]
  exact le_sub_iff hskew accessSkew.property.2

theorem afterCheck_eq_leave_iff (locked : Bool) (t : Tokens)
    (accessSkew now : Int) :
    EnsurePhase.afterCheck locked t accessSkew now = .leave locked (.ok t)
      ↔ isFresh t accessSkew now = true := by
  unfold EnsurePhase.afterCheck EnsurePhase.leave
  cases isFresh t accessSkew now with
  | true => simp
  | false =>
      cases locked with
      | false => simp
      | true =>
          by_cases hnil : t.refreshToken.val = []
          · simp [hnil]
          · simp [hnil]

-- ==== the call

/-- The cache holds these tokens for this configuration: it is bound to
it, or it is bound to none and `config.json` names it. -/
structure CachedFor (sh : Shared) (cfg : Config) (cached : CachedTokens) :
    Prop where
  tokens : sh.tokens = some cached
  binding : (∃ c, cached.config = some c ∧ c.config = cfg)
    ∨ cached.config = none ∧ checkConfig sh.config cfg = true

/-- The reads of a call, and its first check. -/
def firstCheck (cached : CachedTokens) (now : Int) : List EnsureEvent :=
  .read :: ((if cached.config.isNone then [.read] else []) ++ [.check now])

/-- One event of a call, on the cache and the place where the call is. -/
def callStep (cfg : Config) (accessSkew : Int) (e : EnsureEvent)
    (s : Shared × EnsurePhase) : Option (Shared × EnsurePhase) :=
  s.2.step cfg accessSkew e s.1

/-- A call that nothing disturbs gets to its first check. -/
theorem run_firstCheck {sh : Shared} {cfg : Config} {cached : CachedTokens}
    (h : CachedFor sh cfg cached) (accessSkew now : Int) :
    Lib.run (callStep cfg accessSkew) (firstCheck cached now)
        (sh, .load false)
      = some (sh, .afterCheck false cached.tokens accessSkew now) := by
  obtain ⟨c, hconfig, hcfg⟩ | ⟨hconfig, hcheck⟩ := h.binding
  · have hload : EnsurePhase.afterLoad false cfg sh
        = .check false cached.tokens := by
      unfold EnsurePhase.afterLoad checkBinding
      simp [h.tokens, hconfig, hcfg]
    simp [Lib.run, firstCheck, callStep, EnsurePhase.step, hconfig, hload]
  · have hload : EnsurePhase.afterLoad false cfg sh
        = .loadConfig false cached.tokens sh.config := by
      unfold EnsurePhase.afterLoad checkBinding
      simp [h.tokens, hconfig]
    have hnext : EnsurePhase.afterLoadConfig false cached.tokens cfg sh
        = .check false cached.tokens := if_pos hcheck
    simp [Lib.run, firstCheck, callStep, EnsurePhase.step, hconfig, hload,
      hnext]

/-- Of a response whose lifetime fits, the expiration is the time of
parsing plus the lifetime, and later if the lifetime is longer. A call of
`EnsureFreshTokens` gives the tokens back without a refresh, at its first
check and at the one under the lock, if and only if the skew is left of
that lifetime; and a response whose lifetime does not fit gets another
expiration. -/
theorem ensureFresh_iff_remaining {raw : TokenResponse} {n : Int}
    (hne : raw.accessToken.val ≠ []) (hn : raw.expiresIn = some n)
    (parsedAt : Int) :
    ∃ t, parseTokens raw parsedAt = some t
      ∧ (t.expiration = parsedAt + n * second ↔ LifetimeFits n)
      ∧ (LifetimeFits n →
        (∀ raw' n' t', raw'.expiresIn = some n' → LifetimeFits n' → n ≤ n' →
          parseTokens raw' parsedAt = some t' → t.expiration ≤ t'.expiration)
        ∧ ∀ (accessSkew : Duration), 0 ≤ accessSkew.val →
          ∀ (cfg : Config) (sh : Shared) (now : Int),
            (∀ binding, CachedFor sh cfg ⟨t, binding⟩ →
              (Lib.run (callStep cfg accessSkew.val)
                  (firstCheck ⟨t, binding⟩ now) (sh, .load false)
                = some (sh, .returned (.ok t))
              ↔ accessSkew.val ≤ parsedAt + n * second - now))
            ∧ ∀ locked, EnsurePhase.step cfg accessSkew.val (.check now) sh
                (.check locked t) = some (sh, .leave locked (.ok t))
              ↔ accessSkew.val ≤ parsedAt + n * second - now) := by
  obtain ⟨t, ht, -, hexp⟩ := parseTokens_expiration hne hn parsedAt
  refine ⟨t, ht, ?_, fun hfits => ?_⟩
  · rw [hexp, ← seconds_eq_iff]
    exact ⟨fun h => Int.add_left_cancel h, fun h => by rw [h]⟩
  have hexact : t.expiration = parsedAt + n * second := by
    rw [hexp, (seconds_eq_iff n).mpr hfits]
  refine ⟨fun raw' n' t' hn' hfits' hle ht' => ?_, ?_⟩
  · have hne' : raw'.accessToken.val ≠ [] := fun hnil => by
      rw [parseTokens, if_pos hnil] at ht'
      cases ht'
    obtain ⟨t'', hparse, -, hexp'⟩ :=
      parseTokens_expiration hne' hn' parsedAt
    obtain rfl : t'' = t' := Option.some.inj (hparse.symm.trans ht')
    rw [hexact, hexp', (seconds_eq_iff n').mpr hfits']
    unfold second
    omega
  · intro accessSkew hskew cfg sh now
    have hcheck : ∀ locked, EnsurePhase.afterCheck locked t accessSkew.val now
        = .leave locked (.ok t)
          ↔ accessSkew.val ≤ parsedAt + n * second - now := fun locked => by
      rw [afterCheck_eq_leave_iff, isFresh_iff hskew, hexact]
    refine ⟨fun binding hcached => ?_, fun locked => ?_⟩
    · rw [run_firstCheck hcached, ← hcheck false]
      simp [EnsurePhase.leave]
    · rw [← hcheck locked]
      simp [EnsurePhase.step]

def bearerResponse (n : Int) : TokenResponse where
  accessToken := .decode (ascii "at")
  refreshToken := .decode (ascii "rt")
  idToken := .decode []
  expiresIn := some n

/-- An hour of which a hundred seconds are left, and a skew of one
minute. -/
theorem ensureFresh_iff_remaining_hour :
    let cfg : Config := ⟨ascii "https://idp", ascii "cli"⟩
    ∃ t, parseTokens (bearerResponse 3600) 0 = some t
      ∧ t.expiration = 3600 * second
      ∧ let sh : Shared := .found (some ⟨t, some cfg.saved⟩) none []
        Lib.run (callStep cfg minute)
            (firstCheck ⟨t, some cfg.saved⟩ (3500 * second))
            (sh, .load false)
          = some (sh, .returned (.ok t)) := by
  intro cfg
  have hne : (bearerResponse 3600).accessToken.val ≠ [] := by
    decide +kernel
  have hn : (bearerResponse 3600).expiresIn = some 3600 := rfl
  obtain ⟨t, hparse, hexact, hcall⟩ := ensureFresh_iff_remaining hne hn 0
  have hfits : LifetimeFits 3600 := by decide
  refine ⟨t, hparse, (hexact.mpr hfits).trans (Int.zero_add _), ?_⟩
  have hcached : CachedFor (.found (some ⟨t, some cfg.saved⟩) none []) cfg
      ⟨t, some cfg.saved⟩ :=
    ⟨rfl, .inl ⟨cfg.saved, rfl, by decide +kernel⟩⟩
  exact (((hcall hfits).2 ⟨minute, by decide⟩ (by decide) cfg _
    (3500 * second)).1 _ hcached).mpr (by decide)

/-- A lifetime of 9223372037 seconds, announced at the beginning of 2026,
ends in 2318. The tokens expired in 1733 instead, and do not pass the
check; those with one second less do. -/
theorem long_lifetime_expired :
    let parsedAt := 63902822400 * second
    (0 ≤ parsedAt + 9223372037 * second
      ∧ parsedAt + 9223372037 * second < 315537897600 * second)
    ∧ (∃ t, parseTokens (bearerResponse 9223372037) parsedAt = some t
      ∧ t.expiration < parsedAt - 9223372036 * second
      ∧ isFresh t 0 parsedAt = false)
    ∧ ∃ t, parseTokens (bearerResponse 9223372036) parsedAt = some t
      ∧ isFresh t 0 parsedAt = true := by
  refine ⟨by decide, ⟨_, rfl, by decide, by decide⟩, _, rfl, by decide⟩

end Tokyo3Base.OidcClient
