/-
Replay protection of the back-channel logout handler.

# The two intervals

A token issued at `iat` passes the verifier from `iat - skew` to
`iat + maxAge`, both ends included. The cache remembers a completed
request from its completion for `window`, both ends included, and
`window` is at least `maxAge + skew` (`replayWindow_ge`). A request
completes no earlier than its token verified, so no earlier than
`iat - skew`; the two closed intervals therefore meet at
`iat + maxAge` and leave no gap.

# The invariant

`LogoutInv` says what the map means: a pending entry is a running
request and each `jti` has at most one, a settled entry is a completed
request, and a completed request is remembered (`done_kept`) until its
token can no longer verify. The last clause is the delicate one: a
sweep may drop an entry, a new reservation may overwrite it and a
failing request may delete it, but each only after the token's time is
over, since while it lasts the entry is live and `accept` refuses.
-/
import Tokyo3Base.Lib.Run
import Tokyo3Base.Oidc.Logout

namespace Tokyo3Base.Oidc

open Go Lib

-- ==== the time arithmetic

/-- The saturating difference in the `iat` check never matters. -/
theorem iatAccepted_iff (issuedAt now : Int) :
    iatAccepted issuedAt now = true
      ↔ issuedAt - logoutTokenSkew ≤ now
        ∧ now ≤ issuedAt + logoutTokenMaxAge := by
  have hage : logoutTokenMaxAge < sub now issuedAt
      ↔ logoutTokenMaxAge < now - issuedAt :=
    lt_sub_iff (by decide) (by decide)
  unfold iatAccepted
  simp only [gt_iff_lt, hage, Bool.not_eq_true', Bool.or_eq_false_iff,
    decide_eq_false_iff_not]
  omega

/-- Whatever is configured, the window covers a token's lifetime. -/
theorem replayWindow_ge (configured : Int) :
    logoutTokenMaxAge + logoutTokenSkew ≤ replayWindow configured := by
  unfold replayWindow
  split <;> omega

-- ==== the cache, specified

variable {c : LogoutJTICache} {jti k : GoString} {now : Int}
  {e : LogoutJTIEntry}

/-- An entry that `accept` at `now` counts as a replay. -/
def LogoutJTICache.Live (c : LogoutJTICache) (now : Int)
    (e : LogoutJTIEntry) : Prop :=
  e.pending = true ∨ now - c.window ≤ e.seenAt

theorem sweep_seen (h : (c.sweep now).seen k = some e) :
    c.seen k = some e := by
  unfold LogoutJTICache.sweep at h
  dsimp only at h
  split at h
  · dsimp only at h
    cases hs : c.seen k with
    | none => rw [hs] at h; cases h
    | some entry =>
        rw [hs] at h
        dsimp only at h
        split at h
        · cases h
        · exact h
  · exact h

/-- The sweep drops no live entry. -/
theorem sweep_keeps (h : c.seen k = some e) (hl : c.Live now e) :
    (c.sweep now).seen k = some e := by
  unfold LogoutJTICache.sweep
  dsimp only
  split
  · dsimp only
    rw [h]
    dsimp only
    rw [if_neg]
    rcases hl with hp | hw
    · simp [hp]
    · have hnot : ¬ e.seenAt < now - c.window := by omega
      simp [hnot]
  · exact h

@[simp] theorem sweep_window : (c.sweep now).window = c.window := by
  unfold LogoutJTICache.sweep
  dsimp only
  split <;> rfl

/-- `accept` refuses exactly when a live entry is there, and then only
sweeps. -/
theorem accept_refused (h : c.seen jti = some e) (hl : c.Live now e) :
    c.accept jti now = (false, c.sweep now) := by
  unfold LogoutJTICache.accept
  dsimp only
  rw [sweep_keeps h hl]
  dsimp only
  rw [if_pos]
  rcases hl with hp | hw
  · simp [hp]
  · have hnot : ¬ e.seenAt < now - c.window := by omega
    simp [hnot]

theorem accept_reserved (h : ∀ e, c.seen jti = some e → ¬ c.Live now e) :
    c.accept jti now = (true, { c.sweep now with
      seen := fun k =>
        if k = jti then some { seenAt := now, pending := true }
        else (c.sweep now).seen k }) := by
  unfold LogoutJTICache.accept
  dsimp only
  cases hs : (c.sweep now).seen jti with
  | none => rfl
  | some entry =>
      have hdead := h entry (sweep_seen hs)
      unfold LogoutJTICache.Live at hdead
      dsimp only
      rw [if_neg]
      simp only [Bool.or_eq_true, Bool.not_eq_true', decide_eq_false_iff_not,
        not_or, Decidable.not_not]
      refine ⟨fun hp => hdead (Or.inl hp), ?_⟩
      have : ¬ now - c.window ≤ entry.seenAt := fun hw => hdead (Or.inr hw)
      omega

/-- The refusal as a decision: `accept` refuses iff a live entry is
there. -/
theorem accept_eq_false_iff :
    (c.accept jti now).1 = false
      ↔ ∃ e, c.seen jti = some e ∧ c.Live now e := by
  constructor
  · intro hf
    refine Classical.byContradiction fun hno => ?_
    rw [accept_reserved fun e he hl => hno ⟨e, he, hl⟩] at hf
    cases hf
  · rintro ⟨e, he, hl⟩
    rw [accept_refused he hl]

-- ==== what a step does

variable {h h' : Handler}

/-- Everything one step can do, guards included. -/
inductive StepCases (h : Handler) : Action → Handler → Prop
  | verify {id : Nat} {claims : LogoutClaims} {now : Int}
      (hnow : h.clock ≤ now)
      (hiat : iatAccepted claims.issuedAt now = true)
      (hidle : h.phase id = .idle) :
      StepCases h (.verify id claims now)
        { h.setPhase id (.verified claims) with clock := now }
  | refuse {id : Nat} {claims : LogoutClaims} {now : Int}
      {e : LogoutJTIEntry} (hnow : h.clock ≤ now)
      (hver : h.phase id = .verified claims)
      (hseen : h.jti.seen claims.jti = some e)
      (hlive : h.jti.Live now e) :
      StepCases h (.accept id now)
        { h.setPhase id (.replay claims) with
          jti := h.jti.sweep now, clock := now }
  | reserve {id : Nat} {claims : LogoutClaims} {now : Int}
      (hnow : h.clock ≤ now) (hver : h.phase id = .verified claims)
      (hdead : ∀ e, h.jti.seen claims.jti = some e →
        ¬ h.jti.Live now e) :
      StepCases h (.accept id now)
        { h.setPhase id (.pending claims) with
          jti := { h.jti.sweep now with
            seen := fun k =>
              if k = claims.jti then
                some { seenAt := now, pending := true }
              else (h.jti.sweep now).seen k }
          clock := now }
  | finish {id : Nat} {claims : LogoutClaims} {work : Work} {now : Int}
      (hnow : h.clock ≤ now) (hpend : h.phase id = .pending claims) :
      StepCases h (.finish id work now)
        { h.setPhase id
            (.finished claims (serveAccepted claims work).2) with
          jti := h.jti.finish claims.jti (serveAccepted claims work).2 now
          clock := now }

theorem step_cases {a : Action} (hs : step a h = some h') :
    StepCases h a h' := by
  cases a with
  | verify id claims now =>
      simp only [step] at hs
      split at hs
      case isFalse => cases hs
      case isTrue hg =>
        cases hp : h.phase id with
        | idle =>
            rw [hp] at hs
            injection hs with hs
            subst hs
            exact .verify hg.1 hg.2 hp
        | verified c => rw [hp] at hs; cases hs
        | pending c => rw [hp] at hs; cases hs
        | finished c b => rw [hp] at hs; cases hs
        | replay c => rw [hp] at hs; cases hs
  | accept id now =>
      simp only [step] at hs
      split at hs
      case isFalse => cases hs
      case isTrue hg =>
        cases hp : h.phase id with
        | verified claims =>
            rw [hp] at hs
            dsimp only at hs
            by_cases hl : ∃ e, h.jti.seen claims.jti = some e
                ∧ h.jti.Live now e
            · obtain ⟨e, he, hl⟩ := hl
              rw [accept_refused he hl] at hs
              injection hs with hs
              subst hs
              exact .refuse hg hp he hl
            · have hdead : ∀ e, h.jti.seen claims.jti = some e →
                  ¬ h.jti.Live now e := fun e he hlv => hl ⟨e, he, hlv⟩
              rw [accept_reserved hdead] at hs
              injection hs with hs
              subst hs
              exact .reserve hg hp hdead
        | idle => rw [hp] at hs; cases hs
        | pending c => rw [hp] at hs; cases hs
        | finished c b => rw [hp] at hs; cases hs
        | replay c => rw [hp] at hs; cases hs
  | finish id work now =>
      simp only [step] at hs
      split at hs
      case isFalse => cases hs
      case isTrue hg =>
        cases hp : h.phase id with
        | pending claims =>
            rw [hp] at hs
            injection hs with hs
            subst hs
            exact .finish hg hp
        | idle => rw [hp] at hs; cases hs
        | verified c => rw [hp] at hs; cases hs
        | finished c b => rw [hp] at hs; cases hs
        | replay c => rw [hp] at hs; cases hs

/-- A phase other than the one just entered was there before. -/
theorem phase_of_setPhase {id i : Nat} {p q : Phase}
    (hq : (h.setPhase id p).phase i = q) (hne : p ≠ q) :
    h.phase i = q ∧ i ≠ id := by
  simp only [Handler.setPhase] at hq
  split at hq
  · exact absurd hq hne
  · next hid => exact ⟨hq, hid⟩

/-- A phase other than the one just left is still there. -/
theorem setPhase_of_phase {id i : Nat} {p q : Phase}
    (hq : h.phase i = q) (hne : h.phase id ≠ q) :
    (h.setPhase id p).phase i = q := by
  simp only [Handler.setPhase]
  rw [if_neg]
  · exact hq
  · rintro rfl
    exact hne hq

theorem setPhase_self (id : Nat) (p : Phase) :
    (h.setPhase id p).phase id = p := by
  simp only [Handler.setPhase, if_true]

-- ==== the invariant

/-- What the replay cache means, at every moment of every run. -/
structure LogoutInv (h : Handler) : Prop where
  window_ge : logoutTokenMaxAge + logoutTokenSkew ≤ h.jti.window
  verified_iat : ∀ i c, h.phase i = .verified c →
    c.issuedAt - logoutTokenSkew ≤ h.clock
  pending_iat : ∀ i c, h.phase i = .pending c →
    c.issuedAt - logoutTokenSkew ≤ h.clock
  pending_seen : ∀ i c, h.phase i = .pending c →
    ∃ e, h.jti.seen c.jti = some e ∧ e.pending = true
  pending_unique : ∀ i j c c', h.phase i = .pending c →
    h.phase j = .pending c' → c.jti = c'.jti → i = j
  seen_done : ∀ k e, h.jti.seen k = some e → e.pending = false →
    ∃ i c, h.phase i = .finished c true ∧ c.jti = k
  seen_pending : ∀ k e, h.jti.seen k = some e → e.pending = true →
    ∃ i c, h.phase i = .pending c ∧ c.jti = k
  done_kept : ∀ i c, h.phase i = .finished c true →
    c.issuedAt + logoutTokenMaxAge < h.clock
      ∨ ∃ e, h.jti.seen c.jti = some e ∧ e.pending = false
          ∧ c.issuedAt - logoutTokenSkew ≤ e.seenAt

theorem logoutInv_init (configured start : Int) :
    LogoutInv (newBackchannelLogoutHandler configured start) where
  window_ge := replayWindow_ge configured
  verified_iat := nofun
  pending_iat := nofun
  pending_seen := nofun
  pending_unique := nofun
  seen_done := nofun
  seen_pending := nofun
  done_kept := nofun

/-- A completed request whose entry is not live any more is past its
token's time. -/
theorem LogoutInv.expired_of_dead (hi : LogoutInv h) {i : Nat}
    {c : LogoutClaims} (hnow : h.clock ≤ now)
    (hdone : h.phase i = .finished c true)
    (hdead : ∀ e, h.jti.seen c.jti = some e → ¬ h.jti.Live now e) :
    c.issuedAt + logoutTokenMaxAge < now := by
  have hw := hi.window_ge
  rcases hi.done_kept i c hdone with hpast | ⟨e, he, -, hat⟩
  · omega
  · have hnot : ¬ now - h.jti.window ≤ e.seenAt := fun hl =>
      hdead e he (Or.inr hl)
    omega

/-- A completed request whose `jti` is reserved again is past its token's
time: the reservation was only possible once its entry was dead. -/
theorem LogoutInv.expired_of_pending (hi : LogoutInv h) {i j : Nat}
    {c c' : LogoutClaims} (hdone : h.phase i = .finished c true)
    (hpend : h.phase j = .pending c') (hjti : c'.jti = c.jti) :
    c.issuedAt + logoutTokenMaxAge < h.clock := by
  rcases hi.done_kept i c hdone with hpast | ⟨e, he, hep, -⟩
  · exact hpast
  · obtain ⟨e', he', hep'⟩ := hi.pending_seen j c' hpend
    rw [hjti, he] at he'
    injection he' with he'
    rw [he', hep'] at hep
    cases hep

-- ==== preservation, per step

theorem LogoutInv.tick (hi : LogoutInv h) (hnow : h.clock ≤ now) :
    LogoutInv { h with clock := now } := by
  refine ⟨hi.window_ge, ?_, ?_, hi.pending_seen, hi.pending_unique,
    hi.seen_done, hi.seen_pending, ?_⟩
  · exact fun i c hp => Int.le_trans (hi.verified_iat i c hp) hnow
  · exact fun i c hp => Int.le_trans (hi.pending_iat i c hp) hnow
  · intro i c hp
    rcases hi.done_kept i c hp with hpast | hkept
    · exact Or.inl (Int.lt_of_lt_of_le hpast hnow)
    · exact Or.inr hkept

/-- The sweep drops a completed request only when its token is past its
time. -/
theorem LogoutInv.sweep (hi : LogoutInv h) (hnow : h.clock ≤ now) :
    LogoutInv { h with jti := h.jti.sweep now, clock := now } := by
  have ht := hi.tick hnow
  refine ⟨?_, ht.verified_iat, ht.pending_iat, ?_, hi.pending_unique,
    ?_, ?_, ?_⟩
  · show _ ≤ (h.jti.sweep now).window
    rw [sweep_window]
    exact hi.window_ge
  · intro i c hp
    obtain ⟨e, he, hep⟩ := hi.pending_seen i c hp
    exact ⟨e, sweep_keeps he (Or.inl hep), hep⟩
  · exact fun k e he => hi.seen_done k e (sweep_seen he)
  · exact fun k e he => hi.seen_pending k e (sweep_seen he)
  · intro i c hp
    rcases hi.done_kept i c hp with hpast | ⟨e, he, hep, hat⟩
    · exact Or.inl (Int.lt_of_lt_of_le hpast hnow)
    · by_cases hl : now - h.jti.window ≤ e.seenAt
      · exact Or.inr ⟨e, sweep_keeps he (Or.inr hl), hep, hat⟩
      · have hw := hi.window_ge
        refine Or.inl ?_
        show _ < now
        omega

/-- A phase the cache has no entry for. -/
def Phase.Untracked (p : Phase) : Prop :=
  ∀ c, p ≠ .pending c ∧ p ≠ .finished c true

/-- A request moves between two such phases: the verifier accepts its
token, or the cache refuses it. -/
theorem LogoutInv.move (hi : LogoutInv h) {id : Nat} {p : Phase}
    (hold : (h.phase id).Untracked) (hnew : p.Untracked)
    (hiat : ∀ c, p = .verified c → c.issuedAt - logoutTokenSkew ≤ h.clock) :
    LogoutInv (h.setPhase id p) := by
  have hpend : ∀ {i c}, (h.setPhase id p).phase i = .pending c →
      h.phase i = .pending c :=
    fun hp => (phase_of_setPhase hp (hnew _).1).1
  refine ⟨hi.window_ge, ?_, ?_, ?_, ?_, ?_, ?_, ?_⟩
  · intro i c hp
    by_cases hid : i = id
    · subst hid
      rw [setPhase_self] at hp
      exact hiat c hp
    · simp only [Handler.setPhase, if_neg hid] at hp
      exact hi.verified_iat i c hp
  · exact fun i c hp => hi.pending_iat i c (hpend hp)
  · exact fun i c hp => hi.pending_seen i c (hpend hp)
  · exact fun i j c c' hp hp' =>
      hi.pending_unique i j c c' (hpend hp) (hpend hp')
  · intro k e he hep
    obtain ⟨i, c, hp, hk⟩ := hi.seen_done k e he hep
    exact ⟨i, c, setPhase_of_phase hp (hold c).2, hk⟩
  · intro k e he hep
    obtain ⟨i, c, hp, hk⟩ := hi.seen_pending k e he hep
    exact ⟨i, c, setPhase_of_phase hp (hold c).1, hk⟩
  · exact fun i c hp => hi.done_kept i c (phase_of_setPhase hp (hnew c).2).1

/-- Who is pending once a request has reserved its `jti`. -/
theorem pending_cases {id j : Nat} {claims c : LogoutClaims}
    (hp : (h.setPhase id (.pending claims)).phase j = .pending c) :
    j = id ∧ c = claims ∨ h.phase j = .pending c := by
  by_cases hid : j = id
  · subst hid
    rw [setPhase_self] at hp
    cases hp
    exact Or.inl ⟨rfl, rfl⟩
  · simp only [Handler.setPhase, if_neg hid] at hp
    exact Or.inr hp

/-- A reservation: no request was pending on the `jti` (a pending entry
is live), and whatever completed request it covers is past its token's
time. -/
theorem LogoutInv.reserve (hi : LogoutInv h) {id : Nat}
    {claims : LogoutClaims} (hver : h.phase id = .verified claims)
    (hdead : ∀ e, h.jti.seen claims.jti = some e →
      ¬ h.jti.Live h.clock e) :
    LogoutInv { h.setPhase id (.pending claims) with
      jti := { h.jti with
        seen := fun k =>
          if k = claims.jti then
            some { seenAt := h.clock, pending := true }
          else h.jti.seen k } } := by
  have hfree : ∀ j c, h.phase j = .pending c → c.jti ≠ claims.jti := by
    intro j c hp heq
    obtain ⟨e, he, hep⟩ := hi.pending_seen j c hp
    rw [heq] at he
    exact hdead e he (Or.inl hep)
  refine ⟨hi.window_ge, ?_, ?_, ?_, ?_, ?_, ?_, ?_⟩
  · exact fun i c hp => hi.verified_iat i c (phase_of_setPhase hp nofun).1
  · intro i c hp
    rcases pending_cases hp with ⟨-, rfl⟩ | hp
    · exact hi.verified_iat id c hver
    · exact hi.pending_iat i c hp
  · intro i c hp
    dsimp only
    rcases pending_cases hp with ⟨-, rfl⟩ | hp
    · exact ⟨_, if_pos rfl, rfl⟩
    · rw [if_neg (hfree i c hp)]
      exact hi.pending_seen i c hp
  · intro i j c c' hp hp' heq
    rcases pending_cases hp with ⟨rfl, rfl⟩ | hold
    · rcases pending_cases hp' with ⟨rfl, -⟩ | hold'
      · rfl
      · exact absurd heq.symm (hfree j c' hold')
    · rcases pending_cases hp' with ⟨-, rfl⟩ | hold'
      · exact absurd heq (hfree i c hold)
      · exact hi.pending_unique i j c c' hold hold' heq
  · intro k e he hep
    dsimp only at he
    split at he
    · cases he
      cases hep
    · obtain ⟨i, c, hp, hk⟩ := hi.seen_done k e he hep
      exact ⟨i, c, setPhase_of_phase hp (by rw [hver]; nofun), hk⟩
  · intro k e he hep
    dsimp only at he
    split at he
    · next hk => exact ⟨id, claims, setPhase_self _ _, hk.symm⟩
    · obtain ⟨i, c, hp, hk⟩ := hi.seen_pending k e he hep
      exact ⟨i, c, setPhase_of_phase hp (by rw [hver]; nofun), hk⟩
  · intro i c hp
    have hp := (phase_of_setPhase hp nofun).1
    dsimp only
    by_cases hk : c.jti = claims.jti
    · refine Or.inl (hi.expired_of_dead (Int.le_refl _) hp fun e he => ?_)
      rw [hk] at he
      exact hdead e he
    · rw [if_neg hk]
      exact hi.done_kept i c hp

/-- `finish` replaces the request's own reservation. Nothing else was
pending on that `jti`, and a request completed earlier on it is past
its token's time. -/
theorem LogoutInv.finish (hi : LogoutInv h) {id : Nat}
    {claims : LogoutClaims} {success : Bool}
    (hpend : h.phase id = .pending claims) :
    LogoutInv { h.setPhase id (.finished claims success) with
      jti := h.jti.finish claims.jti success h.clock } := by
  have hfree : ∀ {j c}, (h.setPhase id (.finished claims success)).phase j
      = .pending c → h.phase j = .pending c ∧ c.jti ≠ claims.jti := by
    intro j c hp
    obtain ⟨hp, hid⟩ := phase_of_setPhase hp nofun
    exact ⟨hp, fun heq => hid (hi.pending_unique j id c claims hp hpend heq)⟩
  refine ⟨hi.window_ge, ?_, ?_, ?_, ?_, ?_, ?_, ?_⟩
  · exact fun i c hp => hi.verified_iat i c (phase_of_setPhase hp nofun).1
  · exact fun i c hp => hi.pending_iat i c (hfree hp).1
  · intro i c hp
    obtain ⟨hp, hne⟩ := hfree hp
    simp only [LogoutJTICache.finish, if_neg hne]
    exact hi.pending_seen i c hp
  · exact fun i j c c' hp hp' =>
      hi.pending_unique i j c c' (hfree hp).1 (hfree hp').1
  · intro k e he hep
    simp only [LogoutJTICache.finish] at he
    by_cases hk : k = claims.jti
    · rw [if_pos hk] at he
      cases success with
      | false => cases he
      | true => exact ⟨id, claims, setPhase_self _ _, hk.symm⟩
    · rw [if_neg hk] at he
      obtain ⟨i, c, hp, hk⟩ := hi.seen_done k e he hep
      exact ⟨i, c, setPhase_of_phase hp (by rw [hpend]; nofun), hk⟩
  · intro k e he hep
    simp only [LogoutJTICache.finish] at he
    by_cases hk : k = claims.jti
    · rw [if_pos hk] at he
      cases success with
      | false => cases he
      | true =>
          cases he
          cases hep
    · rw [if_neg hk] at he
      obtain ⟨i, c, hp, hck⟩ := hi.seen_pending k e he hep
      refine ⟨i, c, setPhase_of_phase hp fun hid => hk ?_, hck⟩
      rw [hpend] at hid
      cases hid
      exact hck.symm
  · intro i c hp
    simp only [LogoutJTICache.finish]
    by_cases hid : i = id
    · subst hid
      rw [setPhase_self] at hp
      cases hp
      rw [if_pos rfl]
      exact Or.inr ⟨_, rfl, rfl, hi.pending_iat i claims hpend⟩
    · simp only [Handler.setPhase, if_neg hid] at hp
      by_cases hk : c.jti = claims.jti
      · exact Or.inl (hi.expired_of_pending hp hpend hk.symm)
      · rw [if_neg hk]
        exact hi.done_kept i c hp

/-- One step of any request keeps the invariant: the clock first, then
the sweep, then what the request does. -/
theorem LogoutInv.step {a : Action} (hi : LogoutInv h)
    (hs : step a h = some h') : LogoutInv h' := by
  cases step_cases hs with
  | verify hnow hiat hidle =>
      refine (hi.tick hnow).move ?_ (fun c => ⟨nofun, nofun⟩) fun c hc => ?_
      · rw [show _ = Phase.idle from hidle]
        exact fun c => ⟨nofun, nofun⟩
      · cases hc
        exact ((iatAccepted_iff _ _).mp hiat).1
  | refuse hnow hver _ _ =>
      refine (hi.sweep hnow).move ?_ (fun c => ⟨nofun, nofun⟩) nofun
      rw [show _ = Phase.verified _ from hver]
      exact fun c => ⟨nofun, nofun⟩
  | reserve hnow hver hdead =>
      refine (hi.sweep hnow).reserve hver fun e he hl => ?_
      rw [LogoutJTICache.Live, sweep_window] at hl
      exact hdead e (sweep_seen he) hl
  | finish hnow hpend => exact (hi.tick hnow).finish hpend

-- ==== the guarantee

/-- Replay protection, at every state of every interleaving and for every
configured window: at most one request per `jti` is between `accept`
and `finish`; once one has completed, `accept` refuses its `jti` at
every time its token still passes the `iat` check; and while every
request for a `jti` has failed, the next `accept` of it succeeds. -/
theorem logout_replay_protected (configured start : Int)
    (as : List Action) (h : Handler)
    (hrun : run Oidc.step as (newBackchannelLogoutHandler configured start)
      = some h) :
    (∀ i j c c', h.phase i = .pending c → h.phase j = .pending c' →
        c.jti = c'.jti → i = j)
      ∧ (∀ i c now, h.phase i = .finished c true → h.clock ≤ now →
          iatAccepted c.issuedAt now = true →
          (h.jti.accept c.jti now).1 = false)
      ∧ (∀ jti now,
          (∀ i c, c.jti = jti → h.phase i ≠ .pending c
            ∧ h.phase i ≠ .finished c true) →
          (h.jti.accept jti now).1 = true) := by
  have hi : LogoutInv h := run_invariant
    (fun a s s' hI hs => LogoutInv.step hI hs) as
    (logoutInv_init configured start) hrun
  refine ⟨hi.pending_unique, ?_, ?_⟩
  · intro i c now hdone hnow hiat
    rw [accept_eq_false_iff]
    refine Classical.byContradiction fun hno => ?_
    have hpast := hi.expired_of_dead hnow hdone
      fun e he hl => hno ⟨e, he, hl⟩
    have := (iatAccepted_iff _ _).mp hiat
    omega
  · intro jti now hfailed
    rw [← Bool.not_eq_false, accept_eq_false_iff]
    rintro ⟨e, he, -⟩
    cases hep : e.pending with
    | true =>
        obtain ⟨i, c, hp, hk⟩ := hi.seen_pending jti e he hep
        exact (hfailed i c hk).1 hp
    | false =>
        obtain ⟨i, c, hp, hk⟩ := hi.seen_done jti e he hep
        exact (hfailed i c hk).2 hp

/-- A token issued at ten minutes and completed thirty seconds early, by
the receiver's clock, is refused at the last instant it verifies. -/
theorem logout_replay_protected_boundary :
    let claims : LogoutClaims :=
      { issuer := ascii "op", subject := [], sessionID := ascii "sid",
        jti := ascii "jti", issuedAt := 10 * minute }
    let early := 10 * minute - logoutTokenSkew
    let work : Work :=
      { revokeSession := some 1, revokeUser := none, onRevoked := none,
        panics := false }
    ∃ h, run step [.verify 0 claims early, .accept 0 early,
          .finish 0 work early] (newBackchannelLogoutHandler 0 0) = some h
      ∧ (h.jti.accept claims.jti
          (10 * minute + logoutTokenMaxAge)).1 = false := by
  intro claims early work
  obtain ⟨h, hrun, hdone, hclock⟩ : ∃ h, run step [.verify 0 claims early,
        .accept 0 early, .finish 0 work early]
          (newBackchannelLogoutHandler 0 0) = some h
      ∧ h.phase 0 = .finished claims true ∧ h.clock = early :=
    ⟨_, rfl, rfl, rfl⟩
  have hp := logout_replay_protected 0 0 _ h hrun
  refine ⟨h, hrun, hp.2.1 0 claims _ hdone ?_ (by decide)⟩
  rw [hclock]
  decide

end Tokyo3Base.Oidc
