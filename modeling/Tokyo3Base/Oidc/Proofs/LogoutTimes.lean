/-
Which logout tokens `VerifyLogoutToken` accepts, by their times.

What was decoded passes if its other claims are valid (`OtherClaims`) and
the three times pass, each on its own (`checkLogout_eq_ok_iff`). The times
are compared as `time.Time`s, which `time.Unix` gives: for a number of
seconds that it does not wrap, the comparison is the one of the numbers.
A later one lands long before every clock: such an `iat` is rejected as
it should be, such an `exp` is rejected and such an `nbf` accepted, both
wrongly. That shows unless another of the times decides (`TimesFit`).
-/
import Tokyo3Base.Oidc.Proofs.LogoutReplay
import Tokyo3Base.Oidc.Verifier

namespace Tokyo3Base.Oidc

open Go

-- ==== requires

theorem require_bind_eq_ok {α : Type} {ok : Bool} {message : GoString}
    {f : Unit → Except VerifyError α} {a : α} :
    (require ok message >>= f) = .ok a ↔ ok = true ∧ f () = .ok a := by
  cases ok with
  | false => exact ⟨nofun, nofun⟩
  | true => exact ⟨fun h => ⟨rfl, h⟩, fun h => h.2⟩

theorem requireSome_bind_eq_ok {α β : Type} {x : Option β}
    {message : GoString} {f : β → Except VerifyError α} {a : α} :
    (requireSome x message >>= f) = .ok a
      ↔ ∃ b, x = some b ∧ f b = .ok a := by
  cases x with
  | none => exact ⟨nofun, nofun⟩
  | some b =>
      refine ⟨fun h => ⟨b, rfl, h⟩, fun ⟨c, hc, h⟩ => ?_⟩
      cases hc
      exact h

-- ==== checks

/-- The claims besides the times: no nonce, an empty event, a subject or a
session, and an identifier. -/
structure OtherClaims (tok : IDToken) (body : LogoutBody) : Prop where
  nonce : body.nonce = none
  event : ∃ events event, body.events = some events
    ∧ events.get backchannelLogoutEvent = some (some event) ∧ event.size = 0
  target : tok.subject ≠ [] ∨ body.sid ≠ []
  jti : body.jti ≠ []

/-- The claims that are returned, given the two times. -/
def returnedClaims (tok : IDToken) (body : LogoutBody)
    (issuedAt expiresAt : Int) : VerifiedLogout where
  issuer := tok.issuer
  subject := tok.subject
  sessionID := body.sid
  jti := body.jti
  issuedAt := issuedAt
  expiresAt := expiresAt

theorem isEmptyObject_iff {event : Option Event} :
    isEmptyObject event = true ↔ ∃ e, event = some e ∧ e.size = 0 := by
  cases event with
  | none => exact ⟨nofun, nofun⟩
  | some e => simp [isEmptyObject]

/-- Exactly these pass: the other claims are valid, and each time is. -/
theorem checkLogout_eq_ok_iff {now : Int} {tok : IDToken}
    {body : LogoutBody} {claims : VerifiedLogout} :
    checkLogout now tok body = .ok claims
      ↔ OtherClaims tok body ∧ ∃ iat expiresAt, body.iat = some iat
        ∧ iatAccepted (fromUnix iat) now = true
        ∧ checkExp now body.exp = some expiresAt
        ∧ checkNbf now body.nbf = true
        ∧ claims = returnedClaims tok body (fromUnix iat) expiresAt := by
  unfold checkLogout
  simp only [require_bind_eq_ok, requireSome_bind_eq_ok]
  constructor
  · rintro ⟨hnonce, iat, hiat, hold, expiresAt, hexp, hnbf, event, hevent,
      hempty, htarget, hjti, hclaims⟩
    obtain ⟨events, hevents, hget⟩ := Option.bind_eq_some_iff.mp hevent
    obtain ⟨e, rfl, hsize⟩ := isEmptyObject_iff.mp hempty
    refine ⟨⟨by simpa using hnonce, ⟨events, e, hevents, hget, hsize⟩, ?_,
      by simpa using hjti⟩, iat, expiresAt, hiat, hold, hexp, hnbf,
      (Except.ok.inj hclaims).symm⟩
    rw [Bool.not_eq_true', Bool.and_eq_false_iff] at htarget
    simpa using htarget
  · rintro ⟨⟨hnonce, ⟨events, e, hevents, hget, hsize⟩, htarget, hjti⟩, iat,
      expiresAt, hiat, hold, hexp, hnbf, rfl⟩
    refine ⟨by rw [hnonce]; rfl, iat, hiat, hold, expiresAt, hexp, hnbf,
      some e, by rw [hevents]; exact hget,
      isEmptyObject_iff.mpr ⟨e, rfl, hsize⟩, ?_, by simpa using hjti, rfl⟩
    rw [Bool.not_eq_true', Bool.and_eq_false_iff]
    simpa using htarget

/-- The instant that a number of seconds since 1970 stands for. -/
def instant (seconds : Int) : Int := (seconds + 62135596800) * second

/-- The last second that `time.Unix` does not wrap. -/
def lastUnix : Int := 9223371974719179007

/-- A second up to that one is the instant that it stands for. -/
theorem fromUnix_eq_instant {seconds : Int} (hlo : minDuration ≤ seconds)
    (hhi : seconds ≤ lastUnix) : fromUnix seconds = instant seconds := by
  unfold fromUnix instant
  have hwrap : wrap (seconds + 62135596800) = seconds + 62135596800 := by
    rw [wrap_eq_self_iff]
    unfold lastUnix minDuration at *
    unfold maxDuration
    omega
  rw [hwrap]

/-- A later second is long before year 1. -/
theorem fromUnix_wraps {seconds : Int} (hlo : lastUnix < seconds)
    (hhi : seconds ≤ maxDuration) :
    fromUnix seconds < -9000000000000000000 * second := by
  unfold fromUnix wrap Int.bmod UInt64.size second
  unfold lastUnix at hlo
  unfold maxDuration at hhi
  dsimp only
  split <;> omega

/-- A claim that is absent, or an integer that an `int64` holds. -/
def ReadsAs (raw : Option Json) (seconds : Option Int) : Prop :=
  raw.map (decodeInt64Ptr none) = seconds.map fun n => some (some n)

/-- The three times of a token, in seconds since 1970. -/
structure TimeClaims (body : LogoutBody) (iat : Int)
    (exp nbf : Option Int) : Prop where
  int64 : minDuration ≤ iat ∧ iat ≤ maxDuration
  iat : body.iat = some iat
  exp : ReadsAs body.exp exp
  nbf : ReadsAs body.nbf nbf

/-- The comparisons, exactly: each number of seconds stands for its
instant. -/
structure WithinLimits (now iat : Int) (exp nbf : Option Int) : Prop where
  ahead : instant iat ≤ now + logoutTokenSkew
  age : now - instant iat ≤ logoutTokenMaxAge
  exp : ∀ n ∈ exp, instant n > now - logoutTokenSkew
  nbf : ∀ n ∈ nbf, instant n ≤ now + logoutTokenSkew

/-- A clock from year 1 on that `Add` does not wrap. -/
structure ClockFits (now : Int) : Prop where
  start : 0 ≤ now
  stop : now + logoutTokenSkew < (maxDuration + 1) * second

/-- Neither `exp` nor `nbf` is a second that `time.Unix` wraps, unless
the token is rejected for another of its times: for `iat`, beside such an
`exp` for `nbf`, and beside such an `nbf` for `exp`. -/
def TimesFit (now iat : Int) (exp nbf : Option Int) : Prop :=
  instant iat ≤ now + logoutTokenSkew →
  now - instant iat ≤ logoutTokenMaxAge →
  (∀ n ∈ exp, lastUnix < n → ∃ k ∈ nbf, instant k > now + logoutTokenSkew)
  ∧ ∀ k ∈ nbf, lastUnix < k →
    ∃ n ∈ exp, lastUnix < n ∨ instant n ≤ now - logoutTokenSkew

theorem ReadsAs.cases {raw : Option Json} {seconds : Option Int}
    (h : ReadsAs raw seconds) : (raw = none ∧ seconds = none)
      ∨ ∃ j n, raw = some j ∧ seconds = some n
        ∧ logoutNumericDate j = some (fromUnix n)
        ∧ minDuration ≤ n ∧ n ≤ maxDuration := by
  cases raw with
  | none =>
      cases seconds with
      | none => exact .inl ⟨rfl, rfl⟩
      | some n => cases h
  | some j =>
      cases seconds with
      | none => cases h
      | some n =>
          have hj : decodeInt64Ptr none j = some (some n) :=
            Option.some.inj h
          refine .inr ⟨j, n, rfl, rfl, ?_, ?_⟩
          · unfold logoutNumericDate
            rw [hj]
          · cases j with
            | num literal =>
                obtain ⟨m, hm, hmn⟩ := Option.map_eq_some_iff.mp hj
                cases hmn
                exact atoi_bounds hm
            | _ => cases hj

/-- What wraps is long before a clock, and was long after it. -/
theorem ClockFits.wraps {now seconds : Int} (h : ClockFits now)
    (hlo : lastUnix < seconds) (hhi : seconds ≤ maxDuration) :
    fromUnix seconds < now - logoutTokenMaxAge
      ∧ instant seconds > now + logoutTokenSkew := by
  have hwraps := fromUnix_wraps hlo hhi
  obtain ⟨hstart, hstop⟩ := h
  unfold second at hwraps
  unfold logoutTokenSkew second maxDuration at hstop
  unfold lastUnix at hlo
  unfold instant logoutTokenMaxAge logoutTokenSkew minute second
  omega

section Times

variable {now : Int} (hclock : ClockFits now)
include hclock

theorem checkExp_isSome_iff {raw : Option Json} {exp : Option Int}
    (h : ReadsAs raw exp) :
    (∃ expiresAt, checkExp now raw = some expiresAt)
      ↔ ∀ n ∈ exp, n ≤ lastUnix ∧ instant n > now - logoutTokenSkew := by
  rcases h.cases with ⟨rfl, rfl⟩ | ⟨j, n, rfl, rfl, hdate, hlo, hhi⟩
  · exact ⟨fun _ => nofun, fun _ => ⟨0, rfl⟩⟩
  · have hexp : (∃ expiresAt, checkExp now (some j) = some expiresAt)
        ↔ fromUnix n > now - logoutTokenSkew := by
      simp only [checkExp, hdate]
      split <;> simp_all
    rw [hexp]
    simp only [Option.mem_some_iff, forall_eq']
    by_cases hn : n ≤ lastUnix
    · rw [fromUnix_eq_instant hlo hn]
      exact ⟨fun hgt => ⟨hn, hgt⟩, fun hgt => hgt.2⟩
    · have hold := (hclock.wraps (Int.not_le.mp hn) hhi).1
      unfold logoutTokenMaxAge minute second at hold
      unfold logoutTokenSkew second
      omega

theorem checkNbf_iff {raw : Option Json} {nbf : Option Int}
    (h : ReadsAs raw nbf) :
    checkNbf now raw = true
      ↔ ∀ n ∈ nbf, lastUnix < n ∨ instant n ≤ now + logoutTokenSkew := by
  rcases h.cases with ⟨rfl, rfl⟩ | ⟨j, n, rfl, rfl, hdate, hlo, hhi⟩
  · exact ⟨fun _ => nofun, fun _ => rfl⟩
  · simp only [checkNbf, hdate, Option.mem_some_iff, forall_eq',
      Bool.not_eq_true', decide_eq_false_iff_not, Int.not_lt]
    by_cases hn : n ≤ lastUnix
    · rw [fromUnix_eq_instant hlo hn]
      omega
    · have hold := (hclock.wraps (Int.not_le.mp hn) hhi).1
      unfold logoutTokenMaxAge minute second at hold
      unfold logoutTokenSkew second
      omega

theorem iatAccepted_fromUnix_iff {iat : Int}
    (hint : minDuration ≤ iat ∧ iat ≤ maxDuration) :
    iatAccepted (fromUnix iat) now = true
      ↔ instant iat ≤ now + logoutTokenSkew
        ∧ now - instant iat ≤ logoutTokenMaxAge := by
  rw [iatAccepted_iff]
  by_cases hiat : iat ≤ lastUnix
  · rw [fromUnix_eq_instant hint.1 hiat]
    omega
  · -- read as too old, and really too new
    have hwraps := hclock.wraps (Int.not_le.mp hiat) hint.2
    omega

/-- A time that is beyond the last second is ahead of the clock. -/
theorem ReadsAs.ahead {raw : Option Json} {seconds : Option Int}
    (h : ReadsAs raw seconds) :
    ∀ n ∈ seconds, lastUnix < n → instant n > now + logoutTokenSkew := by
  rcases h.cases with ⟨-, rfl⟩ | ⟨j, n, -, rfl, -, -, hhi⟩
  · nofun
  · rintro _ ⟨⟩ hn
    exact (hclock.wraps hn hhi).2

end Times

-- ==== acceptance

/-- A token whose other claims are valid is accepted as far as its times,
as they are read, are within the limits. -/
theorem verifyLogoutToken_isOk_iff {v : HTTPVerifier} {goidc : GoOidc}
    {parseFloat : ParseFloat} {now : Int} {payload : Members}
    {tok : IDToken} {body : LogoutBody} {iat : Int} {exp nbf : Option Int}
    (htok : goidc v.issuer v.audience true now payload = some tok)
    (hbody : decodeLogoutBody parseFloat payload = some body)
    (hother : OtherClaims tok body) (htimes : TimeClaims body iat exp nbf)
    (hclock : ClockFits now) :
    (∃ claims, v.verifyLogoutToken goidc parseFloat now payload
        = .ok claims)
      ↔ (instant iat ≤ now + logoutTokenSkew
          ∧ now - instant iat ≤ logoutTokenMaxAge)
        ∧ (∀ n ∈ exp, n ≤ lastUnix ∧ instant n > now - logoutTokenSkew)
        ∧ ∀ n ∈ nbf, lastUnix < n
          ∨ instant n ≤ now + logoutTokenSkew := by
  have hcall : ∀ claims,
      v.verifyLogoutToken goidc parseFloat now payload = .ok claims
        ↔ checkLogout now tok body = .ok claims := by
    intro claims
    unfold HTTPVerifier.verifyLogoutToken
    rw [htok, hbody]
  rw [← iatAccepted_fromUnix_iff hclock htimes.int64,
    ← checkExp_isSome_iff hclock htimes.exp,
    ← checkNbf_iff hclock htimes.nbf]
  simp only [hcall, checkLogout_eq_ok_iff, htimes.iat]
  constructor
  · rintro ⟨claims, -, i, e, hi, hiat, hexp, hnbf, -⟩
    cases hi
    exact ⟨hiat, ⟨e, hexp⟩, hnbf⟩
  · rintro ⟨hiat, ⟨e, hexp⟩, hnbf⟩
    exact ⟨_, hother, iat, e, rfl, hiat, hexp, hnbf, rfl⟩

/-- For every token whose other claims are valid, and every `int64` as
`iat`, `exp` and `nbf`: it is accepted exactly if its times are within the
limits, if and only if `TimesFit` holds of these and the clock. -/
theorem verifyLogoutToken_isOk_iff_times (v : HTTPVerifier)
    (goidc : GoOidc) (parseFloat : ParseFloat) (now : Int)
    (payload : Members) (tok : IDToken) (body : LogoutBody) (iat : Int)
    (exp nbf : Option Int)
    (htok : goidc v.issuer v.audience true now payload = some tok)
    (hbody : decodeLogoutBody parseFloat payload = some body)
    (hother : OtherClaims tok body)
    (htimes : TimeClaims body iat exp nbf) (hclock : ClockFits now) :
    ((∃ claims, v.verifyLogoutToken goidc parseFloat now payload
        = .ok claims)
      ↔ WithinLimits now iat exp nbf)
    ↔ TimesFit now iat exp nbf := by
  have hexp := htimes.exp.ahead hclock
  have hnbf := htimes.nbf.ahead hclock
  rw [verifyLogoutToken_isOk_iff htok hbody hother htimes hclock]
  constructor
  · intro hiff hahead hage
    refine ⟨fun n hn hlate => ?_, fun k hk hlate => ?_⟩
    · -- it is rejected for `exp`, so another of its times is out of limits
      refine Classical.byContradiction fun hno => ?_
      have hin : WithinLimits now iat exp nbf := by
        refine ⟨hahead, hage, fun m hm => ?_, fun k hk =>
          Int.not_lt.mp fun hgt => hno ⟨k, hk, hgt⟩⟩
        cases Option.mem_unique hm hn
        have hgt := hexp n hn hlate
        unfold logoutTokenSkew second at *
        omega
      have hle := ((hiff.mpr hin).2.1 n hn).1
      omega
    · -- it is not within the limits, so another time rejects it
      refine Classical.byContradiction fun hno => ?_
      have hin := hiff.mp ⟨⟨hahead, hage⟩,
        fun n hn => ⟨Int.not_lt.mp fun h => hno ⟨n, hn, .inl h⟩,
          Int.not_le.mp fun h => hno ⟨n, hn, .inr h⟩⟩,
        fun m hm => .inl (Option.mem_unique hm hk ▸ hlate)⟩
      have hle := hin.nbf k hk
      have hgt := hnbf k hk hlate
      omega
  · intro hfit
    constructor
    · rintro ⟨⟨hahead, hage⟩, hread, hready⟩
      refine ⟨hahead, hage, fun n hn => (hread n hn).2, fun k hk => ?_⟩
      rcases hready k hk with hlate | hle
      · obtain ⟨n, hn, hor⟩ := (hfit hahead hage).2 k hk hlate
        have hexact := hread n hn
        omega
      · exact hle
    · rintro ⟨hahead, hage, hafter, hready⟩
      refine ⟨⟨hahead, hage⟩, fun n hn => ⟨Int.not_lt.mp fun hlate => ?_,
        hafter n hn⟩, fun k hk => .inr (hready k hk)⟩
      obtain ⟨k, hk, hgt⟩ := (hfit hahead hage).1 n hn hlate
      have hle := hready k hk
      omega

-- ==== samples

def sampleVerifier : HTTPVerifier where
  issuer := ascii "https://op"
  audience := ascii "rp"
  issuer_ne := by decide
  audience_ne := by decide
  discovered := by decide

/-- go-oidc on the samples: the issuer is the provider's, the client is in
the audience, and the expiry, unless it is skipped, is not past. -/
def sampleGoOidc : GoOidc := fun issuer clientID skip now payload => do
  let iss ← decodeField (ascii "iss") decodeString [] payload
  let sub ← decodeField (ascii "sub") decodeString [] payload
  let exp ← decodeField (ascii "exp") decodeInt64 0 payload
  let aud : Bool := match valuesOf (ascii "aud") payload with
    | [.arr aud] => aud.any fun
      | .str s => s == clientID
      | _ => false
    | _ => false
  if iss = issuer ∧ aud ∧ (skip ∨ now ≤ fromUnix exp) then some ⟨iss, sub⟩
  else none

/-- A payload with these times. -/
def samplePayload (times : Members) : Members :=
  times ++ [(ascii "iss", .str (ascii "https://op")),
    (ascii "aud", .arr [.str (ascii "rp")]),
    (ascii "sub", .str (ascii "u")),
    (ascii "jti", .str (ascii "j")),
    (ascii "events", .obj [(backchannelLogoutEvent, .obj [])])]

/-- No literal needs a float. -/
def noFloats : ParseFloat := fun _ => none

/-- The first second of 2026. -/
def sampleNow : Int := instant 1767225600

/-- What two times are decoded to. -/
def sampleBody (iat : Int) (exp : Json) : LogoutBody where
  sid := []
  nonce := none
  jti := ascii "j"
  iat := some iat
  exp := some exp
  nbf := none
  events := some (Lib.Table.empty.set backchannelLogoutEvent (some .empty))

/-- A token of now that expires in two minutes. -/
theorem verifyLogoutToken_isOk_iff_times_fresh :
    ((∃ claims, sampleVerifier.verifyLogoutToken sampleGoOidc noFloats
        sampleNow (samplePayload [(ascii "iat", .num (ascii "1767225600")),
          (ascii "exp", .num (ascii "1767225720"))]) = .ok claims)
      ↔ WithinLimits sampleNow 1767225600 (some 1767225720) none) := by
  refine (verifyLogoutToken_isOk_iff_times sampleVerifier sampleGoOidc
    noFloats sampleNow _ ⟨ascii "https://op", ascii "u"⟩
    (sampleBody 1767225600 (.num (ascii "1767225720"))) 1767225600
    (some 1767225720) none (by decide +kernel) rfl
    ⟨rfl, ⟨_, _, rfl, rfl, rfl⟩, .inl (by decide), by decide⟩
    ⟨by decide, rfl, ?_, rfl⟩ ⟨by decide, by decide⟩).mpr ?_
  · show some (some (some _)) = _
    decide +kernel
  · refine fun _ _ => ⟨?_, nofun⟩
    rintro n ⟨⟩ hlate
    exact absurd hlate (by decide)

/-- Beyond the last second, an expiry in the future is rejected as one in
the past, and a token that is not valid yet is accepted. -/
theorem verifyLogoutToken_wraps :
    WithinLimits sampleNow 1767225600 (some 9223371974719179008) none
      ∧ sampleVerifier.verifyLogoutToken sampleGoOidc noFloats sampleNow
          (samplePayload [(ascii "iat", .num (ascii "1767225600")),
            (ascii "exp", .num (ascii "9223371974719179008"))])
        = .error (.text (ascii "logout_token exp is invalid or expired"))
      ∧ ¬ WithinLimits sampleNow 1767225600 none
          (some 9223371974719179008)
      ∧ sampleVerifier.verifyLogoutToken sampleGoOidc noFloats sampleNow
          (samplePayload [(ascii "iat", .num (ascii "1767225600")),
            (ascii "nbf", .num (ascii "9223371974719179008"))])
        = .ok {
            issuer := ascii "https://op"
            subject := ascii "u"
            sessionID := []
            jti := ascii "j"
            issuedAt := sampleNow
            expiresAt := 0 } := by
  refine ⟨⟨by decide, by decide, ?_, nofun⟩, by decide +kernel, ?_,
    by decide +kernel⟩
  · rintro n ⟨⟩
    decide
  · intro hin
    exact absurd (hin.nbf _ rfl) (by decide)

end Tokyo3Base.Oidc
