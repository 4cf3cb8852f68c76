/-
What `MintLogoutToken` mints, `VerifyLogoutToken` accepts: from half a
minute before the second of minting until half a minute after the expiry,
and with the claims that were minted.

The payload is written from one struct and read into another. Each field
is found by its name among those that were written (`decodeField_single`,
`decodeField_absent`), so what go-oidc and the verifier find is known
(`registeredClaims_minted`, `decodeLogoutBody_minted`). A time survives since
the seconds that are written wrap as those that are read do. The maximal
age of the verifier is never what rejects: a minted token expires first.
-/
import Tokyo3Base.Go.Proofs.JSON
import Tokyo3Base.Jwt.LogoutToken
import Tokyo3Base.Oidc.Proofs.LogoutTimes

namespace Tokyo3Base.Oidc

open Go Jwt

-- ==== times

/-- `Time.Truncate(time.Second)`. -/
def truncate (t : Int) : Int := t / second * second

/-- A time whose seconds are an `int64` is read as it was written. -/
theorem fromUnix_wrap_unix {t : Int} (hlo : minDuration ≤ t / second)
    (hhi : t / second ≤ maxDuration) :
    fromUnix (wrap (unix t)) = truncate t := by
  have hwrap : wrap (wrap (unix t) + 62135596800) = t / second :=
    calc wrap (wrap (unix t) + 62135596800)
        = wrap (unix t + 62135596800) := Int.bmod_add_bmod
      _ = wrap (t / second) := by
          unfold unix
          rw [Int.sub_add_cancel]
      _ = t / second := wrap_eq_self_iff.mpr ⟨hlo, hhi⟩
  unfold fromUnix truncate
  rw [hwrap]

theorem decodeInt64Ptr_numericDate (old : Option Int) (t : Int) :
    decodeInt64Ptr old (numericDate t) = some (some (wrap (unix t))) := by
  obtain ⟨hlo, hhi⟩ := wrap_bounds (unix t)
  show (atoi (formatInt _)).map some = _
  rw [atoi_formatInt hlo hhi]
  rfl

section Payload

variable {s : Signer} {audience sub sid jti : GoString} {uuid : UUID}
  {m : MintTime}

/-- The identifier of the token. -/
def mintedJTI (jti : GoString) (uuid : UUID) : GoString :=
  if jti = [] then uuid.val else jti

theorem mintedJTI_ne_nil : mintedJTI jti uuid ≠ [] := by
  unfold mintedJTI
  split
  · intro h
    have hlen := uuid.property.1
    rw [h] at hlen
    cases hlen
  · assumption

theorem mintedJTI_valid (h : toValidUTF8 jti = jti) :
    toValidUTF8 (mintedJTI jti uuid) = mintedJTI jti uuid := by
  unfold mintedJTI
  split
  · exact toValidUTF8_ascii uuid.property.2
  · exact h

/-- What `VerifyLogoutToken` reads of a minted token. -/
def mintedBody (sid jti : GoString) (uuid : UUID) (m : MintTime) :
    LogoutBody where
  sid := sid
  nonce := none
  jti := mintedJTI jti uuid
  iat := some (wrap (unix m.val))
  exp := some (numericDate (m.val + logoutTokenTTL))
  nbf := none
  events := some (Lib.Table.empty.set backchannelLogoutEvent (some .empty))

theorem valuesOf_single {name key : GoString} {j : Json}
    {fields : List (GoString × Option Json)}
    (h : fields.filter (fun f => equalFold name f.1) = [(key, some j)]) :
    valuesOf name (encodeStruct fields) = [j] := by
  unfold valuesOf
  rw [filter_encodeStruct, h]
  rfl

theorem isDate_single {name key : GoString} {t : Int}
    {fields : List (GoString × Option Json)}
    (h : fields.filter (fun f => equalFold name f.1)
      = [(key, some (numericDate t))]) :
    IsDate (valuesOf name (encodeStruct fields)) := by
  obtain ⟨hlo, hhi⟩ := wrap_bounds (unix t)
  rw [valuesOf_single h]
  exact ⟨_, _, rfl, atoi_formatInt hlo hhi⟩

/-- What go-oidc finds in a minted token. -/
theorem registeredClaims_minted
    (hissuer : toValidUTF8 s.issuer = s.issuer)
    (hsub : toValidUTF8 sub = sub) :
    RegisteredClaims (s.mintLogoutToken audience sub sid jti uuid m)
      s.issuer sub [toValidUTF8 audience] where
  iss := (decodeField_single rfl).trans (decodeString_encodeNonempty hissuer)
  sub := (decodeField_single rfl).trans (decodeString_encodeNonempty hsub)
  aud := valuesOf_single rfl
  exp := isDate_single rfl
  iat := isDate_single rfl
  absent := by
    intro name hname
    unfold valuesOf Signer.mintLogoutToken
    rw [filter_encodeStruct]
    simp only [List.mem_cons, List.not_mem_nil, or_false] at hname
    rcases hname with rfl | rfl | rfl | rfl | rfl <;> rfl

theorem decodeLogoutBody_minted (parseFloat : ParseFloat)
    (hsid : toValidUTF8 sid = sid) (hjti : toValidUTF8 jti = jti) :
    decodeLogoutBody parseFloat
        (s.mintLogoutToken audience sub sid jti uuid m)
      = some (mintedBody sid jti uuid m) := by
  unfold decodeLogoutBody Signer.mintLogoutToken
  dsimp only
  rw [decodeField_single rfl, decodeField_absent rfl, decodeField_single rfl,
    decodeField_single rfl, decodeField_single rfl, decodeField_absent rfl,
    decodeField_single rfl, decodeString_encodeNonempty hsid,
    show (if jti = [] then uuid.val else jti) = mintedJTI jti uuid from rfl,
    decodeString_encodeNonempty (mintedJTI_valid hjti)]
  simp only [Option.elim_some, decodeInt64Ptr_numericDate]
  rfl

/-- Its claims besides the times are valid exactly if it has a target. -/
theorem otherClaims_minted :
    OtherClaims ⟨s.issuer, sub⟩ (mintedBody sid jti uuid m)
      ↔ sub ≠ [] ∨ sid ≠ [] :=
  ⟨fun h => h.target, fun h => ⟨rfl,
    ⟨_, .empty, rfl, Lib.Table.get_set_self _ _ _, rfl⟩, h,
    mintedJTI_ne_nil⟩⟩

end Payload

-- ==== acceptance

/-- The second of minting and that of expiry are two minutes apart. -/
theorem truncate_add_ttl (t : Int) :
    truncate (t + logoutTokenTTL) = truncate t + logoutTokenTTL := by
  unfold truncate logoutTokenTTL minute second
  omega

theorem fromUnix_minted (m : MintTime) :
    fromUnix (wrap (unix m.val)) = truncate m.val
      ∧ fromUnix (wrap (unix (m.val + logoutTokenTTL)))
        = truncate (m.val + logoutTokenTTL) := by
  obtain ⟨hlo, hhi⟩ := m.property
  unfold logoutTokenTTL minute second at *
  refine ⟨fromUnix_wrap_unix ?_ ?_, fromUnix_wrap_unix ?_ ?_⟩ <;>
    unfold second <;> omega

/-- The times of a minted token pass exactly within the two half
minutes. -/
theorem times_minted_iff (m : MintTime) (now : Int) :
    iatAccepted (truncate m.val) now = true
        ∧ truncate (m.val + logoutTokenTTL) > now - logoutTokenSkew
      ↔ truncate m.val ≤ now + logoutTokenSkew
        ∧ now < truncate (m.val + logoutTokenTTL) + logoutTokenSkew := by
  rw [iatAccepted_iff, truncate_add_ttl]
  unfold logoutTokenTTL logoutTokenMaxAge logoutTokenSkew minute second
  omega

theorem checkExp_minted (m : MintTime) (now expiresAt : Int) :
    checkExp now (some (numericDate (m.val + logoutTokenTTL)))
        = some expiresAt
      ↔ truncate (m.val + logoutTokenTTL) > now - logoutTokenSkew
        ∧ expiresAt = truncate (m.val + logoutTokenTTL) := by
  simp only [checkExp, logoutNumericDate, decodeInt64Ptr_numericDate,
    (fromUnix_minted m).2]
  split <;> simp_all [eq_comm]

/-- A token minted for the verifier is accepted from half a minute before
the second of minting until half a minute after that of expiry, with the
minted claims; one without a target never is. -/
theorem verifyLogoutToken_minted (s : Signer) (v : HTTPVerifier)
    (goidc : GoOidc) (haccepts : goidc.AcceptsOwn)
    (hissuer : s.issuer = v.issuer)
    (haudience : toValidUTF8 v.audience = v.audience)
    (sub sid jti : GoString) (hsub : toValidUTF8 sub = sub)
    (hsid : toValidUTF8 sid = sid) (hjti : toValidUTF8 jti = jti)
    (uuid : UUID) (m : MintTime) (now : Int) (parseFloat : ParseFloat) :
    let payload := s.mintLogoutToken v.audience sub sid jti uuid m
    let iat := truncate m.val
    let exp := truncate (m.val + logoutTokenTTL)
    (sub ≠ [] ∨ sid ≠ [] →
      ((∃ claims, v.verifyLogoutToken goidc parseFloat now payload
            = .ok claims)
          ↔ iat ≤ now + logoutTokenSkew ∧ now < exp + logoutTokenSkew)
        ∧ ∀ claims,
          v.verifyLogoutToken goidc parseFloat now payload = .ok claims →
          claims = {
            issuer := s.issuer
            subject := sub
            sessionID := sid
            jti := if jti = [] then uuid.val else jti
            issuedAt := iat
            expiresAt := exp })
      ∧ (sub = [] → sid = [] → ∀ claims,
        v.verifyLogoutToken goidc parseFloat now payload ≠ .ok claims) := by
  intro payload iat exp
  have htok : goidc v.issuer v.audience true now payload
      = some ⟨s.issuer, sub⟩ := by
    rw [← hissuer]
    refine haccepts _ _ _ _ _ _
      (registeredClaims_minted (hissuer ▸ v.discovered) hsub) ?_
    rw [haudience]
    exact List.mem_singleton.mpr rfl
  have hcall : ∀ claims,
      v.verifyLogoutToken goidc parseFloat now payload = .ok claims
        ↔ (sub ≠ [] ∨ sid ≠ []) ∧ iat ≤ now + logoutTokenSkew
          ∧ now < exp + logoutTokenSkew
          ∧ claims = returnedClaims ⟨s.issuer, sub⟩
              (mintedBody sid jti uuid m) iat exp := by
    intro claims
    unfold HTTPVerifier.verifyLogoutToken
    rw [htok, decodeLogoutBody_minted parseFloat hsid hjti]
    dsimp only
    rw [checkLogout_eq_ok_iff, otherClaims_minted]
    refine and_congr_right fun _ => ?_
    rw [← and_assoc, ← times_minted_iff]
    constructor
    · rintro ⟨i, e, hi, hiat, hexp, -, rfl⟩
      cases hi
      rw [(fromUnix_minted m).1] at hiat ⊢
      obtain ⟨hlt, rfl⟩ := (checkExp_minted m now e).mp hexp
      exact ⟨⟨hiat, hlt⟩, rfl⟩
    · rintro ⟨⟨hiat, hlt⟩, rfl⟩
      refine ⟨_, exp, rfl, ?_, (checkExp_minted m now exp).mpr ⟨hlt, rfl⟩,
        rfl, ?_⟩
      · rw [(fromUnix_minted m).1]
        exact hiat
      · rw [(fromUnix_minted m).1]
  refine ⟨fun htarget => ⟨?_, fun claims h => ((hcall claims).mp h).2.2.2⟩,
    fun hs hd claims h => ?_⟩
  · constructor
    · rintro ⟨claims, h⟩
      obtain ⟨-, hiat, hexp, -⟩ := (hcall claims).mp h
      exact ⟨hiat, hexp⟩
    · rintro ⟨hiat, hexp⟩
      exact ⟨_, (hcall _).mpr ⟨htarget, hiat, hexp, rfl⟩⟩
  · rcases ((hcall claims).mp h).1 with hne | hne
    · exact hne hs
    · exact hne hd

-- ==== samples

def sampleUUID : UUID :=
  ⟨ascii "0b0f5f52-3e2c-4a53-9d0e-8f6c6c1f3f6a", by decide +kernel⟩

def sampleMint : MintTime := ⟨sampleNow, by decide⟩

theorem sampleGoOidc_acceptsOwn : sampleGoOidc.AcceptsOwn := by
  intro issuer clientID now payload sub aud h hmem
  obtain ⟨literal, n, hexp, hatoi⟩ := h.exp
  have hdate : decodeField (ascii "exp") decodeInt64 0 payload = some n := by
    unfold valuesOf at hexp
    obtain ⟨e, he, hnum⟩ := List.map_eq_singleton_iff.mp hexp
    unfold decodeField
    rw [he, List.foldlM_cons, hnum]
    exact (bind_pure _).trans hatoi
  unfold sampleGoOidc
  rw [h.iss, h.sub, hdate, h.aud]
  simpa using hmem

/-- A token for a user, verified half a minute after its expiry less one
nanosecond. -/
theorem verifyLogoutToken_minted_user :
    ∃ claims, sampleVerifier.verifyLogoutToken sampleGoOidc noFloats
      (sampleNow + 150 * second - 1)
      ((⟨ascii "https://op"⟩ : Signer).mintLogoutToken (ascii "rp")
        (ascii "u") [] [] sampleUUID sampleMint) = .ok claims :=
  ((verifyLogoutToken_minted ⟨ascii "https://op"⟩ sampleVerifier
    sampleGoOidc sampleGoOidc_acceptsOwn rfl (by decide) (ascii "u") [] [] (by decide) rfl rfl sampleUUID sampleMint
    (sampleNow + 150 * second - 1) noFloats).1 (.inl (by decide))).1.mpr
    ⟨by decide, by decide⟩

/-- A verifier whose audience is no UTF-8. -/
def byteVerifier : HTTPVerifier :=
  { sampleVerifier with
    audience := [0xff]
    audience_ne := List.cons_ne_nil _ _ }

/-- Its tokens are never accepted: the audience is written as U+FFFD. -/
theorem verifyLogoutToken_minted_bytes :
    byteVerifier.verifyLogoutToken sampleGoOidc noFloats sampleNow
        ((⟨ascii "https://op"⟩ : Signer).mintLogoutToken [0xff] (ascii "u")
          [] [] sampleUUID sampleMint)
      = .error .goidc
    ∧ truncate sampleNow ≤ sampleNow + logoutTokenSkew
    ∧ sampleNow < truncate (sampleNow + logoutTokenTTL)
        + logoutTokenSkew := by
  refine ⟨?_, ?_, ?_⟩ <;> decide +kernel

end Tokyo3Base.Oidc
