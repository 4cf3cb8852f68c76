/-
Which requests `Gate` lets through, by what was sealed under the
manager's key.

The value of the session cookie is opened with the additional data of
its name. No sibling cookie has that name and what `Seal` returns has no
additional data at all, so what opens was sealed as the session cookie
(`Purpose.aad_eq`); it unmarshals to the session it was made from. From
there on it is `Gate` on a session.
-/
import Mathlib.Logic.Encodable.Basic
import Mathlib.Logic.Equiv.List
import Tokyo3Base.Session.Presented
import Tokyo3Base.Session.Proofs.Gate

namespace Tokyo3Base.Session

open Go SealedCookie

variable {m : Manager} {codec : Codec Session}

/-- Only session cookies carry the additional data of the session
cookie. -/
theorem Purpose.aad_eq {p : Purpose}
    (h : p.aad m = SealedCookie.aad m.cookieName) :
    ∃ sess, p = .session sess := by
  cases p with
  | session sess => exact ⟨sess, rfl⟩
  | sibling suffix json other =>
      have hname : m.siblingName suffix = m.cookieName :=
        List.append_cancel_left h
      unfold Manager.siblingName Manager.cookieName at hname
      rw [List.append_assoc] at hname
      exact absurd (List.cons.inj (List.append_cancel_left hname)).2 other
  | plain json =>
      exact absurd (List.append_eq_nil_iff.mp h.symm).1 (by decide)

/-- The request's session cookie decodes to a ciphertext that was sealed
as the session cookie, with this session. -/
def Presents (issued : Issued m codec) (r : Presented) (sess : Session) :
    Prop :=
  ∃ val raw, cookieValue r.cookies m.cookieName = some val
    ∧ rawURLDecode val = some raw
    ∧ ∃ e ∈ issued.made, e.ciphertext = raw ∧ e.purpose = .session sess

theorem read_eq_some_iff (issued : Issued m codec) (r : Presented)
    (sess : Session) :
    SealedCookie.read issued.vault codec m.cookieName r.cookies = some sess
      ↔ Presents issued r sess := by
  rw [read_eq_some]
  constructor
  · rintro ⟨val, raw, hval, hraw, e, hmem, hct, haad, hsess⟩
    obtain ⟨e, he, rfl⟩ := List.mem_map.mp hmem
    obtain ⟨sess', hpurpose⟩ := Purpose.aad_eq haad
    have hplain : (e.sealed m codec).plaintext = codec.marshal sess' := by
      show e.purpose.plaintext codec = _
      rw [hpurpose]
      rfl
    rw [hplain, codec.round_trip] at hsess
    cases hsess
    exact ⟨val, raw, hval, hraw, e, he, hct, hpurpose⟩
  · rintro ⟨val, raw, hval, hraw, e, he, hct, hpurpose⟩
    refine ⟨val, raw, hval, hraw, e.sealed m codec,
      List.mem_map_of_mem he, hct, ?_, ?_⟩
    · show e.purpose.aad m = _
      rw [hpurpose]
      rfl
    · show codec.unmarshal (e.purpose.plaintext codec) = _
      rw [hpurpose]
      exact codec.round_trip sess

-- ==== the gate

/-- What `Gate` lets through on a route that is not exempt. -/
theorem gate_next {r : Request} {env : GateEnv}
    (horigin : (m.cfg.trustedOrigins.isSome && r.crossOrigin) = false)
    (hexempt : m.exempt.contains r.path = false)
    {injected : Option Session} (h : (m.gate r env).1 = .next injected) :
    ∃ held, readSession r.cookie env.readAt = some held
      ∧ notRevoked env.isRevoked = true ∧ m.inGroup held = true := by
  cases hread : readSession r.cookie env.readAt with
  | none =>
      rw [gate_dead horigin hexempt hread] at h
      unfold Manager.login at h
      split at h <;> cases h
  | some held =>
      rw [gate_live horigin hexempt hread] at h
      refine ⟨held, rfl, ?_⟩
      unfold Manager.admit at h
      split at h
      · cases h
      · split at h <;> cases h
      · rename_i herror hrevoked
        split at h
        · cases h
        · rename_i hgroup
          refine ⟨?_, ?_⟩
          · unfold notRevoked
            split
            · rfl
            · rfl
            · rename_i hnone hfalse
              cases hans : env.isRevoked with
              | none => exact absurd hans hnone
              | some ans =>
                  cases ans with
                  | error u => exact absurd hans herror
                  | ok revoked =>
                      cases revoked with
                      | true => exact absurd hans hrevoked
                      | false => exact absurd hans hfalse
          · unfold Manager.inGroup
            rw [Bool.or_eq_true, beq_iff_eq]
            by_cases hset : m.cfg.requiredGroup = []
            · exact .inl hset
            · exact .inr (by simpa [hset] using hgroup)

/-- Idle extension moves the expiry forward or leaves the session
alone. -/
theorem maybeExtendIdle_forward (m : Manager) (canSeal : Seal)
    (sess : Session) (now : Int) :
    ∃ e, sess.expiry ≤ e
      ∧ (m.maybeExtendIdle canSeal sess now).1
        = { sess with expiry := e } := by
  rcases maybeExtendIdle_cases m canSeal sess now with
    ⟨hsame, -⟩ | ⟨hextended, hextends, -⟩
  · rw [hsame]
    exact ⟨sess.expiry, Int.le_refl _, rfl⟩
  · rw [hextended]
    exact ⟨_, Int.le_of_lt hextends.2.2, rfl⟩

/-- The request presents this session, alive at the reading, not
revoked, and with the required group. -/
structure Admissible (issued : Issued m codec) (r : Presented)
    (env : Surroundings) (sess : Session) : Prop where
  presents : Presents issued r sess
  alive : env.readAt ≤ sess.expiry
  notRevoked : ∀ f, env.isRevoked = some f → f sess = .ok false
  inGroup : m.cfg.requiredGroup = [] ∨ m.cfg.requiredGroup ∈ sess.groups

theorem answer_notRevoked {env : Surroundings} {sess : Session} :
    notRevoked (env.answer (some sess)) = true
      ↔ ∀ f, env.isRevoked = some f → f sess = .ok false := by
  unfold Surroundings.answer
  cases hf : env.isRevoked with
  | none => simp [notRevoked]
  | some f =>
      constructor
      · rintro h f' hf'
        cases hf'
        cases hans : f sess with
        | error u => simp [hans, notRevoked] at h
        | ok revoked =>
            cases revoked with
            | true => simp [hans, notRevoked] at h
            | false => rfl
      · intro h
        simp [h f rfl, notRevoked]

/-- Without a cross-origin check and on a route that is not exempt,
`Gate` calls `next` exactly for the requests whose session cookie
decodes to a ciphertext sealed as this manager's session cookie, with a
session that is alive, not revoked and in the required group; and the
session it injects is that one, with its expiry moved forward at most.
What `Seal` returned is such a value for its ciphertext. -/
theorem gate_admits_sealed (issued : Issued m codec)
    (horigin : m.cfg.trustedOrigins = none) (r : Presented)
    (env : Surroundings) (hexempt : m.exempt.contains r.path = false) :
    (∀ injected, (m.gatePresented issued r env).1 = .next injected →
      ∃ sess e, Admissible issued r env sess ∧ sess.expiry ≤ e
        ∧ injected = some { sess with expiry := e })
      ∧ (∀ sess, Admissible issued r env sess →
        ∃ e, sess.expiry ≤ e ∧ (m.gatePresented issued r env).1
          = .next (some { sess with expiry := e }))
      ∧ ∀ e ∈ issued.made,
        rawURLDecode (rawURLEncode e.ciphertext) = some e.ciphertext := by
  have hcheck : ∀ cross : Bool,
      (m.cfg.trustedOrigins.isSome && cross) = false := by
    intro cross
    rw [horigin]
    rfl
  refine ⟨fun injected h => ?_, fun sess hadm => ?_,
    fun e _ => rawURLDecode_encode e.ciphertext⟩
  · obtain ⟨held, hread, hrevoked, hgroup⟩ :=
      gate_next (hcheck _) hexempt h
    have hadmits := gate_admits (hcheck _) hexempt hread hrevoked hgroup
    obtain ⟨hcookie, halive⟩ := readSession_some hread
    obtain ⟨e, hle, hforward⟩ := maybeExtendIdle_forward m env.canSeal
      held env.extendAt
    unfold Manager.gatePresented at h
    rw [hadmits] at h
    refine ⟨held, e, ⟨(read_eq_some_iff issued r held).mp hcookie, halive,
      ?_, ?_⟩, hle, ?_⟩
    · rw [show SealedCookie.read issued.vault codec m.cookieName r.cookies
        = some held from hcookie] at hrevoked
      exact answer_notRevoked.mp hrevoked
    · unfold Manager.inGroup at hgroup
      rw [Bool.or_eq_true, beq_iff_eq, List.contains_iff_mem] at hgroup
      exact hgroup
    · rw [← hforward]
      exact (Outcome.next.inj h).symm
  · have hcookie := (read_eq_some_iff issued r sess).mpr hadm.presents
    have hread : readSession (SealedCookie.read issued.vault codec
        m.cookieName r.cookies) env.readAt = some sess := by
      rw [hcookie]
      exact if_neg (Int.not_lt.mpr hadm.alive)
    have hrevoked : notRevoked (env.answer (SealedCookie.read issued.vault
        codec m.cookieName r.cookies)) = true := by
      rw [hcookie]
      exact answer_notRevoked.mpr hadm.notRevoked
    have hgroup : m.inGroup sess = true := by
      unfold Manager.inGroup
      rw [Bool.or_eq_true, beq_iff_eq, List.contains_iff_mem]
      exact hadm.inGroup
    obtain ⟨e, hle, hforward⟩ := maybeExtendIdle_forward m env.canSeal
      sess env.extendAt
    refine ⟨e, hle, ?_⟩
    unfold Manager.gatePresented
    dsimp only
    rw [gate_admits (hcheck _) hexempt hread hrevoked hgroup, ← hforward]

-- ==== an example

instance encodableUInt8 : Encodable UInt8 :=
  Encodable.ofLeftInjection UInt8.toNat (fun n => some (UInt8.ofNat n))
    fun b => congrArg some b.ofNat_toNat

instance encodableSession : Encodable Session :=
  Encodable.ofLeftInjection
    (fun s => (s.subject, s.email, s.name, s.groups, s.sid, s.expiry,
      s.absoluteExpiry, s.csrfSecret, s.extra))
    (fun t => some ⟨t.1, t.2.1, t.2.2.1, t.2.2.2.1, t.2.2.2.2.1,
      t.2.2.2.2.2.1, t.2.2.2.2.2.2.1, t.2.2.2.2.2.2.2.1,
      t.2.2.2.2.2.2.2.2⟩)
    fun _ => rfl

/-- A session of the group `ops` until 100. -/
def opsSession : Session where
  subject := ascii "alice"
  email := []
  name := []
  groups := [ascii "ops"]
  sid := []
  expiry := 100
  absoluteExpiry := 500
  csrfSecret := []
  extra := []

/-- That session as `encoding/json` writes it. -/
def opsJSON : GoString :=
  ascii "\x7b\"sub\":\"alice\",\"email\":\"\",\"name\":\"\","
    ++ ascii "\"groups\":[\"ops\"],\"exp\":\"1970-01-01T00:00:00.0000001Z\","
    ++ ascii "\"abs_exp\":\"1970-01-01T00:00:00.0000005Z\"\x7d"

/-- JSON for that session. A text for any other one has as many zeros as
its number. -/
def opsCodec : Codec Session where
  marshal sess :=
    if sess = opsSession then opsJSON
    else List.replicate (Encodable.encode sess) 0
  unmarshal s :=
    if s = opsJSON then some opsSession else Encodable.decode s.length
  round_trip sess := by
    split
    · rename_i hsess
      rw [if_pos rfl, hsess]
    · rw [if_neg, List.length_replicate]
      · exact Encodable.encodek sess
      · intro h
        have hbrace : (0x7b : UInt8) ∈ opsJSON := by decide +kernel
        rw [← h] at hbrace
        cases List.eq_of_mem_replicate hbrace

theorem zero_isDuration : minDuration ≤ 0 ∧ 0 ≤ maxDuration := by decide

/-- A manager without idle extension that requires that group. -/
def opsManager : Manager :=
  let m := Manager.ofLifetimes ⟨400, by decide⟩ ⟨0, zero_isDuration⟩ (by decide)
  { m with cfg := { m.cfg with requiredGroup := ascii "ops" } }

/-- That session, sealed, and nothing else. -/
def opsIssued : Issued opsManager opsCodec where
  made := [⟨.session opsSession, List.replicate 28 7, by decide⟩]
  opens_once := by
    intro a ha b hb _ _
    rw [List.mem_singleton.mp ha, List.mem_singleton.mp hb]

/-- Its holder asks for the front page at 50. -/
theorem gate_admits_sealed_ops :
    ∃ e, 100 ≤ e ∧ (opsManager.gatePresented opsIssued
      ⟨methodGet, [slash], [], [(ascii "app_session",
        rawURLEncode (List.replicate 28 7))], false⟩
      ⟨50, 50, some fun _ => .ok false, fun _ => some 100⟩).1
        = .next (some { opsSession with expiry := e }) := by
  refine (gate_admits_sealed opsIssued rfl _ _ (by decide)).2.1 opsSession
    ⟨⟨_, _, rfl, rawURLDecode_encode _, _, List.mem_singleton_self _, rfl,
      rfl⟩, by decide, fun f hf => ?_, .inr (by decide)⟩
  cases hf
  rfl

end Tokyo3Base.Session
