/-
What the gate and the two cookie writers do, once for all clients: one
case lemma for `maybeExtendIdle` and one for `Gate`, so that no later
proof unfolds them again.

`Manager.extends` names the situation in which `Gate` tries to renew,
and `Manager.extended` the session it then wants to seal. Whether it
does is up to the size of the sealed text.
-/
import Tokyo3Base.Session.Clients

namespace Tokyo3Base.Session

open Go

-- ==== the writers

theorem setCookie_eq {canSeal : Seal} {sess : Session} {w : CookieWrite}
    (h : setCookie canSeal sess = some w) : w = .set sess := by
  unfold setCookie at h
  split at h
  · cases h
  · split at h
    · cases h
    · exact (Option.some.inj h).symm

/-- A session that is read is the cookie's, and alive. -/
theorem readSession_some {cookie : Option Session} {now : Int}
    {sess : Session} (h : readSession cookie now = some sess) :
    cookie = some sess ∧ now ≤ sess.expiry := by
  unfold readSession at h
  split at h
  · cases h
  · split at h
    · cases h
    · cases h
      exact ⟨rfl, by omega⟩

theorem updateSession_set {canSeal : Seal} {cookie : Option Session}
    {now : Int} {mutate : Session → Option Session} {w : CookieWrite}
    (h : updateSession canSeal cookie now mutate = some w) :
    ∃ s, w = .set s := by
  unfold updateSession at h
  split at h
  · cases h
  · split at h
    · cases h
    · exact ⟨_, setCookie_eq h⟩

/-- An update writes the cookie's session with its expiry fields as they
were. -/
theorem updateSession_keeps {canSeal : Seal} {sess s : Session}
    {now : Int} {mutate : Session → Option Session}
    (hkeeps : keepsExpiry mutate sess = true)
    (h : updateSession canSeal (some sess) now mutate = some (.set s)) :
    s.expiry = sess.expiry ∧ s.absoluteExpiry = sess.absoluteExpiry := by
  unfold updateSession at h
  split at h
  · cases h
  · rename_i sess' hread
    obtain ⟨hsess, -⟩ := readSession_some hread
    cases hsess
    split at h
    · cases h
    · rename_i sess'' hmut
      cases setCookie_eq h
      simpa [keepsExpiry, hmut] using hkeeps

theorem newSession_expiry (m : Manager)
    (hidle : 0 < m.cfg.idleTimeout.val)
    (httl : m.cfg.idleTimeout.val < m.cfg.sessionTTL.val) (now : Int)
    (secret : GoString) :
    (m.newSession now secret).expiry = now + m.cfg.idleTimeout.val :=
  if_pos ⟨hidle, httl⟩

/-- The extended session, before it is sealed. -/
def Manager.extended (m : Manager) (sess : Session) (now : Int) :
    Session :=
  { sess with
    expiry :=
      if !isZero sess.absoluteExpiry
          && decide (now + m.cfg.idleTimeout.val > sess.absoluteExpiry)
      then sess.absoluteExpiry else now + m.cfg.idleTimeout.val }

/-- `Gate` tries to extend: the session is in the second half of its
idle window and there is something left to extend. -/
def Manager.extends (m : Manager) (sess : Session) (now : Int) : Prop :=
  0 < m.cfg.idleTimeout.val
    ∧ sub sess.expiry now ≤ m.cfg.idleTimeout.val.tdiv 2
    ∧ sess.expiry < (m.extended sess now).expiry

/-- What `maybeExtendIdle` does, in two cases. -/
theorem maybeExtendIdle_cases (m : Manager) (canSeal : Seal)
    (sess : Session) (now : Int) :
    m.maybeExtendIdle canSeal sess now = (sess, none)
      ∧ (m.extends sess now →
          setCookie canSeal (m.extended sess now) = none)
    ∨ m.maybeExtendIdle canSeal sess now
        = (m.extended sess now, some (.set (m.extended sess now)))
      ∧ m.extends sess now
      ∧ setCookie canSeal (m.extended sess now)
          = some (.set (m.extended sess now)) := by
  by_cases hidle : m.cfg.idleTimeout.val ≤ 0
  · refine .inl ⟨by simp [Manager.maybeExtendIdle, hidle], ?_⟩
    intro hext
    exact absurd hext.1 (by omega)
  by_cases hhalf : sub sess.expiry now > m.cfg.idleTimeout.val.tdiv 2
  · refine .inl ⟨by simp [Manager.maybeExtendIdle, hidle, hhalf], ?_⟩
    intro hext
    exact absurd hext.2.1 (by omega)
  by_cases hmore : (m.extended sess now).expiry > sess.expiry
  · have hbody : m.maybeExtendIdle canSeal sess now
        = (setCookie canSeal (m.extended sess now)).elim (sess, none)
            fun write => (m.extended sess now, some write) := by
      unfold Manager.maybeExtendIdle
      rw [if_neg hidle, if_neg hhalf]
      refine (if_neg (not_not_intro hmore)).trans ?_
      split
      · rename_i hset
        rw [show setCookie canSeal (m.extended sess now) = none from hset]
        rfl
      · rename_i write hset
        rw [show setCookie canSeal (m.extended sess now) = some write
          from hset]
        rfl
    rw [hbody]
    cases hset : setCookie canSeal (m.extended sess now) with
    | none => exact .inl ⟨rfl, fun _ => rfl⟩
    | some write =>
        rw [setCookie_eq hset]
        exact .inr ⟨rfl, ⟨by omega, by omega, hmore⟩, rfl⟩
  · refine .inl ⟨?_, fun hext => absurd hext.2.2 hmore⟩
    unfold Manager.maybeExtendIdle
    rw [if_neg hidle, if_neg hhalf]
    exact if_pos hmore

theorem extended_expiry_le (m : Manager) (sess : Session) (now : Int)
    (hcap : sess.absoluteExpiry ≠ 0) :
    (m.extended sess now).expiry ≤ sess.absoluteExpiry := by
  have hzero : isZero sess.absoluteExpiry = false := by
    simpa [isZero] using hcap
  simp only [Manager.extended, hzero, Bool.not_false, Bool.true_and,
    decide_eq_true_eq]
  split <;> omega

theorem extended_expiry_le_idle (m : Manager) (sess : Session)
    (now : Int) :
    (m.extended sess now).expiry ≤ now + m.cfg.idleTimeout.val := by
  simp only [Manager.extended]
  split
  · rename_i h
    simp only [Bool.and_eq_true, decide_eq_true_eq] at h
    omega
  · omega

-- ==== the gate

/-- A dead or missing session changes no cookie. -/
theorem gate_dead {m : Manager} {r : Request} {env : GateEnv}
    (horigin : (m.cfg.trustedOrigins.isSome && r.crossOrigin) = false)
    (hexempt : m.exempt.contains r.path = false)
    (hread : readSession r.cookie env.readAt = none) :
    m.gate r env = (m.login r, []) := by
  simp only [Manager.gate, horigin, hexempt, hread, Bool.false_eq_true,
    if_false]

theorem gate_live {m : Manager} {r : Request} {env : GateEnv}
    {held : Session}
    (horigin : (m.cfg.trustedOrigins.isSome && r.crossOrigin) = false)
    (hexempt : m.exempt.contains r.path = false)
    (hread : readSession r.cookie env.readAt = some held) :
    m.gate r env = m.admit r env held := by
  simp only [Manager.gate, horigin, hexempt, hread, Bool.false_eq_true,
    if_false]

/-- The two ways through `Gate`: it lets the request pass on a live
session, extended or not, or it lets no session pass and sets no
cookie. -/
theorem gate_cases (m : Manager) (r : Request) (env : GateEnv) :
    (∃ held, readSession r.cookie env.readAt = some held
      ∧ m.gate r env
        = (.next (some (m.maybeExtendIdle env.canSeal held env.extendAt).1),
          (m.maybeExtendIdle env.canSeal held env.extendAt).2.toList))
    ∨ (∀ s, (m.gate r env).1 ≠ .next (some s))
      ∧ ∀ s, CookieWrite.set s ∉ (m.gate r env).2 := by
  by_cases horigin : (m.cfg.trustedOrigins.isSome && r.crossOrigin) = true
  · right
    simp [Manager.gate, horigin]
  by_cases hexempt : m.exempt.contains r.path = true
  · right
    simp only [Manager.gate, horigin, hexempt, if_true]
    simp
  rw [Bool.not_eq_true] at horigin hexempt
  cases hread : readSession r.cookie env.readAt with
  | none =>
      right
      rw [gate_dead horigin hexempt hread]
      refine ⟨fun s => ?_, fun s => List.not_mem_nil⟩
      simp only [Manager.login]
      split <;> simp
  | some held =>
      rw [gate_live horigin hexempt hread]
      unfold Manager.admit
      split
      · right
        simp
      · right
        split <;> simp
      · split
        · right
          simp
        · left
          exact ⟨held, rfl, rfl⟩

/-- A live session in good standing is let through on a route that is
not exempt. -/
theorem gate_admits {m : Manager} {r : Request} {env : GateEnv}
    {held : Session}
    (horigin : (m.cfg.trustedOrigins.isSome && r.crossOrigin) = false)
    (hexempt : m.exempt.contains r.path = false)
    (hread : readSession r.cookie env.readAt = some held)
    (hrevoked : notRevoked env.isRevoked = true)
    (hgroup : m.inGroup held = true) :
    m.gate r env
      = (.next (some (m.maybeExtendIdle env.canSeal held env.extendAt).1),
        (m.maybeExtendIdle env.canSeal held env.extendAt).2.toList) := by
  have hforbidden : ¬ (m.cfg.requiredGroup ≠ []
      ∧ (!held.groups.contains m.cfg.requiredGroup) = true) := by
    rintro ⟨hset, hout⟩
    rw [Manager.inGroup, Bool.or_eq_true, beq_iff_eq] at hgroup
    rcases hgroup with hnone | hin
    · exact hset hnone
    · rw [hin] at hout
      cases hout
  have hadmit : m.admit r env held
      = (.next (some (m.maybeExtendIdle env.canSeal held env.extendAt).1),
        (m.maybeExtendIdle env.canSeal held env.extendAt).2.toList) := by
    unfold Manager.admit
    split
    · rename_i h
      rw [h] at hrevoked
      cases hrevoked
    · rename_i h
      rw [h] at hrevoked
      cases hrevoked
    · rw [if_neg hforbidden]
  rw [gate_live horigin hexempt hread, hadmit]

theorem gate_exempt {m : Manager} {r : Request}
    (hexempt : m.exempt.contains r.path = true) (env : GateEnv) :
    (m.gate r env).2 = [] := by
  simp only [Manager.gate, hexempt, if_true]
  split <;> rfl

end Tokyo3Base.Session
