/-
The lifetime of a session, over every cookie ever set: no session
outlives its login by more than `SessionTTL`, and none is let through
without recent activity.

# The invariant of a cookie

A cookie is held by the client, so any copy can come back at any time
and be re-sealed by two writers. `HeldOk` is therefore a property of
each cookie on its own and of the log: the absolute expiry is the
login's, the expiry does not pass it, and the expiry is at most
`IdleTimeout` after the login or after a request that was let through.
Both writers keep it, whichever copy they start from.

# The zero time

`maybeExtendIdle` takes a zero `AbsoluteExpiry` for "no cap". A login
whose cap falls on exactly that instant is uncapped
(`session_lifetime_zero_cap`); what the cap promises is stated for the
logins whose cap does not.
-/
import Tokyo3Base.Lib.Run
import Tokyo3Base.Session.Proofs.Gate

namespace Tokyo3Base.Session

open Go

-- ==== the invariant

/-- What holds of every session of the run, issued or not: its cap is
its login's, it does not pass it, and it ends at most one idle window
after the login or after a request that was let through. -/
structure HeldOk (m : Manager) (passed : List Passed) (c : Held) : Prop
    where
  absolute : c.session.absoluteExpiry = c.login + m.cfg.sessionTTL.val
  capped : c.session.absoluteExpiry ≠ 0 →
    c.session.expiry ≤ c.session.absoluteExpiry
  recent : c.session.expiry ≤ c.login + m.cfg.idleTimeout.val
    ∨ ∃ e ∈ passed, e.login = c.login
      ∧ c.session.expiry ≤ e.extendAt + m.cfg.idleTimeout.val

/-- What holds of a request that was let through, given the earlier
ones. -/
structure PassedOk (m : Manager) (earlier : List Passed) (a : Passed) :
    Prop where
  capped : a.login + m.cfg.sessionTTL.val ≠ 0 →
    a.readAt ≤ a.login + m.cfg.sessionTTL.val
  recent : a.readAt - a.login ≤ m.cfg.idleTimeout.val
    ∨ ∃ e ∈ earlier, e.login = a.login
      ∧ a.readAt - e.extendAt ≤ m.cfg.idleTimeout.val

/-- Every entry of the log is good with respect to those before it. -/
def LogOk (m : Manager) : List Passed → Prop
  | [] => True
  | a :: earlier => PassedOk m earlier a ∧ LogOk m earlier

structure JarInv (m : Manager) (jar : Jar) : Prop where
  fresh : ∀ c ∈ jar.fresh, HeldOk m jar.passed c
  cookies : ∀ c ∈ jar.cookies, HeldOk m jar.passed c
  log : LogOk m jar.passed

/-- A longer log loses nothing. -/
theorem HeldOk.mono {m : Manager} {passed passed' : List Passed}
    {c : Held} (hsub : ∀ e ∈ passed, e ∈ passed')
    (h : HeldOk m passed c) : HeldOk m passed' c := by
  refine ⟨h.absolute, h.capped, ?_⟩
  rcases h.recent with hlogin | ⟨e, he, hl, hle⟩
  · exact .inl hlogin
  · exact .inr ⟨e, hsub e he, hl, hle⟩

/-- Only the two expiry fields matter. -/
theorem HeldOk.congr {m : Manager} {passed : List Passed} {c : Held}
    {sess : Session} (hexp : sess.expiry = c.session.expiry)
    (habs : sess.absoluteExpiry = c.session.absoluteExpiry)
    (h : HeldOk m passed c) : HeldOk m passed ⟨sess, c.login⟩ := by
  refine ⟨habs.trans h.absolute, ?_, ?_⟩
  · dsimp only
    rw [hexp, habs]
    exact h.capped
  · dsimp only
    rw [hexp]
    exact h.recent

/-- A new session starts within both windows. -/
theorem heldOk_newSession (m : Manager)
    (hidle : 0 < m.cfg.idleTimeout.val)
    (httl : m.cfg.idleTimeout.val < m.cfg.sessionTTL.val)
    (passed : List Passed) (now : Int) (secret : GoString) :
    HeldOk m passed ⟨m.newSession now secret, now⟩ := by
  have hexp := newSession_expiry m hidle httl now secret
  have habs : (m.newSession now secret).absoluteExpiry
      = now + m.cfg.sessionTTL.val := rfl
  refine ⟨habs, ?_, .inl ?_⟩
  · dsimp only
    rw [hexp, habs]
    omega
  · exact Int.le_of_eq hexp

/-- The extension of a good cookie is good, once its request is in the
log. -/
theorem HeldOk.extended {m : Manager} {passed : List Passed} {c : Held}
    (h : HeldOk m passed c) (readAt now : Int) :
    HeldOk m (⟨c.login, readAt, now⟩ :: passed)
      ⟨m.extended c.session now, c.login⟩ :=
  ⟨h.absolute, extended_expiry_le m c.session now,
    .inr ⟨_, List.mem_cons_self, rfl,
      extended_expiry_le_idle m c.session now⟩⟩

/-- A live cookie's request is good. -/
theorem HeldOk.passed {m : Manager} {earlier : List Passed} {c : Held}
    (h : HeldOk m earlier c) {readAt : Int}
    (halive : readAt ≤ c.session.expiry) (extendAt : Int) :
    PassedOk m earlier ⟨c.login, readAt, extendAt⟩ := by
  refine ⟨fun hcap => ?_, ?_⟩
  · have habs := h.absolute
    have hcapped := h.capped (habs ▸ hcap)
    dsimp only
    omega
  · rcases h.recent with hlogin | ⟨e, he, hl, hle⟩
    · exact .inl (by dsimp only; omega)
    · exact .inr ⟨e, he, hl, by dsimp only; omega⟩

-- ==== the steps

theorem mem_keep {jar : Jar} {login : Int} {writes : List CookieWrite}
    {c : Held} (h : c ∈ (jar.keep login writes).cookies) :
    (∃ s, CookieWrite.set s ∈ writes ∧ c = ⟨s, login⟩)
      ∨ c ∈ jar.cookies := by
  rcases List.mem_append.mp h with h | h
  · obtain ⟨write, hw, heq⟩ := List.mem_filterMap.mp h
    cases write with
    | set s =>
        cases heq
        exact .inl ⟨s, hw, rfl⟩
    | clear => cases heq
  · exact .inr h

theorem JarInv.keep {m : Manager} {jar : Jar} (hI : JarInv m jar)
    {login : Int} {writes : List CookieWrite}
    (hw : ∀ s, CookieWrite.set s ∈ writes →
      HeldOk m jar.passed ⟨s, login⟩) :
    JarInv m (jar.keep login writes) := by
  refine ⟨hI.fresh, fun c hc => ?_, hI.log⟩
  rcases mem_keep hc with ⟨s, hs, rfl⟩ | hc
  · exact hw s hs
  · exact hI.cookies c hc

/-- One more request is let through. -/
theorem JarInv.pass {m : Manager} {jar : Jar} (hI : JarInv m jar)
    {a : Passed} (ha : PassedOk m jar.passed a) :
    JarInv m { jar with passed := a :: jar.passed } := by
  have hsub : ∀ e ∈ jar.passed, e ∈ a :: jar.passed :=
    fun e he => List.mem_cons_of_mem _ he
  exact ⟨fun c hc => (hI.fresh c hc).mono hsub,
    fun c hc => (hI.cookies c hc).mono hsub, ha, hI.log⟩

theorem JarInv.gate {m : Manager} {jar : Jar} (hI : JarInv m jar)
    {held : Held} (hheld : held ∈ jar.cookies)
    {r : Request} {env : GateEnv} {jar' : Jar}
    (h : (match m.gate { r with cookie := some held.session } env with
      | (.next (some _), writes) =>
          some { jar.keep held.login writes with
            passed := ⟨held.login, env.readAt, env.extendAt⟩
              :: jar.passed }
      | (_, writes) => some (jar.keep held.login writes)) = some jar') :
    JarInv m jar' := by
  have hok := hI.cookies held hheld
  rcases gate_cases m { r with cookie := some held.session } env with
    ⟨sess, hread, hgate⟩ | ⟨hnone, hset⟩
  · -- let through: the log grows, and perhaps the extension is kept
    obtain ⟨hsess, halive⟩ := readSession_some hread
    cases hsess
    rw [hgate] at h
    cases h
    have hpass := hI.pass (hok.passed halive env.extendAt)
    refine hpass.keep fun s hs => ?_
    rcases maybeExtendIdle_cases m env.canSeal held.session env.extendAt
      with ⟨heq, -⟩ | ⟨heq, -⟩
    · rw [heq] at hs
      cases hs
    · rw [heq] at hs
      cases List.mem_singleton.mp hs
      exact hok.extended _ _
  · -- not let through on a session: no cookie is set
    generalize m.gate { r with cookie := some held.session } env = answer
      at h hnone hset
    obtain ⟨outcome, writes⟩ := answer
    have hkeep : JarInv m (jar.keep held.login writes) :=
      hI.keep fun s hs => absurd hs (hset s)
    split at h
    · rename_i s writes' heq
      cases heq
      exact absurd rfl (hnone s)
    · rename_i heq
      cases heq
      cases h
      exact hkeep

theorem JarInv.step {m : Manager} (hidle : 0 < m.cfg.idleTimeout.val)
    (httl : m.cfg.idleTimeout.val < m.cfg.sessionTTL.val) (a : JarAction)
    (jar jar' : Jar) (hI : JarInv m jar)
    (h : jarStep m a jar = some jar') : JarInv m jar' := by
  cases a with
  | newSession now secret =>
      cases h
      refine ⟨fun c hc => ?_, hI.cookies, hI.log⟩
      rcases List.mem_cons.mp hc with rfl | hc
      · exact heldOk_newSession m hidle httl jar.passed now secret
      · exact hI.fresh c hc
  | issue i id canSeal =>
      simp only [jarStep] at h
      split at h
      case h_1 => cases h
      case h_2 held hheld =>
      cases h
      have hmem := List.mem_of_getElem? hheld
      refine hI.keep fun s hs => ?_
      have hset := setCookie_eq (Option.mem_toList.mp hs)
      cases hset
      exact (hI.fresh held hmem).congr rfl rfl
  | gate i r env =>
      simp only [jarStep] at h
      split at h
      case h_1 => cases h
      case h_2 held hheld =>
      exact hI.gate (List.mem_of_getElem? hheld) h
  | update i now mutate canSeal =>
      simp only [jarStep] at h
      split at h
      case h_1 => cases h
      case h_2 held hheld =>
      split at h
      case isFalse => cases h
      case isTrue hkeeps =>
      cases h
      have hmem := List.mem_of_getElem? hheld
      refine hI.keep fun s hs => ?_
      obtain ⟨hexp, habs⟩ :=
        updateSession_keeps hkeeps (Option.mem_toList.mp hs)
      exact (hI.cookies held hmem).congr hexp habs

-- ==== the runs

/-- An entry of a good log is good with respect to those before it. -/
theorem LogOk.passedOk {m : Manager} {a : Passed}
    {later earlier : List Passed} (h : LogOk m (later ++ a :: earlier)) :
    PassedOk m earlier a := by
  induction later with
  | nil => exact h.1
  | cons b later ih => exact ih h.2

/-- In every run, whatever cookies are presented in whatever order:
every cookie ever set carries its login's cap and, unless the cap is the
zero time, does not pass it; and each request let through on a session
came, unless the cap is the zero time, by the cap, and at most one idle
window after the login or after an earlier request of the same login
that was let through. -/
theorem session_lifetime (m : Manager)
    (hidle : 0 < m.cfg.idleTimeout.val)
    (httl : m.cfg.idleTimeout.val < m.cfg.sessionTTL.val)
    (as : List JarAction) (jar : Jar)
    (hrun : Lib.run (jarStep m) as Jar.empty = some jar) :
    (∀ c ∈ jar.cookies,
      c.session.absoluteExpiry = c.login + m.cfg.sessionTTL.val
      ∧ (c.login + m.cfg.sessionTTL.val ≠ 0 →
          c.session.expiry ≤ c.session.absoluteExpiry))
    ∧ ∀ later a earlier, jar.passed = later ++ a :: earlier →
        (a.login + m.cfg.sessionTTL.val ≠ 0 →
          a.readAt ≤ a.login + m.cfg.sessionTTL.val)
        ∧ (a.readAt - a.login ≤ m.cfg.idleTimeout.val
          ∨ ∃ e ∈ earlier, e.login = a.login
            ∧ a.readAt - e.extendAt ≤ m.cfg.idleTimeout.val) := by
  have hinit : JarInv m Jar.empty := by
    refine ⟨?_, ?_, trivial⟩
    · exact fun c hc => nomatch hc
    · exact fun c hc => nomatch hc
  have hI := Lib.run_invariant (JarInv.step hidle httl) as hinit hrun
  refine ⟨fun c hc => ?_, fun later a earlier hsplit => ?_⟩
  · have hok := hI.cookies c hc
    exact ⟨hok.absolute, fun hcap => hok.capped (hok.absolute ▸ hcap)⟩
  · have hok := (hsplit ▸ hI.log : LogOk m (later ++ a :: earlier)).passedOk
    exact ⟨hok.capped, hok.recent⟩

/-- An old cookie presented again: the second request at 55 still rides
on the login at 0, the third on the extension at 55. -/
theorem session_lifetime_replayed :
    let m := Manager.ofLifetimes ⟨480, by decide⟩ ⟨60, by decide⟩
      (by decide)
    let r : Request := ⟨methodGet, ascii "/x", [], none, false⟩
    let clockAt (t : Int) : GateEnv := ⟨t, t, none, fun _ => some 500⟩
    let id : Identity := ⟨[], [], [], [], [], []⟩
    let as : List JarAction :=
      [.newSession 0 [], .issue 0 id fun _ => some 500, .gate 0 r (clockAt 40),
       .gate 1 r (clockAt 55), .gate 0 r (clockAt 110)]
    ∃ jar, Lib.run (jarStep m) as Jar.empty = some jar
      ∧ jar.passed = [⟨0, 110, 110⟩, ⟨0, 55, 55⟩, ⟨0, 40, 40⟩]
      ∧ 110 ≤ (0 : Int) + 480
      ∧ ((110 : Int) - 0 ≤ 60
        ∨ ∃ e ∈ [Passed.mk 0 55 55, ⟨0, 40, 40⟩], e.login = 0
          ∧ 110 - e.extendAt ≤ 60) := by
  intro m r clockAt id as
  obtain ⟨jar, hjar⟩ :
      ∃ jar, Lib.run (jarStep m) as Jar.empty = some jar :=
    Option.isSome_iff_exists.mp rfl
  have hpassed : jar.passed = [⟨0, 110, 110⟩, ⟨0, 55, 55⟩, ⟨0, 40, 40⟩] := by
    have hmap : (Lib.run (jarStep m) as Jar.empty).map Jar.passed
        = some [⟨0, 110, 110⟩, ⟨0, 55, 55⟩, ⟨0, 40, 40⟩] := rfl
    rw [hjar] at hmap
    exact Option.some.inj hmap
  obtain ⟨hcap, hrecent⟩ :=
    (session_lifetime m (by decide) (by decide) as jar hjar).2 []
      ⟨0, 110, 110⟩ _ hpassed
  exact ⟨jar, hjar, hpassed, hcap (by decide), hrecent⟩

/-- A login 100 before the zero time, with 100 to live: its cap is the
zero time, which `maybeExtendIdle` takes for no cap. The extension runs
past it, and a request at 50 is let through. -/
theorem session_lifetime_zero_cap :
    let m := Manager.ofLifetimes ⟨100, by decide⟩ ⟨90, by decide⟩
      (by decide)
    let r : Request := ⟨methodGet, ascii "/x", [], none, false⟩
    let clockAt (t : Int) : GateEnv := ⟨t, t, none, fun _ => some 500⟩
    let id : Identity := ⟨[], [], [], [], [], []⟩
    let as : List JarAction :=
      [.newSession (-100) [], .issue 0 id fun _ => some 500,
       .gate 0 r (clockAt (-20)), .gate 0 r (clockAt 50)]
    ∃ jar, Lib.run (jarStep m) as Jar.empty = some jar
      ∧ (∃ c ∈ jar.cookies, c.login = -100
        ∧ ¬ c.session.expiry ≤ c.session.absoluteExpiry)
      ∧ ∃ a ∈ jar.passed, ¬ a.readAt ≤ a.login + m.cfg.sessionTTL.val := by
  refine ⟨_, rfl, ?_, ?_⟩
  · decide
  · decide

end Tokyo3Base.Session
