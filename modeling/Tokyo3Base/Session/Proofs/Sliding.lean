/-
Sliding renewal for a browser that keeps its cookie: an active user is
not logged out before the absolute cap, as long as no response takes
the renewal back.

# Two writers, one cookie

`Gate` renews by setting the cookie before the handler runs. A handler
that calls `UpdateSession` sets it again in the same response, from the
request's own copy, which still has the old expiry; the last write
wins, and the renewal is lost. A user whose every request updates the
session is logged out at the end of the first idle window
(`active_refused_updating`).

# When it holds

`Browser.keepsRenewal` is the condition on a single visit: if `Gate`
tries to renew in it, the renewed session can be sealed and no update
of that response writes a cookie. Along runs of such visits the cookie
always reaches to the cap or to the time by which the next request is
due (`Slides`), and only a request after the cap is refused.
-/
import Tokyo3Base.Lib.Run
import Tokyo3Base.Session.Proofs.Gate

namespace Tokyo3Base.Session

open Go

-- ==== the condition

/-- If `Gate` tries to renew in this visit, the renewal is sealed and no
update of the same response takes it back. -/
def Browser.keepsRenewal (m : Manager) (b : Browser) (v : Visit) : Prop :=
  m.exempt.contains v.r.path = false →
    ∀ sess, readSession b.cookie v.env.readAt = some sess →
      m.extends sess v.env.extendAt →
        (setCookie v.env.canSeal
          (m.extended sess v.env.extendAt)).isSome = true
        ∧ updateWrites b.cookie v.updates = []

-- ==== the invariant

/-- The session reaches to the cap, or to the time the next request is
due. -/
structure Slides (absolute due : Int) (sess : Session) : Prop where
  cap : sess.absoluteExpiry = absolute
  reaches : absolute ≤ sess.expiry ∨ due ≤ sess.expiry

structure BrowserInv (b : Browser) : Prop where
  cookie : ∃ sess, b.cookie = some sess ∧ Slides b.absolute b.due sess
  refused : ∀ t ∈ b.refused, b.absolute < t

theorem tdiv_two_le {d : Int} (h : 0 < d) : d.tdiv 2 ≤ d := by
  rw [Int.tdiv_eq_ediv_of_nonneg (by omega)]
  omega

section Renewal

variable {m : Manager} {sess : Session} {readAt extendAt : Int}

/-- Where `Gate` has nothing to renew, the session reaches far enough as
it is. -/
theorem slides_of_not_extends (hidle : 0 < m.cfg.idleTimeout.val)
    (hle : readAt ≤ extendAt) (h : ¬ m.extends sess extendAt) :
    Slides sess.absoluteExpiry (readAt + m.cfg.idleTimeout.val.tdiv 2)
      sess := by
  refine ⟨rfl, ?_⟩
  have hhalf := tdiv_two_le hidle
  have hpos : (0 : Int) ≤ m.cfg.idleTimeout.val.tdiv 2 :=
    Int.tdiv_nonneg (by omega) (by decide)
  by_cases hearly :
      sub sess.expiry extendAt > m.cfg.idleTimeout.val.tdiv 2
  · -- still in the first half of the window
    have hmin : minDuration ≤ 0 := by decide
    have hgap := lt_of_lt_sub (by omega) hearly
    right
    omega
  · -- the extension would not be later
    have hlate : ¬ sess.expiry < (m.extended sess extendAt).expiry :=
      fun hmore => h ⟨hidle, by omega, hmore⟩
    simp only [Manager.extended] at hlate
    split at hlate
    · left
      omega
    · right
      omega

theorem slides_extended (hidle : 0 < m.cfg.idleTimeout.val)
    (hle : readAt ≤ extendAt) :
    Slides sess.absoluteExpiry (readAt + m.cfg.idleTimeout.val.tdiv 2)
      (m.extended sess extendAt) := by
  refine ⟨rfl, ?_⟩
  have hhalf := tdiv_two_le hidle
  simp only [Manager.extended]
  split
  · left
    omega
  · right
    omega

end Renewal

-- ==== the writes

/-- What holds of the cookie and of everything written holds of the
cookie afterwards. -/
theorem applyWrites_keeps {P : Session → Prop} {cookie : Option Session}
    {writes : List CookieWrite} (hc : ∃ s, cookie = some s ∧ P s)
    (hw : ∀ w ∈ writes, ∃ s, w = .set s ∧ P s) :
    ∃ s, applyWrites cookie writes = some s ∧ P s := by
  induction writes generalizing cookie with
  | nil => exact hc
  | cons w ws ih =>
      obtain ⟨s, rfl, hs⟩ := hw w List.mem_cons_self
      exact ih ⟨s, rfl, hs⟩ fun w' hw' => hw w' (List.mem_cons_of_mem _ hw')

/-- The updates of a handler write the request's own session, its expiry
as it was. -/
theorem updateWrites_keeps {absolute due : Int} {sess : Session}
    {updates : List Update} (hs : Slides absolute due sess)
    (hkeeps : ∀ u ∈ updates, keepsExpiry u.mutate sess = true) :
    ∀ w ∈ updateWrites (some sess) updates,
      ∃ s, w = .set s ∧ Slides absolute due s := by
  intro w hw
  obtain ⟨u, hu, hwrite⟩ := List.mem_filterMap.mp hw
  obtain ⟨s, rfl⟩ := updateSession_set hwrite
  obtain ⟨hexp, habs⟩ := updateSession_keeps (hkeeps u hu) hwrite
  exact ⟨s, rfl, habs.trans hs.cap, hexp ▸ hs.reaches⟩

-- ==== the visit

/-- What an active visit promises. -/
structure Active (m : Manager) (b : Browser) (v : Visit) (sess : Session) :
    Prop where
  clock : v.env.readAt ≤ v.env.extendAt
  keeps : ∀ u ∈ v.updates, keepsExpiry u.mutate sess = true
  due : m.exempt.contains v.r.path = false → v.env.readAt ≤ b.due
  origin : m.exempt.contains v.r.path = false →
    (m.cfg.trustedOrigins.isSome && v.r.crossOrigin) = false
  revoked : m.exempt.contains v.r.path = false →
    notRevoked v.env.isRevoked = true
  group : m.exempt.contains v.r.path = false → m.inGroup sess = true

theorem active_of {m : Manager} {b : Browser} {v : Visit} {sess : Session}
    (hsess : b.cookie = some sess) (h : b.active m v = true) :
    Active m b v sess := by
  rw [Browser.active, Manager.goodStanding, hsess] at h
  simp only [Option.map_some, Option.getD_some, Bool.and_eq_true,
    Bool.or_eq_true, decide_eq_true_eq, List.all_eq_true,
    Bool.not_eq_true'] at h
  obtain ⟨⟨hclock, hkeeps⟩, hrest⟩ := h
  have hgated : m.exempt.contains v.r.path = false → v.env.readAt ≤ b.due
      ∧ ((m.cfg.trustedOrigins.isSome && v.r.crossOrigin) = false
        ∧ notRevoked v.env.isRevoked = true) ∧ m.inGroup sess = true := by
    intro hexempt
    rcases hrest with hin | hrest
    · rw [hexempt] at hin
      cases hin
    · exact hrest
  exact ⟨hclock, hkeeps, fun h => (hgated h).1, fun h => (hgated h).2.1.1,
    fun h => (hgated h).2.1.2, fun h => (hgated h).2.2⟩

theorem respond_exempt {m : Manager} {r : Request} {env : GateEnv}
    {updates : List Update} (hexempt : m.exempt.contains r.path = true) :
    ∀ w ∈ (m.respond r env updates).2, w ∈ updateWrites r.cookie updates := by
  have hgate := gate_exempt hexempt env
  intro w hw
  unfold Manager.respond at hw
  split at hw
  · rename_i sess writes heq
    rw [heq] at hgate
    dsimp only at hgate
    subst hgate
    exact hw
  · rw [hgate] at hw
    cases hw

/-- A request that is let through: the renewal, if there is one, and
then the updates. -/
theorem respond_admits {m : Manager} {r : Request} {env : GateEnv}
    {updates : List Update} {s : Session} {writes : List CookieWrite}
    (h : m.gate r env = (.next (some s), writes)) :
    m.respond r env updates
      = (.next (some s), writes ++ updateWrites r.cookie updates) := by
  rw [Manager.respond, h]

/-- A request without a live session: the answer is not the handler's,
and nothing is written. -/
theorem respond_dead {m : Manager} {r : Request} {env : GateEnv}
    (h : m.gate r env = (m.login r, [])) (updates : List Update) :
    m.respond r env updates = (m.login r, [])
      ∧ ∀ s, m.login r ≠ .next s := by
  have hlogin : ∀ s, m.login r ≠ .next s := by
    intro s
    unfold Manager.login
    split <;> simp
  refine ⟨?_, hlogin⟩
  unfold Manager.respond
  split
  · rename_i heq
    exact absurd (congrArg Prod.fst (h.symm.trans heq)) (hlogin _)
  · exact h

/-- The cookie after a visit on an exempt route. -/
theorem BrowserInv.exempt {m : Manager} {b : Browser} {v : Visit}
    {sess : Session} (hI : BrowserInv b) (hsess : b.cookie = some sess)
    (hslides : Slides b.absolute b.due sess) (ha : Active m b v sess)
    (hexempt : m.exempt.contains v.r.path = true) :
    BrowserInv { b with
      cookie := applyWrites b.cookie
        (m.respond { v.r with cookie := b.cookie } v.env v.updates).2 } := by
  refine ⟨applyWrites_keeps ⟨sess, hsess, hslides⟩ fun w hw => ?_,
    hI.refused⟩
  have hmem : w ∈ updateWrites b.cookie v.updates :=
    respond_exempt (r := { v.r with cookie := b.cookie }) hexempt w hw
  rw [hsess] at hmem
  exact updateWrites_keeps hslides ha.keeps w hmem

theorem slides_admitted {m : Manager} {b : Browser} {v : Visit}
    {sess : Session} (hidle : 0 < m.cfg.idleTimeout.val)
    (hsess : b.cookie = some sess) (ha : Active m b v sess)
    (hgated : m.exempt.contains v.r.path = false)
    (hread : readSession b.cookie v.env.readAt = some sess)
    (hP : b.keepsRenewal m v) :
    ∃ s, applyWrites b.cookie
        ((m.maybeExtendIdle v.env.canSeal sess v.env.extendAt).2.toList
          ++ updateWrites b.cookie v.updates) = some s
      ∧ Slides sess.absoluteExpiry
          (v.env.readAt + m.cfg.idleTimeout.val.tdiv 2) s := by
  have hP' := hP hgated sess hread
  rcases maybeExtendIdle_cases m v.env.canSeal sess v.env.extendAt with
    ⟨heq, hno⟩ | ⟨heq, hext, -⟩
  · -- nothing was written, so there was nothing to renew
    have hnot : ¬ m.extends sess v.env.extendAt := by
      intro hext
      have hsome := (hP' hext).1
      rw [hno hext] at hsome
      cases hsome
    have hslides := slides_of_not_extends hidle ha.clock hnot
    rw [heq, Option.toList_none, List.nil_append]
    refine applyWrites_keeps ⟨sess, hsess, hslides⟩ ?_
    rw [hsess]
    exact updateWrites_keeps hslides ha.keeps
  · -- the renewal was written and nothing after it
    rw [heq, (hP' hext).2, List.append_nil]
    exact ⟨m.extended sess v.env.extendAt, rfl,
      slides_extended hidle ha.clock⟩

theorem BrowserInv.step {m : Manager} (hidle : 0 < m.cfg.idleTimeout.val)
    (v : Visit) (b b' : Browser) (hP : b.keepsRenewal m v)
    (hI : BrowserInv b) (h : browse m v b = some b') : BrowserInv b' := by
  obtain ⟨sess, hsess, hslides⟩ := hI.cookie
  unfold browse at h
  split at h
  case isFalse => cases h
  case isTrue hactive =>
  have ha := active_of hsess hactive
  dsimp only at h
  cases hexempt : m.exempt.contains v.r.path with
  | true =>
      rw [if_pos hexempt] at h
      cases h
      exact hI.exempt hsess hslides ha hexempt
  | false =>
      rw [if_neg (by rw [hexempt]; decide)] at h
      cases h
      cases hread : readSession b.cookie v.env.readAt with
      | some live =>
          have hlive := (readSession_some hread).1
          rw [hsess] at hlive
          cases hlive
          have hgate := gate_admits (r := { v.r with cookie := b.cookie })
            (ha.origin hexempt) hexempt hread (ha.revoked hexempt)
            (ha.group hexempt)
          rw [respond_admits hgate]
          obtain ⟨s, hs, hs'⟩ :=
            slides_admitted hidle hsess ha hexempt hread hP
          exact ⟨⟨s, hs, hslides.cap ▸ hs'⟩, hI.refused⟩
      | none =>
          obtain ⟨hrespond, hlogin⟩ := respond_dead
            (gate_dead (r := { v.r with cookie := b.cookie })
              (ha.origin hexempt) hexempt hread) v.updates
          have hdead : sess.expiry < v.env.readAt := by
            rw [hsess] at hread
            simpa [readSession] using hread
          -- it came in time, so the session reaches to the cap
          have hcap : b.absolute ≤ sess.expiry := by
            rcases hslides.reaches with hcap | hdue
            · exact hcap
            · have := ha.due hexempt
              omega
          rw [hrespond]
          refine ⟨⟨sess, hsess, hslides.cap, .inl hcap⟩, fun t ht => ?_⟩
          dsimp only at ht
          split at ht
          · rename_i heq
            exact absurd heq (hlogin _)
          · rcases List.mem_cons.mp ht with rfl | ht
            · show b.absolute < v.env.readAt
              omega
            · exact hI.refused t ht

-- ==== the runs

theorem browserInv_loggedIn (m : Manager)
    (hidle : 0 < m.cfg.idleTimeout.val)
    (httl : m.cfg.idleTimeout.val < m.cfg.sessionTTL.val) (now : Int)
    (secret : GoString) (id : Identity) :
    BrowserInv (Browser.loggedIn m now secret id) := by
  refine ⟨⟨_, rfl, rfl, .inr ?_⟩, fun t ht => nomatch ht⟩
  exact Int.le_of_eq (newSession_expiry m hidle httl now secret).symm

theorem browse_absolute {m : Manager} (v : Visit) (b b' : Browser)
    (h : browse m v b = some b') : b'.absolute = b.absolute := by
  unfold browse at h
  split at h
  · dsimp only at h
    split at h <;> cases h <;> rfl
  · cases h

/-- In every run of an active user in which no visit loses its renewal,
every request made by the absolute cap is let through. -/
theorem active_never_refused (m : Manager)
    (hidle : 0 < m.cfg.idleTimeout.val)
    (httl : m.cfg.idleTimeout.val < m.cfg.sessionTTL.val) (now : Int)
    (secret : GoString) (id : Identity) (vs : List Visit) (b : Browser)
    (hrun : Lib.run (browse m) vs (Browser.loggedIn m now secret id) = some b)
    (hkeeps : Lib.Along (fun v b => b.keepsRenewal m v) (browse m) vs
      (Browser.loggedIn m now secret id)) :
    ∀ t ∈ b.refused, now + m.cfg.sessionTTL.val < t := by
  have hI := Lib.run_invariant_along (BrowserInv.step hidle) vs hkeeps
    (browserInv_loggedIn m hidle httl now secret id) hrun
  have habs : b.absolute = now + m.cfg.sessionTTL.val :=
    Lib.run_invariant
      (I := fun b' : Browser => b'.absolute = now + m.cfg.sessionTTL.val)
      (fun v b b' hb h => (browse_absolute v b b' h).trans hb) vs rfl hrun
  rw [← habs]
  exact hI.refused

/-- An update early in the window, renewals at 30, 60 and 90 without
one, and a refusal only after the cap at 100. -/
theorem active_never_refused_renewing :
    let m := Manager.ofLifetimes ⟨100, by decide⟩ ⟨60, by decide⟩
      (by decide)
    let visit (t : Int) (updates : List Update) : Visit :=
      { r := ⟨methodGet, ascii "/x", [], none, false⟩
        env := ⟨t, t, none, fun _ => some 500⟩
        updates := updates }
    let update : Update :=
      ⟨10, fun s => some { s with extra := [1] }, fun _ => some 500⟩
    let id : Identity := ⟨[], [], [], [], [], []⟩
    let vs := [visit 10 [update], visit 30 [], visit 60 [], visit 90 [],
      visit 101 []]
    ∃ b, Lib.run (browse m) vs (Browser.loggedIn m 0 [] id) = some b
      ∧ b.refused = [101] ∧ ∀ t ∈ b.refused, (0 : Int) + 100 < t := by
  intro m visit update id vs
  obtain ⟨b, hb⟩ : ∃ b, Lib.run (browse m) vs
      (Browser.loggedIn m 0 [] id) = some b :=
    Option.isSome_iff_exists.mp rfl
  have hrefused : b.refused = [101] := by
    have hmap : (Lib.run (browse m) vs (Browser.loggedIn m 0 [] id)).map
        Browser.refused = some [101] := rfl
    rw [hb] at hmap
    exact Option.some.inj hmap
  have hplain : ∀ v ∈ vs.tail, ∀ b : Browser, b.keepsRenewal m v := by
    intro v hv b _ sess _ _
    simp only [vs, List.tail_cons, List.mem_cons, List.not_mem_nil,
      or_false] at hv
    rcases hv with rfl | rfl | rfl | rfl <;> exact ⟨rfl, rfl⟩
  refine ⟨b, hb, hrefused, ?_⟩
  refine active_never_refused m (by decide) (by decide) 0 [] id vs b hb
    ⟨?_, fun s' _ => Lib.along_of_forall hplain s'⟩
  -- at 10 the session is still in the first half of its window
  intro _ sess hread hext
  cases (readSession_some hread).1
  exact absurd hext.2.1 (by decide)

/-- A user who updates the session in every request: each renewal is
overwritten by the update of its own response. The requests come half an
idle window apart, the cap is at 480, and the request at 61 is
refused. -/
theorem active_refused_updating :
    let m := Manager.ofLifetimes ⟨480, by decide⟩ ⟨60, by decide⟩
      (by decide)
    let visit (t : Int) : Visit :=
      { r := ⟨methodGet, ascii "/x", [], none, false⟩
        env := ⟨t, t, none, fun _ => some 500⟩
        updates := [⟨t, fun s => some { s with extra := [1] },
          fun _ => some 500⟩] }
    let id : Identity := ⟨[], [], [], [], [], []⟩
    ∃ b, Lib.run (browse m) [visit 30, visit 60, visit 61]
        (Browser.loggedIn m 0 [] id) = some b
      ∧ 61 ∈ b.refused ∧ (61 : Int) ≤ 0 + 480 := by
  refine ⟨_, rfl, ?_, ?_⟩
  · decide
  · decide

end Tokyo3Base.Session
