/-
A form stays valid for its session: a CSRF token is accepted on every
request whose cookie has the secret that it was made with, for its scope
and no other.

That secret goes through every way in which a session is sealed again.
`Gate` copies the session except for its expiry, an update that leaves the
secret alone copies it too, and sealing twice coerces once. So all cookies
of a session have one secret until an update changes it
(`FormsInv.secret`), and a form holds a token of its cookie's secret
(`FormsInv.token`).
-/
import Tokyo3Base.Go.Proofs.JSON
import Tokyo3Base.Lib.Run
import Tokyo3Base.Session.Forms
import Tokyo3Base.Session.Proofs.Gate

namespace Tokyo3Base.Session

open Go Csrf Lib

variable {hmac : Hmac} {m : Manager} {s : Forms}

-- ==== secrets

/-- What `Gate` seals again has the secret of the cookie. -/
theorem gate_keeps_secret {r : Request} {env : GateEnv} {sess s' : Session}
    (h : CookieWrite.set s' ∈ (m.gate { r with cookie := some sess } env).2) :
    s'.csrfSecret = sess.csrfSecret := by
  rcases gate_cases m { r with cookie := some sess } env with
    ⟨held, hread, hgate⟩ | ⟨-, hnone⟩
  · obtain ⟨hcookie, -⟩ := readSession_some hread
    cases hcookie
    rw [hgate] at h
    rcases maybeExtendIdle_cases m env.canSeal sess env.extendAt with
      ⟨hsame, -⟩ | ⟨hext, -⟩
    · rw [hsame] at h
      cases h
    · rw [hext] at h
      cases List.mem_singleton.mp h
      rfl
  · exact absurd h (hnone s')

/-- What an update seals has it too, unless it was changed. -/
theorem update_keeps_secret {canSeal : Seal} {sess s' : Session} {now : Int}
    {mutate : Session → Option Session}
    (hkeeps : keepsSecret mutate sess = true)
    (h : updateSession canSeal (some sess) now mutate = some (.set s')) :
    s'.csrfSecret = sess.csrfSecret := by
  unfold updateSession at h
  split at h
  · cases h
  · rename_i held hread
    obtain ⟨hcookie, -⟩ := readSession_some hread
    cases hcookie
    split at h
    · cases h
    · rename_i sess' hmut
      cases setCookie_eq h
      simpa [keepsSecret, hmut] using hkeeps

-- ==== invariant

/-- Cookies hold valid strings, and the first secret unless it was
changed. A form holds a token for the secret of its cookie. -/
structure FormsInv (hmac : Hmac) (root : Session) (s : Forms) : Prop where
  valid : ∀ c ∈ s.cookies,
    toValidUTF8 c.session.csrfSecret = c.session.csrfSecret
  secret : ∀ c ∈ s.cookies, c.rotated = false →
    c.session.csrfSecret = root.reread.csrfSecret
  carrier : ∀ f ∈ s.forms, f.carrier ∈ s.cookies
  token : ∀ f ∈ s.forms, ∃ random,
    token hmac f.carrier.session.csrfSecret f.scope random = .ok f.text

theorem formsInv_init (hmac : Hmac) (root : Session) :
    FormsInv hmac root (Forms.init root) where
  valid := by
    intro c hc
    cases List.mem_singleton.mp hc
    exact toValidUTF8_idem _
  secret := by
    intro c hc _
    cases List.mem_singleton.mp hc
    rfl
  carrier := nofun
  token := nofun

theorem mem_keep_cookies {rotated : Bool} {writes : List CookieWrite}
    {c : Carried} (h : c ∈ (s.keep rotated writes).cookies) :
    c ∈ s.cookies ∨ ∃ s', .set s' ∈ writes ∧ c = ⟨s'.reread, rotated⟩ := by
  rcases List.mem_append.mp h with h | h
  · exact .inl h
  · obtain ⟨w, hw, hc⟩ := List.mem_filterMap.mp h
    cases w with
    | set s' => exact .inr ⟨s', hw, (Option.some.inj hc).symm⟩
    | clear => cases hc

/-- New cookies have the secret of the one that was presented, or are
marked. -/
theorem FormsInv.keep {root : Session} (hI : FormsInv hmac root s)
    {c : Carried} (hc : c ∈ s.cookies) {rotated : Bool}
    {writes : List CookieWrite}
    (hwrites : rotated = false → c.rotated = false
      ∧ ∀ s', .set s' ∈ writes → s'.csrfSecret = c.session.csrfSecret) :
    FormsInv hmac root (s.keep rotated writes) where
  valid := by
    intro x hx
    rcases mem_keep_cookies hx with hx | ⟨s', -, rfl⟩
    · exact hI.valid x hx
    · exact toValidUTF8_idem _
  secret := by
    intro x hx hrot
    rcases mem_keep_cookies hx with hx | ⟨s', hs', rfl⟩
    · exact hI.secret x hx hrot
    · obtain ⟨hcrot, hsame⟩ := hwrites hrot
      calc s'.reread.csrfSecret
          = toValidUTF8 s'.csrfSecret := rfl
        _ = toValidUTF8 c.session.csrfSecret := by rw [hsame s' hs']
        _ = c.session.csrfSecret := hI.valid c hc
        _ = root.reread.csrfSecret := hI.secret c hc hcrot
  carrier f hf := List.mem_append_left _ (hI.carrier f hf)
  token := hI.token

theorem FormsInv.form {root : Session} (hI : FormsInv hmac root s)
    {c : Carried} (hc : c ∈ s.cookies) {scope text : GoString}
    {random : RandomBytes}
    (htoken : Csrf.token hmac c.session.csrfSecret scope random = .ok text) :
    FormsInv hmac root { s with forms := s.forms ++ [⟨text, scope, c⟩] } where
  valid := hI.valid
  secret := hI.secret
  carrier := by
    intro f hf
    rcases List.mem_append.mp hf with hf | hf
    · exact hI.carrier f hf
    · cases List.mem_singleton.mp hf
      exact hc
  token := by
    intro f hf
    rcases List.mem_append.mp hf with hf | hf
    · exact hI.token f hf
    · cases List.mem_singleton.mp hf
      exact ⟨random, htoken⟩

/-- A token that `CSRFToken` returns is one of the cookie's secret. -/
theorem token_of_csrfToken {sess : Session} {now : Int}
    {scope text : GoString} {random : RandomBytes}
    (h : csrfToken hmac (some sess) now scope random = .ok text) :
    token hmac sess.csrfSecret scope random = .ok text := by
  unfold csrfToken at h
  split at h
  · cases h
  · rename_i held hread
    obtain ⟨hcookie, -⟩ := readSession_some hread
    cases hcookie
    split at h
    · cases h
    · exact h

theorem FormsInv.step {root : Session} (a : FormsAction) (s s' : Forms)
    (hI : FormsInv hmac root s) (h : formsStep hmac m a s = some s') :
    FormsInv hmac root s' := by
  cases a with
  | gate i r env =>
      obtain ⟨c, hi, rfl⟩ := Option.map_eq_some_iff.mp h
      refine hI.keep (List.mem_of_getElem? hi) fun hrot => ⟨hrot, ?_⟩
      exact fun s' hs' => gate_keeps_secret hs'
  | update i now mutate canSeal =>
      obtain ⟨c, hi, rfl⟩ := Option.map_eq_some_iff.mp h
      refine hI.keep (List.mem_of_getElem? hi) fun hrot => ?_
      rw [Bool.or_eq_false_iff, Bool.not_eq_false'] at hrot
      refine ⟨hrot.1, fun s' hs' => ?_⟩
      exact update_keeps_secret hrot.2 (Option.mem_toList.mp hs')
  | form i now scope random =>
      obtain ⟨c, hi, hs'⟩ := Option.map_eq_some_iff.mp h
      cases htoken : csrfToken hmac (some c.session) now scope random with
      | error err =>
          rw [htoken] at hs'
          cases hs'
          exact hI
      | ok text =>
          rw [htoken] at hs'
          cases hs'
          exact hI.form (List.mem_of_getElem? hi) (token_of_csrfToken htoken)

-- ==== forms

/-- A live cookie is validated against its secret. -/
theorem validateCSRF_live {sess : Session} {now : Int}
    (hlive : now ≤ sess.expiry) (text scope : GoString) :
    validateCSRF hmac (some sess) now text scope
      = validate hmac sess.csrfSecret text scope := by
  unfold validateCSRF readSession
  dsimp only
  rw [if_neg (Int.not_lt.mpr hlive)]

/-- Different pairs of a secret and a scope have different HMACs. -/
def Apart (hmac : Hmac) (pairs : List (GoString × GoString)) : Prop :=
  ∀ p ∈ pairs, ∀ q ∈ pairs, hmac.sum p.1 p.2 = hmac.sum q.1 q.2 → p = q

instance (hmac : Hmac) (pairs : List (GoString × GoString)) :
    Decidable (Apart hmac pairs) :=
  inferInstanceAs (Decidable (∀ p ∈ pairs, ∀ q ∈ pairs, _))

/-- Tokens are valid for their secret and scope and hold the HMAC of the
two. Over every run of a session, the form of a request is accepted with
every live cookie until the secret is changed, and neither for another
scope nor with a cookie of another secret, whosever it is. -/
theorem csrf_tokens_bound (hmac : Hmac) (m : Manager) (root : Session)
    (actions : List FormsAction) (s : Forms)
    (hrun : run (formsStep hmac m) actions (.init root) = some s)
    (pairs : List (GoString × GoString)) (hapart : Apart hmac pairs) :
    (∀ secret scope (random : RandomBytes), secret ≠ [] →
        (random sumSize).isOk = true → ∃ text,
          token hmac secret scope random = .ok text
            ∧ validate hmac secret text scope = true)
      ∧ (∀ secret text scope, validate hmac secret text scope = true →
        ∃ raw, rawURLDecode text = some raw ∧ raw.length = 64
          ∧ xorBytes (raw.take 32) (raw.drop 32) = hmac.sum secret scope)
      ∧ ∀ f ∈ s.forms,
        (∀ c ∈ s.cookies, ∀ now, f.carrier.rotated = false →
          c.rotated = false → now ≤ c.session.expiry →
          validateCSRF hmac (some c.session) now f.text f.scope = true)
        ∧ (∀ sess now, sess.csrfSecret = f.carrier.session.csrfSecret →
          now ≤ sess.expiry →
          validateCSRF hmac (some sess) now f.text f.scope = true)
        ∧ ∀ sess now scope,
          (f.carrier.session.csrfSecret, f.scope) ∈ pairs →
          (sess.csrfSecret, scope) ∈ pairs →
          scope ≠ f.scope
            ∨ sess.csrfSecret ≠ f.carrier.session.csrfSecret →
          validateCSRF hmac (some sess) now f.text scope = false := by
  have hI : FormsInv hmac root s :=
    run_invariant (fun a => FormsInv.step a) actions
      (formsInv_init hmac root) hrun
  refine ⟨fun secret scope random hne hpad => ?_,
    fun secret text scope h => ?_, fun f hf => ?_⟩
  · obtain ⟨text, htext⟩ := exists_token hmac hne scope hpad
    exact ⟨text, htext, (validate_token_iff htext).mpr ⟨hne, rfl⟩⟩
  · exact unmask_eq_ok_iff.mp (validate_iff.mp h).2
  obtain ⟨random, htoken⟩ := hI.token f hf
  have hsame : ∀ sess now,
      sess.csrfSecret = f.carrier.session.csrfSecret → now ≤ sess.expiry →
      validateCSRF hmac (some sess) now f.text f.scope = true := by
    intro sess now hsecret hlive
    rw [validateCSRF_live hlive, validate_token_iff htoken, hsecret]
    exact ⟨(unmask_token htoken).1, rfl⟩
  refine ⟨fun c hc now hfrot hcrot hlive => ?_, hsame,
    fun sess now scope hfpair hpair hother => ?_⟩
  · refine hsame c.session now ?_ hlive
    rw [hI.secret c hc hcrot, hI.secret _ (hI.carrier f hf) hfrot]
  · unfold validateCSRF
    cases hread : readSession (some sess) now with
    | none => rfl
    | some held =>
        obtain ⟨hcookie, -⟩ := readSession_some hread
        cases hcookie
        refine Bool.eq_false_iff.mpr fun hvalid => ?_
        have hsum := ((validate_token_iff htoken).mp hvalid).2
        obtain ⟨hsecret, hscope⟩ :=
          Prod.mk.inj (hapart _ hfpair _ hpair hsum)
        rcases hother with hne | hne
        · exact hne hscope.symm
        · exact hne hsecret.symm

-- ==== a sample

/-- Secret and scope, side by side. -/
def plainHmac : Hmac where
  sum secret scope :=
    (secret ++ 0 :: scope ++ List.replicate sumSize 0).take sumSize
  size secret scope := by
    rw [List.length_take, List.length_append, List.length_replicate]
    exact Nat.min_eq_left (Nat.le_add_left _ _)

def formsManager : Manager :=
  Manager.ofLifetimes defaultSessionTTL defaultSessionTTL (by decide)

def formsRoot : Session :=
  (formsManager.newSession 0 (ascii "first")).populate
    ⟨ascii "u", [], [], [], [], []⟩

def zeroPad : RandomBytes := fun n =>
  .ok ⟨List.replicate n 0, List.length_replicate⟩

/-- A form is made, and the secret is changed after it. -/
def rotateSecret : List FormsAction :=
  [.form 0 0 (ascii "roles") zeroPad,
    .update 0 0 (fun s => some { s with csrfSecret := ascii "second" })
      fun _ => some 100]

/-- The token of that form. -/
def rolesText : GoString :=
  rawURLEncode (List.replicate sumSize 0
    ++ plainHmac.sum (ascii "first") (ascii "roles"))

/-- What the run leaves. -/
def rotatedForms : Forms where
  cookies := [⟨formsRoot, false⟩,
    ⟨{ formsRoot with csrfSecret := ascii "second" }, true⟩]
  forms := [⟨rolesText, ascii "roles", ⟨formsRoot, false⟩⟩]

theorem csrf_tokens_bound_rotated :
    validateCSRF plainHmac (some formsRoot) 0 rolesText (ascii "roles")
        = true
      ∧ validateCSRF plainHmac
          (some { formsRoot with csrfSecret := ascii "second" }) 0 rolesText
          (ascii "roles") = false := by
  have hrun : run (formsStep plainHmac formsManager) rotateSecret
      (.init formsRoot) = some rotatedForms := by decide +kernel
  have hforms := (csrf_tokens_bound plainHmac formsManager formsRoot
    rotateSecret rotatedForms hrun
    [(ascii "first", ascii "roles"), (ascii "second", ascii "roles")]
    (by decide)).2.2 _ (List.mem_singleton.mpr rfl)
  exact ⟨hforms.1 _ List.mem_cons_self 0 rfl rfl (by decide),
    hforms.2.2 _ 0 (ascii "roles") List.mem_cons_self
      (List.mem_cons_of_mem _ List.mem_cons_self) (.inr (by decide))⟩

end Tokyo3Base.Session
