/-
Refresh-token rotation over the shared cache: no refresh token is used
twice, `tokens.json` has the latest pair, and a logout stays.

# The argument

Every refresh token is in one place at a time (`Standing`): with a
login that has not saved it, in the cache, or used up. That is what
keeps the logins' tokens apart from each other and from the cache's,
however the calls interleave. It takes an issuer whose refresh tokens
are new, those it gives at logins as well: `login_revives_used_token` is
a run in which one is not.

While nobody has the lock, the refresh token in `tokens.json` is in the
place `cached`, the pair there is the latest one, and there is none
after a logout (`Rest`). A call that takes the lock takes these facts
with it. Between a successful refresh and its save the first two do not
hold of the file; they hold of what is about to be saved.

A `Logout` that did not get the lock may remove the file at any time.
None of the facts is hurt by a file that is missing.
-/
import Tokyo3Base.OidcClient.Cache

namespace Tokyo3Base.OidcClient

open Go Lib

-- ==== the facts

/-- The refresh token is there, and it is in this place. -/
def Shared.At (sh : Shared) (c : SavedConfig) (t : Tokens)
    (place : Standing) : Prop :=
  t.refreshToken.val ≠ [] → sh.standing (c, t.refreshToken) = place

/-- The cache while nobody has the lock. -/
structure Rest (sh : Shared) : Prop where
  cached : ∀ k, credential sh.tokens sh.config = some k →
    k.2.val ≠ [] → sh.standing k = .cached
  latest : ∀ cached, sh.tokens = some cached →
    sh.latest = some cached.tokens.pair
  loggedOut : sh.loggedOut = true → sh.tokens = none

/-- What holds in every state: a refresh token with which a refresh
succeeded is used up, and `tokens.json` is the latest save. -/
structure Accounted (sh : Shared) : Prop where
  used : ∀ u ∈ sh.succeeded, sh.standing (u.1.saved, u.2) = .used
  completed : ∀ cached, sh.tokens = some cached →
    sh.completed = some cached.tokens.pair

/-- What is known of a call in `EnsureFreshTokens(cfg)`. -/
def EnsurePhase.Rotates (sh : Shared) (cfg : Config) :
    EnsurePhase → Prop
  | .load locked => locked = true → Rest sh
  | .loadConfig locked t _ => locked = true → Rest sh
      ∧ sh.loggedOut = false
      ∧ ∀ c, sh.config = some c → sh.At c t .cached
  | .check locked t => locked = true → Rest sh ∧ sh.loggedOut = false
      ∧ sh.At cfg.saved t .cached
  | .refresh t | .presented t => Rest sh ∧ sh.loggedOut = false
      ∧ t.refreshToken.val ≠ [] ∧ sh.At cfg.saved t .cached
  | .save fresh => sh.loggedOut = false ∧ sh.At cfg.saved fresh .cached
      ∧ sh.latest = some fresh.pair
  | .ending _ => Rest sh
  | .acquire | .returned _ => True

/-- What is known of call `p` in `Login(cfg)`. -/
def LoginPhase.Rotates (p : Nat) (sh : Shared) (cfg : Config) :
    LoginPhase → Prop
  | .flow | .returned _ => True
  | .acquire t => sh.At cfg.saved t (.atLogin p)
  | .saveTokens t => Rest sh ∧ sh.At cfg.saved t (.atLogin p)
  | .saveConfig _ => Rest sh ∧ ∀ cached, sh.tokens = some cached →
      cached.config ≠ none
  | .ending _ => Rest sh

/-- What is known of a call in `Logout`. -/
def LogoutPhase.Rotates (sh : Shared) : LogoutPhase → Prop
  | .acquire | .returned _ _ => True
  | .remove locked => locked = true → Rest sh
  | .ending _ => Rest sh

/-- What is known of call `p`. -/
def Phase.Rotates (p : Nat) (sh : Shared) : Phase → Prop
  | .ensure cfg _ ph => ph.Rotates sh cfg
  | .login cfg ph => ph.Rotates p sh cfg
  | .logout ph => ph.Rotates sh
  | _ => True

-- ==== what is asked of runs

/-- A process dies, or a write fails. -/
def Event.breaks : Event → Bool
  | .crash | .ensure .saveFails | .loginStep .saveFails => true
  | _ => false

/-- The tokens that a refresh gets with this event. -/
def Phase.refreshAnswer (e : Event) (ph : Phase) :
    Option (Config × Tokens) :=
  match e, ph with
  | .ensure (.answer raw now), .ensure cfg _ (.presented _) =>
      (parseTokens raw now).map fun t => (cfg, t)
  | _, _ => none

/-- The tokens that a login gets with this event. -/
def Phase.loginAnswer (e : Event) (ph : Phase) :
    Option (Config × Tokens) :=
  match e, ph with
  | .loginStep (.answer raw now), .login cfg .flow =>
      (parseTokens raw now).map fun t => (cfg, t)
  | _, _ => none

/-- Nobody crashes, writes succeed, and a successful refresh gives a
new refresh token. -/
def RefreshesRotate (e : Event) (sh : Shared) (ph : Phase) : Prop :=
  e.breaks = false
    ∧ ∀ u ∈ ph.refreshAnswer e, u.2.refreshToken.val ≠ []
        ∧ sh.standing (u.1.saved, u.2.refreshToken) = .unissued

instance (e : Event) (sh : Shared) (ph : Phase) :
    Decidable (RefreshesRotate e sh ph) :=
  inferInstanceAs (Decidable (_ ∧ _))

/-- What is asked of a step: besides, a login gives a new refresh token
or none. -/
def Rotating (_ : Nat) (e : Event) (sh : Shared) (ph : Phase) : Prop :=
  RefreshesRotate e sh ph
    ∧ ∀ u ∈ ph.loginAnswer e, u.2.refreshToken.val ≠ [] →
        sh.standing (u.1.saved, u.2.refreshToken) = .unissued

instance (p : Nat) (e : Event) (sh : Shared) (ph : Phase) :
    Decidable (Rotating p e sh ph) :=
  inferInstanceAs (Decidable (_ ∧ _))

-- ==== steps of others

variable {sh sh' : Shared} {cfg : Config} {t : Tokens}

/-- A change that hurts nobody: refresh tokens that are somewhere stay
where they are, and at most `tokens.json` goes. -/
structure Spares (sh sh' : Shared) : Prop where
  standing : ∀ k, sh.standing k ≠ .unissued →
    sh'.standing k = sh.standing k
  tokens : ∀ cached, sh'.tokens = some cached → sh.tokens = some cached
  config : sh'.config = sh.config
  succeeded : sh'.succeeded = sh.succeeded
  latest : sh'.latest = sh.latest
  completed : sh'.completed = sh.completed
  loggedOut : sh'.loggedOut = sh.loggedOut

theorem Spares.at (hs : Spares sh sh') {c : SavedConfig}
    {place : Standing} (h : sh.At c t place) (hne : place ≠ .unissued) :
    sh'.At c t place := by
  intro hr
  rw [← h hr]
  exact hs.standing _ (h hr ▸ hne)

theorem Spares.accounted (hs : Spares sh sh') (h : Accounted sh) :
    Accounted sh' where
  used := by
    intro u hu
    have hused := h.used u (hs.succeeded ▸ hu)
    rw [← hused]
    exact hs.standing _ (hused ▸ nofun)
  completed := fun cached hc =>
    hs.completed.trans (h.completed cached (hs.tokens cached hc))

theorem Spares.rest (hs : Spares sh sh') (h : Rest sh) : Rest sh' where
  cached := by
    intro k hk hne
    obtain ⟨cached, hc, hm⟩ := Option.bind_eq_some_iff.mp hk
    have hk' : credential sh.tokens sh.config = some k := by
      rw [hs.tokens cached hc, ← hs.config]
      exact hm
    have hcached := h.cached k hk' hne
    rw [← hcached]
    exact hs.standing k (hcached ▸ nofun)
  latest := fun cached hc =>
    hs.latest.trans (h.latest cached (hs.tokens cached hc))
  loggedOut := by
    intro hout
    have hnone := h.loggedOut (hs.loggedOut ▸ hout)
    cases htokens : sh'.tokens with
    | none => rfl
    | some cached =>
        exact nomatch hnone.symm.trans (hs.tokens cached htokens)

theorem EnsurePhase.Rotates.spared {ph : EnsurePhase}
    (h : ph.Rotates sh cfg) (hs : Spares sh sh') :
    ph.Rotates sh' cfg := by
  have hflag : sh.loggedOut = false → sh'.loggedOut = false :=
    fun h => hs.loggedOut.trans h
  cases ph with
  | load locked => exact fun hl => hs.rest (h hl)
  | loadConfig locked t named =>
      intro hl
      obtain ⟨hrest, hout, hat⟩ := h hl
      exact ⟨hs.rest hrest, hflag hout,
        fun c hc => hs.at (hat c (hs.config ▸ hc)) nofun⟩
  | check locked t =>
      intro hl
      obtain ⟨hrest, hout, hat⟩ := h hl
      exact ⟨hs.rest hrest, hflag hout, hs.at hat nofun⟩
  | acquire => trivial
  | refresh t =>
      exact ⟨hs.rest h.1, hflag h.2.1, h.2.2.1, hs.at h.2.2.2 nofun⟩
  | presented t =>
      exact ⟨hs.rest h.1, hflag h.2.1, h.2.2.1, hs.at h.2.2.2 nofun⟩
  | save fresh =>
      exact ⟨hflag h.1, hs.at h.2.1 nofun, hs.latest.trans h.2.2⟩
  | ending r => exact hs.rest h
  | returned r => trivial

theorem LoginPhase.Rotates.spared {q : Nat} {ph : LoginPhase}
    (h : ph.Rotates q sh cfg) (hs : Spares sh sh') :
    ph.Rotates q sh' cfg := by
  cases ph with
  | flow => trivial
  | acquire t => exact hs.at h nofun
  | saveTokens t => exact ⟨hs.rest h.1, hs.at h.2 nofun⟩
  | saveConfig t =>
      exact ⟨hs.rest h.1, fun cached hc => h.2 cached (hs.tokens _ hc)⟩
  | ending r => exact hs.rest h
  | returned r => trivial

/-- A change that hurts nobody keeps what a call knows. -/
theorem Phase.Rotates.spared {q : Nat} {other : Phase}
    (h : other.Rotates q sh) (hs : Spares sh sh') :
    other.Rotates q sh' := by
  cases other with
  | ensure cfg skew ph => exact EnsurePhase.Rotates.spared h hs
  | login cfg ph => exact LoginPhase.Rotates.spared h hs
  | logout ph =>
      cases ph with
      | acquire => trivial
      | remove locked => exact fun hl => hs.rest (h hl)
      | ending removed => exact hs.rest h
      | returned locked removed => trivial
  | idle => trivial
  | crashed => trivial

/-- A call without the lock knows only of the token that its own login
got. -/
theorem Phase.Rotates.unlocked {q : Nat} {other : Phase}
    (h : other.Rotates q sh) (hout : other.holds = false)
    (hlogin : ∀ k, sh.standing k = .atLogin q →
      sh'.standing k = .atLogin q) : other.Rotates q sh' := by
  cases other with
  | ensure cfg skew ph =>
      cases ph with
      | load locked => exact fun hl => nomatch hl.symm.trans hout
      | loadConfig locked t named =>
          exact fun hl => nomatch hl.symm.trans hout
      | check locked t => exact fun hl => nomatch hl.symm.trans hout
      | acquire => trivial
      | returned r => trivial
      | _ => cases hout
  | login cfg ph =>
      cases ph with
      | flow => trivial
      | acquire t => exact fun hr => hlogin _ (h hr)
      | returned r => trivial
      | _ => cases hout
  | logout ph =>
      cases ph with
      | acquire => trivial
      | remove locked => exact fun hl => nomatch hl.symm.trans hout
      | returned locked removed => trivial
      | ending removed => cases hout
  | idle => trivial
  | crashed => trivial

-- ==== what steps keep

abbrev KeptRotation (p : Nat) (sh : Shared) (ph : Phase) (sh' : Shared)
    (ph' : Phase) : Prop :=
  Kept Phase.holds Accounted Rest Phase.Rotates p sh ph sh' ph'

/-- A step that changes nothing shared, and does not unlock. -/
theorem KeptRotation.same {p : Nat} {ph ph' : Phase}
    (hinv : Accounted sh) (hown : ph'.Rotates p sh)
    (hholds : ph.holds = true → ph'.holds = true) :
    KeptRotation p sh ph sh ph' :=
  Kept.same hinv hown fun hin hout =>
    nomatch (hholds hin).symm.trans hout

/-- A step that hurts nobody, and does not unlock. -/
theorem KeptRotation.spares {p : Nat} {ph ph' : Phase}
    (hinv : Accounted sh) (hs : Spares sh sh') (hown : ph'.Rotates p sh')
    (hholds : ph.holds = true → ph'.holds = true) :
    KeptRotation p sh ph sh' ph' where
  inv := hs.accounted hinv
  own := hown
  free := by
    intro hout hfree
    cases hin : ph.holds with
    | false => exact hs.rest (hfree hin)
    | true => exact nomatch (hholds hin).symm.trans hout
  others := fun _ _ _ _ hok => hok.spared hs

/-- A step of the call that has the lock and keeps it. -/
theorem KeptRotation.locked {p : Nat} {ph ph' : Phase}
    (hin : ph.holds = true) (hout : ph'.holds = true)
    (hinv : Accounted sh') (hown : ph'.Rotates p sh')
    (hlogin : ∀ q, q ≠ p → ∀ k, sh.standing k = .atLogin q →
      sh'.standing k = .atLogin q) :
    KeptRotation p sh ph sh' ph' where
  inv := hinv
  own := hown
  free := fun h _ => nomatch hout.symm.trans h
  others := by
    intro q hq other hexcl hok
    have hother : other.holds = false := by
      cases h : other.holds with
      | false => rfl
      | true => exact nomatch (hexcl h).1.symm.trans hin
    exact hok.unlocked hother (hlogin q hq)

-- ==== EnsureFreshTokens

@[simp] theorem EnsurePhase.holds_leave (locked : Bool)
    (r : Except CacheError Tokens) :
    (EnsurePhase.leave locked r).holds = locked := by
  cases locked <;> rfl

@[simp] theorem EnsurePhase.holds_afterLoad (locked : Bool)
    (cfg : Config) (sh : Shared) :
    (EnsurePhase.afterLoad locked cfg sh).holds = locked := by
  unfold EnsurePhase.afterLoad
  split
  · exact holds_leave locked _
  · split
    · exact holds_leave locked _
    · rfl
    · rfl

@[simp] theorem EnsurePhase.holds_afterLoadConfig (locked : Bool)
    (t : Tokens) (cfg : Config) (sh : Shared) :
    (EnsurePhase.afterLoadConfig locked t cfg sh).holds = locked := by
  unfold EnsurePhase.afterLoadConfig
  split
  · rfl
  · exact holds_leave locked _

@[simp] theorem EnsurePhase.holds_afterCheck (locked : Bool) (t : Tokens)
    (skew now : Int) :
    (EnsurePhase.afterCheck locked t skew now).holds = locked := by
  unfold EnsurePhase.afterCheck
  split
  · exact holds_leave locked _
  · cases locked with
    | false => rfl
    | true =>
        rw [if_pos rfl]
        split <;> rfl

/-- Leaving with the lock needs the cache at rest. -/
theorem EnsurePhase.rotates_leave {locked : Bool}
    {r : Except CacheError Tokens} (h : locked = true → Rest sh) :
    (EnsurePhase.leave locked r).Rotates sh cfg := by
  cases locked with
  | true => exact h rfl
  | false => trivial

/-- The refresh token that was just read is in the cache. -/
theorem Rest.at_read (h : Rest sh) {cached : CachedTokens}
    (htokens : sh.tokens = some cached) {c : SavedConfig}
    (hc : cached.config.or sh.config = some c) :
    sh.At c cached.tokens .cached := by
  intro hr
  refine h.cached (c, cached.tokens.refreshToken) ?_ hr
  rw [htokens]
  exact Option.map_eq_some_iff.mpr ⟨c, hc, rfl⟩

/-- Tokens that are there have not been logged out. -/
theorem Rest.not_loggedOut (h : Rest sh) {cached : CachedTokens}
    (htokens : sh.tokens = some cached) : sh.loggedOut = false := by
  cases hout : sh.loggedOut with
  | false => rfl
  | true => exact nomatch htokens.symm.trans (h.loggedOut hout)

/-- The read of `tokens.json`. -/
theorem EnsurePhase.rotates_afterLoad {locked : Bool}
    (h : locked = true → Rest sh) :
    (EnsurePhase.afterLoad locked cfg sh).Rotates sh cfg := by
  unfold EnsurePhase.afterLoad
  cases htokens : sh.tokens with
  | none => exact rotates_leave h
  | some cached =>
      dsimp only
      unfold checkBinding
      cases hconfig : cached.config with
      | none =>
          intro hl
          refine ⟨h hl, (h hl).not_loggedOut htokens, fun c hc => ?_⟩
          exact (h hl).at_read htokens (by rw [hconfig, hc]; rfl)
      | some c =>
          dsimp only
          by_cases hne : c.config ≠ cfg
          · rw [if_pos hne]
            exact rotates_leave h
          · rw [if_neg hne]
            intro hl
            have hsaved : cfg.saved = c := by
              rw [← not_not.mp hne, SavedConfig.saved_config]
            rw [hsaved]
            exact ⟨h hl, (h hl).not_loggedOut htokens,
              (h hl).at_read htokens (by rw [hconfig]; rfl)⟩

/-- The read of `config.json`. -/
theorem EnsurePhase.rotates_afterLoadConfig {locked : Bool}
    {named : Option SavedConfig}
    (h : (EnsurePhase.loadConfig locked t named).Rotates sh cfg) :
    (EnsurePhase.afterLoadConfig locked t cfg sh).Rotates sh cfg := by
  unfold EnsurePhase.afterLoadConfig
  split
  · rename_i hcheck
    intro hl
    obtain ⟨hrest, hout, hat⟩ := h hl
    obtain ⟨c, hload, rfl⟩ := checkConfig_iff.mp hcheck
    rw [SavedConfig.saved_config]
    exact ⟨hrest, hout, hat c (eq_some_of_loadConfig hload)⟩
  · exact rotates_leave fun hl => (h hl).1

/-- The decision: a refresh token goes to the issuer from the locked
path only. -/
theorem EnsurePhase.rotates_afterCheck {locked : Bool} {skew now : Int}
    (h : (EnsurePhase.check locked t).Rotates sh cfg) :
    (EnsurePhase.afterCheck locked t skew now).Rotates sh cfg := by
  unfold EnsurePhase.afterCheck
  split
  · exact rotates_leave fun hl => (h hl).1
  · cases locked with
    | false => trivial
    | true =>
        obtain ⟨hrest, hout, hat⟩ := h rfl
        rw [if_pos rfl]
        split
        · exact hrest
        · rename_i hne
          exact ⟨hrest, hout, hne, hat⟩

/-- A new refresh token takes the place of the cached one. -/
theorem keepOmitted_refreshToken {fresh : Tokens}
    (h : fresh.refreshToken.val ≠ []) :
    (keepOmitted fresh t).refreshToken = fresh.refreshToken :=
  if_neg h

/-- A successful refresh moves the old refresh token and the new one,
and no other. -/
theorem standing_refreshed {fresh : Tokens} {k : Credential}
    (hold : sh.standing (cfg.saved, t.refreshToken) = .cached)
    (hnew : sh.standing (cfg.saved, fresh.refreshToken) = .unissued)
    (h₁ : sh.standing k ≠ .cached) (h₂ : sh.standing k ≠ .unissued) :
    (sh.refreshed cfg t fresh).standing k = sh.standing k := by
  show Function.update (Function.update sh.standing _ _) _ _ k = _
  have hk₁ : k ≠ (cfg.saved, fresh.refreshToken) := by
    rintro rfl
    exact h₂ hnew
  have hk₂ : k ≠ (cfg.saved, t.refreshToken) := by
    rintro rfl
    exact h₁ hold
  rw [Function.update_of_ne hk₁, Function.update_of_ne hk₂]

/-- A successful refresh: the old refresh token is used up, the new one
is on its way, and no login's is touched. -/
theorem rotates_refreshed {fresh : Tokens} (hinv : Accounted sh)
    (hold : sh.standing (cfg.saved, t.refreshToken) = .cached)
    (hout : sh.loggedOut = false) (hne : fresh.refreshToken.val ≠ [])
    (hnew : sh.standing (cfg.saved, fresh.refreshToken) = .unissued) :
    (EnsurePhase.save (keepOmitted fresh t)).Rotates
        (sh.refreshed cfg t fresh) cfg
      ∧ Accounted (sh.refreshed cfg t fresh)
      ∧ ∀ q k, sh.standing k = .atLogin q →
          (sh.refreshed cfg t fresh).standing k = .atLogin q := by
  have hkeep := keepOmitted_refreshToken (t := t) hne
  refine ⟨⟨hout, fun _ => ?_, ?_⟩, ⟨fun u hu => ?_, hinv.completed⟩,
    fun q k hk => ?_⟩
  · rw [hkeep]
    exact Function.update_self ..
  · show some fresh.pair = some (keepOmitted fresh t).pair
    unfold Tokens.pair
    rw [hkeep]
    rfl
  · rcases List.mem_append.mp hu with hu | hu
    · have hused := hinv.used u hu
      rw [← hused]
      exact standing_refreshed hold hnew (hused ▸ nofun) (hused ▸ nofun)
    · cases List.mem_singleton.mp hu
      have hne' : ((cfg.saved, t.refreshToken) : Credential)
          ≠ (cfg.saved, fresh.refreshToken) := by
        intro heq
        rw [heq] at hold
        exact nomatch hold.symm.trans hnew
      show Function.update (Function.update sh.standing _ _) _ _ _ = _
      rw [Function.update_of_ne hne', Function.update_self]
  · rw [← hk]
    exact standing_refreshed hold hnew (hk ▸ nofun) (hk ▸ nofun)

/-- The save: the cache is at rest again. -/
theorem rest_saved {fresh : Tokens}
    (h : (EnsurePhase.save fresh).Rotates sh cfg) :
    Rest { sh with
      tokens := some ⟨fresh, some cfg.saved⟩
      completed := some fresh.pair } where
  cached := by
    intro k hk
    cases hk
    exact h.2.1
  latest := by
    intro cached hc
    cases hc
    exact h.2.2
  loggedOut := fun hout => nomatch h.1.symm.trans hout

theorem EnsurePhase.keptRotation {p : Nat} {skew : Int}
    {e : EnsureEvent} {ph ph' : EnsurePhase}
    (h : ph.step cfg skew e sh = some (sh', ph'))
    (hrot : Rotating p (.ensure e) sh (.ensure cfg skew ph))
    (hinv : Accounted sh)
    (hok : ph.Rotates sh cfg)
    (hfree : ph.holds = false → ph'.holds = true → Rest sh) :
    KeptRotation p sh (.ensure cfg skew ph) sh'
      (.ensure cfg skew ph') := by
  cases ph with
  | load locked =>
      cases e with
      | read =>
          cases h
          exact .same hinv (rotates_afterLoad hok)
            fun hl => (holds_afterLoad locked cfg sh).trans hl
      | readFails =>
          cases h
          exact .same hinv (rotates_leave hok)
            fun hl => (holds_leave locked _).trans hl
      | _ => cases h
  | loadConfig locked t named =>
      cases e with
      | read =>
          cases h
          exact .same hinv (rotates_afterLoadConfig hok)
            fun hl => (holds_afterLoadConfig locked t cfg sh).trans hl
      | readFails =>
          cases h
          exact .same hinv (rotates_leave fun hl => (hok hl).1)
            fun hl => (holds_leave locked _).trans hl
      | _ => cases h
  | check locked t =>
      cases e with
      | check now =>
          cases h
          exact .same hinv (rotates_afterCheck hok)
            fun hl => (holds_afterCheck locked t skew now).trans hl
      | _ => cases h
  | acquire =>
      cases e with
      | lock =>
          cases h
          exact .same hinv (fun _ => hfree rfl rfl) nofun
      | lockFails =>
          cases h
          exact .same hinv trivial nofun
      | _ => cases h
  | refresh t =>
      cases e with
      | present =>
          cases h
          have hs : Spares sh { sh with
              sent := sh.sent ++ [(cfg, t.refreshToken)] } :=
            ⟨fun _ _ => rfl, fun _ hc => hc, rfl, rfl, rfl, rfl, rfl⟩
          have hnext : (EnsurePhase.presented t).Rotates sh cfg := hok
          exact .spares hinv hs (hnext.spared hs) fun _ => rfl
      | refused =>
          cases h
          exact .same hinv hok.1 fun _ => rfl
      | _ => cases h
  | presented t =>
      cases e with
      | answer raw now =>
          cases hparse : parseTokens raw now with
          | none =>
              simp only [EnsurePhase.step, hparse] at h
              cases h
              exact .same hinv hok.1 fun _ => rfl
          | some fresh =>
              simp only [EnsurePhase.step, hparse] at h
              cases h
              obtain ⟨hne, hnew⟩ := hrot.1.2 (cfg, fresh)
                (by simp [Phase.refreshAnswer, hparse])
              obtain ⟨-, hout, hr, hat⟩ := hok
              obtain ⟨hown, hused, hlogin⟩ :=
                rotates_refreshed hinv (hat hr) hout hne hnew
              exact .locked rfl rfl hused hown fun q _ => hlogin q
      | refused =>
          cases h
          exact .same hinv hok.1 fun _ => rfl
      | _ => cases h
  | save fresh =>
      cases e with
      | save =>
          cases h
          refine .locked rfl rfl ⟨hinv.used, fun cached hc => ?_⟩
            (rest_saved hok) fun _ _ _ hk => hk
          cases hc
          rfl
      | saveFails => cases hrot.1.1
      | _ => cases h
  | ending r =>
      cases e with
      | unlock =>
          cases h
          exact Kept.same hinv trivial fun _ _ => hok
      | _ => cases h
  | returned r => cases h

-- ==== Login

/-- A login's answer touches no token that is somewhere. -/
theorem spares_granted {p : Nat} (hnew : t.refreshToken.val ≠ [] →
      sh.standing (cfg.saved, t.refreshToken) = .unissued) :
    Spares sh (sh.granted p cfg t) := by
  unfold Shared.granted
  split
  · exact ⟨fun _ _ => rfl, fun _ hc => hc, rfl, rfl, rfl, rfl, rfl⟩
  · rename_i hne
    refine ⟨fun k hk => ?_, fun _ hc => hc, rfl, rfl, rfl, rfl, rfl⟩
    refine Function.update_of_ne ?_ ..
    rintro rfl
    exact hk (hnew hne)

/-- It is with the login now. -/
theorem at_granted (p : Nat) :
    (sh.granted p cfg t).At cfg.saved t (.atLogin p) := by
  intro hne
  unfold Shared.granted
  rw [if_neg hne]
  exact Function.update_self ..

/-- Saving a login's token moves no other. -/
theorem standing_loggedIn {p : Nat} {k : Credential}
    (h : sh.At cfg.saved t (.atLogin p))
    (hk : sh.standing k ≠ .atLogin p) :
    (sh.loggedIn cfg t).standing k = sh.standing k := by
  unfold Shared.loggedIn
  split
  · rfl
  · rename_i hne
    refine Function.update_of_ne ?_ ..
    rintro rfl
    exact hk (h hne)

/-- Once it is saved, the cache is at rest, with the login's tokens, and
no other login's token is touched. -/
theorem rest_loggedIn {p : Nat} (hinv : Accounted sh)
    (h : sh.At cfg.saved t (.atLogin p)) :
    Rest (sh.loggedIn cfg t)
      ∧ Accounted (sh.loggedIn cfg t)
      ∧ ∀ q, q ≠ p → ∀ k, sh.standing k = .atLogin q →
          (sh.loggedIn cfg t).standing k = .atLogin q := by
  have hsucceeded : (sh.loggedIn cfg t).succeeded = sh.succeeded := by
    unfold Shared.loggedIn
    split <;> rfl
  refine ⟨⟨?_, ?_, nofun⟩, ⟨fun u hu => ?_, ?_⟩, fun q hq k hk => ?_⟩
  · intro k hk hne
    cases hk
    unfold Shared.loggedIn
    rw [if_neg hne]
    exact Function.update_self ..
  · intro cached hc
    cases hc
    rfl
  · have hused := hinv.used u (hsucceeded ▸ hu)
    rw [← hused]
    exact standing_loggedIn h (hused ▸ nofun)
  · intro cached hc
    cases hc
    rfl
  · rw [← hk]
    refine standing_loggedIn h fun hp => ?_
    exact hq (Standing.atLogin.inj (hk.symm.trans hp))

/-- `config.json` does not matter to bound tokens. -/
theorem Rest.saveConfig (h : Rest sh) (c : SavedConfig)
    (hbound : ∀ cached, sh.tokens = some cached →
      cached.config ≠ none) : Rest { sh with config := some c } where
  cached := by
    intro k hk
    obtain ⟨cached, hc, hm⟩ := Option.bind_eq_some_iff.mp hk
    obtain ⟨c', hc'⟩ := Option.ne_none_iff_exists'.mp (hbound cached hc)
    refine h.cached k ?_
    rw [credential, hc, Option.bind_some]
    rw [hc'] at hm ⊢
    exact hm
  latest := h.latest
  loggedOut := h.loggedOut

theorem LoginPhase.keptRotation {p : Nat} {e : LoginEvent}
    {ph ph' : LoginPhase} (h : ph.step p cfg e sh = some (sh', ph'))
    (hrot : Rotating p (.loginStep e) sh (.login cfg ph))
    (hinv : Accounted sh)
    (hok : ph.Rotates p sh cfg)
    (hfree : ph.holds = false → ph'.holds = true → Rest sh) :
    KeptRotation p sh (.login cfg ph) sh' (.login cfg ph') := by
  cases ph with
  | flow =>
      cases e with
      | answer raw now =>
          cases hparse : parseTokens raw now with
          | none =>
              simp only [LoginPhase.step, hparse] at h
              cases h
              exact .same hinv trivial nofun
          | some t =>
              simp only [LoginPhase.step, hparse] at h
              cases h
              have hnew := hrot.2 (cfg, t)
                (by simp [Phase.loginAnswer, hparse])
              exact .spares hinv (spares_granted hnew) (at_granted p) nofun
      | refused =>
          cases h
          exact .same hinv trivial nofun
      | _ => cases h
  | acquire t =>
      cases e with
      | lock =>
          cases h
          exact .same hinv ⟨hfree rfl rfl, hok⟩ nofun
      | lockFails =>
          cases h
          exact .same hinv trivial nofun
      | _ => cases h
  | saveTokens t =>
      cases e with
      | save =>
          cases h
          obtain ⟨hrest, hused, hlogin⟩ := rest_loggedIn hinv hok.2
          refine .locked rfl rfl hused ⟨hrest, fun cached hc => ?_⟩ hlogin
          cases hc
          nofun
      | saveFails => cases hrot.1.1
      | _ => cases h
  | saveConfig t =>
      cases e with
      | save =>
          cases h
          exact .locked rfl rfl ⟨hinv.used, hinv.completed⟩
            (hok.1.saveConfig cfg.saved hok.2) fun _ _ _ hk => hk
      | saveFails => cases hrot.1.1
      | _ => cases h
  | ending r =>
      cases e with
      | unlock =>
          cases h
          exact Kept.same hinv trivial fun _ _ => hok
      | _ => cases h
  | returned r => cases h

-- ==== Logout

/-- A removal without the lock hurts nobody. -/
theorem spares_removed : Spares sh
    { sh with tokens := none, loggedOut := sh.loggedOut || false } :=
  ⟨fun _ _ => rfl, nofun, rfl, rfl, rfl, rfl, Bool.or_false _⟩

/-- After a removal there is nothing to be said of the file. -/
theorem rest_removed : Rest
    { sh with tokens := none, loggedOut := sh.loggedOut || true } :=
  ⟨nofun, nofun, fun _ => rfl⟩

theorem LogoutPhase.keptRotation {p : Nat} {e : LogoutEvent}
    {ph ph' : LogoutPhase} (h : ph.step e sh = some (sh', ph'))
    (hinv : Accounted sh)
    (hok : ph.Rotates sh)
    (hfree : ph.holds = false → ph'.holds = true → Rest sh) :
    KeptRotation p sh (.logout ph) sh' (.logout ph') := by
  cases ph with
  | acquire =>
      cases e with
      | lock =>
          cases h
          exact .same hinv (fun _ => hfree rfl rfl) nofun
      | lockFails =>
          cases h
          exact .same hinv nofun nofun
      | _ => cases h
  | remove locked =>
      cases e with
      | remove =>
          cases h
          cases locked with
          | false => exact .spares hinv spares_removed trivial nofun
          | true =>
              exact .locked rfl rfl ⟨hinv.used, nofun⟩ rest_removed
                fun _ _ _ hk => hk
      | removeFails =>
          cases h
          cases locked with
          | false => exact .same hinv trivial nofun
          | true => exact .same hinv (hok rfl) fun _ => rfl
      | _ => cases h
  | ending removed =>
      cases e with
      | unlock =>
          cases h
          exact Kept.same hinv trivial fun _ _ => hok
      | _ => cases h
  | returned locked removed => cases h

-- ==== the result

theorem act_keptRotation {p : Nat} {e : Event} {ph ph' : Phase}
    (h : act p e sh ph = some (sh', ph')) (hrot : Rotating p e sh ph)
    (hinv : Accounted sh) (hok : ph.Rotates p sh)
    (hfree : ph.holds = false → ph'.holds = true → Rest sh) :
    KeptRotation p sh ph sh' ph' := by
  obtain ⟨rfl, rfl, rfl⟩ | ⟨cfg, skew, rfl, rfl, rfl, rfl⟩
    | ⟨cfg, rfl, rfl, rfl, rfl⟩ | ⟨rfl, rfl, rfl, rfl⟩
    | ⟨cfg, skew, e₁, ph₁, ph₂, rfl, rfl, hstep, rfl⟩
    | ⟨cfg, e₁, ph₁, ph₂, rfl, rfl, hstep, rfl⟩
    | ⟨e₁, ph₁, ph₂, rfl, rfl, hstep, rfl⟩ := act_cases h
  · cases hrot.1.1
  · exact .same hinv nofun nofun
  · refine .same hinv ?_ nofun
    show (LoginPhase.begin cfg).Rotates p sh' cfg
    unfold LoginPhase.begin
    split <;> trivial
  · exact .same hinv trivial nofun
  · exact ph₁.keptRotation hstep hrot hinv hok hfree
  · exact ph₁.keptRotation hstep hrot hinv hok hfree
  · exact ph₁.keptRotation hstep hinv hok hfree

/-- A cache that is found is at rest. -/
theorem rest_found (tokens : Option CachedTokens)
    (config : Option SavedConfig) (issued : List (Config × Tokens)) :
    Rest (.found tokens config issued) where
  cached := fun _ hk _ => if_pos hk
  latest := fun _ hc => congrArg (Option.map _) hc
  loggedOut := nofun

/-- In a cache that is found, everything is accounted for. -/
theorem accounted_found (tokens : Option CachedTokens)
    (config : Option SavedConfig) (issued : List (Config × Tokens)) :
    Accounted (.found tokens config issued) where
  used := nofun
  completed := fun _ hc => congrArg (Option.map _) hc

/-- The tokens that the call has from its refresh and has yet to
save. -/
def Phase.saving : Phase → Option Tokens
  | .ensure _ _ (.save fresh) => some fresh
  | _ => none

/-- The call that has the lock: the cache is at rest, or the call has
the latest pair, is about to save it, and there was no logout. -/
theorem Phase.Rotates.rest_or {p : Nat} {ph : Phase}
    (h : ph.Rotates p sh) (hin : ph.holds = true) :
    Rest sh ∨ ∃ fresh, ph.saving = some fresh
      ∧ sh.latest = some fresh.pair ∧ sh.loggedOut = false := by
  cases ph with
  | ensure cfg skew ph =>
      cases ph with
      | load locked => exact .inl (h hin)
      | loadConfig locked t named => exact .inl (h hin).1
      | check locked t => exact .inl (h hin).1
      | refresh t => exact .inl h.1
      | presented t => exact .inl h.1
      | save fresh => exact .inr ⟨fresh, rfl, h.2.2, h.1⟩
      | ending r => exact .inl h
      | acquire => cases hin
      | returned r => cases hin
  | login cfg ph =>
      cases ph with
      | saveTokens t => exact .inl h.1
      | saveConfig t => exact .inl h.1
      | ending r => exact .inl h
      | _ => cases hin
  | logout ph =>
      cases ph with
      | remove locked => exact .inl (h hin)
      | ending removed => exact .inl h
      | _ => cases hin
  | idle => cases hin
  | crashed => cases hin

/-- What is asked of a step, in the state in which it is taken. -/
def StepRotating (a : Nat × Event) (w : Processes) : Prop :=
  Rotating a.1 a.2 w.shared (w.calls a.1)

instance (a : Nat × Event) (w : Processes) :
    Decidable (StepRotating a w) :=
  inferInstanceAs (Decidable (Rotating _ _ _ _))

/-- From any cache, in every run without crashes and failing writes in
which each successful refresh gives a new refresh token, and a login a
new one or none: a refresh token with which a refresh succeeded is not
presented again; the pair in `tokens.json` is the one saved last, and no
later one exists unless the call that has the lock has it and is about
to save it; and once a `Logout` that had the lock has removed
`tokens.json`, it is not there until a login. -/
theorem rotation_serialised (tokens : Option CachedTokens)
    (config : Option SavedConfig) (issued : List (Config × Tokens))
    (es : List (Nat × Event)) (w : Processes)
    (hrun : run step es (.start (.found tokens config issued) .idle) = some w)
    (hrot : Along StepRotating step es
      (.start (.found tokens config issued) .idle)) :
    (∀ p w', step (p, .ensure .present) w = some w' →
      ∃ u, w'.shared.sent = w.shared.sent ++ [u]
        ∧ u ∉ w.shared.succeeded)
    ∧ (∀ cached, w.shared.tokens = some cached →
        w.shared.completed = some cached.tokens.pair
        ∧ (w.shared.latest = w.shared.completed
          ∨ ∃ p fresh, w.lock = some p
            ∧ (w.calls p).saving = some fresh
            ∧ w.shared.latest = some fresh.pair))
    ∧ (w.shared.loggedOut = true → w.shared.tokens = none) := by
  have hstart : (Pool.start (.found tokens config issued) .idle
      : Processes).Inv Phase.holds Accounted Rest Phase.Rotates :=
    ⟨fun _ => ⟨nofun, nofun⟩, accounted_found tokens config issued,
      fun _ => rest_found tokens config issued, fun _ => trivial⟩
  have hw := Pool.invariant (P := Rotating)
    (fun _ _ _ _ _ _ hact hP hinv hok hfree =>
      act_keptRotation hact hP hinv hok hfree) hrot hstart hrun
  have hrest : Rest w.shared ∨ ∃ p fresh, w.lock = some p
      ∧ (w.calls p).saving = some fresh
      ∧ w.shared.latest = some fresh.pair
      ∧ w.shared.loggedOut = false := by
    cases hlock : w.lock with
    | none => exact .inl (hw.free hlock)
    | some p =>
        refine ((hw.calls p).rest_or ((hw.mutex p).mp hlock)).imp_right ?_
        rintro ⟨fresh, hsaving⟩
        exact ⟨p, fresh, rfl, hsaving⟩
  refine ⟨fun p w' hstep => ?_, fun cached hc => ?_, fun hout => ?_⟩
  · obtain ⟨sh', ph', hact, -, rfl⟩ := Pool.step_cases hstep
    have hok := hw.calls p
    cases hp : w.calls p with
    | ensure cfg skew ph =>
        rw [hp] at hact hok
        cases ph with
        | refresh t =>
            cases hact
            refine ⟨(cfg, t.refreshToken), rfl, fun hmem => ?_⟩
            obtain ⟨-, -, hne, hat⟩ := hok
            exact nomatch (hat hne).symm.trans (hw.inv.used _ hmem)
        | _ => cases hact
    | _ =>
        rw [hp] at hact
        cases hact
  · have hcompleted := hw.inv.completed cached hc
    refine ⟨hcompleted, hrest.imp (fun h => ?_) ?_⟩
    · exact (h.latest cached hc).trans hcompleted.symm
    · rintro ⟨p, fresh, hlock, hsaving, hlatest, -⟩
      exact ⟨p, fresh, hlock, hsaving, hlatest⟩
  · refine (hrest.resolve_right ?_).loggedOut hout
    rintro ⟨p, fresh, -, -, -, hin⟩
    exact nomatch hin.symm.trans hout

/-- Two calls find the same expired tokens. The first refreshes them;
the second, which waited for the lock with the old ones in its hands,
presents the new refresh token, and a logout waits for it in turn. -/
theorem rotation_serialised_two :
    let es : List (Nat × Event) :=
      [(0, .ensureFreshTokens cfgA 0), (1, .ensureFreshTokens cfgA 0),
        (0, .ensure .read), (1, .ensure .read), (0, .ensure (.check 5)),
        (1, .ensure (.check 5)), (0, .ensure .lock), (0, .ensure .read),
        (0, .ensure (.check 5)), (0, .ensure .present), (2, .logout),
        (0, .ensure (.answer (answerOf "b") 5)), (0, .ensure .save),
        (0, .ensure .unlock), (1, .ensure .lock), (1, .ensure .read),
        (1, .ensure (.check (5 + 2 * hour)))]
    let start : Processes :=
      .start (.found (some ⟨tokensOf "a" 0, some cfgA.saved⟩) none
        [(cfgA, tokensOf "a" 0)]) .idle
    (∃ w, run step es start = some w
      ∧ (∃ w', step (1, .ensure .present) w = some w')
      ∧ ∀ w', step (1, .ensure .present) w = some w' →
          ∃ u, w'.shared.sent = w.shared.sent ++ [u]
            ∧ u ∉ w.shared.succeeded)
    ∧ ∃ w, run step (es ++ [(1, .ensure .present), (1, .ensure .refused),
          (1, .ensure .unlock), (2, .logoutStep .lock),
          (2, .logoutStep .remove)]) start = some w
        ∧ w.shared.tokens = none := by
  intro es start
  constructor
  · have hfacts : (run step es start).map
        (fun w => (step (1, .ensure .present) w).isSome) = some true := by
      decide +kernel
    obtain ⟨w, hw, hval⟩ := Option.map_eq_some_iff.mp hfacts
    obtain ⟨hpresent, -, -⟩ := rotation_serialised _ _ _ es w hw
      (by decide +kernel)
    exact ⟨w, hw, Option.isSome_iff_exists.mp hval, hpresent 1⟩
  · have hfacts : (run step (es ++ [(1, .ensure .present),
        (1, .ensure .refused), (1, .ensure .unlock),
        (2, .logoutStep .lock), (2, .logoutStep .remove)]) start).map
        (fun w => w.shared.loggedOut) = some true := by
      decide +kernel
    obtain ⟨w, hw, hval⟩ := Option.map_eq_some_iff.mp hfacts
    obtain ⟨-, -, hout⟩ := rotation_serialised _ _ _ _ w hw
      (by decide +kernel)
    exact ⟨w, hw, hout hval⟩

/-- What is asked of a step without the part on logins. -/
def StepRefreshesRotate (a : Nat × Event) (w : Processes) : Prop :=
  RefreshesRotate a.2 w.shared (w.calls a.1)

instance (a : Nat × Event) (w : Processes) :
    Decidable (StepRefreshesRotate a w) :=
  inferInstanceAs (Decidable (RefreshesRotate _ _ _))

/-- The part on logins is needed. A refresh uses up the refresh token
"a"; a login then gets "a" from the issuer once more and saves it, and
the next refresh presents it. -/
theorem login_revives_used_token :
    let es : List (Nat × Event) :=
      [(0, .ensureFreshTokens cfgA 0), (0, .ensure .read),
        (0, .ensure (.check 5)), (0, .ensure .lock), (0, .ensure .read),
        (0, .ensure (.check 5)), (0, .ensure .present),
        (0, .ensure (.answer (answerOf "b") 5)), (0, .ensure .save),
        (0, .ensure .unlock), (1, .login cfgA),
        (1, .loginStep (.answer (answerOf "a") 6)), (1, .loginStep .lock),
        (1, .loginStep .save), (1, .loginStep .save),
        (1, .loginStep .unlock), (2, .ensureFreshTokens cfgA 0),
        (2, .ensure .read), (2, .ensure (.check (5 + 2 * hour))),
        (2, .ensure .lock), (2, .ensure .read),
        (2, .ensure (.check (5 + 2 * hour)))]
    let start : Processes :=
      .start (.found (some ⟨tokensOf "a" 0, some cfgA.saved⟩) none
        [(cfgA, tokensOf "a" 0)]) .idle
    let u : Config × Text := (cfgA, .decode (ascii "a"))
    Along StepRefreshesRotate step es start
    ∧ ∃ w w', run step es start = some w
      ∧ step (2, .ensure .present) w = some w'
      ∧ w'.shared.sent = w.shared.sent ++ [u]
      ∧ u ∈ w.shared.succeeded := by
  intro es start u
  refine ⟨by decide +kernel, ?_⟩
  have hfacts : (run step es start).bind (fun w =>
      (step (2, .ensure .present) w).map fun w' =>
        decide (w'.shared.sent = w.shared.sent ++ [u]
          ∧ u ∈ w.shared.succeeded)) = some true := by
    decide +kernel
  obtain ⟨w, hw, hnext⟩ := Option.bind_eq_some_iff.mp hfacts
  obtain ⟨w', hw', hval⟩ := Option.map_eq_some_iff.mp hnext
  exact ⟨w, w', hw, hw', of_decide_eq_true hval⟩

end Tokyo3Base.OidcClient
