/-
The SSO cache that command-line helpers share (`auth/oidcclient`):
`tokens.json` and `config.json`, and the calls of `EnsureFreshTokens`,
`Login` and `Logout` by any number of processes.

# Granularity

One read of a file, one atomic rename, one removal, one request to the
issuer and one answer of it are one step each. The flock is the lock of
`Lib/Lock.lean`: a phase says whether a call in it holds the lock, and
the deferred unlock is a step of its own (`ending` to `returned`). A
call may stop at any point (`crash`), which gives the lock back.

# What the files hold

The files are JSON, so a string that was written is read back coerced
to valid UTF-8. The tokens come from JSON in the first place; the
configuration comes from the caller, and `Config.saved` is what of it
gets into a file. A file that is missing is `none`; one that cannot be
read or decoded is the event `readFails`.

# Bookkeeping

`issued`, `sent`, `succeeded`, `standing`, `latest`, `completed` and
`loggedOut` are for the statements. No code reads them: they say which
tokens each issuer gave to which client, which refresh tokens were sent
to whom, with which of them a refresh succeeded, where each refresh
token is now, which token pair is the latest one (a refresh's from its
answer on, a login's from its save on), which is the latest one that
was saved, and whether a `Logout` that had the lock removed the tokens
and no `Login` followed.
`loadConfig` also records what `config.json` named when `tokens.json`
was read.
-/
import Tokyo3Base.Go.Proofs.JSON
import Tokyo3Base.Go.Time
import Tokyo3Base.Lib.Lock

namespace Tokyo3Base.OidcClient

open Go

-- ==== the files

/-- `Config`, as a caller gives it. -/
structure Config where
  issuer : GoString
  clientID : GoString
deriving DecidableEq

/-- `Config`, as it was read from a file. -/
structure SavedConfig where
  issuer : Text
  clientID : Text
deriving DecidableEq

/-- What is read back once this was written. -/
def Config.saved (cfg : Config) : SavedConfig :=
  ⟨.decode cfg.issuer, .decode cfg.clientID⟩

def SavedConfig.config (saved : SavedConfig) : Config :=
  ⟨saved.issuer.val, saved.clientID.val⟩

/-- What was read from a file is written as it was. -/
@[simp] theorem SavedConfig.saved_config (c : SavedConfig) :
    c.config.saved = c := by
  obtain ⟨⟨issuer, raw, rfl⟩, ⟨clientID, raw', rfl⟩⟩ := c
  show SavedConfig.mk _ _ = SavedConfig.mk _ _
  rw [SavedConfig.mk.injEq]
  exact ⟨Subtype.ext (toValidUTF8_idem raw),
    Subtype.ext (toValidUTF8_idem raw')⟩

structure Tokens where
  accessToken : Text
  refreshToken : Text
  idToken : Text
  expiration : Int
deriving DecidableEq

/-- `cachedTokens`: tokens, and the configuration they are bound to. -/
structure CachedTokens where
  tokens : Tokens
  config : Option SavedConfig
deriving DecidableEq

/-- Why a call failed. -/
inductive CacheError where
  /-- the file could not be read or decoded -/
  | read
  /-- "no SSO cache at …; run login to authenticate" -/
  | noCache
  /-- "SSO cache issuer/client mismatch; run login again" -/
  | mismatch
  /-- "SSO cache is not bound to this issuer/client; run login again" -/
  | notBound
  /-- "lock token cache: …" -/
  | lock
  /-- "access token expired and no refresh token is cached (run login
  again)" -/
  | noRefreshToken
  /-- "refresh token failed: … (run login again)", or a failed login
  flow -/
  | refused
  /-- "save tokens: …", or a failed write of `Login` -/
  | save
  /-- "oidcclient.Login: Issuer and ClientID are required" -/
  | required
deriving DecidableEq

-- ==== pure parts of it

/-- The token endpoint's answer, decoded. -/
structure TokenResponse where
  accessToken : Text
  refreshToken : Text
  idToken : Text
  expiresIn : Option Int
deriving DecidableEq

def defaultTokenTTL : Int := hour

/-- `time.Duration(n) * time.Second`, which wraps around. -/
def seconds (n : Int) : Int := Int.bmod (n * second) UInt64.size

/-- `parseTokens`; `none` is "token endpoint returned no access_token". -/
def parseTokens (raw : TokenResponse) (now : Int) : Option Tokens :=
  if raw.accessToken.val = [] then none
  else some
    { accessToken := raw.accessToken
      refreshToken := raw.refreshToken
      idToken := raw.idToken
      expiration := now + (raw.expiresIn.map seconds).getD defaultTokenTTL }

/-- What `EnsureFreshTokens` saves: the refresh token and the ID token
of the cache are kept where the answer has none. -/
def keepOmitted (fresh cached : Tokens) : Tokens :=
  { fresh with
    refreshToken := if fresh.refreshToken.val = [] then
      cached.refreshToken else fresh.refreshToken
    idToken := if fresh.idToken.val = [] then cached.idToken
      else fresh.idToken }

/-- `time.Until(t.Expiration) >= accessSkew`. -/
def isFresh (t : Tokens) (accessSkew now : Int) : Bool :=
  accessSkew ≤ sub t.expiration now

/-- What `loadMatchingTokens` makes of `tokens.json`. -/
inductive Loaded where
  | rejected
  | matched (t : Tokens)
  /-- `config.json` has to be asked -/
  | unbound (t : Tokens)

/-- `loadMatchingTokens`, up to its read of `config.json`. -/
def checkBinding (cached : CachedTokens) (cfg : Config) : Loaded :=
  match cached.config with
  | some saved =>
      if saved.config ≠ cfg then .rejected else .matched cached.tokens
  | none => .unbound cached.tokens

/-- `LoadConfig`: the file has to name both. -/
def loadConfig (file : Option SavedConfig) : Option SavedConfig :=
  file.filter fun saved =>
    saved.issuer.val ≠ [] ∧ saved.clientID.val ≠ []

/-- `loadMatchingTokens`, its fallback on `config.json`. -/
def checkConfig (file : Option SavedConfig) (cfg : Config) : Bool :=
  (loadConfig file).any fun saved => saved.config = cfg

/-- A configuration that passes the check is the one that
`config.json` names. -/
theorem checkConfig_iff {file : Option SavedConfig} {cfg : Config} :
    checkConfig file cfg = true
      ↔ ∃ c, loadConfig file = some c ∧ c.config = cfg := by
  simp [checkConfig, Option.any_eq_true]

/-- `LoadConfig` gives what is in the file. -/
theorem eq_some_of_loadConfig {file : Option SavedConfig}
    {c : SavedConfig} (h : loadConfig file = some c) : file = some c :=
  (Option.filter_eq_some_iff.mp h).1

-- ==== bookkeeping

/-- A refresh token, with the issuer and client whose it is. -/
abbrev Credential := SavedConfig × Text

/-- Where a refresh token is. -/
inductive Standing where
  | unissued
  /-- call `p` got it from a login and has not saved it -/
  | atLogin (p : Nat)
  /-- it was saved, or is about to be by a call that holds the lock -/
  | cached
  /-- a refresh with it has succeeded -/
  | used
deriving DecidableEq

/-- The files, and the bookkeeping. -/
structure Shared where
  tokens : Option CachedTokens
  config : Option SavedConfig
  issued : List (Config × Tokens)
  sent : List (Config × Text)
  succeeded : List (Config × Text)
  standing : Credential → Standing
  latest : Option (Text × Text)
  completed : Option (Text × Text)
  loggedOut : Bool

/-- Access and refresh token. -/
def Tokens.pair (t : Tokens) : Text × Text :=
  (t.accessToken, t.refreshToken)

/-- The refresh token in `tokens.json`, with the configuration for which
it would be used. -/
def credential (tokens : Option CachedTokens)
    (config : Option SavedConfig) : Option Credential :=
  tokens.bind fun cached =>
    (cached.config.or config).map fun c => (c, cached.tokens.refreshToken)

/-- A cache as it is found, with what was issued before. -/
def Shared.found (tokens : Option CachedTokens)
    (config : Option SavedConfig) (issued : List (Config × Tokens)) :
    Shared where
  tokens := tokens
  config := config
  issued := issued
  sent := []
  succeeded := []
  standing := fun k =>
    if credential tokens config = some k then .cached else .unissued
  latest := tokens.map fun cached => cached.tokens.pair
  completed := tokens.map fun cached => cached.tokens.pair
  loggedOut := false

def Shared.setStanding (sh : Shared) (k : Credential) (at' : Standing) :
    Shared :=
  { sh with standing := Function.update sh.standing k at' }

-- ==== EnsureFreshTokens

/-- Where a call of `EnsureFreshTokens` is. The parts that it runs twice
say whether it has the lock. -/
inductive EnsurePhase where
  | load (locked : Bool)
  | loadConfig (locked : Bool) (t : Tokens) (named : Option SavedConfig)
  | check (locked : Bool) (t : Tokens)
  | acquire
  | refresh (t : Tokens)
  /-- the request is with the issuer -/
  | presented (t : Tokens)
  | save (fresh : Tokens)
  /-- about to unlock -/
  | ending (r : Except CacheError Tokens)
  | returned (r : Except CacheError Tokens)

inductive EnsureEvent where
  | read
  | readFails
  | check (now : Int)
  | lock
  | lockFails
  | present
  | answer (raw : TokenResponse) (now : Int)
  | refused
  | save
  | saveFails
  | unlock

/-- Return, through the deferred unlock if there is one. -/
def EnsurePhase.leave (locked : Bool) (r : Except CacheError Tokens) :
    EnsurePhase :=
  if locked then .ending r else .returned r

/-- The read of `tokens.json`. -/
def EnsurePhase.afterLoad (locked : Bool) (cfg : Config) (sh : Shared) :
    EnsurePhase :=
  match sh.tokens with
  | none => .leave locked (.error .noCache)
  | some cached =>
      match checkBinding cached cfg with
      | .rejected => .leave locked (.error .mismatch)
      | .matched t => .check locked t
      | .unbound t => .loadConfig locked t sh.config

/-- The read of `config.json`. -/
def EnsurePhase.afterLoadConfig (locked : Bool) (t : Tokens)
    (cfg : Config) (sh : Shared) : EnsurePhase :=
  if checkConfig sh.config cfg then .check locked t
  else .leave locked (.error .notBound)

/-- The decision once the tokens are known to match. -/
def EnsurePhase.afterCheck (locked : Bool) (t : Tokens)
    (accessSkew now : Int) : EnsurePhase :=
  if isFresh t accessSkew now then .leave locked (.ok t)
  else if locked then
    if t.refreshToken.val = [] then .ending (.error .noRefreshToken)
    else .refresh t
  else .acquire

/-- A successful refresh, at the issuer: the old refresh token is used
up, the new one is on its way to the cache. -/
def Shared.refreshed (sh : Shared) (cfg : Config) (old fresh : Tokens) :
    Shared :=
  { (sh.setStanding (cfg.saved, old.refreshToken) .used).setStanding
      (cfg.saved, fresh.refreshToken) .cached with
    issued := sh.issued ++ [(cfg, fresh)]
    succeeded := sh.succeeded ++ [(cfg, old.refreshToken)]
    latest := some fresh.pair }

/-- One event of a call `EnsureFreshTokens(cfg, accessSkew)`. -/
def EnsurePhase.step (cfg : Config) (accessSkew : Int) (e : EnsureEvent)
    (sh : Shared) (ph : EnsurePhase) : Option (Shared × EnsurePhase) :=
  match ph with
  | .load locked =>
      match e with
      | .read => some (sh, .afterLoad locked cfg sh)
      | .readFails => some (sh, .leave locked (.error .read))
      | _ => none
  | .loadConfig locked t _ =>
      match e with
      | .read => some (sh, .afterLoadConfig locked t cfg sh)
      | .readFails => some (sh, .leave locked (.error .notBound))
      | _ => none
  | .check locked t =>
      match e with
      | .check now => some (sh, .afterCheck locked t accessSkew now)
      | _ => none
  | .acquire =>
      match e with
      | .lock => some (sh, .load true)
      | .lockFails => some (sh, .returned (.error .lock))
      | _ => none
  | .refresh t =>
      match e with
      | .present => some
          ({ sh with sent := sh.sent ++ [(cfg, t.refreshToken)] },
            .presented t)
      | .refused => some (sh, .ending (.error .refused))
      | _ => none
  | .presented t =>
      match e with
      | .answer raw now =>
          match parseTokens raw now with
          | none => some (sh, .ending (.error .refused))
          | some fresh => some
              (sh.refreshed cfg t fresh, .save (keepOmitted fresh t))
      | .refused => some (sh, .ending (.error .refused))
      | _ => none
  | .save fresh =>
      match e with
      | .save => some
          ({ sh with
            tokens := some ⟨fresh, some cfg.saved⟩
            completed := some fresh.pair }, .ending (.ok fresh))
      | .saveFails => some (sh, .ending (.error .save))
      | _ => none
  | .ending r =>
      match e with
      | .unlock => some (sh, .returned r)
      | _ => none
  | .returned _ => none

def EnsurePhase.holds : EnsurePhase → Bool
  | .load locked | .loadConfig locked _ _ | .check locked _ => locked
  | .acquire | .returned _ => false
  | .refresh _ | .presented _ | .save _ | .ending _ => true

-- ==== Login

/-- Where a call of `Login` is. -/
inductive LoginPhase where
  /-- the code flow or the device flow, without the lock -/
  | flow
  | acquire (t : Tokens)
  | saveTokens (t : Tokens)
  | saveConfig (t : Tokens)
  | ending (r : Except CacheError Tokens)
  | returned (r : Except CacheError Tokens)

inductive LoginEvent where
  | answer (raw : TokenResponse) (now : Int)
  | refused
  | lock
  | lockFails
  | save
  | saveFails
  | unlock

/-- A login flow has ended: the new refresh token, if there is one, is
with the call. -/
def Shared.granted (sh : Shared) (p : Nat) (cfg : Config) (t : Tokens) :
    Shared :=
  { (if t.refreshToken.val = [] then sh
      else sh.setStanding (cfg.saved, t.refreshToken) (.atLogin p)) with
    issued := sh.issued ++ [(cfg, t)] }

/-- `saveTokens` of a login: it completes the login. -/
def Shared.loggedIn (sh : Shared) (cfg : Config) (t : Tokens) : Shared :=
  { (if t.refreshToken.val = [] then sh
      else sh.setStanding (cfg.saved, t.refreshToken) .cached) with
    tokens := some ⟨t, some cfg.saved⟩
    latest := some t.pair
    completed := some t.pair
    loggedOut := false }

/-- One event of call `p`, a call `Login(cfg)`. -/
def LoginPhase.step (p : Nat) (cfg : Config) (e : LoginEvent)
    (sh : Shared) (ph : LoginPhase) : Option (Shared × LoginPhase) :=
  match ph with
  | .flow =>
      match e with
      | .answer raw now =>
          match parseTokens raw now with
          | none => some (sh, .returned (.error .refused))
          | some t => some (sh.granted p cfg t, .acquire t)
      | .refused => some (sh, .returned (.error .refused))
      | _ => none
  | .acquire t =>
      match e with
      | .lock => some (sh, .saveTokens t)
      | .lockFails => some (sh, .returned (.error .lock))
      | _ => none
  | .saveTokens t =>
      match e with
      | .save => some (sh.loggedIn cfg t, .saveConfig t)
      | .saveFails => some (sh, .ending (.error .save))
      | _ => none
  | .saveConfig t =>
      match e with
      | .save => some
          ({ sh with config := some cfg.saved }, .ending (.ok t))
      | .saveFails => some (sh, .ending (.error .save))
      | _ => none
  | .ending r =>
      match e with
      | .unlock => some (sh, .returned r)
      | _ => none
  | .returned _ => none

def LoginPhase.holds : LoginPhase → Bool
  | .flow | .acquire _ | .returned _ => false
  | .saveTokens _ | .saveConfig _ | .ending _ => true

-- ==== Logout

/-- Where a call of `Logout` is. It goes on without the lock when it
cannot get it in time. -/
inductive LogoutPhase where
  | acquire
  | remove (locked : Bool)
  | ending (removed : Bool)
  | returned (locked removed : Bool)

inductive LogoutEvent where
  | lock
  | lockFails
  | remove
  | removeFails
  | unlock

def LogoutPhase.leave (locked removed : Bool) : LogoutPhase :=
  if locked then .ending removed else .returned false removed

def LogoutPhase.step (e : LogoutEvent) (sh : Shared) (ph : LogoutPhase) :
    Option (Shared × LogoutPhase) :=
  match ph with
  | .acquire =>
      match e with
      | .lock => some (sh, .remove true)
      | .lockFails => some (sh, .remove false)
      | _ => none
  | .remove locked =>
      match e with
      | .remove => some
          ({ sh with
            tokens := none
            loggedOut := sh.loggedOut || locked }, .leave locked true)
      | .removeFails => some (sh, .leave locked false)
      | _ => none
  | .ending removed =>
      match e with
      | .unlock => some (sh, .returned true removed)
      | _ => none
  | .returned _ _ => none

def LogoutPhase.holds : LogoutPhase → Bool
  | .acquire | .returned _ _ => false
  | .remove locked => locked
  | .ending _ => true

-- ==== the calls

/-- What a call is, and where it is. -/
inductive Phase where
  | idle
  | ensure (cfg : Config) (accessSkew : Int) (ph : EnsurePhase)
  | login (cfg : Config) (ph : LoginPhase)
  | logout (ph : LogoutPhase)
  | crashed

inductive Event where
  | ensureFreshTokens (cfg : Config) (accessSkew : Int)
  | login (cfg : Config)
  | logout
  | ensure (e : EnsureEvent)
  | loginStep (e : LoginEvent)
  | logoutStep (e : LogoutEvent)
  | crash

/-- The start of `Login`. -/
def LoginPhase.begin (cfg : Config) : LoginPhase :=
  if cfg.issuer = [] ∨ cfg.clientID = [] then .returned (.error .required)
  else .flow

/-- One event of call `p`. -/
def act (p : Nat) (e : Event) (sh : Shared) (ph : Phase) :
    Option (Shared × Phase) :=
  match e with
  | .crash => some (sh, .crashed)
  | .ensureFreshTokens cfg accessSkew =>
      match ph with
      | .idle => some (sh, .ensure cfg accessSkew (.load false))
      | _ => none
  | .login cfg =>
      match ph with
      | .idle => some (sh, .login cfg (.begin cfg))
      | _ => none
  | .logout =>
      match ph with
      | .idle => some (sh, .logout .acquire)
      | _ => none
  | .ensure e =>
      match ph with
      | .ensure cfg accessSkew ph =>
          (ph.step cfg accessSkew e sh).map fun r =>
            (r.1, .ensure cfg accessSkew r.2)
      | _ => none
  | .loginStep e =>
      match ph with
      | .login cfg ph =>
          (ph.step p cfg e sh).map fun r => (r.1, .login cfg r.2)
      | _ => none
  | .logoutStep e =>
      match ph with
      | .logout ph => (ph.step e sh).map fun r => (r.1, .logout r.2)
      | _ => none

/-- What an event of a call can be: a crash, the start of one of the
three, or a step of it. -/
theorem act_cases {p : Nat} {e : Event} {sh sh' : Shared}
    {ph ph' : Phase} (h : act p e sh ph = some (sh', ph')) :
    (e = .crash ∧ sh' = sh ∧ ph' = .crashed)
    ∨ (∃ cfg accessSkew, e = .ensureFreshTokens cfg accessSkew
        ∧ ph = .idle ∧ sh' = sh
        ∧ ph' = .ensure cfg accessSkew (.load false))
    ∨ (∃ cfg, e = .login cfg ∧ ph = .idle ∧ sh' = sh
        ∧ ph' = .login cfg (.begin cfg))
    ∨ (e = .logout ∧ ph = .idle ∧ sh' = sh ∧ ph' = .logout .acquire)
    ∨ (∃ cfg accessSkew e₁ ph₁ ph₂, e = .ensure e₁
        ∧ ph = .ensure cfg accessSkew ph₁
        ∧ ph₁.step cfg accessSkew e₁ sh = some (sh', ph₂)
        ∧ ph' = .ensure cfg accessSkew ph₂)
    ∨ (∃ cfg e₁ ph₁ ph₂, e = .loginStep e₁ ∧ ph = .login cfg ph₁
        ∧ ph₁.step p cfg e₁ sh = some (sh', ph₂)
        ∧ ph' = .login cfg ph₂)
    ∨ ∃ e₁ ph₁ ph₂, e = .logoutStep e₁ ∧ ph = .logout ph₁
        ∧ ph₁.step e₁ sh = some (sh', ph₂) ∧ ph' = .logout ph₂ := by
  cases e with
  | crash =>
      cases h
      exact .inl ⟨rfl, rfl, rfl⟩
  | ensureFreshTokens cfg skew =>
      cases ph with
      | idle =>
          cases h
          exact .inr (.inl ⟨cfg, skew, rfl, rfl, rfl, rfl⟩)
      | _ => cases h
  | login cfg =>
      cases ph with
      | idle =>
          cases h
          exact .inr (.inr (.inl ⟨cfg, rfl, rfl, rfl, rfl⟩))
      | _ => cases h
  | logout =>
      cases ph with
      | idle =>
          cases h
          exact .inr (.inr (.inr (.inl ⟨rfl, rfl, rfl, rfl⟩)))
      | _ => cases h
  | ensure e₁ =>
      cases ph with
      | ensure cfg skew ph₁ =>
          obtain ⟨⟨sh₁, ph₂⟩, hstep, heq⟩ := Option.map_eq_some_iff.mp h
          cases heq
          exact .inr (.inr (.inr (.inr (.inl
            ⟨cfg, skew, e₁, ph₁, ph₂, rfl, rfl, hstep, rfl⟩))))
      | _ => cases h
  | loginStep e₁ =>
      cases ph with
      | login cfg ph₁ =>
          obtain ⟨⟨sh₁, ph₂⟩, hstep, heq⟩ := Option.map_eq_some_iff.mp h
          cases heq
          exact .inr (.inr (.inr (.inr (.inr (.inl
            ⟨cfg, e₁, ph₁, ph₂, rfl, rfl, hstep, rfl⟩)))))
      | _ => cases h
  | logoutStep e₁ =>
      cases ph with
      | logout ph₁ =>
          obtain ⟨⟨sh₁, ph₂⟩, hstep, heq⟩ := Option.map_eq_some_iff.mp h
          cases heq
          exact .inr (.inr (.inr (.inr (.inr (.inr
            ⟨e₁, ph₁, ph₂, rfl, rfl, hstep, rfl⟩)))))
      | _ => cases h

def Phase.holds : Phase → Bool
  | .idle | .crashed => false
  | .ensure _ _ ph => ph.holds
  | .login _ ph => ph.holds
  | .logout ph => ph.holds

/-- The processes' calls over one cache. -/
abbrev Processes := Lib.Pool Shared Phase

/-- One event of one call. -/
def step (a : Nat × Event) (w : Processes) : Option Processes :=
  Lib.Pool.step Phase.holds act a w

-- ==== sample values

/-- Two issuers. -/
def cfgA : Config := ⟨ascii "https://a", ascii "cli"⟩
def cfgB : Config := ⟨ascii "https://b", ascii "cli"⟩

/-- Tokens with this letter in them, that expire at this time. -/
def tokensOf (letter : String) (expiration : Int) : Tokens :=
  ⟨.decode (ascii letter), .decode (ascii letter), .decode [],
    expiration⟩

/-- An answer with this letter in it, good for an hour. -/
def answerOf (letter : String) : TokenResponse :=
  ⟨.decode (ascii letter), .decode (ascii letter), .decode [], none⟩

end Tokyo3Base.OidcClient
