/-
Whose tokens `EnsureFreshTokens(cfg)` returns, and to whom it sends a
refresh token.

# The argument

Tokens are issued by an issuer to a client. `Provenance` says that the
files tell the truth about this: bound tokens are from the issuer and
client they name, unbound ones from those that `config.json` names.
Every rename keeps it, since a login renames `tokens.json`, bound,
before `config.json`.

What a call knows while it runs (`Ok`) is about the tokens it has read.
Bound tokens carry their issuer with them. Unbound tokens are judged by
`config.json`, and what that file named when the tokens were read
(`named`) is what they are from. Under the lock `config.json` does not
change between the two reads. Without the lock it may: a login can
rename both files in between, and the call then finds its own
configuration there with tokens of another issuer in its hands. So the
result is for runs in which no unlocked call falls into that gap
(`ReadTogether`), and `config_swapped_between_reads` is a run that does.
-/
import Tokyo3Base.OidcClient.Cache

namespace Tokyo3Base.OidcClient

open Go Lib

-- ==== who issued what

/-- This issuer gave this client an answer with this part. -/
def Gave (issued : List (Config × Tokens)) (cfg : Config)
    (part : Tokens → Text) (x : Text) : Prop :=
  ∃ u ∈ issued, u.1 = cfg ∧ part u.2 = x

instance (issued : List (Config × Tokens)) (cfg : Config)
    (part : Tokens → Text) (x : Text) :
    Decidable (Gave issued cfg part x) :=
  inferInstanceAs (Decidable (∃ u ∈ issued, u.1 = cfg ∧ part u.2 = x))

/-- This issuer gave this client each of these tokens. -/
structure IssuedTo (issued : List (Config × Tokens)) (cfg : Config)
    (t : Tokens) : Prop where
  access : Gave issued cfg Tokens.accessToken t.accessToken
  refresh : t.refreshToken.val ≠ [] →
    Gave issued cfg Tokens.refreshToken t.refreshToken
  id : t.idToken.val ≠ [] → Gave issued cfg Tokens.idToken t.idToken

variable {issued issued' : List (Config × Tokens)} {cfg : Config}
  {t : Tokens}

theorem Gave.mono {part : Tokens → Text} {x : Text}
    (h : Gave issued cfg part x) (hsub : issued ⊆ issued') :
    Gave issued' cfg part x := by
  obtain ⟨u, hu, hux⟩ := h
  exact ⟨u, hsub hu, hux⟩

theorem IssuedTo.mono (h : IssuedTo issued cfg t)
    (hsub : issued ⊆ issued') : IssuedTo issued' cfg t where
  access := h.access.mono hsub
  refresh := fun hne => (h.refresh hne).mono hsub
  id := fun hne => (h.id hne).mono hsub

/-- An answer is issued once it is given. -/
theorem issuedTo_snoc (issued : List (Config × Tokens)) (cfg : Config)
    (t : Tokens) : IssuedTo (issued ++ [(cfg, t)]) cfg t := by
  have hmem : (cfg, t) ∈ issued ++ [(cfg, t)] :=
    List.mem_append_right _ (List.mem_singleton_self _)
  exact ⟨⟨_, hmem, rfl, rfl⟩, fun _ => ⟨_, hmem, rfl, rfl⟩,
    fun _ => ⟨_, hmem, rfl, rfl⟩⟩

/-- Tokens completed from older ones of the same issuer. -/
theorem IssuedTo.keepOmitted {fresh : Tokens}
    (hfresh : IssuedTo issued cfg fresh) (ht : IssuedTo issued cfg t) :
    IssuedTo issued cfg (keepOmitted fresh t) where
  access := hfresh.access
  refresh := by
    unfold OidcClient.keepOmitted
    dsimp only
    split
    · exact ht.refresh
    · exact hfresh.refresh
  id := by
    unfold OidcClient.keepOmitted
    dsimp only
    split
    · exact ht.id
    · exact hfresh.id

-- ==== the files

/-- The files tell whose the tokens are, and no refresh token was sent
to another than its issuer. -/
structure Provenance (sh : Shared) : Prop where
  bound : ∀ cached c, sh.tokens = some cached →
    cached.config = some c → IssuedTo sh.issued c.config cached.tokens
  unbound : ∀ cached c, sh.tokens = some cached →
    cached.config = none → loadConfig sh.config = some c →
    IssuedTo sh.issued c.config cached.tokens
  sent : ∀ u ∈ sh.sent, Gave sh.issued u.1 Tokens.refreshToken u.2

/-- The configuration is one that a file can name. -/
def Config.Storable (cfg : Config) : Prop := cfg.saved.config = cfg

instance (cfg : Config) : Decidable cfg.Storable :=
  inferInstanceAs (Decidable (cfg.saved.config = cfg))

/-- What a file names is storable. -/
theorem SavedConfig.storable (c : SavedConfig) : c.config.Storable :=
  congrArg SavedConfig.config c.saved_config

/-- The tokens a call goes on with: its own issuer's, under a
configuration that can be saved. -/
structure Matched (issued : List (Config × Tokens)) (cfg : Config)
    (t : Tokens) : Prop where
  issued : IssuedTo issued cfg t
  storable : cfg.Storable

theorem Matched.mono (h : Matched issued cfg t)
    (hsub : issued ⊆ issued') : Matched issued' cfg t :=
  ⟨h.issued.mono hsub, h.storable⟩

-- ==== the calls

/-- What is known of a call in `EnsureFreshTokens(cfg)`. -/
def EnsurePhase.Ok (sh : Shared) (cfg : Config) : EnsurePhase → Prop
  | .load _ | .acquire => True
  | .loadConfig locked t named =>
      (checkConfig named cfg = true → Matched sh.issued cfg t)
        ∧ (locked = true → sh.config = named)
  | .refresh t => Matched sh.issued cfg t ∧ t.refreshToken.val ≠ []
  | .check _ t | .presented t | .save t => Matched sh.issued cfg t
  | .ending r | .returned r => ∀ t, r = .ok t → Matched sh.issued cfg t

/-- What is known of a call in `Login(cfg)`. -/
def LoginPhase.Ok (sh : Shared) (cfg : Config) : LoginPhase → Prop
  | .flow => cfg.Storable
  | .acquire t | .saveTokens t => Matched sh.issued cfg t
  | .saveConfig _ =>
      ∀ cached, sh.tokens = some cached → cached.config ≠ none
  | .ending _ | .returned _ => True

/-- What is known of a call. -/
def Phase.Ok (_ : Nat) (sh : Shared) : Phase → Prop
  | .ensure cfg _ ph => ph.Ok sh cfg
  | .login cfg ph => ph.Ok sh cfg
  | _ => True

/-- The configuration of a login that begins. -/
def Event.logsIn : Event → Option Config
  | .login cfg => some cfg
  | _ => none

/-- A call that reads `config.json` without the lock: its own
configuration, and what the file named when it read `tokens.json`. -/
def Phase.betweenReads (e : Event) (ph : Phase) :
    Option (Config × Option SavedConfig) :=
  match e, ph with
  | .ensure .read, .ensure cfg _ (.loadConfig false _ named) =>
      some (cfg, named)
  | _, _ => none

/-- What is asked of the runs: a login's configuration survives being
written to a file, and a call that goes on to `config.json` without the
lock and finds its own configuration there would have found it when it
read `tokens.json`. -/
def ReadTogether (_ : Nat) (e : Event) (sh : Shared) (ph : Phase) :
    Prop :=
  (∀ cfg ∈ e.logsIn, cfg.Storable)
    ∧ ∀ gap ∈ ph.betweenReads e, checkConfig sh.config gap.1 = true →
        checkConfig gap.2 gap.1 = true

instance (p : Nat) (e : Event) (sh : Shared) (ph : Phase) :
    Decidable (ReadTogether p e sh ph) :=
  inferInstanceAs (Decidable (_ ∧ _))

variable {sh sh' : Shared}

/-- What a call knows stays true under the steps of others: tokens stay
issued, and under the lock nobody else renames a file. -/
theorem EnsurePhase.Ok.mono {ph : EnsurePhase} (h : ph.Ok sh cfg)
    (hsub : sh.issued ⊆ sh'.issued)
    (hconfig : ph.holds = true → sh'.config = sh.config) :
    ph.Ok sh' cfg := by
  cases ph with
  | load locked => trivial
  | acquire => trivial
  | loadConfig locked t named =>
      exact ⟨fun hn => (h.1 hn).mono hsub,
        fun hl => (hconfig hl).trans (h.2 hl)⟩
  | check locked t => exact Matched.mono h hsub
  | refresh t => exact ⟨h.1.mono hsub, h.2⟩
  | presented t => exact Matched.mono h hsub
  | save t => exact Matched.mono h hsub
  | ending r => exact fun t ht => (h t ht).mono hsub
  | returned r => exact fun t ht => (h t ht).mono hsub

theorem LoginPhase.Ok.mono {ph : LoginPhase} (h : ph.Ok sh cfg)
    (hsub : sh.issued ⊆ sh'.issued)
    (htokens : ph.holds = true →
      ∀ cached, sh'.tokens = some cached → sh.tokens = some cached) :
    ph.Ok sh' cfg := by
  cases ph with
  | flow => exact h
  | acquire t => exact Matched.mono h hsub
  | saveTokens t => exact Matched.mono h hsub
  | saveConfig t => exact fun cached hc => h cached (htokens rfl cached hc)
  | ending r => trivial
  | returned r => trivial

/-- A step that a call takes keeps what the others know, if no file is
renamed without the lock. -/
theorem Phase.Ok.mono {q : Nat} {other : Phase} (h : other.Ok q sh)
    (hsub : sh.issued ⊆ sh'.issued)
    (hfiles : other.holds = true → sh'.config = sh.config
      ∧ ∀ cached, sh'.tokens = some cached → sh.tokens = some cached) :
    other.Ok q sh' := by
  cases other with
  | ensure cfg skew ph =>
      exact EnsurePhase.Ok.mono h hsub fun hh => (hfiles hh).1
  | login cfg ph =>
      exact LoginPhase.Ok.mono h hsub fun hh => (hfiles hh).2
  | _ => trivial

-- ==== what steps keep

abbrev KeptIssuer (p : Nat) (sh : Shared) (ph : Phase) (sh' : Shared)
    (ph' : Phase) : Prop :=
  Kept Phase.holds Provenance (fun _ => True) Phase.Ok p sh ph sh' ph'

/-- A step that changes none of the files or the bookkeeping. -/
theorem KeptIssuer.same {p : Nat} {ph ph' : Phase}
    (hinv : Provenance sh) (hown : ph'.Ok p sh) :
    KeptIssuer p sh ph sh ph' :=
  Kept.same hinv hown fun _ _ => trivial

theorem KeptIssuer.of {p : Nat} {ph ph' : Phase} (hinv : Provenance sh')
    (hown : ph'.Ok p sh') (hsub : sh.issued ⊆ sh'.issued)
    (hfiles : ph.holds = true ∨ sh'.config = sh.config
      ∧ ∀ cached, sh'.tokens = some cached → sh.tokens = some cached) :
    KeptIssuer p sh ph sh' ph' where
  inv := hinv
  own := hown
  free := fun _ _ => trivial
  others := by
    intro q _ other hexcl hok
    refine hok.mono hsub fun hh => hfiles.resolve_left fun hph => ?_
    exact nomatch (hexcl hh).1.symm.trans hph

/-- More was issued; the files are as they were. -/
theorem Provenance.grow (h : Provenance sh)
    (hsub : sh.issued ⊆ sh'.issued) (htokens : sh'.tokens = sh.tokens)
    (hconfig : sh'.config = sh.config) (hsent : sh'.sent = sh.sent) :
    Provenance sh' where
  bound := fun cached c hc hb =>
    (h.bound cached c (htokens ▸ hc) hb).mono hsub
  unbound := fun cached c hc hb hl =>
    (h.unbound cached c (htokens ▸ hc) hb (hconfig ▸ hl)).mono hsub
  sent := fun u hu => (h.sent u (hsent ▸ hu)).mono hsub

/-- A refresh token goes to its issuer. -/
theorem Provenance.present (h : Provenance sh) {r : Text}
    (hr : Gave sh.issued cfg Tokens.refreshToken r) :
    Provenance { sh with sent := sh.sent ++ [(cfg, r)] } where
  bound := h.bound
  unbound := h.unbound
  sent := by
    intro u hu
    rcases List.mem_append.mp hu with hu | hu
    · exact h.sent u hu
    · cases List.mem_singleton.mp hu
      exact hr

/-- `tokens.json` now holds tokens bound to their issuer. -/
theorem Provenance.renamed (h : Provenance sh) {c : SavedConfig}
    (htokens : sh'.tokens = some ⟨t, some c⟩)
    (hissued : sh'.issued = sh.issued) (hsent : sh'.sent = sh.sent)
    (ht : IssuedTo sh.issued c.config t) : Provenance sh' where
  bound := by
    intro cached c' hc hb
    rw [htokens] at hc
    cases hc
    cases hb
    rw [hissued]
    exact ht
  unbound := by
    intro cached c' hc hb
    rw [htokens] at hc
    cases hc
    cases hb
  sent := fun u hu => hissued ▸ h.sent u (hsent ▸ hu)

/-- Leaving with an error. -/
theorem EnsurePhase.ok_leave_error (sh : Shared) (cfg : Config)
    (locked : Bool) (err : CacheError) :
    (EnsurePhase.leave locked (.error err)).Ok sh cfg := by
  cases locked <;> exact fun _ h => nomatch h

/-- Leaving with tokens. -/
theorem EnsurePhase.ok_leave {locked : Bool} (h : Matched sh.issued cfg t) :
    (EnsurePhase.leave locked (.ok t)).Ok sh cfg := by
  cases locked <;>
  · intro t' ht'
    cases ht'
    exact h

/-- The read of `tokens.json`: bound tokens that match are the
issuer's, unbound ones are those of whoever `config.json` names. -/
theorem EnsurePhase.ok_afterLoad (h : Provenance sh) (locked : Bool) :
    (EnsurePhase.afterLoad locked cfg sh).Ok sh cfg := by
  unfold EnsurePhase.afterLoad
  cases htokens : sh.tokens with
  | none => exact ok_leave_error sh cfg locked _
  | some cached =>
      dsimp only
      unfold checkBinding
      cases hconfig : cached.config with
      | some c =>
          dsimp only
          by_cases hne : c.config ≠ cfg
          · rw [if_pos hne]
            exact ok_leave_error sh cfg locked _
          · rw [if_neg hne]
            have heq : c.config = cfg := not_not.mp hne
            exact heq ▸ ⟨h.bound cached c htokens hconfig, c.storable⟩
      | none =>
          refine ⟨fun hnamed => ?_, fun _ => rfl⟩
          obtain ⟨c, hload, rfl⟩ := checkConfig_iff.mp hnamed
          exact ⟨h.unbound cached c htokens hconfig hload, c.storable⟩

/-- The read of `config.json`. -/
theorem EnsurePhase.ok_afterLoadConfig {locked : Bool}
    (h : checkConfig sh.config cfg = true → Matched sh.issued cfg t) :
    (EnsurePhase.afterLoadConfig locked t cfg sh).Ok sh cfg := by
  unfold EnsurePhase.afterLoadConfig
  split
  · rename_i hcheck
    exact h hcheck
  · exact ok_leave_error sh cfg locked _

/-- The decision. -/
theorem EnsurePhase.ok_afterCheck {locked : Bool} {skew now : Int}
    (h : Matched sh.issued cfg t) :
    (EnsurePhase.afterCheck locked t skew now).Ok sh cfg := by
  unfold EnsurePhase.afterCheck
  split
  · exact ok_leave h
  · split
    · split
      · exact fun _ h => nomatch h
      · rename_i hne
        exact ⟨h, hne⟩
    · trivial

theorem EnsurePhase.kept {p : Nat} {skew : Int} {e : EnsureEvent}
    {ph ph' : EnsurePhase}
    (h : ph.step cfg skew e sh = some (sh', ph'))
    (hread : ReadTogether p (.ensure e) sh (.ensure cfg skew ph))
    (hinv : Provenance sh) (hok : ph.Ok sh cfg) :
    KeptIssuer p sh (.ensure cfg skew ph) sh' (.ensure cfg skew ph') := by
  cases ph with
  | load locked =>
      cases e with
      | read =>
          cases h
          exact .same hinv (ok_afterLoad hinv locked)
      | readFails =>
          cases h
          exact .same hinv (ok_leave_error sh cfg locked _)
      | _ => cases h
  | loadConfig locked t named =>
      cases e with
      | read =>
          cases h
          refine .same hinv (ok_afterLoadConfig fun hnow => hok.1 ?_)
          -- what the file names now, it named at the first read
          cases locked with
          | true => exact hok.2 rfl ▸ hnow
          | false => exact hread.2 (cfg, named) rfl hnow
      | readFails =>
          cases h
          exact .same hinv (ok_leave_error sh cfg locked _)
      | _ => cases h
  | check locked t =>
      cases e with
      | check now =>
          cases h
          exact .same hinv (ok_afterCheck hok)
      | _ => cases h
  | acquire =>
      cases e with
      | lock =>
          cases h
          exact .same hinv trivial
      | lockFails =>
          cases h
          exact .same hinv fun _ h => nomatch h
      | _ => cases h
  | refresh t =>
      cases e with
      | present =>
          cases h
          exact .of (hinv.present (hok.1.issued.refresh hok.2)) hok.1
            (fun _ hu => hu) (.inl rfl)
      | refused =>
          cases h
          exact .same hinv fun _ h => nomatch h
      | _ => cases h
  | presented t =>
      cases e with
      | answer raw now =>
          cases hparse : parseTokens raw now with
          | none =>
              simp only [EnsurePhase.step, hparse] at h
              cases h
              exact .same hinv fun _ h => nomatch h
          | some fresh =>
              simp only [EnsurePhase.step, hparse] at h
              cases h
              have hsub : sh.issued ⊆ sh.issued ++ [(cfg, fresh)] :=
                List.subset_append_left _ _
              have ht := (issuedTo_snoc sh.issued cfg fresh).keepOmitted
                (hok.issued.mono hsub)
              exact .of (hinv.grow hsub rfl rfl rfl) ⟨ht, hok.storable⟩
                hsub (.inl rfl)
      | refused =>
          cases h
          exact .same hinv fun _ h => nomatch h
      | _ => cases h
  | save fresh =>
      cases e with
      | save =>
          cases h
          have ht : IssuedTo sh.issued cfg.saved.config fresh :=
            hok.storable.symm ▸ hok.issued
          refine .of (hinv.renamed rfl rfl rfl ht) ?_ (fun _ hu => hu)
            (.inl rfl)
          intro t ht
          cases ht
          exact hok
      | saveFails =>
          cases h
          exact .same hinv fun _ h => nomatch h
      | _ => cases h
  | ending r =>
      cases e with
      | unlock =>
          cases h
          exact .same hinv hok
      | _ => cases h
  | returned r => cases h

/-- Getting tokens leaves the files alone. -/
theorem Shared.files_granted (sh : Shared) (p : Nat) (cfg : Config)
    (t : Tokens) : (sh.granted p cfg t).tokens = sh.tokens
      ∧ (sh.granted p cfg t).config = sh.config
      ∧ (sh.granted p cfg t).sent = sh.sent := by
  unfold Shared.granted
  split <;> exact ⟨rfl, rfl, rfl⟩

/-- Saving them issues and sends nothing. -/
theorem Shared.issued_loggedIn (sh : Shared) (cfg : Config)
    (t : Tokens) : (sh.loggedIn cfg t).issued = sh.issued
      ∧ (sh.loggedIn cfg t).sent = sh.sent := by
  unfold Shared.loggedIn
  split <;> exact ⟨rfl, rfl⟩

theorem LoginPhase.kept {p : Nat} {e : LoginEvent}
    {ph ph' : LoginPhase} (h : ph.step p cfg e sh = some (sh', ph'))
    (hinv : Provenance sh) (hok : ph.Ok sh cfg) :
    KeptIssuer p sh (.login cfg ph) sh' (.login cfg ph') := by
  cases ph with
  | flow =>
      cases e with
      | answer raw now =>
          cases hparse : parseTokens raw now with
          | none =>
              simp only [LoginPhase.step, hparse] at h
              cases h
              exact .same hinv trivial
          | some t =>
              simp only [LoginPhase.step, hparse] at h
              cases h
              obtain ⟨htokens, hconfig, hsent⟩ :=
                sh.files_granted p cfg t
              have hsub : sh.issued ⊆ (sh.granted p cfg t).issued :=
                List.subset_append_left _ _
              exact .of (hinv.grow hsub htokens hconfig hsent)
                ⟨issuedTo_snoc sh.issued cfg t, hok⟩ hsub
                (.inr ⟨hconfig, fun _ hc => htokens ▸ hc⟩)
      | refused =>
          cases h
          exact .same hinv trivial
      | _ => cases h
  | acquire t =>
      cases e with
      | lock =>
          cases h
          exact .same hinv hok
      | lockFails =>
          cases h
          exact .same hinv trivial
      | _ => cases h
  | saveTokens t =>
      cases e with
      | save =>
          cases h
          have ht : IssuedTo sh.issued cfg.saved.config t :=
            hok.storable.symm ▸ hok.issued
          obtain ⟨hissued, hsent⟩ := sh.issued_loggedIn cfg t
          refine .of (hinv.renamed rfl hissued hsent ht) ?_
            (fun _ hu => hissued.symm ▸ hu) (.inl rfl)
          intro cached hc
          cases hc
          nofun
      | saveFails =>
          cases h
          exact .same hinv trivial
      | _ => cases h
  | saveConfig t =>
      cases e with
      | save =>
          cases h
          -- `tokens.json` is bound by now, so it does not matter to whom
          -- `config.json` belongs
          refine .of ⟨hinv.bound, fun cached c hc hb => ?_, hinv.sent⟩
            trivial (fun _ hu => hu) (.inl rfl)
          exact absurd hb (hok cached hc)
      | saveFails =>
          cases h
          exact .same hinv trivial
      | _ => cases h
  | ending r =>
      cases e with
      | unlock =>
          cases h
          exact .same hinv trivial
      | _ => cases h
  | returned r => cases h

/-- Every step of `Logout`. -/
theorem LogoutPhase.kept {p : Nat} {e : LogoutEvent}
    {ph ph' : LogoutPhase} (h : ph.step e sh = some (sh', ph'))
    (hinv : Provenance sh) :
    KeptIssuer p sh (.logout ph) sh' (.logout ph') := by
  cases ph with
  | acquire =>
      cases e with
      | lock =>
          cases h
          exact .same hinv trivial
      | lockFails =>
          cases h
          exact .same hinv trivial
      | _ => cases h
  | remove locked =>
      cases e with
      | remove =>
          cases h
          exact .of ⟨fun _ _ => nofun, fun _ _ => nofun, hinv.sent⟩
            trivial (fun _ hu => hu) (.inr ⟨rfl, fun _ => nofun⟩)
      | removeFails =>
          cases h
          exact .same hinv trivial
      | _ => cases h
  | ending removed =>
      cases e with
      | unlock =>
          cases h
          exact .same hinv trivial
      | _ => cases h
  | returned locked removed => cases h

theorem act_keptIssuer {p : Nat} {e : Event} {ph ph' : Phase}
    (h : act p e sh ph = some (sh', ph'))
    (hread : ReadTogether p e sh ph) (hinv : Provenance sh)
    (hok : ph.Ok p sh) : KeptIssuer p sh ph sh' ph' := by
  obtain ⟨rfl, rfl, rfl⟩ | ⟨cfg, skew, rfl, rfl, rfl, rfl⟩
    | ⟨cfg, rfl, rfl, rfl, rfl⟩ | ⟨rfl, rfl, rfl, rfl⟩
    | ⟨cfg, skew, e₁, ph₁, ph₂, rfl, rfl, hstep, rfl⟩
    | ⟨cfg, e₁, ph₁, ph₂, rfl, rfl, hstep, rfl⟩
    | ⟨e₁, ph₁, ph₂, rfl, rfl, hstep, rfl⟩ := act_cases h
  · exact .same hinv trivial
  · exact .same hinv trivial
  · refine .same hinv ?_
    show (LoginPhase.begin cfg).Ok sh' cfg
    unfold LoginPhase.begin
    split
    · trivial
    · exact hread.1 cfg rfl
  · exact .same hinv trivial
  · exact ph₁.kept hstep hread hinv hok
  · exact ph₁.kept hstep hinv hok
  · exact ph₁.kept hstep hinv

-- ==== the result

/-- What is asked of a step, in the state in which it is taken. -/
def StepReadTogether (a : Nat × Event) (w : Processes) : Prop :=
  ReadTogether a.1 a.2 w.shared (w.calls a.1)

instance (a : Nat × Event) (w : Processes) :
    Decidable (StepReadTogether a w) :=
  inferInstanceAs (Decidable (ReadTogether _ _ _ _))

/-- From any cache whose files tell whose the tokens are, in every run
whose logins can be stored and whose unlocked calls do not read the two
files around a login's rename: tokens that a call returns were given by
its issuer to its client, and a refresh token was sent only to the
issuer that gave it to this client. -/
theorem tokens_from_their_issuer (tokens : Option CachedTokens)
    (config : Option SavedConfig) (issued : List (Config × Tokens))
    (hfound : Provenance (.found tokens config issued))
    (es : List (Nat × Event)) (w : Processes)
    (hrun : run step es (.start (.found tokens config issued) .idle) = some w)
    (hread : Along StepReadTogether step es
      (.start (.found tokens config issued) .idle)) :
    (∀ p cfg skew t, w.calls p = .ensure cfg skew (.returned (.ok t)) →
      IssuedTo w.shared.issued cfg t)
    ∧ ∀ u ∈ w.shared.sent,
        Gave w.shared.issued u.1 Tokens.refreshToken u.2 := by
  have hstart : (Pool.start (.found tokens config issued) .idle
      : Processes).Inv Phase.holds Provenance (fun _ => True) Phase.Ok :=
    ⟨fun _ => ⟨nofun, nofun⟩, hfound, fun _ => trivial,
      fun _ => trivial⟩
  have hw := Pool.invariant (P := ReadTogether)
    (fun _ _ _ _ _ _ hact hP hinv hok _ =>
      act_keptIssuer hact hP hinv hok) hread hstart hrun
  refine ⟨fun p cfg skew t hp => ?_, hw.inv.sent⟩
  have hok := hw.calls p
  rw [hp] at hok
  exact (hok t rfl).issued

section Examples

/-- The tokens a call has returned, and for whom. -/
def Phase.returnedTokens : Phase → Option (Config × Tokens)
  | .ensure cfg _ (.returned (.ok t)) => some (cfg, t)
  | _ => none

theorem Phase.of_returnedTokens {ph : Phase}
    (h : ph.returnedTokens = some (cfg, t)) :
    ∃ skew, ph = .ensure cfg skew (.returned (.ok t)) := by
  unfold Phase.returnedTokens at h
  split at h
  · cases h
    exact ⟨_, rfl⟩
  · cases h

/-- A cache from before binding existed. -/
def unboundA (expiration : Int) : Shared :=
  .found (some ⟨tokensOf "a" expiration, none⟩) (some cfgA.saved)
    [(cfgA, tokensOf "a" expiration)]

theorem provenance_unboundA (expiration : Int) :
    Provenance (unboundA expiration) where
  bound := by
    intro cached c hc hb
    cases hc
    cases hb
  unbound := by
    intro cached c hc _ hl
    cases hc
    have hA : loadConfig (some cfgA.saved) = some cfgA.saved := by
      decide +kernel
    cases hA.symm.trans hl
    have hconfig : cfgA.saved.config = cfgA := by decide +kernel
    rw [hconfig]
    exact issuedTo_snoc [] cfgA _
  sent := fun _ hu => nomatch hu

/-- A call refreshes the old tokens of one issuer while a login to the
other is under way; a second call then asks for the other's. -/
theorem tokens_from_their_issuer_refresh :
    let es : List (Nat × Event) :=
      [(0, .ensureFreshTokens cfgA 0), (1, .login cfgB),
        (0, .ensure .read), (0, .ensure .read), (0, .ensure (.check 5)),
        (0, .ensure .lock), (1, .loginStep (.answer (answerOf "b") 5)),
        (0, .ensure .read), (0, .ensure .read), (0, .ensure (.check 5)),
        (0, .ensure .present), (0, .ensure (.answer (answerOf "c") 5)),
        (0, .ensure .save), (0, .ensure .unlock), (1, .loginStep .lock),
        (1, .loginStep .save), (2, .ensureFreshTokens cfgB 0),
        (2, .ensure .read), (1, .loginStep .save),
        (2, .ensure (.check 6))]
    ∃ w, run step es (.start (unboundA 0) .idle) = some w
      ∧ IssuedTo w.shared.issued cfgA (tokensOf "c" (5 + hour))
      ∧ IssuedTo w.shared.issued cfgB (tokensOf "b" (5 + hour)) := by
  intro es
  have hfacts : (run step es (.start (unboundA 0) .idle)).map
      (fun w => ((w.calls 0).returnedTokens, (w.calls 2).returnedTokens))
      = some (some (cfgA, tokensOf "c" (5 + hour)),
        some (cfgB, tokensOf "b" (5 + hour))) := by
    decide +kernel
  obtain ⟨w, hw, hval⟩ := Option.map_eq_some_iff.mp hfacts
  obtain ⟨hreturned, -⟩ := tokens_from_their_issuer _ _ _
    (provenance_unboundA 0) es w hw (by decide +kernel)
  rw [Prod.mk.injEq] at hval
  obtain ⟨skew, h0⟩ := Phase.of_returnedTokens hval.1
  obtain ⟨skew', h2⟩ := Phase.of_returnedTokens hval.2
  exact ⟨w, hw, hreturned 0 cfgA skew _ h0, hreturned 2 cfgB skew' _ h2⟩

/-- A call that asks for the second issuer reads the unbound tokens of
the first. A login then renames both files, and the call finds its own
issuer in `config.json`: it returns the first issuer's tokens. -/
theorem config_swapped_between_reads :
    Provenance (unboundA hour)
    ∧ (run step
        [(0, .ensureFreshTokens cfgB 0), (0, .ensure .read),
          (1, .login cfgB), (1, .loginStep (.answer (answerOf "b") 0)),
          (1, .loginStep .lock), (1, .loginStep .save),
          (1, .loginStep .save), (0, .ensure .read),
          (0, .ensure (.check 0))]
        (.start (unboundA hour) .idle)).map
      (fun w => ((w.calls 0).returnedTokens, w.shared.issued))
      = some (some (cfgB, tokensOf "a" hour),
        [(cfgA, tokensOf "a" hour), (cfgB, tokensOf "b" hour)])
    ∧ ¬ IssuedTo [(cfgA, tokensOf "a" hour), (cfgB, tokensOf "b" hour)]
        cfgB (tokensOf "a" hour) := by
  refine ⟨provenance_unboundA hour, by decide +kernel, fun h => ?_⟩
  exact absurd h.access (by decide +kernel)

/-- A login for a client whose id is not valid UTF-8 is bound to another
client, who then gets its tokens. -/
example :
    let cfg : Config := ⟨ascii "https://a", [0xff]⟩
    (run step
        [(1, .login cfg), (1, .loginStep (.answer (answerOf "a") 0)),
          (1, .loginStep .lock), (1, .loginStep .save),
          (0, .ensureFreshTokens cfg.saved.config 0), (0, .ensure .read),
          (0, .ensure (.check 0))]
        (.start (.found none none []) .idle)).map
      (fun w => ((w.calls 0).returnedTokens, w.shared.issued))
      = some (some (cfg.saved.config, tokensOf "a" hour),
        [(cfg, tokensOf "a" hour)])
    ∧ cfg.saved.config ≠ cfg := by
  decide +kernel

end Examples

end Tokyo3Base.OidcClient
