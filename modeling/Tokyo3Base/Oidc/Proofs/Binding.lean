/-
Every login that is handed over belongs to one `Begin`.

# The argument

Every flow in any cookie ever set is what JSON carries of the flow some
`Begin` minted (`AttendInv.minted`): `Begin` and `consumeFlow` only seal
such flows again. So the flow a callback matches is one `Begin`'s, and
state, verifier and nonce are checked or used from that flow alone. They
are base64, which JSON carries as it is. The deadline sealed with the
flow is that `Begin`'s and is never renewed.

# What is not handed back as it was

`ReturnTo` and `Extra` may be any strings, and JSON carries strings that
are not valid UTF-8 with replacement characters. `login_binding` says
that they are handed over verbatim exactly when they are valid, and
`login_binding_invalid_extra` is a login whose `Extra` is not.
-/
import Mathlib.Data.List.Nodup
import Tokyo3Base.Oidc.Proofs.Flows

namespace Tokyo3Base.Oidc

open Go

-- ==== the callback

/-- What has been checked when a login is handed over. -/
theorem complete_completed {a : Authenticator} {flow : OidcFlow}
    {q : CallbackQuery} {w : CallbackWorld} {c : Completion}
    (h : a.complete flow q w = .completed c) :
    c.verifier = flow.verifier ∧ c.claims.nonce = flow.nonce
      ∧ c.claims.subject ≠ []
      ∧ (a.requireVerifiedEmail = true → c.claims.emailVerified = true)
      ∧ c.returnTo = flow.returnTo ∧ c.extra = flow.extra := by
  unfold Authenticator.complete at h
  repeat' split at h
  all_goals try cases h
  rename_i hnonce hsubject hemail _
  refine ⟨rfl, not_not.mp hnonce, hsubject, fun hreq => ?_, rfl, rfl⟩
  by_contra hno
  exact hemail ⟨hreq, by simpa using hno⟩

/-- A callback that hands a login over has matched a live flow. -/
theorem callback_completed {a : Authenticator}
    {cookie : Option SealedFlows} {now : Int} {q : CallbackQuery}
    {w : CallbackWorld} {c : Completion}
    (h : (a.callback cookie now q w).2 = .completed c) :
    ∃ flow ∈ carried cookie, unix now < flow.exp ∧ flow.state = q.state
      ∧ a.complete flow q w = .completed c := by
  unfold Authenticator.callback at h
  dsimp only at h
  split at h
  · cases h
  · split at h
    · cases h
    · rename_i idx hm
      obtain ⟨flow, hflow, hstate, -⟩ := matchFlow_some hm
      rw [hflow] at h
      dsimp only at h
      split at h
      · cases h
      · have hmem := List.mem_of_getElem? hflow
        refine ⟨flow, (pendingFlows_sublist cookie now).subset hmem, ?_,
          hstate, h⟩
        cases cookie with
        | none => cases hmem
        | some c => simpa using (List.mem_filter.mp hmem).2

-- ==== the invariant

/-- What `Begin` minted, as JSON carries it. -/
theorem newFlow_coerced (a : Authenticator) (b : BeginCall) :
    (a.newFlow b).coerced
      = { a.newFlow b with
          returnTo := toValidUTF8 (a.safeReturnTo b.returnTo)
          extra := toValidUTF8 b.extra } := by
  have hb64 : ∀ s : GoString,
      toValidUTF8 (rawURLEncode s) = rawURLEncode s := fun s =>
    toValidUTF8_ascii fun _ hc => lt_of_mem_rawURLEncode hc
  simp only [OidcFlow.coerced, Authenticator.newFlow, hb64]

/-- The flow is some `Begin`'s. -/
def Minted (a : Authenticator) (begun : List BeginCall) (f : OidcFlow) :
    Prop :=
  ∃ b ∈ begun, f.coerced = (a.newFlow b).coerced

/-- The login belongs to this `Begin`, up to what JSON does to the two
texts. -/
structure BelongsTo (a : Authenticator) (h : Handover) (b : BeginCall) :
    Prop where
  state : h.query.state = (a.newFlow b).state
  verifier : h.completion.verifier = (a.newFlow b).verifier
  nonce : h.completion.claims.nonce = (a.newFlow b).nonce
  recent : h.now - b.now < flowTTL
  returnTo : h.completion.returnTo = toValidUTF8 (a.safeReturnTo b.returnTo)
  extra : h.completion.extra = toValidUTF8 b.extra

/-- What is known of all cookies and logins, at any moment. -/
structure AttendInv (a : Authenticator) (s : Attended) : Prop where
  minted : ∀ c ∈ s.issued, ∀ f ∈ c.payload, Minted a s.begun f
  handed : ∀ h ∈ s.handed, h.before ≤ s.begun.length
    ∧ (∃ b ∈ s.begun.take h.before, BelongsTo a h b)
    ∧ h.completion.claims.subject ≠ []
    ∧ (a.requireVerifiedEmail = true →
        h.completion.claims.emailVerified = true)

section Steps

variable {a : Authenticator} {s s' : Attended}

theorem Minted.mono {begun : List BeginCall} {f : OidcFlow}
    (h : Minted a begun f) (b : BeginCall) :
    Minted a (begun ++ [b]) f := by
  obtain ⟨b', hb', heq⟩ := h
  exact ⟨b', List.mem_append_left _ hb', heq⟩

/-- What a brought cookie carries was minted. -/
theorem AttendInv.carried (hs : AttendInv a s) {cookie : Option Nat}
    {f : OidcFlow} (hf : f ∈ carried (s.brought cookie)) :
    Minted a s.begun f := by
  cases hc : s.brought cookie with
  | none => rw [hc] at hf; cases hf
  | some c =>
      rw [hc] at hf
      obtain ⟨g, hg, rfl⟩ := List.mem_map.mp hf
      obtain ⟨i, -, hi⟩ := Option.bind_eq_some_iff.mp hc
      obtain ⟨b, hb, heq⟩ := hs.minted c (List.mem_of_getElem? hi) g hg
      refine ⟨b, hb, ?_⟩
      rw [coerced_coerced, heq]

/-- The flows `Begin` writes: its own, and others it read. -/
theorem begin_payload {cookie : Option SealedFlows} {b : BeginCall}
    {c : SealedFlows} (h : (a.begin cookie b).1 = some (.set c)) :
    ∀ f ∈ c.payload, f = a.newFlow b ∨ f ∈ Oidc.carried cookie := by
  rw [begin_write, newest_snoc] at h
  have hset : ∀ {flows : List OidcFlow},
      setFlows flows = some (.set c) → c.payload = flows := by
    intro flows hw
    obtain ⟨heq, -⟩ := setFlows_some hw
    cases heq
    rfl
  rcases Option.or_eq_some_iff.mp h with hw | ⟨-, hw⟩
  · rw [hset hw]
    intro f hf
    rcases List.mem_append.mp hf with hf | hf
    · exact .inr ((pendingFlows_sublist _ _).subset
        (List.mem_of_mem_drop hf))
    · exact .inl (List.mem_singleton.mp hf)
  · rw [hset hw]
    intro f hf
    exact .inl (List.mem_singleton.mp hf)

/-- The flows a callback writes were in the cookie. -/
theorem callback_payload {cookie : Option SealedFlows} {now : Int}
    {q : CallbackQuery} {w : CallbackWorld} {c : SealedFlows}
    (h : (a.callback cookie now q w).1 = some (.set c)) :
    ∀ f ∈ c.payload, f ∈ Oidc.carried cookie := by
  by_cases hlive : pendingFlows cookie now = []
  · rw [callback_expired hlive] at h
    cases h
  · cases hm : matchFlow (pendingFlows cookie now) q.state with
    | none =>
        rw [callback_mismatch hlive hm] at h
        cases h
    | some idx =>
        rw [callback_match hm] at h
        injection h with h
        have hpayload := (consumeFlow_set h).1
        rw [hpayload]
        intro f hf
        exact (pendingFlows_sublist _ _).subset
          ((List.eraseIdx_sublist _ _).subset hf)

theorem mem_issue {w : Option FlowWrite} {c : SealedFlows}
    (h : c ∈ s.issue w) : c ∈ s.issued ∨ w = some (.set c) := by
  unfold Attended.issue at h
  split at h
  · rcases List.mem_append.mp h with h | h
    · exact .inl h
    · rw [List.mem_singleton] at h
      exact .inr (by rw [h])
  · exact .inl h

theorem AttendInv.begin (hs : AttendInv a s) (cookie : Option Nat)
    (b : BeginCall) :
    AttendInv a { s with
      issued := s.issue (a.begin (s.brought cookie) b).1
      begun := s.begun ++ [b] } := by
  refine ⟨fun c hc f hf => ?_, fun h hh => ?_⟩
  · rcases mem_issue hc with hc | hw
    · exact (hs.minted c hc f hf).mono b
    · rcases begin_payload hw f hf with rfl | hf
      · exact ⟨b, List.mem_append_right _ List.mem_cons_self, rfl⟩
      · exact (hs.carried hf).mono b
  · obtain ⟨hle, hb, hclaims⟩ := hs.handed h hh
    refine ⟨?_, ?_, hclaims⟩
    · rw [List.length_append]
      exact Nat.le_add_right_of_le hle
    · rw [List.take_append_of_le_length hle]
      exact hb

/-- The flow that was matched, and its `Begin`. -/
theorem AttendInv.belongsTo (hs : AttendInv a s) {cookie : Option Nat}
    {now : Int} {q : CallbackQuery} {w : CallbackWorld} {c : Completion}
    (h : (a.callback (s.brought cookie) now q w).2 = .completed c) :
    (∃ b ∈ s.begun, BelongsTo a ⟨now, q, c, s.begun.length⟩ b)
      ∧ c.claims.subject ≠ []
      ∧ (a.requireVerifiedEmail = true → c.claims.emailVerified = true) := by
  obtain ⟨flow, hflow, hlive, hstate, hcomplete⟩ := callback_completed h
  obtain ⟨hver, hnonce, hsub, hemail, hret, hextra⟩ :=
    complete_completed hcomplete
  obtain ⟨b, hb, heq⟩ := hs.carried hflow
  rw [coerced_of_mem_carried hflow, newFlow_coerced] at heq
  subst heq
  refine ⟨⟨b, hb, hstate.symm, hver, hnonce, ?_, hret, hextra⟩, hsub,
    hemail⟩
  -- the deadline is in whole seconds, so it comes no later than it should
  have hlt : now < b.now + flowTTL := lt_of_unix_lt hlive
  show now - b.now < flowTTL
  omega

theorem AttendInv.callback (hs : AttendInv a s) (cookie : Option Nat)
    (now : Int) (q : CallbackQuery) (w : CallbackWorld) :
    AttendInv a { s with
      issued := s.issue (a.callback (s.brought cookie) now q w).1
      handed :=
        match (a.callback (s.brought cookie) now q w).2 with
        | .completed c => s.handed ++ [⟨now, q, c, s.begun.length⟩]
        | _ => s.handed } := by
  refine ⟨fun c hc f hf => ?_, fun h hh => ?_⟩
  · rcases mem_issue hc with hc | hw
    · exact hs.minted c hc f hf
    · exact hs.carried (callback_payload hw f hf)
  · dsimp only at hh
    split at hh
    · rename_i c hc
      rcases List.mem_append.mp hh with hh | hh
      · exact hs.handed h hh
      · rw [List.mem_singleton] at hh
        subst hh
        obtain ⟨hb, hclaims⟩ := hs.belongsTo hc
        refine ⟨Nat.le_refl _, ?_, hclaims⟩
        rw [List.take_length]
        exact hb
    · exact hs.handed h hh

theorem AttendInv.step (hs : AttendInv a s) {e : AttendedEvent}
    (h : a.attend e s = some s') : AttendInv a s' := by
  cases e with
  | begin cookie b =>
      cases h
      exact hs.begin cookie b
  | callback cookie now q w =>
      cases h
      exact hs.callback cookie now q w

theorem attendInv_init (a : Authenticator) : AttendInv a .init :=
  ⟨fun _ h => absurd h List.not_mem_nil,
    fun _ h => absurd h List.not_mem_nil⟩

end Steps

-- ==== the statement

/-- The `Begin` and the callback agree in everything that ties a login to
its start. -/
structure Tied (a : Authenticator) (h : Handover) (b : BeginCall) :
    Prop where
  state : h.query.state = (a.newFlow b).state
  verifier : h.completion.verifier = (a.newFlow b).verifier
  nonce : h.completion.claims.nonce = (a.newFlow b).nonce
  recent : h.now - b.now < flowTTL

instance (a : Authenticator) (h : Handover) (b : BeginCall) :
    Decidable (Tied a h b) :=
  decidable_of_iff (h.query.state = (a.newFlow b).state
      ∧ h.completion.verifier = (a.newFlow b).verifier
      ∧ h.completion.claims.nonce = (a.newFlow b).nonce
      ∧ h.now - b.now < flowTTL)
    ⟨fun h => ⟨h.1, h.2.1, h.2.2.1, h.2.2.2⟩,
      fun h => ⟨h.state, h.verifier, h.nonce, h.recent⟩⟩

/-- With the states of all `Begin`s distinct, whatever cookies come with
the requests: every login that is handed over is tied to exactly one of
the `Begin`s before it, its subject is not empty, and its address is
verified where that is required. `ReturnTo` and `Extra` are those of that
`Begin` exactly when these are valid UTF-8. -/
theorem login_binding (a : Authenticator) (es : List AttendedEvent)
    (s : Attended) (hrun : Lib.run a.attend es .init = some s)
    (hdistinct : (s.begun.map fun b => (a.newFlow b).state).Nodup)
    (h : Handover) (hh : h ∈ s.handed) :
    (∃! b, b ∈ s.begun.take h.before ∧ Tied a h b)
    ∧ (∀ b ∈ s.begun.take h.before, Tied a h b →
        (h.completion.returnTo = a.safeReturnTo b.returnTo
            ∧ h.completion.extra = b.extra
          ↔ isValidUTF8 (a.safeReturnTo b.returnTo) = true
            ∧ isValidUTF8 b.extra = true))
    ∧ h.completion.claims.subject ≠ []
    ∧ (a.requireVerifiedEmail = true →
        h.completion.claims.emailVerified = true) := by
  have hs : AttendInv a s :=
    Lib.run_invariant (fun _ _ _ hs hstep => hs.step hstep) es
      (attendInv_init a) hrun
  obtain ⟨-, ⟨b, hb, hbel⟩, hsub, hemail⟩ := hs.handed h hh
  -- a `Begin` with the same state is the same one
  have honly : ∀ b' ∈ s.begun.take h.before, Tied a h b' → b' = b := by
    intro b' hb' htied
    exact List.inj_on_of_nodup_map hdistinct (List.mem_of_mem_take hb')
      (List.mem_of_mem_take hb) (htied.state.symm.trans hbel.state)
  have htied : Tied a h b :=
    ⟨hbel.state, hbel.verifier, hbel.nonce, hbel.recent⟩
  refine ⟨⟨b, ⟨hb, htied⟩, fun b' hb' => honly b' hb'.1 hb'.2⟩,
    fun b' hb' htied' => ?_, hsub, hemail⟩
  rw [honly b' hb' htied', hbel.returnTo, hbel.extra,
    toValidUTF8_eq_self_iff, toValidUTF8_eq_self_iff]

/-- A login in another tab and a forged callback come between a `Begin`
and its callback. -/
theorem login_binding_interleaved :
    ∃ s h, Lib.run plainAuthenticator.attend
        [.begin none (loginOf 1 (ascii "x")),
          .begin (some 0) (loginOf 2 []),
          .callback (some 1) 0 ⟨ascii "forged", [], ascii "code"⟩
            (worldOf 1),
          .callback (some 0) 0 (returnOf 1) (worldOf 1)] .init = some s
      ∧ h ∈ s.handed ∧ h.completion.extra = ascii "x"
      ∧ ∃! b, b ∈ s.begun.take h.before ∧ Tied plainAuthenticator h b := by
  have hfacts : (Lib.run plainAuthenticator.attend
      [.begin none (loginOf 1 (ascii "x")),
        .begin (some 0) (loginOf 2 []),
        .callback (some 1) 0 ⟨ascii "forged", [], ascii "code"⟩
          (worldOf 1),
        .callback (some 0) 0 (returnOf 1) (worldOf 1)] .init).map
      (fun s => (s.handed.map fun h => h.completion.extra,
        decide (s.begun.map fun b =>
          (plainAuthenticator.newFlow b).state).Nodup))
      = some ([ascii "x"], true) := by
    decide +kernel
  obtain ⟨s, hs, hval⟩ := Option.map_eq_some_iff.mp hfacts
  rw [Prod.mk.injEq, decide_eq_true_eq] at hval
  obtain ⟨h, hh, hextra⟩ := List.mem_map.mp
    (hval.1.symm ▸ List.mem_cons_self :
      ascii "x" ∈ s.handed.map fun h => h.completion.extra)
  exact ⟨s, h, hs, hh, hextra,
    (login_binding plainAuthenticator _ s hs hval.2 h hh).1⟩

/-- An `Extra` that is not valid UTF-8 is handed over as another
string. -/
theorem login_binding_invalid_extra :
    ∃ s, Lib.run plainAuthenticator.attend
        [.begin none (loginOf 1 [0xff]),
          .callback (some 0) 0 (returnOf 1) (worldOf 1)] .init = some s
      ∧ ∃ h ∈ s.handed, ∃ b ∈ s.begun.take h.before,
        Tied plainAuthenticator h b ∧ h.completion.extra = replacement
          ∧ h.completion.extra ≠ b.extra := by
  have hrun : (Lib.run plainAuthenticator.attend
      [.begin none (loginOf 1 [0xff]),
        .callback (some 0) 0 (returnOf 1) (worldOf 1)] .init).map
      (fun s => decide (∃ h ∈ s.handed, ∃ b ∈ s.begun.take h.before,
        Tied plainAuthenticator h b ∧ h.completion.extra = replacement
          ∧ h.completion.extra ≠ b.extra)) = some true := by
    decide +kernel
  obtain ⟨s, hs, h⟩ := Option.map_eq_some_iff.mp hrun
  exact ⟨s, hs, of_decide_eq_true h⟩

end Tokyo3Base.Oidc
