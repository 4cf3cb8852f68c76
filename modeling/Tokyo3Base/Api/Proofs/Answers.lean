/-
What `GetToken` may answer.

# The argument

A call returns in three ways. It returns a token that it found held,
after a clock reading before that token's expiry. It returns an error
after its context ended, or after it found a token that was empty, or
expired at one of its readings. Or it has waited for a refresh that
succeeded, and returns what the manager holds by then.

The last way is the one that needs the history. The refresh that a call
waits for had not stored its outcome when the call began (`Pending`).
So if it did not fail, a token was stored since, and what the manager
holds is the token that was stored last.

A manager without a token holds the zero expiry, so that no reading of
the clock makes an empty token look fresh. That is where a seed and the
year of the clock come in.
-/
import Tokyo3Base.Api.Proofs.Flight

namespace Tokyo3Base.Api

open Go

variable {sh sh' : Shared}

-- ==== the token

/-- What the manager holds. -/
structure Held (sh : Shared) : Prop where
  /-- a token was stored: the last one is held -/
  last : ∀ token, sh.stored.getLast? = some token → sh.tm.token = token
  nonempty : ∀ token ∈ sh.stored, token ≠ []
  /-- no token was ever held -/
  empty : sh.tm.token = [] → sh.tm.expiresAt = 0

/-- A result that is not an error has a token in it. -/
theorem RefresherEnd.result_nonempty {r : RefresherEnd}
    {token : GoString} {expiresAt : Int}
    (h : r.result = .ok (token, expiresAt)) : token ≠ [] := by
  cases r with
  | panicked value => cases h
  | returned tok exp err =>
      cases err with
      | some err => cases h
      | none =>
          simp only [RefresherEnd.result] at h
          split at h
          · cases h
          · rename_i hne
            cases h
            exact hne

/-- The results that refreshes carry have tokens in them. -/
def Results (sh : Shared) : Prop :=
  ∀ id token expiresAt,
    (sh.refreshes id).phase = .finished (.ok (token, expiresAt)) →
    token ≠ []

theorem Held.store (h : Held sh) {id : Nat}
    {result : Except GoString (GoString × Int)} {now : Int}
    (hne : ∀ token expiresAt, result = .ok (token, expiresAt) →
      token ≠ []) : Held (sh.store id result now) := by
  cases result with
  | ok r =>
      obtain ⟨token, expiresAt⟩ := r
      refine ⟨fun tok htok => ?_, fun tok htok => ?_,
        fun heq => absurd heq (hne token expiresAt rfl)⟩
      · rw [show (sh.store id (.ok (token, expiresAt)) now).stored
            = sh.stored ++ [token] from rfl, List.getLast?_concat] at htok
        exact Option.some.inj htok
      · rcases List.mem_append.mp htok with htok | htok
        · exact h.nonempty tok htok
        · cases List.mem_singleton.mp htok
          exact hne token expiresAt rfl
  | error err =>
      have hstored : (sh.store id (.error err) now).stored = sh.stored :=
        List.append_nil _
      exact ⟨fun tok htok => h.last tok (hstored ▸ htok),
        fun tok htok => h.nonempty tok (hstored ▸ htok), h.empty⟩

-- ==== the calls

/-- The refresh has not stored its outcome yet, or it failed, or a token
was stored since. -/
def Pending (sh : Shared) (id since : Nat) : Prop :=
  (sh.refreshes id).phase.flying = true
    ∨ (sh.refreshes id).err ≠ none ∨ since < sh.stored.length

/-- What a call may have returned. -/
def Answered (sh : Shared) (c : Call) (r : Except GoString GoString)
    (ctxEnded : Bool) : Prop :=
  match r with
  | .ok token => c.buffer ≤ 0 → token ≠ []
      ∧ ((∃ expiresAt, (token, expiresAt) ∈ c.found
            ∧ ∃ now ∈ c.readings, now < expiresAt)
          ∨ token ∈ sh.stored.drop c.since)
  | .error _ => ctxEnded = true
      ∨ ∃ token expiresAt, (token, expiresAt) ∈ c.found
          ∧ ∃ now ∈ c.readings, token = [] ∨ expiresAt ≤ now

/-- What is known of a call. -/
def CallPhase.Ok (sh : Shared) : CallPhase → Prop
  | .idle => True
  | .begun c | .slow c => c.since ≤ sh.stored.length
  | .waiting c id stale staleExpiry =>
      (stale, staleExpiry) ∈ c.found ∧ c.since ≤ sh.stored.length
        ∧ id < sh.made ∧ Pending sh id c.since
  | .failed c _ stale staleExpiry => (stale, staleExpiry) ∈ c.found
  | .reread c => c.since < sh.stored.length
  | .returned c r ctxEnded => Answered sh c r ctxEnded

/-- Tokens are stored, and calls wait on. -/
structure Onward (sh sh' : Shared) : Prop where
  stored : sh.stored <+: sh'.stored
  made : sh.made ≤ sh'.made
  pending : ∀ id since, id < sh.made → since ≤ sh.stored.length →
    Pending sh id since → Pending sh' id since

theorem Answered.mono {c : Call} {r : Except GoString GoString}
    {ctxEnded : Bool} (h : Answered sh c r ctxEnded)
    (hstored : sh.stored <+: sh'.stored) : Answered sh' c r ctxEnded := by
  cases r with
  | error err => exact h
  | ok token =>
      intro hbuffer
      obtain ⟨hne, hold | hnew⟩ := h hbuffer
      · exact ⟨hne, .inl hold⟩
      · obtain ⟨more, hmore⟩ := hstored
        refine ⟨hne, .inr ?_⟩
        rw [← hmore, List.drop_append]
        exact List.mem_append_left _ hnew

/-- What a call knows stays true. -/
theorem CallPhase.Ok.mono {ph : CallPhase} (h : ph.Ok sh)
    (hon : Onward sh sh') : ph.Ok sh' := by
  have hlen := hon.stored.length_le
  cases ph with
  | idle => trivial
  | begun c => exact Nat.le_trans h hlen
  | slow c => exact Nat.le_trans h hlen
  | waiting c id stale staleExpiry =>
      obtain ⟨hfound, hsince, hid, hpending⟩ := h
      exact ⟨hfound, Nat.le_trans hsince hlen,
        Nat.lt_of_lt_of_le hid hon.made,
        hon.pending id c.since hid hsince hpending⟩
  | failed c err stale staleExpiry => exact h
  | reread c => exact Nat.lt_of_lt_of_le h hlen
  | returned c r ctxEnded => exact Answered.mono h hon.stored

theorem onward_tick (sh : Shared) (now : Int) :
    Onward sh { sh with clock := now } :=
  ⟨List.prefix_refl _, Nat.le_refl _, fun _ _ _ _ h => h⟩

theorem onward_lead (sh : Shared) : Onward sh sh.lead := by
  refine ⟨List.prefix_refl _, Nat.le_succ _, fun id since hid _ h => ?_⟩
  have hsame : sh.lead.refreshes id = sh.refreshes id :=
    Function.update_of_ne (Nat.ne_of_lt hid) ..
  unfold Pending
  rw [hsame]
  exact h

theorem Onward.trans {sh'' : Shared} (h : Onward sh sh')
    (h' : Onward sh' sh'') : Onward sh sh'' where
  stored := h.stored.trans h'.stored
  made := Nat.le_trans h.made h'.made
  pending := fun id since hid hsince hp =>
    h'.pending id since (Nat.lt_of_lt_of_le hid h.made)
      (Nat.le_trans hsince h.stored.length_le)
      (h.pending id since hid hsince hp)

/-- A change to one refresh that leaves its error, and whether it is in
flight. -/
theorem onward_setRefresh {id : Nat} {r : Refresh}
    (hfly : r.phase.flying = (sh.refreshes id).phase.flying)
    (herr : r.err = (sh.refreshes id).err) :
    Onward sh (sh.setRefresh id r) := by
  refine ⟨List.prefix_refl _, Nat.le_refl _, fun j since _ _ h => ?_⟩
  unfold Pending
  rcases eq_or_ne j id with rfl | hne
  · rw [show (sh.setRefresh j r).refreshes j = r from
      Function.update_self .., hfly, herr]
    exact h
  · rw [show (sh.setRefresh id r).refreshes j = sh.refreshes j from
      Function.update_of_ne hne ..]
    exact h

/-- A refresh that stores its outcome: its waiters have an error to see,
or a token was stored since they began. -/
theorem onward_store (id : Nat)
    (result : Except GoString (GoString × Int)) (now : Int) :
    Onward sh (sh.store id result now) := by
  refine ⟨List.prefix_append _ _, Nat.le_refl _,
    fun j since _ hsince h => ?_⟩
  have hlen : (sh.store id result now).stored.length
      = sh.stored.length + (storedBy result).length :=
    List.length_append
  unfold Pending
  rw [hlen]
  rcases eq_or_ne j id with rfl | hne
  · cases result with
    | ok r =>
        exact .inr (.inr (Nat.lt_succ_of_le hsince))
    | error err =>
        refine .inr (.inl ?_)
        rw [show (sh.store j (.error err) now).refreshes j = _ from
          Function.update_self ..]
        nofun
  · rw [show (sh.store id result now).refreshes j = sh.refreshes j from
      Function.update_of_ne hne ..]
    exact h.imp_right (Or.imp_right fun hlt =>
      Nat.lt_of_lt_of_le hlt (Nat.le_add_right _ _))

theorem onward_refresh {id : Nat} {e : RefreshEvent}
    (h : sh.refresh id e = some sh') : Onward sh sh' := by
  obtain ⟨now, -, hph, rfl⟩ | ⟨ph, -, hfly, -, -, rfl⟩
    | ⟨result, now, -, -, rfl⟩ | ⟨hph, rfl⟩ := Shared.refresh_cases h
  · have hmove : Onward sh (sh.move id .running) :=
      onward_setRefresh (by rw [hph]; rfl) rfl
    exact hmove.trans (onward_tick _ now)
  · exact onward_setRefresh hfly rfl
  · exact onward_store id result now
  · exact onward_setRefresh (by rw [hph]; rfl) rfl

theorem onward_call {ph ph' : CallPhase} {e : CallEvent}
    (h : sh.call ph e = some (sh', ph')) : Onward sh sh' := by
  obtain ⟨now, rfl, -⟩ | ⟨c, now₁, now₂, -, -, -, rfl⟩ :=
    Shared.call_cases h
  · exact onward_tick sh now
  · exact (onward_tick sh now₂).trans (onward_lead _)

theorem Results.setRefresh (h : Results sh) {id : Nat} {r : Refresh}
    (hr : ∀ result, r.phase = .finished result →
      ∃ e : RefresherEnd, e.result = result) :
    Results (sh.setRefresh id r) := by
  intro j token expiresAt hph
  rcases eq_or_ne j id with rfl | hne
  · rw [show (sh.setRefresh j r).refreshes j = r from
      Function.update_self ..] at hph
    obtain ⟨e, he⟩ := hr _ hph
    exact e.result_nonempty he
  · rw [show (sh.setRefresh id r).refreshes j = sh.refreshes j from
      Function.update_of_ne hne ..] at hph
    exact h j token expiresAt hph

theorem Held.refresh (h : Held sh) (hres : Results sh) {id : Nat}
    {e : RefreshEvent} (hstep : sh.refresh id e = some sh') :
    Held sh' ∧ Results sh' := by
  obtain ⟨now, -, hph, rfl⟩ | ⟨ph, -, -, -, hfin, rfl⟩
    | ⟨result, now, -, hph, rfl⟩ | ⟨-, rfl⟩ := Shared.refresh_cases hstep
  · have hmove : Results (sh.move id .running) :=
      hres.setRefresh fun _ => nofun
    exact ⟨⟨h.last, h.nonempty, h.empty⟩, hmove⟩
  · exact ⟨⟨h.last, h.nonempty, h.empty⟩, hres.setRefresh hfin⟩
  · refine ⟨h.store fun token expiresAt heq => ?_, ?_⟩
    · exact hres id token expiresAt (heq ▸ hph)
    · have hset : Results (sh.setRefresh id
          { sh.refreshes id with
            phase := afterStore (sh.tm.store result now) result now
            err := errOf result }) := by
        refine hres.setRefresh fun res heq => ?_
        obtain ⟨err, sv, h'⟩ | h' := afterStore_cases
          (sh.tm.store result now) result now <;>
        · rw [h'] at heq
          cases heq
      exact hset
  · exact ⟨⟨h.last, h.nonempty, h.empty⟩, hres.setRefresh fun _ => nofun⟩

theorem Held.call (h : Held sh) (hres : Results sh)
    {ph ph' : CallPhase} {e : CallEvent}
    (hstep : sh.call ph e = some (sh', ph')) :
    Held sh' ∧ Results sh' := by
  obtain ⟨now, rfl, -⟩ | ⟨c, now₁, now₂, -, -, -, rfl⟩ :=
    Shared.call_cases hstep
  · exact ⟨⟨h.last, h.nonempty, h.empty⟩, hres⟩
  · have hset : Results (sh.setRefresh sh.made ⟨.spawned, none, 0⟩) :=
      hres.setRefresh fun _ => nofun
    exact ⟨⟨h.last, h.nonempty, h.empty⟩, hset⟩

-- ==== one call's step

/-- With a buffer that is not positive, a fresh token is unexpired. -/
theorem BearerTokenManager.lt_of_fresh {tm : BearerTokenManager}
    {buffer now : Int} (h : tm.fresh buffer now = true)
    (hbuffer : buffer ≤ 0) : now < tm.expiresAt := by
  have hclamp : tm.clamp buffer ≤ 0 := by
    by_cases hneg : buffer < 0 ∧ 0 < tm.lifetime
    · rw [BearerTokenManager.clamp_eq hneg.1 hneg.2]
      omega
    · rw [BearerTokenManager.clamp, if_neg hneg]
      exact hbuffer
  have hlt : now < tm.expiresAt + tm.clamp buffer := of_decide_eq_true h
  omega

theorem usable_iff {token : GoString} {expiresAt now : Int} :
    usable token expiresAt now = true ↔ token ≠ [] ∧ now < expiresAt :=
  decide_eq_true_iff

theorem not_usable {token : GoString} {expiresAt now : Int}
    (h : usable token expiresAt now = false) :
    token = [] ∨ expiresAt ≤ now := by
  by_contra hcon
  rw [not_or, Int.not_le] at hcon
  exact absurd (usable_iff.mpr hcon) (by rw [h]; nofun)

/-- A call that returns from the part under the write lock returns the
held token, fresh or usable, or an error when it is not usable. -/
theorem BearerTokenManager.decision_ret {tm : BearerTokenManager}
    {buffer now₁ now₂ : Int} {r : Except GoString GoString}
    (h : tm.decision buffer now₁ now₂ = .ret r) :
    (r = .ok tm.token ∧ (tm.fresh buffer now₁ = true
      ∨ usable tm.token tm.expiresAt now₂ = true))
    ∨ (∃ err, r = .error err)
      ∧ usable tm.token tm.expiresAt now₂ = false := by
  unfold BearerTokenManager.decision at h
  cases hfresh : tm.fresh buffer now₁ with
  | true =>
      rw [hfresh, if_pos rfl] at h
      cases h
      exact .inl ⟨rfl, .inl rfl⟩
  | false =>
      cases husable : usable tm.token tm.expiresAt now₂ with
      | true =>
          simp only [hfresh, husable, Bool.false_eq_true, if_false,
            if_true] at h
          refine .inl ⟨?_, .inr rfl⟩
          split at h
          · cases h
            rfl
          · split at h
            · cases h
              rfl
            · split at h
              · cases h
                rfl
              · cases h
      | false =>
          simp only [hfresh, husable, Bool.false_eq_true, if_false] at h
          refine .inr ⟨?_, rfl⟩
          split at h
          · cases h
          · split at h
            · cases h
              exact ⟨_, rfl⟩
            · split at h
              · cases h
                exact ⟨_, rfl⟩
              · cases h

theorem BearerTokenManager.decision_join {tm : BearerTokenManager}
    {buffer now₁ now₂ : Int} {id : Nat}
    (h : tm.decision buffer now₁ now₂ = .join id) :
    tm.inflight = some id := by
  unfold BearerTokenManager.decision at h
  split at h
  · cases h
  · dsimp only at h
    split at h
    · rename_i id' hid
      split at h
      · cases h
      · cases h
        exact hid
    · split at h
      · split at h <;> cases h
      · split at h
        · split at h <;> cases h
        · cases h

/-- A held token that was unexpired at a reading may be returned. -/
theorem answered_held {c : Call} {token : GoString} {expiresAt now : Int}
    (hfound : (token, expiresAt) ∈ c.found)
    (hread : now ∈ c.readings) (hlt : c.buffer ≤ 0 → now < expiresAt)
    (hne : c.buffer ≤ 0 → token ≠ []) :
    Answered sh c (.ok token) false :=
  fun hbuffer => ⟨hne hbuffer,
    .inl ⟨expiresAt, hfound, now, hread, hlt hbuffer⟩⟩

/-- An error may be returned after an empty or expired token. -/
theorem answered_error (sh : Shared) {c : Call} {token : GoString}
    {expiresAt now : Int} (err : GoString)
    (hfound : (token, expiresAt) ∈ c.found) (hread : now ∈ c.readings)
    (h : usable token expiresAt now = false) :
    Answered sh c (.error err) false :=
  .inr ⟨token, expiresAt, hfound, now, hread, not_usable h⟩

/-- A fresh token is not the empty one of a manager that never held
any. -/
theorem Held.nonempty_of_fresh (h : Held sh) {buffer now : Int}
    (hnow : 0 ≤ now) (hfresh : sh.tm.fresh buffer now = true)
    (hbuffer : buffer ≤ 0) : sh.tm.token ≠ [] := by
  intro hempty
  have hlt := BearerTokenManager.lt_of_fresh hfresh hbuffer
  rw [h.empty hempty] at hlt
  omega

theorem Held.mem_drop (h : Held sh) {since : Nat}
    (hlt : since < sh.stored.length) :
    sh.tm.token ∈ sh.stored.drop since ∧ sh.tm.token ≠ [] := by
  have hne : sh.stored ≠ [] := List.ne_nil_of_length_pos (by omega)
  have hlast := List.getLast?_eq_some_getLast hne
  have htok := h.last _ hlast
  have hdrop : (sh.stored.drop since).getLast? = sh.stored.getLast? := by
    rw [List.getLast?_drop, if_neg (by omega)]
  refine ⟨?_, ?_⟩
  · rw [htok]
    exact List.mem_of_getLast? (hdrop.trans hlast)
  · rw [htok]
    exact h.nonempty _ (List.getLast_mem hne)

/-- The part under the write lock. -/
theorem ok_slowPath (hflight : Flight sh) (hheld : Held sh) {c : Call}
    {now₁ now₂ : Int} {ph' : CallPhase} (hnow : 0 ≤ now₁)
    (hsince : c.since ≤ sh.stored.length)
    (hout : ({ sh with clock := now₂ } : Shared).decided
      (((c.reads now₁).reads now₂).finds sh.tm)
      (sh.tm.decision c.buffer now₁ now₂) = (sh', ph')) :
    ph'.Ok sh' := by
  have hfound : (sh.tm.token, sh.tm.expiresAt)
      ∈ (((c.reads now₁).reads now₂).finds sh.tm).found :=
    List.mem_append_right _ (List.mem_singleton_self _)
  have hread₂ : now₂
      ∈ (((c.reads now₁).reads now₂).finds sh.tm).readings :=
    List.mem_append_right _ (List.mem_singleton_self _)
  have hread₁ : now₁
      ∈ (((c.reads now₁).reads now₂).finds sh.tm).readings :=
    List.mem_append_left _
      (List.mem_append_right _ (List.mem_singleton_self _))
  cases hd : sh.tm.decision c.buffer now₁ now₂ with
  | ret r =>
      rw [hd] at hout
      cases hout
      obtain ⟨rfl, hfresh | husable⟩ | ⟨⟨err, rfl⟩, hnot⟩ :=
        BearerTokenManager.decision_ret hd
      · exact answered_held hfound hread₁
          (BearerTokenManager.lt_of_fresh hfresh)
          (hheld.nonempty_of_fresh hnow hfresh)
      · exact answered_held hfound hread₂
          (fun _ => (usable_iff.mp husable).2)
          fun _ => (usable_iff.mp husable).1
      · exact answered_error sh err hfound hread₂ hnot
  | join id =>
      rw [hd] at hout
      cases hout
      have hfly := (hflight.slot id).mp
        (BearerTokenManager.decision_join hd)
      have hmade : id < sh.made := hflight.lt_made (by
        intro heq
        rw [heq] at hfly
        cases hfly)
      exact ⟨hfound, hsince, hmade, .inl hfly⟩
  | lead =>
      rw [hd] at hout
      cases hout
      refine ⟨hfound, hsince, Nat.lt_succ_self _, .inl ?_⟩
      rw [Shared.refreshes_lead]
      rfl

theorem ok_call (hflight : Flight sh) (hheld : Held sh)
    {ph ph' : CallPhase} {e : CallEvent}
    (hnow : ∀ now ∈ e.readings, 0 ≤ now) (hok : ph.Ok sh)
    (h : sh.call ph e = some (sh', ph')) : ph'.Ok sh' := by
  cases ph with
  | idle =>
      cases e with
      | getToken value =>
          cases h
          exact Nat.le_refl _
      | _ => cases h
  | begun c =>
      cases e with
      | fastPath now =>
          cases h
          have hfound : (sh.tm.token, sh.tm.expiresAt)
              ∈ ((c.reads now).finds sh.tm).found :=
            List.mem_append_right _ (List.mem_singleton_self _)
          have hread : now ∈ ((c.reads now).finds sh.tm).readings :=
            List.mem_append_right _ (List.mem_singleton_self _)
          split
          · rename_i hfresh
            exact answered_held hfound hread
              (BearerTokenManager.lt_of_fresh hfresh)
              (hheld.nonempty_of_fresh
                (hnow now (List.mem_singleton_self _)) hfresh)
          · exact hok
      | _ => cases h
  | slow c =>
      cases e with
      | slowPath now₁ now₂ =>
          exact ok_slowPath hflight hheld
            (hnow now₁ List.mem_cons_self) hok (Option.some.inj h)
      | _ => cases h
  | waiting c id stale staleExpiry =>
      obtain ⟨hfound, hsince, -, hpending⟩ := hok
      cases e with
      | released =>
          simp only [Shared.call] at h
          split at h
          · cases h
          · rename_i hcloses
            cases h
            -- `done` is closed, so the outcome has been stored
            have hend : (sh.refreshes id).phase = .ended := by
              by_contra hne
              exact hcloses (hflight.notYet id hne)
            cases herr : (sh.refreshes id).err with
            | some err => exact hfound
            | none =>
                rcases hpending with hfly | hne | hlt
                · rw [hend] at hfly
                  cases hfly
                · exact absurd herr hne
                · exact hlt
      | ctxDone err =>
          cases h
          exact .inl rfl
      | _ => cases h
  | failed c err stale staleExpiry =>
      cases e with
      | judge now =>
          cases h
          have hread : now ∈ (c.reads now).readings :=
            List.mem_append_right _ (List.mem_singleton_self _)
          show Answered _ _ (if _ then _ else _) _
          split
          · rename_i husable
            exact answered_held (c := c.reads now) hok hread
              (fun _ => (usable_iff.mp husable).2)
              fun _ => (usable_iff.mp husable).1
          · rename_i hnot
            exact answered_error sh err (c := c.reads now) hok hread
              (Bool.eq_false_iff.mpr hnot)
      | _ => cases h
  | reread c =>
      cases e with
      | reread =>
          cases h
          intro _
          obtain ⟨hmem, hne⟩ := hheld.mem_drop hok
          exact ⟨hne, .inr hmem⟩
      | _ => cases h
  | returned c r ctxEnded => cases h

-- ==== whole runs

structure AnswersInv (w : World) : Prop where
  flight : Flight w.shared
  held : Held w.shared
  results : Results w.shared
  calls : ∀ p, (w.calls p).Ok w.shared

/-- The clock does not read a time before year 1. -/
def SaneClock (e : Event) (_ : World) : Prop :=
  ∀ now ∈ e.readings, 0 ≤ now

instance (e : Event) (w : World) : Decidable (SaneClock e w) :=
  inferInstanceAs (Decidable (∀ now ∈ e.readings, 0 ≤ now))

theorem AnswersInv.step {w w' : World} {e : Event} (h : AnswersInv w)
    (hnow : SaneClock e w) (hstep : step e w = some w') :
    AnswersInv w' := by
  cases e with
  | call p e =>
      obtain ⟨⟨sh', ph'⟩, hcall, rfl⟩ := Option.map_eq_some_iff.mp hstep
      obtain ⟨hheld, hresults⟩ := h.held.call h.results hcall
      refine ⟨h.flight.call hcall, hheld, hresults, fun q => ?_⟩
      show (Function.update w.calls p ph' q).Ok sh'
      rcases eq_or_ne q p with rfl | hne
      · rw [Function.update_self]
        exact ok_call h.flight h.held hnow (h.calls q) hcall
      · rw [Function.update_of_ne hne]
        exact (h.calls q).mono (onward_call hcall)
  | refresh id e =>
      obtain ⟨sh', hrefresh, rfl⟩ := Option.map_eq_some_iff.mp hstep
      obtain ⟨hheld, hresults⟩ := h.held.refresh h.results hrefresh
      exact ⟨h.flight.refresh hrefresh, hheld, hresults,
        fun q => (h.calls q).mono (onward_refresh hrefresh)⟩

/-- Of a manager that was set up with a token or with nothing, in every
run: a call with a buffer that is not positive returns a token that is
not empty, and that it found held and unexpired at one of its clock
readings or that was stored by a refresh since it began; and a call
returns an error only after its context ended, or after it found a token
that was empty or expired at one of its clock readings. -/
theorem getToken_answers (token : GoString) (expiresAt : Int)
    (hasRefresher hasHook : Bool) (clock : Int)
    (hseed : token = [] → expiresAt = 0) (es : List Event) (w : World)
    (hrun : Lib.run step es
      (.init (.seed token expiresAt hasRefresher hasHook) clock) = some w)
    (hclock : Lib.Along SaneClock step es
      (.init (.seed token expiresAt hasRefresher hasHook) clock)) :
    (∀ p c tok ctxEnded,
      w.calls p = .returned c (.ok tok) ctxEnded → c.buffer ≤ 0 →
      tok ≠ [] ∧ ((∃ exp, (tok, exp) ∈ c.found
          ∧ ∃ now ∈ c.readings, now < exp)
        ∨ tok ∈ w.shared.stored.drop c.since))
    ∧ ∀ p c err ctxEnded,
        w.calls p = .returned c (.error err) ctxEnded → ctxEnded = true
        ∨ ∃ tok exp, (tok, exp) ∈ c.found
            ∧ ∃ now ∈ c.readings, tok = [] ∨ exp ≤ now := by
  have hinit : AnswersInv
      (.init (.seed token expiresAt hasRefresher hasHook) clock) :=
    ⟨flight_init _ clock rfl, ⟨nofun, nofun, hseed⟩, fun _ _ _ => nofun,
      fun _ => trivial⟩
  have hw : AnswersInv w := Lib.run_invariant_along
    (fun _ _ _ hnow h hstep => h.step hnow hstep) es hclock hinit hrun
  constructor
  · intro p c tok ctxEnded hp hbuffer
    have hok := hw.calls p
    rw [hp] at hok
    exact hok hbuffer
  · intro p c err ctxEnded hp
    have hok := hw.calls p
    rw [hp] at hok
    exact hok

section Examples

/-- What a call has returned without an error. -/
def CallPhase.gotToken : CallPhase → Option (Call × GoString)
  | .returned c (.ok token) false => some (c, token)
  | _ => none

theorem CallPhase.of_gotToken {ph : CallPhase} {c : Call}
    {token : GoString} (h : ph.gotToken = some (c, token)) :
    ph = .returned c (.ok token) false := by
  unfold CallPhase.gotToken at h
  split at h
  · cases h
    rfl
  · cases h

/-- A manager without a token: the first call makes a refresh and gets
its token, also when a second call has made another one since. -/
theorem getToken_answers_unseeded :
    let es : List Event :=
      [.call 0 (.getToken none), .call 0 (.fastPath 0),
        .call 0 (.slowPath 0 0), .refresh 0 (.start 0),
        .refresh 0 (.refresherEnds (.returned (ascii "t") 5 none)),
        .refresh 0 (.store 1), .refresh 0 .close,
        .call 1 (.getToken (some 0)), .call 1 (.fastPath 6),
        .call 1 (.slowPath 6 6), .refresh 1 (.start 6),
        .refresh 1 (.refresherEnds (.returned (ascii "u") 9 none)),
        .refresh 1 (.store 6), .call 0 .released, .call 0 .reread]
    let start : World := .init (.seed [] 0 true false) 0
    ∃ w c, Lib.run step es start = some w
      ∧ w.calls 0 = .returned c (.ok (ascii "u")) false
      ∧ ((∃ exp, (ascii "u", exp) ∈ c.found
          ∧ ∃ now ∈ c.readings, now < exp)
        ∨ ascii "u" ∈ w.shared.stored.drop c.since) := by
  intro es start
  have hfacts : (Lib.run step es start).map
      (fun w => (w.calls 0).gotToken)
      = some (some (⟨defaultBuffer, 0, [0, 0, 0], [([], 0), ([], 0)]⟩,
        ascii "u")) := by
    decide +kernel
  obtain ⟨w, hw, hval⟩ := Option.map_eq_some_iff.mp hfacts
  have hp := CallPhase.of_gotToken hval
  obtain ⟨hok, -⟩ := getToken_answers [] 0 true false 0 (fun _ => rfl) es
    w hw (by decide +kernel)
  exact ⟨w, _, hw, hp, (hok 0 _ _ _ hp (by decide)).2⟩

end Examples

end Tokyo3Base.Api
