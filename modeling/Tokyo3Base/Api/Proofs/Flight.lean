/-
The single-flight slot of `BearerTokenManager`, and what a step can do
to the shared state.

`Shared.call_cases` and `Shared.refresh_cases` say once what the steps
of calls and of refreshes do; every invariant of this development goes
through them. A call changes nothing but the clock, or it makes a new
refresh when none is in flight. A refresh moves through its phases, and
owns the slot until it has stored its outcome.

`Flight` ties the slot to the phases: a refresh is in flight exactly
while it has not stored its outcome, which includes one whose
`Refresher` ended the goroutine. And `done` is closed once a refresh
has come to its end, not before, and not again.
-/
import Tokyo3Base.Api.BearerToken

namespace Tokyo3Base.Api

open Go

-- ==== what a step can do

/-- A call leads only past every other way out. -/
theorem BearerTokenManager.decision_lead {tm : BearerTokenManager}
    {buffer now₁ now₂ : Int} :
    tm.decision buffer now₁ now₂ = .lead ↔ tm.fresh buffer now₁ = false
      ∧ tm.inflight = none ∧ tm.hasRefresher = true
      ∧ ¬ now₂ < tm.nextAttempt := by
  unfold BearerTokenManager.decision
  cases hfresh : tm.fresh buffer now₁ with
  | true => simp
  | false =>
      cases hflight : tm.inflight with
      | some id =>
          simp only [Bool.false_eq_true, if_false]
          split <;> simp
      | none =>
          cases hrefresher : tm.hasRefresher with
          | false =>
              simp only [Bool.false_eq_true, if_false, if_true]
              split <;> simp
          | true =>
              simp only [Bool.false_eq_true, if_false, reduceCtorEq]
              by_cases hnow : now₂ < tm.nextAttempt
              · rw [if_pos hnow]
                split <;> simp [hnow]
              · rw [if_neg hnow]
                simp [hnow]

variable {sh sh' : Shared}

/-- A call moves the clock, or makes a refresh. -/
theorem Shared.call_cases {ph ph' : CallPhase} {e : CallEvent}
    (h : sh.call ph e = some (sh', ph')) :
    (∃ now, sh' = { sh with clock := now }
      ∧ (now = sh.clock ∨ now ∈ e.readings))
    ∨ ∃ c now₁ now₂, ph = .slow c ∧ e = .slowPath now₁ now₂
        ∧ sh.tm.decision c.buffer now₁ now₂ = .lead
        ∧ sh' = { sh with clock := now₂ }.lead := by
  cases ph with
  | idle =>
      cases e with
      | getToken value =>
          cases h
          exact .inl ⟨_, rfl, .inl rfl⟩
      | _ => cases h
  | begun c =>
      cases e with
      | fastPath now =>
          cases h
          exact .inl ⟨now, rfl, .inr (List.mem_singleton_self _)⟩
      | _ => cases h
  | slow c =>
      cases e with
      | slowPath now₁ now₂ =>
          have h' : ({ sh with clock := now₂ } : Shared).decided
              (((c.reads now₁).reads now₂).finds sh.tm)
              (sh.tm.decision c.buffer now₁ now₂) = (sh', ph') :=
            Option.some.inj h
          have hmem : now₂ ∈ [now₁, now₂] :=
            List.mem_cons_of_mem _ (List.mem_singleton_self _)
          cases hd : sh.tm.decision c.buffer now₁ now₂ with
          | lead =>
              rw [hd] at h'
              cases h'
              exact .inr ⟨c, now₁, now₂, rfl, rfl, hd, rfl⟩
          | ret r =>
              rw [hd] at h'
              cases h'
              exact .inl ⟨now₂, rfl, .inr hmem⟩
          | join id =>
              rw [hd] at h'
              cases h'
              exact .inl ⟨now₂, rfl, .inr hmem⟩
      | _ => cases h
  | waiting c id stale staleExpiry =>
      cases e with
      | released =>
          simp only [Shared.call] at h
          split at h
          · cases h
          · cases h
            exact .inl ⟨_, rfl, .inl rfl⟩
      | ctxDone err =>
          cases h
          exact .inl ⟨_, rfl, .inl rfl⟩
      | _ => cases h
  | failed c err stale staleExpiry =>
      cases e with
      | judge now =>
          cases h
          exact .inl ⟨now, rfl, .inr (List.mem_singleton_self _)⟩
      | _ => cases h
  | reread c =>
      cases e with
      | reread =>
          cases h
          exact .inl ⟨_, rfl, .inl rfl⟩
      | _ => cases h
  | returned c r ctxEnded => cases h

/-- Not yet stored: the refresh has the slot. -/
def RefreshPhase.flying : RefreshPhase → Bool
  | .spawned | .running | .finished _ | .exited false => true
  | _ => false

/-- The refresh has been made, and is not over. -/
def RefreshPhase.live : RefreshPhase → Bool
  | .spawned | .running | .finished _ | .reporting _ _ | .closing => true
  | _ => false

/-- A refresh starts its `Refresher`, stores its outcome, closes `done`,
or goes on otherwise. -/
theorem Shared.refresh_cases {id : Nat} {e : RefreshEvent}
    (h : sh.refresh id e = some sh') :
    (∃ now, e = .start now ∧ (sh.refreshes id).phase = .spawned
      ∧ sh' = { sh.move id .running with clock := now })
    ∨ (∃ ph, (sh.refreshes id).phase.live = true
      ∧ ph.flying = (sh.refreshes id).phase.flying ∧ ph ≠ .ended
      ∧ (∀ result, ph = .finished result →
          ∃ r : RefresherEnd, r.result = result)
      ∧ sh' = sh.move id ph)
    ∨ (∃ result now, e = .store now
      ∧ (sh.refreshes id).phase = .finished result
      ∧ sh' = sh.store id result now)
    ∨ (sh.refreshes id).phase = .closing
      ∧ sh' = sh.setRefresh id
          ⟨.ended, (sh.refreshes id).err,
            (sh.refreshes id).closes + 1⟩ := by
  unfold Shared.refresh at h
  cases hph : (sh.refreshes id).phase with
  | spawned =>
      rw [hph] at h
      cases e with
      | start now =>
          cases h
          exact .inl ⟨now, rfl, rfl, rfl⟩
      | _ => cases h
  | running =>
      rw [hph] at h
      cases e with
      | refresherEnds r =>
          cases h
          exact .inr (.inl ⟨.finished r.result, rfl, rfl, nofun,
            fun _ h => ⟨r, RefreshPhase.finished.inj h⟩, rfl⟩)
      | refresherExits =>
          cases h
          exact .inr (.inl ⟨.exited false, rfl, rfl, nofun,
            fun _ => nofun, rfl⟩)
      | _ => cases h
  | finished result =>
      rw [hph] at h
      cases e with
      | store now =>
          cases h
          exact .inr (.inr (.inl ⟨result, now, rfl, rfl, rfl⟩))
      | _ => cases h
  | reporting err stillValid =>
      rw [hph] at h
      cases e with
      | hookEnds =>
          cases h
          exact .inr (.inl ⟨.closing, rfl, rfl, nofun,
            fun _ => nofun, rfl⟩)
      | hookExits =>
          cases h
          exact .inr (.inl ⟨.exited true, rfl, rfl, nofun,
            fun _ => nofun, rfl⟩)
      | _ => cases h
  | closing =>
      rw [hph] at h
      cases e with
      | close =>
          cases h
          exact .inr (.inr (.inr ⟨rfl, rfl⟩))
      | _ => cases h
  | unmade =>
      rw [hph] at h
      cases h
  | ended =>
      rw [hph] at h
      cases h
  | exited stored =>
      rw [hph] at h
      cases h

/-- A `Refresher` starts in the goroutine that was started for it. -/
theorem Shared.spawned_of_start {id : Nat} {now : Int}
    (h : sh.refresh id (.start now) = some sh') :
    (sh.refreshes id).phase = .spawned := by
  unfold Shared.refresh at h
  cases hph : (sh.refreshes id).phase with
  | spawned => rfl
  | _ =>
      rw [hph] at h
      cases h

-- ==== the slot

/-- The slot says which refresh has not stored its outcome, and `done`
is closed at the end, once. -/
structure Flight (sh : Shared) : Prop where
  unmade : ∀ id, sh.made ≤ id → (sh.refreshes id).phase = .unmade
  slot : ∀ id, sh.tm.inflight = some id
    ↔ (sh.refreshes id).phase.flying = true
  closed : ∀ id, (sh.refreshes id).phase = .ended →
    (sh.refreshes id).closes = 1
  notYet : ∀ id, (sh.refreshes id).phase ≠ .ended →
    (sh.refreshes id).closes = 0

theorem Flight.tick (h : Flight sh) (now : Int) :
    Flight { sh with clock := now } :=
  ⟨h.unmade, h.slot, h.closed, h.notYet⟩

theorem Shared.refreshes_lead (sh : Shared) :
    sh.lead.refreshes sh.made = ⟨.spawned, none, 0⟩ :=
  Function.update_self ..

theorem Flight.lead (h : Flight sh) (hfree : sh.tm.inflight = none) :
    Flight sh.lead := by
  have hother : ∀ id, id ≠ sh.made →
      sh.lead.refreshes id = sh.refreshes id :=
    fun id hne => Function.update_of_ne hne ..
  have hnew := sh.refreshes_lead
  refine ⟨fun id hid => ?_, fun id => ?_, fun id => ?_, fun id => ?_⟩
  · have hne : id ≠ sh.made := fun heq => by
      rw [heq] at hid
      exact absurd hid (Nat.not_succ_le_self _)
    rw [hother id hne]
    exact h.unmade id (Nat.le_of_succ_le hid)
  · rcases eq_or_ne id sh.made with rfl | hne
    · rw [hnew]
      exact ⟨fun _ => rfl, fun _ => rfl⟩
    · rw [hother id hne, ← h.slot id, hfree]
      exact ⟨fun heq => absurd (Option.some.inj heq).symm hne, nofun⟩
  · rcases eq_or_ne id sh.made with rfl | hne
    · rw [hnew]
      nofun
    · rw [hother id hne]
      exact h.closed id
  · rcases eq_or_ne id sh.made with rfl | hne
    · rw [hnew]
      exact fun _ => rfl
    · rw [hother id hne]
      exact h.notYet id

theorem Flight.lt_made (h : Flight sh) {id : Nat}
    (hid : (sh.refreshes id).phase ≠ .unmade) : id < sh.made :=
  Nat.lt_of_not_le fun hle => hid (h.unmade id hle)

theorem Flight.update (h : Flight sh) {id : Nat} {r : Refresh}
    {tm : BearerTokenManager}
    (hmade : (sh.refreshes id).phase ≠ .unmade)
    (hself : tm.inflight = some id ↔ r.phase.flying = true)
    (hslot : ∀ j, j ≠ id →
      (tm.inflight = some j ↔ sh.tm.inflight = some j))
    (hclosed : r.phase = .ended → r.closes = 1)
    (hnotYet : r.phase ≠ .ended → r.closes = 0) :
    Flight { sh with
      tm := tm, refreshes := Function.update sh.refreshes id r } := by
  have hself' : Function.update sh.refreshes id r id = r :=
    Function.update_self ..
  have hother : ∀ j, j ≠ id →
      Function.update sh.refreshes id r j = sh.refreshes j :=
    fun j hne => Function.update_of_ne hne ..
  refine ⟨fun j hj => ?_, fun j => ?_, fun j => ?_, fun j => ?_⟩ <;>
    dsimp only
  · have hne : j ≠ id := fun heq =>
      absurd (heq ▸ hj) (Nat.not_le_of_lt (h.lt_made hmade))
    rw [hother j hne]
    exact h.unmade j hj
  · rcases eq_or_ne j id with rfl | hne
    · rw [hself']
      exact hself
    · rw [hother j hne, hslot j hne]
      exact h.slot j
  · rcases eq_or_ne j id with rfl | hne
    · rw [hself']
      exact hclosed
    · rw [hother j hne]
      exact h.closed j
  · rcases eq_or_ne j id with rfl | hne
    · rw [hself']
      exact hnotYet
    · rw [hother j hne]
      exact h.notYet j

theorem Flight.move (h : Flight sh) {id : Nat} {ph : RefreshPhase}
    (hlive : (sh.refreshes id).phase.live = true)
    (hfly : ph.flying = (sh.refreshes id).phase.flying)
    (hend : ph ≠ .ended) : Flight (sh.move id ph) := by
  have hne : (sh.refreshes id).phase ≠ .unmade := by
    intro heq
    rw [heq] at hlive
    cases hlive
  have hne' : (sh.refreshes id).phase ≠ .ended := by
    intro heq
    rw [heq] at hlive
    cases hlive
  refine h.update hne ?_ (fun _ _ => Iff.rfl) (fun heq => absurd heq hend)
    fun _ => h.notYet id hne'
  rw [h.slot id, hfly]

/-- What follows the bookkeeping is not in flight, and not the end. -/
theorem afterStore_cases (tm : BearerTokenManager)
    (result : Except GoString (GoString × Int)) (now : Int) :
    (∃ err stillValid, afterStore tm result now
        = .reporting err stillValid)
      ∨ afterStore tm result now = .closing := by
  unfold afterStore
  split
  · exact .inr rfl
  · split
    · exact .inl ⟨_, _, rfl⟩
    · exact .inr rfl

theorem inflight_store (tm : BearerTokenManager)
    (result : Except GoString (GoString × Int)) (now : Int) :
    (tm.store result now).inflight = none := by
  unfold BearerTokenManager.store
  split <;> rfl

theorem Flight.store (h : Flight sh) {id : Nat}
    {result : Except GoString (GoString × Int)} {now : Int}
    (hph : (sh.refreshes id).phase = .finished result) :
    Flight (sh.store id result now) := by
  have hslot : sh.tm.inflight = some id :=
    (h.slot id).mpr (by rw [hph]; rfl)
  have hmove : Flight { sh with
      tm := sh.tm.store result now
      refreshes := Function.update sh.refreshes id
        { sh.refreshes id with
          phase := afterStore (sh.tm.store result now) result now
          err := errOf result } } := by
    refine h.update (by rw [hph]; nofun) ?_ (fun j hj => ?_) (fun hend => ?_)
      fun _ => h.notYet id (by rw [hph]; nofun)
    · rw [inflight_store]
      obtain ⟨err, sv, h'⟩ | h' := afterStore_cases
        (sh.tm.store result now) result now <;>
      · rw [h']
        exact ⟨nofun, nofun⟩
    · rw [inflight_store, hslot]
      exact ⟨nofun, fun heq => absurd (Option.some.inj heq).symm hj⟩
    · obtain ⟨err, sv, h'⟩ | h' := afterStore_cases
        (sh.tm.store result now) result now <;>
      · rw [h'] at hend
        cases hend
  exact ⟨hmove.unmade, hmove.slot, hmove.closed, hmove.notYet⟩

theorem Flight.refresh (h : Flight sh) {id : Nat} {e : RefreshEvent}
    (hstep : sh.refresh id e = some sh') : Flight sh' := by
  obtain ⟨now, -, hph, rfl⟩ | ⟨ph, hlive, hfly, hend, -, rfl⟩
    | ⟨result, now, -, hph, rfl⟩ | ⟨hph, rfl⟩ :=
    Shared.refresh_cases hstep
  · have hmove : Flight (sh.move id .running) :=
      h.move (by rw [hph]; rfl) (by rw [hph]; rfl) nofun
    exact hmove.tick now
  · exact h.move hlive hfly hend
  · exact h.store hph
  · refine h.update (by rw [hph]; nofun) ?_ (fun _ _ => Iff.rfl)
      (fun _ => ?_) (fun hne => absurd rfl hne)
    · rw [h.slot id, hph]
      rfl
    · rw [h.notYet id (by rw [hph]; nofun)]

theorem Flight.call (h : Flight sh) {ph ph' : CallPhase} {e : CallEvent}
    (hstep : sh.call ph e = some (sh', ph')) : Flight sh' := by
  obtain ⟨now, rfl, -⟩ | ⟨c, now₁, now₂, rfl, rfl, hd, rfl⟩ :=
    Shared.call_cases hstep
  · exact h.tick now
  · exact (h.tick now₂).lead (BearerTokenManager.decision_lead.mp hd).2.1

theorem flight_init (tm : BearerTokenManager) (clock : Int)
    (hfree : tm.inflight = none) : Flight (.init tm clock) := by
  refine ⟨fun _ _ => rfl, fun id => ⟨fun h => ?_, nofun⟩, nofun,
    fun _ _ => rfl⟩
  exact nomatch hfree.symm.trans h

end Tokyo3Base.Api
