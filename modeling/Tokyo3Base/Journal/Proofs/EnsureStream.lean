/-
One lookup at a time: what holds of `ensureStream` after any interleaving
of calls, cancellations and ways for a lookup to end.

# Leadership

The slot names the lookup in flight, and one call leads it, from the
section that fills the slot to the one that empties it (`LookupInv`). A
waiter waits on a lookup that was started; one that is not in flight any
more has its channel closed, so the waiter can go on.

# Success

A stream that was found stays: while there is one the slot is empty, so
nobody leads, and the section at the top of the loop returns it. Already
before it is stored no other lookup can start, since the slot is taken
(`Succeeded`).
-/
import Tokyo3Base.Lib.Run
import Tokyo3Base.Journal.EnsureStream

namespace Tokyo3Base.Journal

open Lib

variable {S ε : Type} {s s' : StreamSource S ε}

-- ==== the facts

/-- The lookup that a call leads. -/
def StreamPhase.leads : StreamPhase S ε → Option Nat
  | .leading done => some done
  | .fetched done _ => some done
  | _ => none

/-- What is known of call `p`. -/
def StreamPhase.Known (s : StreamSource S ε) (p : Nat) :
    StreamPhase S ε → Prop
  | .idle => True
  | .top => True
  | .waiting inFlight => inFlight < s.started
  | .leading done => s.lookup = some done
  | .fetched done r => s.lookup = some done ∧ (p, r) ∈ s.ended
  | .returned (.stream stream) => s.stream = some stream
  | .returned (.failed cause) =>
      (p, .error cause) ∈ s.ended ∨ s.ctxErr p = some cause
  | .returned .panicked => (p, .panicked) ∈ s.ended

structure LookupInv (s : StreamSource S ε) : Prop where
  known : ∀ p, (s.calls p).Known s p
  leader : ∀ done, s.lookup = some done →
    ∃ p, ∀ q, (s.calls q).leads = some done ↔ q = p
  current : ∀ done, s.lookup = some done →
    s.stream = none ∧ done < s.started
  closed : ∀ ch, ch ∈ s.closed ↔ ch < s.started ∧ s.lookup ≠ some ch

/-- Who leads, leads the lookup in the slot. -/
theorem LookupInv.lookup_of_leads (hs : LookupInv s) {p done : Nat}
    (h : (s.calls p).leads = some done) : s.lookup = some done := by
  have hknown := hs.known p
  generalize s.calls p = ph at h hknown
  cases ph with
  | leading d =>
      cases h
      exact hknown
  | fetched d r =>
      cases h
      exact hknown.1
  | idle => cases h
  | top => cases h
  | waiting ch => cases h
  | returned r => cases h

theorem LookupInv.leader_unique (hs : LookupInv s) {p q done done' : Nat}
    (hp : (s.calls p).leads = some done)
    (hq : (s.calls q).leads = some done') : q = p := by
  have hslot := hs.lookup_of_leads hp
  obtain rfl : done = done' :=
    Option.some.inj (hslot.symm.trans (hs.lookup_of_leads hq))
  obtain ⟨leader, hleader⟩ := hs.leader done hslot
  exact ((hleader q).mp hq).trans ((hleader p).mp hp).symm

/-- What is known of a call stays known if nothing is taken back, and the
slot is left alone while it leads. -/
theorem StreamPhase.Known.mono {p : Nat} {ph : StreamPhase S ε}
    (h : ph.Known s p) (hstarted : s.started ≤ s'.started)
    (hended : ∀ e ∈ s.ended, e ∈ s'.ended)
    (hctx : ∀ err, s.ctxErr p = some err → s'.ctxErr p = some err)
    (hstream : ∀ stream, s.stream = some stream → s'.stream = some stream)
    (hlookup : ph.leads ≠ none → s'.lookup = s.lookup) :
    ph.Known s' p := by
  cases ph with
  | idle => trivial
  | top => trivial
  | waiting ch => exact Nat.lt_of_lt_of_le h hstarted
  | leading done => exact (hlookup nofun).trans h
  | fetched done r => exact ⟨(hlookup nofun).trans h.1, hended _ h.2⟩
  | returned r =>
      cases r with
      | stream stream => exact hstream stream h
      | failed cause => exact h.imp (hended _) (hctx cause)
      | panicked => exact hended _ h

-- ==== what a step can do

theorem StreamSource.step_cases {a : Nat × EnsureEvent S ε}
    (h : s.step a = some s') :
    (s.calls a.1 = .idle ∧ s' = s.move a.1 .top)
      ∨ (∃ err, s' = { s with
        ctxErr := Function.update s.ctxErr a.1
          (some ((s.ctxErr a.1).getD err)) })
      ∨ (s.calls a.1 = .top ∧ s' = s.enter a.1)
      ∨ (∃ done r, s.calls a.1 = .leading done
        ∧ s' = { s.move a.1 (.fetched done r) with
          ended := s.ended ++ [(a.1, r)] })
      ∨ (∃ done r, s.calls a.1 = .fetched done r
        ∧ s' = s.publish a.1 done r)
      ∨ (∃ ch, s.calls a.1 = .waiting ch ∧ ch ∈ s.closed
        ∧ s' = s.move a.1 .top)
      ∨ ∃ ch err, s.calls a.1 = .waiting ch ∧ s.ctxErr a.1 = some err
        ∧ s' = s.move a.1 (.returned (.failed err)) := by
  unfold StreamSource.step at h
  split at h
  · rename_i hph _
    cases h
    exact .inl ⟨hph, rfl⟩
  · cases h
    exact .inr (.inl ⟨_, rfl⟩)
  · rename_i hph _
    cases h
    exact .inr (.inr (.inl ⟨hph, rfl⟩))
  · rename_i done r hph _
    cases h
    exact .inr (.inr (.inr (.inl ⟨done, r, hph, rfl⟩)))
  · rename_i done r hph _
    cases h
    exact .inr (.inr (.inr (.inr (.inl ⟨done, r, hph, rfl⟩))))
  · rename_i ch hph _
    split at h
    · rename_i hclosed
      cases h
      exact .inr (.inr (.inr (.inr (.inr (.inl ⟨ch, hph, hclosed, rfl⟩)))))
    · cases h
  · rename_i ch hph _
    obtain ⟨err, herr, rfl⟩ := Option.map_eq_some_iff.mp h
    exact .inr (.inr (.inr (.inr (.inr (.inr ⟨ch, err, hph, herr, rfl⟩)))))
  · cases h

/-- The section at the top of the loop returns the stream, waits, or
leads. -/
theorem StreamSource.enter_cases (s : StreamSource S ε) (p : Nat) :
    (∃ stream, s.stream = some stream
        ∧ s.enter p = s.move p (.returned (.stream stream)))
      ∨ (∃ inFlight, s.stream = none ∧ s.lookup = some inFlight
        ∧ s.enter p = s.move p (.waiting inFlight))
      ∨ (s.stream = none ∧ s.lookup = none
        ∧ s.enter p = { s.move p (.leading s.started) with
          lookup := some s.started
          started := s.started + 1 }) := by
  unfold StreamSource.enter
  cases hstream : s.stream with
  | some stream => exact .inl ⟨stream, rfl, rfl⟩
  | none =>
      cases hlookup : s.lookup with
      | some inFlight => exact .inr (.inl ⟨inFlight, rfl, rfl, rfl⟩)
      | none => exact .inr (.inr ⟨rfl, rfl, rfl⟩)

-- ==== the actions

/-- A call that does not lead before or after. -/
theorem LookupInv.move (hs : LookupInv s) {p : Nat} {ph : StreamPhase S ε}
    (hbefore : (s.calls p).leads = none) (hafter : ph.leads = none)
    (hknown : ph.Known s p) : LookupInv (s.move p ph) where
  known := fun q => by
    show StreamPhase.Known s q (Function.update s.calls p ph q)
    rcases eq_or_ne q p with rfl | hne
    · rw [Function.update_self]
      exact hknown
    · rw [Function.update_of_ne hne]
      exact hs.known q
  leader := fun done hdone => by
    obtain ⟨leader, hleader⟩ := hs.leader done hdone
    refine ⟨leader, fun q => ?_⟩
    show (Function.update s.calls p ph q).leads = _ ↔ _
    rcases eq_or_ne q p with rfl | hne
    · rw [Function.update_self, hafter, ← hleader q, hbefore]
    · rw [Function.update_of_ne hne]
      exact hleader q
  current := hs.current
  closed := hs.closed

theorem LookupInv.cancel (hs : LookupInv s) (p : Nat) (err : ε) :
    LookupInv { s with
      ctxErr := Function.update s.ctxErr p
        (some ((s.ctxErr p).getD err)) } where
  known := fun q => by
    refine (hs.known q).mono (Nat.le_refl _) (fun _ h => h)
      (fun err' herr => ?_) (fun _ h => h) (fun _ => rfl)
    show Function.update s.ctxErr p _ q = some err'
    rcases eq_or_ne q p with rfl | hne
    · rw [Function.update_self, herr]
      rfl
    · rw [Function.update_of_ne hne]
      exact herr
  leader := hs.leader
  current := hs.current
  closed := hs.closed

theorem LookupInv.lead (hs : LookupInv s) {p : Nat}
    (hp : s.calls p = .top) (hstream : s.stream = none)
    (hlookup : s.lookup = none) :
    LookupInv { s.move p (.leading s.started) with
      lookup := some s.started
      started := s.started + 1 } where
  known := fun q => by
    show StreamPhase.Known _ q
      (Function.update s.calls p (.leading s.started) q)
    rcases eq_or_ne q p with rfl | hne
    · rw [Function.update_self]
      rfl
    · rw [Function.update_of_ne hne]
      refine (hs.known q).mono (Nat.le_succ _) (fun _ h => h)
        (fun _ h => h) (fun _ h => h) fun hleads => ?_
      -- nobody leads while the slot is empty
      obtain ⟨done, hdone⟩ := Option.ne_none_iff_exists'.mp hleads
      have := hs.lookup_of_leads hdone
      rw [hlookup] at this
      cases this
  leader := fun done hdone => by
    cases hdone
    refine ⟨p, fun q => ?_⟩
    show (Function.update s.calls p (.leading s.started) q).leads = _ ↔ _
    rcases eq_or_ne q p with rfl | hne
    · rw [Function.update_self]
      exact ⟨fun _ => rfl, fun _ => rfl⟩
    · rw [Function.update_of_ne hne]
      refine ⟨fun h => ?_, fun h => absurd h hne⟩
      have := hs.lookup_of_leads h
      rw [hlookup] at this
      cases this
  current := fun done hdone => by
    cases hdone
    exact ⟨hstream, Nat.lt_succ_self _⟩
  closed := fun ch => by
    show ch ∈ s.closed ↔ ch < s.started + 1 ∧ some s.started ≠ some ch
    rw [hs.closed ch, hlookup]
    constructor
    · rintro ⟨hlt, -⟩
      exact ⟨Nat.lt_succ_of_lt hlt, fun h => by
        cases h
        exact Nat.lt_irrefl _ hlt⟩
    · rintro ⟨hlt, hne⟩
      exact ⟨Nat.lt_of_le_of_ne (Nat.le_of_lt_succ hlt)
        fun h => hne (congrArg some h.symm), nofun⟩

theorem LookupInv.fetch (hs : LookupInv s) {p done : Nat}
    (hp : s.calls p = .leading done) (r : LookupEnd S ε) :
    LookupInv { s.move p (.fetched done r) with
      ended := s.ended ++ [(p, r)] } where
  known := fun q => by
    show StreamPhase.Known _ q
      (Function.update s.calls p (.fetched done r) q)
    rcases eq_or_ne q p with rfl | hne
    · rw [Function.update_self]
      exact ⟨hs.lookup_of_leads (by rw [hp]; rfl),
        List.mem_append_right _ (List.mem_singleton.mpr rfl)⟩
    · rw [Function.update_of_ne hne]
      exact (hs.known q).mono (Nat.le_refl _)
        (fun _ h => List.mem_append_left _ h) (fun _ h => h)
        (fun _ h => h) (fun _ => rfl)
  leader := fun done' hdone' => by
    obtain ⟨leader, hleader⟩ := hs.leader done' hdone'
    refine ⟨leader, fun q => ?_⟩
    show (Function.update s.calls p (.fetched done r) q).leads = _ ↔ _
    rcases eq_or_ne q p with rfl | hne
    · rw [Function.update_self, ← hleader q, hp]
      rfl
    · rw [Function.update_of_ne hne]
      exact hleader q
  current := hs.current
  closed := hs.closed

theorem LookupInv.publish (hs : LookupInv s) {p done : Nat}
    {r : LookupEnd S ε} (hp : s.calls p = .fetched done r) :
    LookupInv (s.publish p done r) := by
  have hleads : (s.calls p).leads = some done := by
    rw [hp]
    rfl
  have hknown := hs.known p
  rw [hp] at hknown
  obtain ⟨hlookup, hended⟩ := hknown
  obtain ⟨hstream, hstarted⟩ := hs.current done hlookup
  refine ⟨fun q => ?_, nofun, nofun, fun ch => ?_⟩
  · show StreamPhase.Known _ q
      (Function.update s.calls p (.returned r.ends) q)
    rcases eq_or_ne q p with rfl | hne
    · rw [Function.update_self]
      cases r with
      | success stream => rfl
      | error err => exact .inl hended
      | panicked => exact hended
    · rw [Function.update_of_ne hne]
      refine (hs.known q).mono (Nat.le_refl _) (fun _ h => h)
        (fun _ h => h) (fun stream h => ?_) fun hq => ?_
      · rw [hstream] at h
        cases h
      · obtain ⟨done', hdone'⟩ := Option.ne_none_iff_exists'.mp hq
        exact absurd (hs.leader_unique hleads hdone') hne
  · show ch ∈ done :: s.closed ↔ ch < s.started ∧ none ≠ some ch
    rw [List.mem_cons, hs.closed ch, hlookup]
    constructor
    · rintro (rfl | ⟨hlt, -⟩)
      · exact ⟨hstarted, nofun⟩
      · exact ⟨hlt, nofun⟩
    · rintro ⟨hlt, -⟩
      rcases eq_or_ne ch done with rfl | hne
      · exact .inl rfl
      · exact .inr ⟨hlt, fun h => hne (Option.some.inj h).symm⟩

theorem LookupInv.step (hs : LookupInv s) {a : Nat × EnsureEvent S ε}
    (h : s.step a = some s') : LookupInv s' := by
  rcases StreamSource.step_cases h with ⟨hp, rfl⟩ | ⟨err, rfl⟩ | ⟨hp, rfl⟩
    | ⟨done, r, hp, rfl⟩ | ⟨done, r, hp, rfl⟩ | ⟨ch, hp, -, rfl⟩
    | ⟨ch, err, hp, herr, rfl⟩
  · exact hs.move (by rw [hp]; rfl) rfl trivial
  · exact hs.cancel a.1 err
  · have hquiet : (s.calls a.1).leads = none := by
      rw [hp]
      rfl
    rcases s.enter_cases a.1 with ⟨stream, hstream, h⟩
      | ⟨inFlight, -, hlookup, h⟩ | ⟨hstream, hlookup, h⟩
    · rw [h]
      exact hs.move hquiet rfl hstream
    · rw [h]
      exact hs.move hquiet rfl (hs.current inFlight hlookup).2
    · rw [h]
      exact hs.lead hp hstream hlookup
  · exact hs.fetch hp r
  · exact hs.publish hp
  · exact hs.move (by rw [hp]; rfl) rfl trivial
  · exact hs.move (by rw [hp]; rfl) rfl (.inr herr)

-- ==== success

/-- What holds of the calls at any moment. -/
structure EnsureOk (s : StreamSource S ε) : Prop where
  /-- at most one lookup runs -/
  one : ∀ p q, (s.calls p).leads.isSome → (s.calls q).leads.isSome → q = p
  /-- and the slot is taken exactly while it does -/
  slot : s.lookup.isSome ↔ ∃ p, (s.calls p).leads.isSome
  /-- a failure is that of the call's own lookup or of its own context -/
  failed : ∀ p cause, s.calls p = .returned (.failed cause) →
    (p, .error cause) ∈ s.ended ∨ s.ctxErr p = some cause
  /-- a waiter whose lookup is not in flight any more can go on -/
  released : ∀ p inFlight, s.calls p = .waiting inFlight →
    s.lookup = some inFlight ∨ ∃ s', s.step (p, .wake) = some s'

theorem LookupInv.ok (hs : LookupInv s) : EnsureOk s where
  one := fun p q hp hq => by
    obtain ⟨done, hdone⟩ := Option.isSome_iff_exists.mp hp
    obtain ⟨done', hdone'⟩ := Option.isSome_iff_exists.mp hq
    exact hs.leader_unique hdone hdone'
  slot := by
    constructor
    · intro h
      obtain ⟨done, hdone⟩ := Option.isSome_iff_exists.mp h
      obtain ⟨p, hp⟩ := hs.leader done hdone
      exact ⟨p, Option.isSome_iff_exists.mpr ⟨done, (hp p).mpr rfl⟩⟩
    · rintro ⟨p, hp⟩
      obtain ⟨done, hdone⟩ := Option.isSome_iff_exists.mp hp
      rw [hs.lookup_of_leads hdone]
      rfl
  failed := fun p cause hp => by
    have hknown := hs.known p
    rw [hp] at hknown
    exact hknown
  released := fun p inFlight hp => by
    have hknown := hs.known p
    rw [hp] at hknown
    rcases Decidable.em (s.lookup = some inFlight) with h | h
    · exact .inl h
    · refine .inr ⟨s.move p .top, ?_⟩
      rw [StreamSource.step, hp]
      exact if_pos ((hs.closed inFlight).mpr ⟨hknown, h⟩)

end Tokyo3Base.Journal
