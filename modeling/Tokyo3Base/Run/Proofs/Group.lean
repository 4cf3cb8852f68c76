/-
Which error `run.Group` returns.

# The argument

The channel is a queue of the errors in the order of the sends, and the
loop at the end keeps the first that counts; so `Group` returns the
first failure to be *sent* (`Inv.result`). Every component that returned
has sent by then, so nothing is lost: the result is nil exactly when no
component failed.

That the first failure sent is the first one *returned* is up to the
scheduler. Both logs only grow at their end, so the first failure in
each never changes once there is one; whether the two are the same is
decided at the moment the first failure is sent (`SendsFirst`).

No run is longer than `5n + 3` steps, and none ends before `Group` has
returned while all components have: the channel has room for everyone
(`Inv.room`).
-/
import Mathlib.Algebra.BigOperators.Group.Finset.Basic
import Mathlib.Data.Fintype.Basic
import Mathlib.Data.Fintype.Card
import Tokyo3Base.Lib.Run
import Tokyo3Base.Run.Group

namespace Tokyo3Base.Run

open Lib

variable {ε : Type} {n : Nat} {canceled : ε → Bool}
  {s s' : State n ε}

-- ==== what a step can do

theorem spawn_inv (h : step canceled .spawn s = some s') :
    ∃ (k : Nat) (hk : k < n), s.main = .spawning k ∧ s' = { s with
      main := .spawning (k + 1)
      goroutines := Function.update s.goroutines ⟨k, hk⟩ .running } := by
  unfold step at h
  dsimp only at h
  split at h
  · rename_i k hmain
    split at h
    · rename_i hk
      exact ⟨k, hk, hmain, (Option.some.inj h).symm⟩
    · cases h
  · cases h

theorem ret_inv {i : Fin n} {err : Option ε}
    (h : step canceled (.ret i err) s = some s') :
    s.goroutines i = .running ∧ s' = { s with
      goroutines := Function.update s.goroutines i (.returned err)
      returns := s.returns ++ [(i, err)] } := by
  unfold step at h
  dsimp only at h
  split at h
  · rename_i hi
    exact ⟨hi, (Option.some.inj h).symm⟩
  · cases h

theorem cancel_inv {i : Fin n}
    (h : step canceled (.cancel i) s = some s') :
    ∃ err, s.goroutines i = .returned err ∧ s' = { s with
      goroutines := Function.update s.goroutines i (.cancelled err)
      gctx := true } := by
  unfold step at h
  dsimp only at h
  split at h
  · rename_i err hi
    exact ⟨err, hi, (Option.some.inj h).symm⟩
  · cases h

theorem send_inv {i : Fin n} (h : step canceled (.send i) s = some s') :
    ∃ err, s.goroutines i = .cancelled err ∧ s.closed = false
      ∧ s' = { s with
        goroutines := Function.update s.goroutines i .done
        errCh := s.errCh ++ [err]
        sends := s.sends ++ [(i, err)] } := by
  unfold step at h
  dsimp only at h
  split at h
  · rename_i err hi
    split at h
    · rename_i hopen
      exact ⟨err, hi, hopen.1, (Option.some.inj h).symm⟩
    · cases h
  · cases h

theorem wait_inv (h : step canceled .wait s = some s') :
    s.main = .spawning n ∧ (∀ i, s.goroutines i = .done)
      ∧ s' = { s with main := .draining none, closed := true } := by
  unfold step at h
  dsimp only at h
  split at h
  · rename_i k hmain
    split at h
    · rename_i hdone
      refine ⟨hdone.1 ▸ hmain, fun i => ?_,
        (Option.some.inj h).symm⟩
      have := hdone.2 i
      split at this
      · assumption
      · cases this
    · cases h
  · cases h

theorem recv_inv (h : step canceled .recv s = some s') :
    ∃ first err rest, s.main = .draining first ∧ s.errCh = err :: rest
      ∧ s' = { s with
        main := .draining (keepFirst canceled first err)
        errCh := rest } := by
  unfold step at h
  dsimp only at h
  split at h
  · rename_i first err rest hmain hch
    exact ⟨first, err, rest, hmain, hch, (Option.some.inj h).symm⟩
  · cases h

theorem finish_inv (h : step canceled .finish s = some s') :
    ∃ first, s.main = .draining first ∧ s.errCh = []
      ∧ s' = { s with main := .returned first } := by
  unfold step at h
  dsimp only at h
  split at h
  · rename_i first hmain hch
    exact ⟨first, hmain, hch, (Option.some.inj h).symm⟩
  · cases h

theorem interrupt_inv (h : step canceled .interrupt s = some s') :
    s.gctx = false ∧ s' = { s with gctx := true } := by
  unfold step at h
  dsimp only at h
  split at h
  · cases h
  · rename_i hctx
    exact ⟨Bool.eq_false_iff.mpr hctx, (Option.some.inj h).symm⟩

-- ==== the logs

/-- What a component has in a log. -/
def entries (log : List (Fin n × Option ε)) (i : Fin n) :
    List (Option ε) :=
  log.filterMap fun x => if x.1 = i then some x.2 else none

theorem entries_snoc_self (log : List (Fin n × Option ε)) (i : Fin n)
    (err : Option ε) :
    entries (log ++ [(i, err)]) i = entries log i ++ [err] := by
  simp [entries, List.filterMap_append]

theorem entries_snoc_ne {log : List (Fin n × Option ε)} {i j : Fin n}
    (h : j ≠ i) (err : Option ε) :
    entries (log ++ [(i, err)]) j = entries log j := by
  simp [entries, List.filterMap_append, Ne.symm h]

theorem mem_entries {log : List (Fin n × Option ε)} {i : Fin n}
    {err : Option ε} : err ∈ entries log i ↔ (i, err) ∈ log := by
  unfold entries
  rw [List.mem_filterMap]
  constructor
  · rintro ⟨⟨j, e⟩, hmem, h⟩
    split at h
    · rename_i hj
      cases h
      exact hj ▸ hmem
    · cases h
  · exact fun h => ⟨(i, err), h, if_pos rfl⟩

/-- Where a goroutine is and what its component has in the logs. -/
def Fits (returns sends : List (Fin n × Option ε)) (i : Fin n) :
    Goroutine ε → Prop
  | .ready | .running => entries returns i = [] ∧ entries sends i = []
  | .returned err | .cancelled err =>
      entries returns i = [err] ∧ entries sends i = []
  | .done =>
      ∃ err, entries returns i = [err] ∧ entries sends i = [err]

theorem Fits.move {g : Fin n → Goroutine ε} {i : Fin n} {x : Goroutine ε}
    {returns returns' sends sends' : List (Fin n × Option ε)}
    (h : ∀ j, Fits returns sends j (g j)) (hx : Fits returns' sends' i x)
    (hreturns : ∀ j ≠ i, entries returns' j = entries returns j)
    (hsends : ∀ j ≠ i, entries sends' j = entries sends j) (j : Fin n) :
    Fits returns' sends' j (Function.update g i x j) := by
  by_cases hj : j = i
  · subst hj
    rw [Function.update_self]
    exact hx
  · have hold := h j
    rw [Function.update_of_ne hj]
    unfold Fits at hold ⊢
    rw [hreturns j hj, hsends j hj]
    exact hold

-- ==== errors

/-- The first error that counts. -/
def firstError (canceled : ε → Bool) (errs : List (Option ε)) :
    Option ε :=
  (errs.find? (fails canceled)).join

theorem firstError_eq_none {errs : List (Option ε)} :
    firstError canceled errs = none
      ↔ ∀ err ∈ errs, fails canceled err = false := by
  unfold firstError
  constructor
  · intro h
    cases hfind : errs.find? (fails canceled) with
    | none =>
        intro err herr
        exact Bool.eq_false_iff.mpr (List.find?_eq_none.mp hfind err herr)
    | some err =>
        have hfails := List.find?_some hfind
        rw [hfind] at h
        cases err with
        | none => cases hfails
        | some err => cases h
  · intro h
    rw [List.find?_eq_none.mpr fun err herr => by rw [h err herr]; decide]
    rfl

/-- The loop at the end of `Group` computes it. -/
theorem firstError_snoc (errs : List (Option ε)) (err : Option ε) :
    firstError canceled (errs ++ [err])
      = keepFirst canceled (firstError canceled errs) err := by
  unfold keepFirst
  cases hfirst : firstError canceled errs with
  | none =>
      have hnone : errs.find? (fails canceled) = none :=
        List.find?_eq_none.mpr fun e he => by
          rw [firstError_eq_none.mp hfirst e he]
          decide
      unfold firstError
      rw [List.find?_append, hnone, Option.none_or]
      by_cases herr : fails canceled err = true
      · rw [List.find?_cons_of_pos herr, herr]
        rfl
      · rw [List.find?_cons_of_neg herr, Bool.eq_false_iff.mpr herr]
        rfl
  | some e =>
      have hfind : errs.find? (fails canceled) = some (some e) :=
        Option.join_eq_some_iff.mp hfirst
      unfold firstError
      rw [List.find?_append, hfind, Option.some_or]
      rfl

/-- The first error of a log is that of the first failure. -/
theorem firstError_log (log : List (Fin n × Option ε)) :
    firstError canceled (log.map Prod.snd)
      = (firstFailure canceled log).bind Prod.snd := by
  unfold firstError firstFailure
  rw [List.find?_map]
  show ((log.find? fun x => fails canceled x.2).map Prod.snd).join = _
  cases log.find? fun x => fails canceled x.2 <;> rfl

-- ==== invariant

/-- What is in the channel, and what `Group` has made of it. -/
def Drained (canceled : ε → Bool) (s : State n ε) : Main ε → Prop
  | .spawning k =>
      k ≤ n ∧ s.closed = false ∧ s.errCh = s.sends.map Prod.snd
        ∧ ∀ i : Fin n, s.goroutines i = .ready ↔ k ≤ i
  | .draining first =>
      (∀ i, s.goroutines i = .done) ∧ ∃ got,
        s.sends.map Prod.snd = got ++ s.errCh
          ∧ first = firstError canceled got
  | .returned first =>
      (∀ i, s.goroutines i = .done)
        ∧ first = firstError canceled (s.sends.map Prod.snd)

structure Inv (canceled : ε → Bool) (s : State n ε) : Prop where
  fits : ∀ i, Fits s.returns s.sends i (s.goroutines i)
  once : (s.sends.map Prod.fst).Nodup
  drained : Drained canceled s s.main

theorem Inv.init (canceled : ε → Bool) :
    Inv canceled (State.init n ε) := by
  refine ⟨fun i => ⟨rfl, rfl⟩, List.nodup_nil, ?_⟩
  unfold State.init
  dsimp only
  split
  · rename_i hn
    exact ⟨fun i => absurd i.isLt (by omega), rfl⟩
  · exact ⟨Nat.zero_le _, rfl, rfl, fun i => by simp⟩

/-- While a goroutine has not ended, `Group` has not come past its
wait. -/
theorem Inv.waits (h : Inv canceled s) {i : Fin n}
    (hi : s.goroutines i ≠ .done) :
    ∃ k, s.main = .spawning k ∧ Drained canceled s (.spawning k) := by
  have hdrained := h.drained
  cases hmain : s.main with
  | spawning k => exact ⟨k, rfl, hmain ▸ hdrained⟩
  | draining first =>
      rw [hmain] at hdrained
      exact absurd (hdrained.1 i) hi
  | returned first =>
      rw [hmain] at hdrained
      exact absurd (hdrained.1 i) hi

/-- A goroutine that was started before moves on. -/
theorem ready_update {k : Nat} {i : Fin n} {x : Goroutine ε}
    (h : ∀ j : Fin n, s.goroutines j = .ready ↔ k ≤ j)
    (hi : s.goroutines i ≠ .ready) (hx : x ≠ .ready) (j : Fin n) :
    Function.update s.goroutines i x j = .ready ↔ k ≤ j := by
  by_cases hj : j = i
  · subst hj
    rw [Function.update_self]
    exact ⟨fun hx' => absurd hx' hx, fun hk => absurd ((h j).mpr hk) hi⟩
  · rw [Function.update_of_ne hj]
    exact h j

theorem Inv.spawn (h : Inv canceled s)
    (hstep : step canceled .spawn s = some s') : Inv canceled s' := by
  obtain ⟨k, hk, hmain, rfl⟩ := spawn_inv hstep
  have hdrained := h.drained
  rw [hmain] at hdrained
  obtain ⟨-, hclosed, hch, hready⟩ := hdrained
  have hfits := h.fits ⟨k, hk⟩
  rw [(hready ⟨k, hk⟩).mpr (Nat.le_refl k)] at hfits
  refine ⟨Fits.move h.fits hfits (fun _ _ => rfl) fun _ _ => rfl, h.once,
    hk, hclosed, hch, fun i => ?_⟩
  by_cases hi : i = ⟨k, hk⟩
  · subst hi
    show Function.update _ _ _ _ = _ ↔ _
    rw [Function.update_self]
    simp
  · have hne : (i : Nat) ≠ k := fun h => hi (Fin.ext h)
    show Function.update _ _ _ _ = _ ↔ _
    rw [Function.update_of_ne hi, hready i]
    omega

theorem Inv.ret {i : Fin n} {err : Option ε} (h : Inv canceled s)
    (hstep : step canceled (.ret i err) s = some s') :
    Inv canceled s' := by
  obtain ⟨hi, rfl⟩ := ret_inv hstep
  obtain ⟨k, hmain, hk, hclosed, hch, hready⟩ :=
    h.waits (i := i) (by simp [hi])
  have hfits := h.fits i
  rw [hi] at hfits
  refine ⟨Fits.move h.fits ⟨?_, hfits.2⟩
    (fun _ hj => entries_snoc_ne hj err) fun _ _ => rfl, h.once, ?_⟩
  · rw [entries_snoc_self, hfits.1]
    rfl
  · show Drained canceled _ s.main
    rw [hmain]
    exact ⟨hk, hclosed, hch, ready_update hready
      (by simp [hi]) (by simp)⟩

theorem Inv.cancel {i : Fin n} (h : Inv canceled s)
    (hstep : step canceled (.cancel i) s = some s') :
    Inv canceled s' := by
  obtain ⟨err, hi, rfl⟩ := cancel_inv hstep
  obtain ⟨k, hmain, hk, hclosed, hch, hready⟩ :=
    h.waits (i := i) (by simp [hi])
  have hfits := h.fits i
  rw [hi] at hfits
  refine ⟨Fits.move h.fits hfits (fun _ _ => rfl) fun _ _ => rfl, h.once,
    ?_⟩
  show Drained canceled _ s.main
  rw [hmain]
  exact ⟨hk, hclosed, hch, ready_update hready
    (by simp [hi]) (by simp)⟩

theorem Inv.send {i : Fin n} (h : Inv canceled s)
    (hstep : step canceled (.send i) s = some s') :
    Inv canceled s' := by
  obtain ⟨err, hi, hclosed, rfl⟩ := send_inv hstep
  obtain ⟨k, hmain, hk, -, hch, hready⟩ :=
    h.waits (i := i) (by simp [hi])
  have hfits := h.fits i
  rw [hi] at hfits
  have hsnoc : entries (s.sends ++ [(i, err)]) i = [err] := by
    rw [entries_snoc_self, hfits.2]
    rfl
  have hnew : i ∉ s.sends.map Prod.fst := by
    intro hmem
    obtain ⟨⟨j, e⟩, hx, rfl⟩ := List.mem_map.mp hmem
    exact List.not_mem_nil (hfits.2 ▸ mem_entries.mpr hx)
  refine ⟨Fits.move h.fits ⟨err, hfits.1, hsnoc⟩ (fun _ _ => rfl)
    fun _ hj => entries_snoc_ne hj err, ?_, ?_⟩
  · show ((s.sends ++ [(i, err)]).map Prod.fst).Nodup
    rw [List.map_append, List.nodup_append]
    refine ⟨h.once, List.nodup_singleton i, fun a ha b hb hab => ?_⟩
    rw [hab, List.mem_singleton.mp hb] at ha
    exact hnew ha
  · show Drained canceled _ s.main
    rw [hmain]
    refine ⟨hk, hclosed, ?_, ready_update hready
      (by simp [hi]) (by simp)⟩
    rw [hch, List.map_append]
    rfl

theorem Inv.wait (h : Inv canceled s)
    (hstep : step canceled .wait s = some s') : Inv canceled s' := by
  obtain ⟨hmain, hdone, rfl⟩ := wait_inv hstep
  have hdrained := h.drained
  rw [hmain] at hdrained
  obtain ⟨-, -, hch, -⟩ := hdrained
  exact ⟨h.fits, h.once, hdone, [], hch.symm, rfl⟩

theorem Inv.recv (h : Inv canceled s)
    (hstep : step canceled .recv s = some s') : Inv canceled s' := by
  obtain ⟨first, err, rest, hmain, hch, rfl⟩ := recv_inv hstep
  have hdrained := h.drained
  rw [hmain] at hdrained
  obtain ⟨hdone, got, hgot, rfl⟩ := hdrained
  refine ⟨h.fits, h.once, hdone, got ++ [err], ?_,
    (firstError_snoc got err).symm⟩
  rw [hgot, hch, List.append_assoc]
  rfl

theorem Inv.finish (h : Inv canceled s)
    (hstep : step canceled .finish s = some s') : Inv canceled s' := by
  obtain ⟨first, hmain, hch, rfl⟩ := finish_inv hstep
  have hdrained := h.drained
  rw [hmain] at hdrained
  obtain ⟨hdone, got, hgot, rfl⟩ := hdrained
  refine ⟨h.fits, h.once, hdone, ?_⟩
  rw [hgot, hch, List.append_nil]

theorem Inv.interrupt (h : Inv canceled s)
    (hstep : step canceled .interrupt s = some s') : Inv canceled s' := by
  obtain ⟨-, rfl⟩ := interrupt_inv hstep
  refine ⟨h.fits, h.once, ?_⟩
  have hdrained := h.drained
  show Drained canceled _ s.main
  cases hmain : s.main <;> rw [hmain] at hdrained <;> exact hdrained

/-- Every step keeps it. -/
theorem Inv.step (e : Event n ε) (h : Inv canceled s)
    (hstep : step canceled e s = some s') : Inv canceled s' := by
  cases e with
  | spawn => exact h.spawn hstep
  | ret i err => exact h.ret hstep
  | cancel i => exact h.cancel hstep
  | send i => exact h.send hstep
  | wait => exact h.wait hstep
  | recv => exact h.recv hstep
  | finish => exact h.finish hstep
  | interrupt => exact h.interrupt hstep

theorem inv_run {events : List (Event n ε)}
    (h : run (Run.step canceled) events (State.init n ε) = some s) :
    Inv canceled s :=
  run_invariant (fun e _ _ hI => hI.step e) events (Inv.init canceled) h

-- ==== progress

/-- A goroutine that is about to send finds room, in an open channel. -/
theorem Inv.room (h : Inv canceled s) {i : Fin n} {err : Option ε}
    (hi : s.goroutines i = .cancelled err) :
    s.closed = false ∧ s.errCh.length < n := by
  obtain ⟨k, -, -, hclosed, hch, -⟩ := h.waits (i := i) (by simp [hi])
  have hfits := h.fits i
  rw [hi] at hfits
  have hnew : i ∉ s.sends.map Prod.fst := by
    intro hmem
    obtain ⟨⟨j, e⟩, hx, rfl⟩ := List.mem_map.mp hmem
    exact List.not_mem_nil (hfits.2 ▸ mem_entries.mpr hx)
  have hcard := (List.nodup_cons.mpr ⟨hnew, h.once⟩).length_le_card
  rw [Fintype.card_fin, List.length_cons, List.length_map] at hcard
  rw [hch, List.length_map]
  exact ⟨hclosed, hcard⟩

/-- Once every component that was started has returned, something can
happen until `Group` has returned. -/
theorem Inv.progress (h : Inv canceled s)
    (hrunning : ∀ i, s.goroutines i ≠ .running)
    (hmain : ∀ r, s.main ≠ .returned r) :
    ∃ e, (Run.step canceled e s).isSome = true := by
  have hdrained := h.drained
  cases hm : s.main with
  | returned r => exact absurd hm (hmain r)
  | draining first =>
      cases hch : s.errCh with
      | nil => exact ⟨.finish, by simp [Run.step, hm, hch]⟩
      | cons err rest => exact ⟨.recv, by simp [Run.step, hm, hch]⟩
  | spawning k =>
      rw [hm] at hdrained
      obtain ⟨hk, -, -, hready⟩ := hdrained
      by_cases hlt : k < n
      · exact ⟨.spawn, by simp [Run.step, hm, hlt]⟩
      by_cases hdone : ∀ i, s.goroutines i = .done
      · have hkn : k = n := by omega
        exact ⟨.wait, by simp [Run.step, hm, hkn, hdone]⟩
      -- some goroutine has returned and not ended
      obtain ⟨i, hi⟩ := not_forall.mp hdone
      cases hg : s.goroutines i with
      | ready =>
          have := (hready i).mp hg
          have := i.isLt
          omega
      | running => exact absurd hg (hrunning i)
      | returned err => exact ⟨.cancel i, by simp [Run.step, hg]⟩
      | cancelled err =>
          exact ⟨.send i, by simp [Run.step, hg, h.room hg]⟩
      | done => exact absurd hg hi

-- ==== termination

/-- What a goroutine has still to do, the receipt of its error
included. -/
def Goroutine.cost : Goroutine ε → Nat
  | .ready => 5
  | .running => 4
  | .returned _ => 3
  | .cancelled _ => 2
  | .done => 0

def Main.cost : Main ε → Nat
  | .spawning _ => 2
  | .draining _ => 1
  | .returned _ => 0

/-- How many steps are left at most. -/
def State.cost (s : State n ε) : Nat :=
  (∑ i, (s.goroutines i).cost) + s.errCh.length + s.main.cost
    + if s.gctx then 0 else 1

theorem cost_update (g : Fin n → Goroutine ε) (i : Fin n)
    (x : Goroutine ε) :
    (∑ j, (Function.update g i x j).cost) + (g i).cost
      = (∑ j, (g j).cost) + x.cost := by
  have hi := Finset.mem_univ i
  rw [← Finset.add_sum_erase _ _ hi,
    ← Finset.add_sum_erase (a := i) _ (fun j => (g j).cost) hi,
    Function.update_self]
  have hrest : ∑ j ∈ Finset.univ.erase i, (Function.update g i x j).cost
      = ∑ j ∈ Finset.univ.erase i, (g j).cost :=
    Finset.sum_congr rfl fun j hj => by
      rw [Function.update_of_ne (Finset.ne_of_mem_erase hj)]
  rw [hrest]
  omega

/-- Every step uses up at least one. -/
theorem Inv.cost_lt (h : Inv canceled s) (e : Event n ε)
    (hstep : Run.step canceled e s = some s') : s'.cost < s.cost := by
  cases e with
  | spawn =>
      obtain ⟨k, hk, hmain, rfl⟩ := spawn_inv hstep
      have hdrained := h.drained
      rw [hmain] at hdrained
      have hready := (hdrained.2.2.2 ⟨k, hk⟩).mpr (Nat.le_refl k)
      have := cost_update s.goroutines ⟨k, hk⟩ .running
      rw [hready] at this
      simp only [State.cost, hmain, Main.cost, Goroutine.cost] at this ⊢
      omega
  | ret i err =>
      obtain ⟨hi, rfl⟩ := ret_inv hstep
      have := cost_update s.goroutines i (.returned err)
      rw [hi] at this
      simp only [State.cost, Goroutine.cost] at this ⊢
      omega
  | cancel i =>
      obtain ⟨err, hi, rfl⟩ := cancel_inv hstep
      have := cost_update s.goroutines i (.cancelled err)
      rw [hi] at this
      simp only [State.cost, Goroutine.cost, if_true] at this ⊢
      omega
  | send i =>
      obtain ⟨err, hi, -, rfl⟩ := send_inv hstep
      have := cost_update s.goroutines i .done
      rw [hi] at this
      simp only [State.cost, Goroutine.cost, List.length_append,
        List.length_singleton] at this ⊢
      omega
  | wait =>
      obtain ⟨hmain, -, rfl⟩ := wait_inv hstep
      simp only [State.cost, hmain, Main.cost]
      omega
  | recv =>
      obtain ⟨first, err, rest, hmain, hch, rfl⟩ := recv_inv hstep
      simp only [State.cost, hmain, hch, Main.cost, List.length_cons]
      omega
  | finish =>
      obtain ⟨first, hmain, -, rfl⟩ := finish_inv hstep
      simp only [State.cost, hmain, Main.cost]
      omega
  | interrupt =>
      obtain ⟨hctx, rfl⟩ := interrupt_inv hstep
      simp [State.cost, hctx]

theorem length_le_cost (events : List (Event n ε)) (h : Inv canceled s)
    (hrun : run (Run.step canceled) events s = some s') :
    events.length + s'.cost ≤ s.cost := by
  induction events generalizing s with
  | nil =>
      cases hrun
      simp
  | cons e events ih =>
      obtain ⟨s₁, hstep, hrest⟩ := run_cons hrun
      have := h.cost_lt e hstep
      have := ih (h.step e hstep) hrest
      rw [List.length_cons]
      omega

theorem cost_init : (State.init n ε).cost ≤ 5 * n + 3 := by
  have hmain : (State.init n ε).main.cost ≤ 2 := by
    unfold State.init
    dsimp only
    split <;> simp [Main.cost]
  have hsum : ∑ i, ((State.init n ε).goroutines i).cost = n * 5 := by
    show ∑ _i : Fin n, 5 = n * 5
    simp
  unfold State.cost
  rw [hsum]
  show n * 5 + 0 + _ + 1 ≤ _
  omega

-- ==== order

/-- What a step adds to the logs: perhaps a return; and a send adds the
error that its goroutine holds. -/
theorem step_logs (e : Event n ε)
    (hstep : Run.step canceled e s = some s') :
    (∃ more, s'.returns = s.returns ++ more)
      ∧ (s'.sends = s.sends ∨ ∃ i err, e = .send i
        ∧ s.goroutines i = .cancelled err
        ∧ s'.sends = s.sends ++ [(i, err)]) := by
  cases e with
  | spawn =>
      obtain ⟨_, _, _, rfl⟩ := spawn_inv hstep
      exact ⟨⟨[], by simp⟩, .inl rfl⟩
  | ret i err =>
      obtain ⟨_, rfl⟩ := ret_inv hstep
      exact ⟨⟨_, rfl⟩, .inl rfl⟩
  | cancel i =>
      obtain ⟨_, _, rfl⟩ := cancel_inv hstep
      exact ⟨⟨[], by simp⟩, .inl rfl⟩
  | send i =>
      obtain ⟨err, hi, _, rfl⟩ := send_inv hstep
      exact ⟨⟨[], by simp⟩, .inr ⟨i, err, rfl, hi, rfl⟩⟩
  | wait =>
      obtain ⟨_, _, rfl⟩ := wait_inv hstep
      exact ⟨⟨[], by simp⟩, .inl rfl⟩
  | recv =>
      obtain ⟨_, _, _, _, _, rfl⟩ := recv_inv hstep
      exact ⟨⟨[], by simp⟩, .inl rfl⟩
  | finish =>
      obtain ⟨_, _, _, rfl⟩ := finish_inv hstep
      exact ⟨⟨[], by simp⟩, .inl rfl⟩
  | interrupt =>
      obtain ⟨_, rfl⟩ := interrupt_inv hstep
      exact ⟨⟨[], by simp⟩, .inl rfl⟩

/-- So the first failure of a log stays the first. -/
theorem firstFailure_append {log : List (Fin n × Option ε)}
    {x : Fin n × Option ε} (h : firstFailure canceled log = some x)
    (more : List (Fin n × Option ε)) :
    firstFailure canceled (log ++ more) = some x := by
  unfold firstFailure at h ⊢
  rw [List.find?_append, h, Option.some_or]

theorem step_firstFailure (e : Event n ε)
    (hstep : Run.step canceled e s = some s') {x : Fin n × Option ε} :
    (firstFailure canceled s.returns = some x →
        firstFailure canceled s'.returns = some x)
      ∧ (firstFailure canceled s.sends = some x →
        firstFailure canceled s'.sends = some x) := by
  obtain ⟨⟨more, hreturns⟩, hsends⟩ := step_logs e hstep
  refine ⟨fun hx => ?_, fun hx => ?_⟩
  · rw [hreturns]
    exact firstFailure_append hx more
  · rcases hsends with hsends | ⟨i, err, -, -, hsends⟩
    · rw [hsends]
      exact hx
    · rw [hsends]
      exact firstFailure_append hx _

theorem run_firstFailure (events : List (Event n ε))
    (hrun : run (Run.step canceled) events s = some s')
    {x : Fin n × Option ε} :
    (firstFailure canceled s.returns = some x →
        firstFailure canceled s'.returns = some x)
      ∧ (firstFailure canceled s.sends = some x →
        firstFailure canceled s'.sends = some x) := by
  induction events generalizing s with
  | nil =>
      cases hrun
      exact ⟨id, id⟩
  | cons e events ih =>
      obtain ⟨s₁, hstep, hrest⟩ := run_cons hrun
      exact ⟨fun hx => (ih hrest).1 ((step_firstFailure e hstep).1 hx),
        fun hx => (ih hrest).2 ((step_firstFailure e hstep).2 hx)⟩

/-- Where no failure was sent before, one that is sent is the first. -/
theorem firstFailure_snoc {log : List (Fin n × Option ε)}
    (hnone : firstFailure canceled log = none) (x : Fin n × Option ε) :
    firstFailure canceled (log ++ [x])
      = if fails canceled x.2 then some x else none := by
  unfold firstFailure at hnone ⊢
  rw [List.find?_append, hnone, Option.none_or]
  by_cases hx : fails canceled x.2 = true
  · rw [if_pos hx]
    exact List.find?_cons_of_pos hx
  · rw [if_neg hx]
    exact List.find?_cons_of_neg hx

/-- There is a failure among the returns as soon as a failure is
returned. -/
theorem firstFailure_isSome {log : List (Fin n × Option ε)} {i : Fin n}
    {err : Option ε} (hmem : (i, err) ∈ log)
    (herr : fails canceled err = true) :
    ∃ x, firstFailure canceled log = some x := by
  cases hfind : firstFailure canceled log with
  | some x => exact ⟨x, rfl⟩
  | none =>
      exact absurd herr (List.find?_eq_none.mp hfind (i, err) hmem)

/-- The first failure sent is the first one returned, so far. -/
def Agree (canceled : ε → Bool) (s : State n ε) : Prop :=
  ∀ x, firstFailure canceled s.sends = some x →
    firstFailure canceled s.returns = some x

/-- What a goroutine is about to send is the only thing its component
returned. -/
theorem Inv.unsent (h : Inv canceled s) {i : Fin n} {err : Option ε}
    (hi : s.goroutines i = .cancelled err) (e : Option ε) :
    (i, e) ∈ s.returns ↔ e = err := by
  have hfits := h.fits i
  rw [hi] at hfits
  rw [← mem_entries, hfits.1, List.mem_singleton]

theorem Agree.step {e : Event n ε} (hfirst : SendsFirst canceled e s)
    (h : Inv canceled s) (hagree : Agree canceled s)
    (hstep : Run.step canceled e s = some s') : Agree canceled s' := by
  intro x hx
  cases hsent : firstFailure canceled s.sends with
  | some y =>
      have hy := (step_firstFailure e hstep).2 hsent
      cases hx.symm.trans hy
      exact (step_firstFailure e hstep).1 (hagree x hsent)
  | none =>
      -- this is the step that sends the first failure
      obtain ⟨⟨more, hreturns⟩, hsends⟩ := step_logs e hstep
      rcases hsends with hsends | ⟨i, err, rfl, hi, hsends⟩
      · rw [hsends, hsent] at hx
        cases hx
      · rw [hsends, firstFailure_snoc hsent] at hx
        split at hx
        · rename_i herr
          cases hx
          have hmap := hfirst err (by simp [Goroutine.unsent, hi])
            (by simp [hsent]) herr
          obtain ⟨⟨j, e⟩, hfind, hj⟩ := Option.map_eq_some_iff.mp hmap
          cases hj
          have hmem : (j, e) ∈ s.returns := List.mem_of_find?_eq_some hfind
          cases (h.unsent hi e).mp hmem
          exact (step_firstFailure _ hstep).1 hfind
        · cases hx

theorem along_of_eq (events : List (Event n ε)) (h : Inv canceled s)
    (hrun : run (Run.step canceled) events s = some s')
    (heq : firstFailure canceled s'.sends
      = firstFailure canceled s'.returns) :
    Along (SendsFirst canceled) (Run.step canceled) events s := by
  induction events generalizing s with
  | nil => trivial
  | cons e events ih =>
      obtain ⟨s₁, hstep, hrest⟩ := run_cons hrun
      refine ⟨?_, fun s₂ hstep₂ => ?_⟩
      · cases e with
        | send i =>
            intro err hunsent hnone herr
            obtain ⟨err', hi, -, rfl⟩ := send_inv hstep
            rw [hi] at hunsent
            cases hunsent
            have hsent := firstFailure_snoc
              (Option.isNone_iff_eq_none.mp hnone) (i, err)
            rw [if_pos herr] at hsent
            have hlast := (run_firstFailure events hrest).2 hsent
            obtain ⟨x, hx⟩ := firstFailure_isSome
              ((h.unsent hi err).mpr rfl) herr
            have hx' := (run_firstFailure _ hrun).1 hx
            cases hx'.symm.trans (heq.symm.trans hlast)
            rw [hx]
            rfl
        | _ => trivial
      · cases hstep.symm.trans hstep₂
        exact ih (h.step e hstep) hrest

/-- When all goroutines have ended, the logs hold the same. -/
theorem Inv.mem_sends_iff (h : Inv canceled s)
    (hdone : ∀ i, s.goroutines i = .done) (x : Fin n × Option ε) :
    x ∈ s.sends ↔ x ∈ s.returns := by
  obtain ⟨i, err⟩ := x
  have hfits := h.fits i
  rw [hdone i] at hfits
  obtain ⟨e, hreturns, hsends⟩ := hfits
  rw [← mem_entries, ← mem_entries, hreturns, hsends]

/-- `Group` returns the first failure that was sent: nil exactly when
no component failed. It is the first failure that was returned exactly
if the goroutines' sends come in that order. A run has at most `5n + 3`
steps, and it can go on until `Group` has returned as soon as the
components have. -/
theorem group_returns_first_failure (events : List (Event n ε))
    (h : run (step canceled) events (State.init n ε) = some s) :
    events.length ≤ 5 * n + 3
      ∧ ((∀ i, s.goroutines i ≠ .running) →
        (∀ r, s.main ≠ .returned r) →
        ∃ e, (step canceled e s).isSome = true)
      ∧ ∀ r, s.main = .returned r →
        (∀ i, ∃ err, entries s.returns i = [err])
          ∧ (r = none ↔ ∀ x ∈ s.returns, fails canceled x.2 = false)
          ∧ r = (firstFailure canceled s.sends).bind Prod.snd
          ∧ (Along (SendsFirst canceled) (step canceled) events
              (State.init n ε)
            ↔ firstFailure canceled s.sends
              = firstFailure canceled s.returns) := by
  have hinv := inv_run h
  refine ⟨?_, hinv.progress, fun r hr => ?_⟩
  · have := length_le_cost events (Inv.init canceled) h
    have := cost_init (n := n) (ε := ε)
    omega
  · have hdrained := hinv.drained
    rw [hr] at hdrained
    obtain ⟨hdone, rfl⟩ := hdrained
    refine ⟨fun i => ?_, ?_, firstError_log s.sends, fun halong => ?_,
      along_of_eq events (Inv.init canceled) h⟩
    · have hfits := hinv.fits i
      rw [hdone i] at hfits
      obtain ⟨err, hreturns, -⟩ := hfits
      exact ⟨err, hreturns⟩
    · rw [firstError_eq_none]
      constructor
      · intro hnone x hx
        exact hnone x.2 (List.mem_map_of_mem
          ((hinv.mem_sends_iff hdone x).mpr hx))
      · intro hnone err herr
        obtain ⟨x, hx, rfl⟩ := List.mem_map.mp herr
        exact hnone x ((hinv.mem_sends_iff hdone x).mp hx)
    · have hagree : Agree canceled s := (run_invariant_along
        (I := fun s => Inv canceled s ∧ Agree canceled s)
        (fun e _ _ hP hI hstep => ⟨hI.1.step e hstep,
          hI.2.step hP hI.1 hstep⟩) events halong
        ⟨Inv.init canceled, fun x hx => by cases hx⟩ h).2
      cases hsent : firstFailure canceled s.sends with
      | some x => exact (hagree x hsent).symm
      | none =>
          refine (List.find?_eq_none.mpr fun x hx => ?_).symm
          exact List.find?_eq_none.mp hsent x
            ((hinv.mem_sends_iff hdone x).mpr hx)

-- ==== examples

/-- Errors that components return: `context.Canceled`,
`context.DeadlineExceeded`, `http.ErrServerClosed` and one more. -/
inductive Err where
  | canceled
  | deadlineExceeded
  | serverClosed
  | aFailed
deriving DecidableEq

def Err.isCanceled (e : Err) : Bool := e == .canceled

def Err.isServerClosed (e : Err) : Bool := e == .serverClosed

/-- A component fails; the HTTP server beside it is shut down and does
not drain in time. The two sends come in one order or the other. -/
def failure (sends : List (Event 2 Err)) : List (Event 2 Err) :=
  [.spawn, .spawn, .ret 0 (some .aFailed), .cancel 0,
    .ret 1 (httpServer Err.isServerClosed
      (.shutdown (some .deadlineExceeded))), .cancel 1]
    ++ sends ++ [.wait, .recv, .recv, .finish]

theorem group_returns_first_failure_in_order :
    ∃ s : State 2 Err,
      run (step Err.isCanceled) (failure [.send 0, .send 1])
        (State.init 2 Err) = some s
      ∧ s.main = .returned (some .aFailed)
      ∧ firstFailure Err.isCanceled s.sends
        = firstFailure Err.isCanceled s.returns := by
  have hfacts : (run (step Err.isCanceled) (failure [.send 0, .send 1])
      (State.init 2 Err)).map (fun s => s.main)
        = some (.returned (some .aFailed)) := by decide +kernel
  obtain ⟨s, hrun, hmain⟩ := Option.map_eq_some_iff.mp hfacts
  have halong : Along (SendsFirst Err.isCanceled) (step Err.isCanceled)
      (failure [.send 0, .send 1]) (State.init 2 Err) := by
    decide +kernel
  exact ⟨s, hrun, hmain, ((group_returns_first_failure _ hrun).2.2 _
    hmain).2.2.2.mp halong⟩

/-- The goroutine of the component that failed is overtaken between its
cancel and its send: `Group` returns what the server made of the
shutdown. -/
theorem group_returns_reaction :
    (run (step Err.isCanceled) ((failure []).take 4)
        (State.init 2 Err)).map (fun s => (s.gctx, s.returns))
      = some (true, [(0, some .aFailed)])
    ∧ (run (step Err.isCanceled) (failure [.send 1, .send 0])
        (State.init 2 Err)).map (fun s => (s.main, s.returns))
      = some (.returned (some .deadlineExceeded),
        [(0, some .aFailed), (1, some .deadlineExceeded)]) := by
  decide +kernel

end Tokyo3Base.Run
