/-
Any number of calls over one shared state and one lock, and the rule by
which an invariant of such a system is proved one call at a time.

# The system

A call is a machine of its own: in a phase `π`, an event takes it to
another phase and changes the shared state `σ`. Some phases hold the
lock. A call that moves into such a phase takes the lock, which has to
be free; one that moves out of it gives the lock back. Steps outside
the lock may read and change the shared state as well: nothing here
assumes that they do not.

# The rule

Three kinds of facts, in the way of an ownership argument:

- `inv σ` holds in every state;
- `free σ` holds while nobody has the lock. A call that takes the lock
  may use it, and has to give it back with the lock;
- `ok p σ ph` is what is known while call `p` is in the phase `ph`.

A step of one call has to keep its own facts and to leave the facts of
every other call alone (`Kept`). When the step is taken under the lock
the others are known not to hold it, which is all that mutual exclusion
is used for.
-/
import Mathlib.Logic.Function.Basic
import Tokyo3Base.Lib.Run

namespace Tokyo3Base.Lib

/-- The shared state, the holder of the lock, and the calls. -/
structure Pool (σ π : Type) where
  shared : σ
  lock : Option Nat
  calls : Nat → π

variable {σ π ε : Type}

/-- Nobody has the lock, and every call is in the same phase. -/
def Pool.start (shared : σ) (phase : π) : Pool σ π where
  shared := shared
  lock := none
  calls := fun _ => phase

/-- Who has the lock after call `p` moved from a phase to another. -/
def lockAfter (p : Nat) (lock : Option Nat) (before after : Bool) :
    Option Nat :=
  if after then some p else if before then none else lock

/-- One event of one call. -/
def Pool.step (holds : π → Bool)
    (act : Nat → ε → σ → π → Option (σ × π)) (a : Nat × ε)
    (w : Pool σ π) : Option (Pool σ π) :=
  (act a.1 a.2 w.shared (w.calls a.1)).bind fun r =>
    if holds r.2 && !holds (w.calls a.1) && w.lock.isSome then none
    else some
      { shared := r.1
        lock := lockAfter a.1 w.lock (holds (w.calls a.1)) (holds r.2)
        calls := Function.update w.calls a.1 r.2 }

variable {holds : π → Bool} {act : Nat → ε → σ → π → Option (σ × π)}

/-- What a step does: the call's own step, with the lock free if it is
taken. -/
theorem Pool.step_cases {a : Nat × ε} {w w' : Pool σ π}
    (h : Pool.step holds act a w = some w') :
    ∃ sh ph, act a.1 a.2 w.shared (w.calls a.1) = some (sh, ph)
      ∧ (holds (w.calls a.1) = false → holds ph = true → w.lock = none)
      ∧ w' = ⟨sh, lockAfter a.1 w.lock (holds (w.calls a.1)) (holds ph),
          Function.update w.calls a.1 ph⟩ := by
  obtain ⟨⟨sh, ph⟩, hact, hr⟩ := Option.bind_eq_some_iff.mp h
  split at hr
  · cases hr
  · rename_i hfree
    refine ⟨sh, ph, hact, fun hb ha => ?_, (Option.some.inj hr).symm⟩
    cases hlock : w.lock with
    | none => rfl
    | some q =>
        exact absurd (by simp [ha, hb, hlock]) hfree

-- ==== the rule

/-- What a step of call `p` has to keep. -/
structure Kept (holds : π → Bool) (inv free : σ → Prop)
    (ok : Nat → σ → π → Prop) (p : Nat) (sh : σ) (ph : π) (sh' : σ)
    (ph' : π) : Prop where
  inv : inv sh'
  own : ok p sh' ph'
  free : holds ph' = false → (holds ph = false → free sh) → free sh'
  others : ∀ q, q ≠ p → ∀ other,
    (holds other = true → holds ph = false ∧ holds ph' = false) →
    ok q sh other → ok q sh' other

/-- A step that leaves the shared state alone keeps what the others
know. -/
theorem Kept.same {inv free : σ → Prop} {ok : Nat → σ → π → Prop}
    {p : Nat} {sh : σ} {ph ph' : π} (hinv : inv sh)
    (hown : ok p sh ph')
    (hfree : holds ph = true → holds ph' = false → free sh) :
    Kept holds inv free ok p sh ph sh ph' where
  inv := hinv
  own := hown
  free := by
    intro hout hin
    cases hh : holds ph with
    | false => exact hin hh
    | true => exact hfree hh hout
  others := fun _ _ _ _ hok => hok

/-- The facts about a whole system. -/
structure Pool.Inv (holds : π → Bool) (inv free : σ → Prop)
    (ok : Nat → σ → π → Prop) (w : Pool σ π) : Prop where
  /-- the lock says who holds it -/
  mutex : ∀ p, w.lock = some p ↔ holds (w.calls p) = true
  inv : inv w.shared
  free : w.lock = none → free w.shared
  calls : ∀ p, ok p w.shared (w.calls p)

variable {inv free : σ → Prop} {ok : Nat → σ → π → Prop}

/-- Two calls do not hold the lock at once. -/
theorem Pool.Inv.exclusive {w : Pool σ π}
    (hw : w.Inv holds inv free ok) {p q : Nat}
    (hp : holds (w.calls p) = true) (hq : holds (w.calls q) = true) :
    p = q := by
  have hlock := (hw.mutex p).mpr hp
  exact Option.some.inj (hlock.symm.trans ((hw.mutex q).mpr hq))

/-- Nobody holds a free lock. -/
theorem Pool.Inv.not_holds {w : Pool σ π}
    (hw : w.Inv holds inv free ok) (hlock : w.lock = none) (p : Nat) :
    holds (w.calls p) = false := by
  cases h : holds (w.calls p) with
  | false => rfl
  | true => exact absurd ((hw.mutex p).mpr h) (by rw [hlock]; nofun)

theorem Pool.Inv.mutex_step {w : Pool σ π}
    (hw : w.Inv holds inv free ok) {p : Nat} {ph : π}
    (hfree : holds (w.calls p) = false → holds ph = true →
      w.lock = none) (q : Nat) :
    lockAfter p w.lock (holds (w.calls p)) (holds ph) = some q
      ↔ holds (Function.update w.calls p ph q) = true := by
  unfold lockAfter
  cases hafter : holds ph with
  | true =>
      rw [if_pos rfl]
      rcases eq_or_ne q p with rfl | hne
      · simp [hafter]
      · -- the lock was free, or it was this call's already
        rw [Function.update_of_ne hne]
        refine ⟨fun h => absurd (Option.some.inj h).symm hne,
          fun h => absurd ?_ hne⟩
        cases hbefore : holds (w.calls p) with
        | true => exact hw.exclusive h hbefore
        | false =>
            have := hw.not_holds (hfree hbefore hafter) q
            exact absurd (this.symm.trans h) nofun
  | false =>
      rw [if_neg Bool.false_ne_true]
      cases hbefore : holds (w.calls p) with
      | true =>
          rw [if_pos rfl]
          rcases eq_or_ne q p with rfl | hne
          · simp [hafter]
          · rw [Function.update_of_ne hne]
            exact ⟨nofun, fun h => absurd (hw.exclusive h hbefore) hne⟩
      | false =>
          rw [if_neg Bool.false_ne_true, hw.mutex q]
          rcases eq_or_ne q p with rfl | hne
          · simp [hafter, hbefore]
          · rw [Function.update_of_ne hne]

/-- The invariant is kept by a step that is `Kept`. -/
theorem Pool.Inv.step {w w' : Pool σ π} {a : Nat × ε}
    (hw : w.Inv holds inv free ok)
    (hkept : ∀ sh ph,
      act a.1 a.2 w.shared (w.calls a.1) = some (sh, ph) →
      (holds (w.calls a.1) = false → holds ph = true →
        free w.shared) →
      Kept holds inv free ok a.1 w.shared (w.calls a.1) sh ph)
    (h : Pool.step holds act a w = some w') :
    w'.Inv holds inv free ok := by
  obtain ⟨sh, ph, hact, hfree, rfl⟩ := Pool.step_cases h
  have hk := hkept sh ph hact fun hb ha => hw.free (hfree hb ha)
  refine ⟨hw.mutex_step hfree, hk.inv, fun hnone => ?_, fun q => ?_⟩
  · -- the lock is free now: it was given back, or nobody had it
    show free sh
    have hout : holds ph = false := by
      cases hafter : holds ph with
      | false => rfl
      | true => simp [lockAfter, hafter] at hnone
    refine hk.free hout fun hb => hw.free ?_
    simpa [lockAfter, hout, hb] using hnone
  · show ok q sh (Function.update w.calls a.1 ph q)
    rcases eq_or_ne q a.1 with rfl | hne
    · rw [Function.update_self]
      exact hk.own
    · rw [Function.update_of_ne hne]
      refine hk.others q hne _ (fun hq => ?_) (hw.calls q)
      constructor
      · cases hb : holds (w.calls a.1) with
        | false => rfl
        | true => exact absurd (hw.exclusive hq hb) hne
      · cases hafter : holds ph with
        | false => rfl
        | true =>
            exfalso
            cases hb : holds (w.calls a.1) with
            | true => exact hne (hw.exclusive hq hb)
            | false =>
                have := hw.not_holds (hfree hb hafter) q
                exact nomatch this.symm.trans hq

/-- The invariant holds after every run whose steps meet a condition on
the call that takes them. -/
theorem Pool.invariant {P : Nat → ε → σ → π → Prop}
    (hkept : ∀ p e sh ph sh' ph', act p e sh ph = some (sh', ph') →
      P p e sh ph → inv sh → ok p sh ph →
      (holds ph = false → holds ph' = true → free sh) →
      Kept holds inv free ok p sh ph sh' ph')
    {es : List (Nat × ε)} {w w' : Pool σ π}
    (hP : Along (fun a w => P a.1 a.2 w.shared (w.calls a.1))
      (Pool.step holds act) es w)
    (hw : w.Inv holds inv free ok)
    (hrun : run (Pool.step holds act) es w = some w') :
    w'.Inv holds inv free ok :=
  run_invariant_along
    (P := fun a w => P a.1 a.2 w.shared (w.calls a.1))
    (fun a w₁ _ ha hw₁ h => hw₁.step
      (fun sh ph hact hfree => hkept a.1 a.2 w₁.shared (w₁.calls a.1) sh
        ph hact ha hw₁.inv (hw₁.calls a.1) hfree) h)
    es hP hw hrun

end Tokyo3Base.Lib
