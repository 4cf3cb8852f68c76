/-
Runs of a partial step function, and the rule every safety proof here
goes through: an invariant kept by each step holds after every run.

A machine is a function `step : α → σ → Option σ`: `none` says that
the action is not enabled. Concurrency is the choice of the action
list, so a statement about every list of actions is a statement about
every interleaving.

`Along` restricts a run to steps that meet a condition in the state in
which they are taken; the invariant rule is stated for such runs, and
for all runs as the case without a condition.

`run_countP_le` bounds how often the steps of one party are taken: they
lower a measure, which only the steps of a second kind may raise.
-/

namespace Tokyo3Base.Lib

variable {α σ : Type _}

/-- Perform the actions in order; `none` if one of them is not
enabled. -/
def run (step : α → σ → Option σ) : List α → σ → Option σ
  | [], s => some s
  | a :: as, s => (step a s).bind (run step as)

/-- Every step of the run is taken in a state in which `P` allows it. -/
def Along (P : α → σ → Prop) (step : α → σ → Option σ) :
    List α → σ → Prop
  | [], _ => True
  | a :: as, s => P a s ∧ ∀ s', step a s = some s' → Along P step as s'

variable {step : α → σ → Option σ}

/-- A run that starts with `a` is a step and the run of the rest. -/
theorem run_cons {a : α} {as : List α} {s s' : σ}
    (h : run step (a :: as) s = some s') :
    ∃ s₁, step a s = some s₁ ∧ run step as s₁ = some s' :=
  Option.bind_eq_some_iff.mp h

/-- The invariant rule, for runs whose steps all meet `P`. -/
theorem run_invariant_along {I : σ → Prop} {P : α → σ → Prop}
    (hstep : ∀ a s s', P a s → I s → step a s = some s' → I s') :
    ∀ (as : List α) {s s' : σ}, Along P step as s → I s →
      run step as s = some s' → I s' := by
  intro as
  induction as with
  | nil =>
      intro s s' _ hI h
      injection h with h
      subst h
      exact hI
  | cons a as ih =>
      intro s s' hP hI h
      obtain ⟨s₁, ha, has⟩ := run_cons h
      exact ih (hP.2 s₁ ha) (hstep a s s₁ hP.1 hI ha) has

/-- Whether a given run meets a condition can be computed. -/
instance Along.decidable {P : α → σ → Prop} [∀ a s, Decidable (P a s)] :
    ∀ (as : List α) (s : σ), Decidable (Along P step as s)
  | [], _ => isTrue trivial
  | a :: as, s =>
      match h : step a s with
      | none =>
          decidable_of_iff (P a s)
            ⟨fun hP => ⟨hP, fun s' h' => by cases h.symm.trans h'⟩,
              fun hA => hA.1⟩
      | some s₁ =>
          have : Decidable (Along P step as s₁) := Along.decidable as s₁
          decidable_of_iff (P a s ∧ Along P step as s₁)
            ⟨fun hA => ⟨hA.1, fun s' h' => by
                cases h.symm.trans h'
                exact hA.2⟩,
              fun hA => ⟨hA.1, hA.2 s₁ h⟩⟩

/-- A condition that its actions meet in every state. -/
theorem along_of_forall {P : α → σ → Prop} {as : List α}
    (h : ∀ a ∈ as, ∀ s, P a s) (s : σ) : Along P step as s := by
  induction as generalizing s with
  | nil => trivial
  | cons a as ih =>
      exact ⟨h a List.mem_cons_self s,
        fun s' _ => ih (fun b hb => h b (List.mem_cons_of_mem _ hb)) s'⟩

theorem run_invariant {I : σ → Prop}
    (hstep : ∀ a s s', I s → step a s = some s' → I s')
    (as : List α) {s s' : σ} (hI : I s) (h : run step as s = some s') :
    I s' :=
  run_invariant_along (P := fun _ _ => True)
    (fun a s s' _ => hstep a s s') as
    (along_of_forall (fun _ _ _ => trivial) s) hI h

/-- A run takes no more steps of a kind that lowers the measure than the
measure, and what raises it, allow. -/
theorem run_countP_le {I : σ → Prop} {μ : σ → Nat} {own feed : α → Bool}
    {c : Nat}
    (hstep : ∀ a s s', I s → step a s = some s' → I s'
      ∧ (if own a then 1 else 0) + μ s' ≤ μ s + (if feed a then c else 0)) :
    ∀ (as : List α) {s s' : σ}, I s → run step as s = some s' →
      as.countP own + μ s' ≤ μ s + c * as.countP feed := by
  intro as
  induction as with
  | nil =>
      intro s s' _ h
      injection h with h
      subst h
      simp
  | cons a as ih =>
      intro s s' hI h
      obtain ⟨s₁, ha, has⟩ := run_cons h
      obtain ⟨hI₁, hle⟩ := hstep a s s₁ hI ha
      have hrest := ih hI₁ has
      rw [List.countP_cons, List.countP_cons, Nat.mul_add]
      cases hown : own a <;> cases hfeed : feed a <;>
        simp only [hown, hfeed, if_true, if_false, Bool.false_eq_true,
          Nat.mul_one, Nat.mul_zero] at hle ⊢ <;> omega

end Tokyo3Base.Lib
