/-
Cancellation in a list: some elements push themselves on a stack, some
pop it, some do nothing.

The stack reads from left to right. Which elements are still on it at
the end is easier to see from right to left: a pop is a debt that the
next push to its left pays, and an element survives when no debt is
open at its place. `survivors` computes that, and `foldl_stackStep` says
that the two readings agree, from any initial stack: what is left of the
initial stack is what the open debt does not reach.
-/

namespace Tokyo3Base.Lib

/-- What an element does to the stack. -/
inductive Effect where
  | skip
  | push
  | pop
deriving DecidableEq

variable {α : Type _}

/-- One element, on a stack whose top is the head of the list. -/
def stackStep (effect : α → Effect) (stack : List α) (e : α) : List α :=
  match effect e with
  | .skip => stack
  | .push => e :: stack
  | .pop => stack.tail

/-- The elements that no later pop removes, in order, and the number of
pops that found nothing to remove. -/
def survivorsDebt (effect : α → Effect) : List α → List α × Nat
  | [] => ([], 0)
  | e :: es =>
      match effect e, survivorsDebt effect es with
      | .skip, r => r
      | .pop, (kept, debt) => (kept, debt + 1)
      | .push, (kept, 0) => (e :: kept, 0)
      | .push, (kept, debt + 1) => (kept, debt)

/-- The elements that no later pop removes, in order. -/
def survivors (effect : α → Effect) (l : List α) : List α :=
  (survivorsDebt effect l).1

variable {effect : α → Effect}

/-- The stack after the whole list: the survivors, on top of what the
open debt leaves of the initial stack. -/
theorem foldl_stackStep (l stack : List α) :
    l.foldl (stackStep effect) stack
      = (survivors effect l).reverse
        ++ stack.drop (survivorsDebt effect l).2 := by
  unfold survivors
  induction l generalizing stack with
  | nil => rfl
  | cons e es ih =>
      rw [List.foldl_cons, ih]
      simp only [stackStep, survivorsDebt]
      cases effect e with
      | skip => rfl
      | pop => simp
      | push =>
          rcases survivorsDebt effect es with ⟨kept, _ | debt⟩
          · simp
          · simp

theorem foldl_stackStep_nil (l : List α) :
    (l.foldl (stackStep effect) []).reverse = survivors effect l := by
  rw [foldl_stackStep]
  simp

theorem survivors_sublist (l : List α) : (survivors effect l).Sublist l := by
  unfold survivors
  induction l with
  | nil => exact List.Sublist.slnil
  | cons e es ih =>
      simp only [survivorsDebt]
      cases effect e with
      | skip => exact ih.cons e
      | pop => exact ih.cons e
      | push =>
          rcases hr : survivorsDebt effect es with ⟨kept, _ | debt⟩
          · rw [hr] at ih
            exact ih.cons_cons e
          · rw [hr] at ih
            exact ih.cons e

theorem effect_of_mem_survivors {l : List α} {e : α}
    (h : e ∈ survivors effect l) : effect e = .push := by
  unfold survivors at h
  induction l with
  | nil => cases h
  | cons x xs ih =>
      simp only [survivorsDebt] at h
      cases hx : effect x with
      | skip =>
          rw [hx] at h
          exact ih h
      | pop =>
          rw [hx] at h
          exact ih h
      | push =>
          rw [hx] at h
          rcases hr : survivorsDebt effect xs with ⟨kept, _ | debt⟩
          · rw [hr] at h ih
            rcases List.mem_cons.mp h with rfl | h
            · exact hx
            · exact ih h
          · rw [hr] at h ih
            exact ih h

/-- Where nothing pops and nothing is skipped, everything survives. -/
theorem survivors_of_push {l : List α} (h : ∀ e ∈ l, effect e = .push) :
    survivors effect l = l := by
  have hdebt : survivorsDebt effect l = (l, 0) := by
    induction l with
    | nil => rfl
    | cons x xs ih =>
        have hxs := ih fun e he => h e (List.mem_cons_of_mem _ he)
        simp only [survivorsDebt, h x List.mem_cons_self, hxs]
  rw [survivors, hdebt]

theorem survivors_cons_skip {e : α} (he : effect e = .skip) (l : List α) :
    survivors effect (e :: l) = survivors effect l := by
  simp only [survivors, survivorsDebt, he]

theorem survivors_append_skip {e : α} (he : effect e = .skip)
    (l : List α) : survivors effect (l ++ [e]) = survivors effect l := by
  have hdebt : survivorsDebt effect (l ++ [e]) = survivorsDebt effect l := by
    induction l with
    | nil => simp [survivorsDebt, he]
    | cons x xs ih => simp only [List.cons_append, survivorsDebt, ih]
  simp only [survivors, hdebt]

end Tokyo3Base.Lib
