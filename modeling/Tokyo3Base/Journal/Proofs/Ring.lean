/-
What the ring of a `Tracker` shows: the first `cap` elements of the stable
sorting of all that arrived.

# Truncation

The ring is cut after every insertion, and then sorted again with the next
value only. Nothing is lost by that: a value that was cut had `cap` others
before it, and an insertion takes none of them out, so it never comes back
among the first `cap` of the whole history (`take_mergeSort_snoc`).

# The comparison

`Less` is a strict weak order. Not being after is then a total preorder,
which is what the sorting works with; a tie are two values neither of which
is before the other, and ties stay in the order of arrival.
-/
import Mathlib.Data.List.Induction
import Tokyo3Base.Lib.StableSort
import Tokyo3Base.Journal.Proofs.Resume

namespace Tokyo3Base.Journal

open Lib

variable {τ : Type}

-- ==== the comparison

/-- `a` is not after `b`. -/
def notAfter (less : τ → τ → Bool) (a b : τ) : Bool := !less b a

theorem notAfter_iff {less : τ → τ → Bool} {a b : τ} :
    notAfter less a b = true ↔ ¬ less b a = true := by
  rw [notAfter, Bool.not_eq_true', Bool.not_eq_true]

section

variable {less : τ → τ → Bool}
  [order : IsStrictWeakOrder τ fun a b => less a b = true]

include order in
theorem notAfter_total (a b : τ) :
    (notAfter less a b || notAfter less b a) = true := by
  rw [Bool.or_eq_true_iff, notAfter_iff, notAfter_iff]
  by_cases h : less b a = true
  · exact .inr fun h' => order.irrefl a (order.trans a b a h' h)
  · exact .inl h

include order in
theorem notAfter_trans (a b c : τ) (hab : notAfter less a b = true)
    (hbc : notAfter less b c = true) : notAfter less a c = true := by
  rw [notAfter_iff] at hab hbc ⊢
  intro hca
  -- `b` would be tied with both, and they with each other
  have hab' : ¬ less a b = true := fun h => hbc (order.trans c a b hca h)
  have hbc' : ¬ less b c = true := fun h => hab (order.trans b c a h hca)
  exact (order.incomp_trans a b c ⟨hab', hab⟩ ⟨hbc', hbc⟩).2 hca

-- ==== the ring

include order in
theorem Tracker.foldl_insert_less {t : Tracker τ} (ht : t.less = some less)
    (vs : List τ) : vs.foldl t.insert []
      = (vs.mergeSort (notAfter less)).take t.cap := by
  induction vs using List.reverseRecOn with
  | nil => rw [List.mergeSort_nil, List.take_nil, List.foldl_nil]
  | append_singleton vs v ih =>
      rw [List.foldl_append, ih, List.foldl_cons, List.foldl_nil,
        Tracker.insert, ht]
      exact take_mergeSort_snoc notAfter_trans notAfter_total t.cap vs v

end

theorem Tracker.foldl_insert_none {t : Tracker τ} (ht : t.less = none)
    (vs : List τ) : vs.foldl t.insert [] = vs.reverse.take t.cap := by
  induction vs using List.reverseRecOn with
  | nil => rw [List.reverse_nil, List.take_nil, List.foldl_nil]
  | append_singleton vs v ih =>
      rw [List.foldl_append, ih, List.foldl_cons, List.foldl_nil,
        Tracker.insert, ht, List.reverse_append]
      cases t.cap with
      | zero => rfl
      | succ k =>
          dsimp only
          rw [List.take_succ_cons, List.take_take,
            Nat.min_eq_left (Nat.le_succ k)]
          rfl

/-- The ring after a sequence of insertions. By a strict weak order it is
the first `cap` elements of the stable sorting of all of them, of which
there is one; without an order it is the last `cap`, the latest first. -/
theorem Tracker.foldl_insert (t : Tracker τ) (vs : List τ) :
    (∀ less, t.less = some less →
      IsStrictWeakOrder τ (fun a b => less a b = true) →
      ∃ sorted,
        (∀ l, StableSorting (notAfter less) vs l ↔ l = sorted)
          ∧ vs.foldl t.insert [] = sorted.take t.cap)
      ∧ (t.less = none → vs.foldl t.insert [] = vs.reverse.take t.cap) := by
  refine ⟨fun less ht order => ?_, fun ht => t.foldl_insert_none ht vs⟩
  have hsorting : StableSorting (notAfter less) vs
      (vs.mergeSort (notAfter less)) :=
    stableSorting_mergeSort notAfter_trans notAfter_total vs
  refine ⟨_, fun l => ⟨fun h => h.unique notAfter_total hsorting, ?_⟩,
    t.foldl_insert_less ht vs⟩
  rintro rfl
  exact hsorting

/-- Newest first by the first component, as a time would be. -/
def newerFirst (a b : Nat × Nat) : Bool := decide (b.1 < a.1)

theorem newerFirst_order :
    IsStrictWeakOrder (Nat × Nat) fun a b => newerFirst a b = true where
  irrefl a h := Nat.lt_irrefl a.1 (of_decide_eq_true h)
  trans a b c hab hbc := decide_eq_true
    (Nat.lt_trans (of_decide_eq_true hbc) (of_decide_eq_true hab))
  incomp_trans a b c hab hbc := by
    simp only [newerFirst, decide_eq_true_eq] at hab hbc ⊢
    omega

/-- Of two events of the same time, the earlier one stays. -/
theorem Tracker.foldl_insert_newerFirst :
    ∃ sorted,
      (∀ l, StableSorting (notAfter newerFirst)
        [(1, 0), (2, 1), (3, 2), (2, 3)] l ↔ l = sorted)
        ∧ [(1, 0), (2, 1), (3, 2), (2, 3)].foldl
          (newTracker ⟨fun _ => none, some newerFirst, 2, 0⟩).insert []
          = sorted.take 2 :=
  ((newTracker ⟨fun _ => none, some newerFirst, 2, 0⟩).foldl_insert
    [(1, 0), (2, 1), (3, 2), (2, 3)]).1 newerFirst rfl newerFirst_order

end Tokyo3Base.Journal
