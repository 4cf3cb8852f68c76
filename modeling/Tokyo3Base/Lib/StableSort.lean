/-
Stable sorting by a total preorder: what it is, that there is only one
result, and how the result grows when an element arrives at the end.

# One result

A stable sorting is sorted and keeps the elements of every tie in their
order. The first element of a sorting is below every other, so the first
elements of two sortings are tied; they are then the first of the same tie
in the same order, hence equal (`StableSorting.unique`). `List.mergeSort`
computes it.

# Growing

An element that arrives last goes behind all that are not above it, which
is what `List.orderedInsert` by the strict order does. Such an insertion
moves the elements behind it back by one place and nothing else, so the
first `k` elements after it follow from the first `k` before
(`take_orderedInsert_take`).
-/
import Mathlib.Data.List.Sort

namespace Tokyo3Base.Lib

variable {α : Type}

/-- Neither comes before the other. -/
def tied (le : α → α → Bool) (a b : α) : Bool := le a b && le b a

/-- `sorted` has the elements of `l` in order, ties as in `l`. -/
structure StableSorting (le : α → α → Bool) (l sorted : List α) : Prop where
  perm : sorted.Perm l
  pairwise : sorted.Pairwise fun a b => le a b = true
  ties : ∀ a, sorted.filter (tied le a) = l.filter (tied le a)

section

variable {le : α → α → Bool}
  (trans : ∀ a b c, le a b = true → le b c = true → le a c = true)
  (total : ∀ a b, (le a b || le b a) = true)

-- ==== one result

include total in
theorem le_self (a : α) : le a a = true := by
  have h := total a a
  rwa [Bool.or_self] at h

include total in
theorem mem_filter_tied {l : List α} {a : α} (h : a ∈ l) :
    a ∈ l.filter (tied le a) := by
  refine List.mem_filter.mpr ⟨h, ?_⟩
  rw [tied, le_self total a]
  rfl

include total in
/-- Two lists with the same ties have the same elements. -/
theorem mem_of_ties {l l' : List α}
    (h : ∀ a, l.filter (tied le a) = l'.filter (tied le a)) {a : α}
    (ha : a ∈ l) : a ∈ l' := by
  have hmem := mem_filter_tied total ha
  rw [h a] at hmem
  exact List.mem_of_mem_filter hmem

include total in
theorem le_head {a b : α} {l : List α}
    (h : (a :: l).Pairwise fun x y => le x y = true) (hb : b ∈ a :: l) :
    le a b = true := by
  rcases List.mem_cons.mp hb with rfl | hb
  · exact le_self total b
  · exact (List.pairwise_cons.mp h).1 b hb

include total in
theorem eq_of_ties : ∀ {l l' : List α},
    (l.Pairwise fun a b => le a b = true) →
    (l'.Pairwise fun a b => le a b = true) →
    (∀ a, l.filter (tied le a) = l'.filter (tied le a)) → l = l'
  | [], [], _, _, _ => rfl
  | [], b :: l', _, _, h => by
      cases mem_of_ties total (fun a => (h a).symm) List.mem_cons_self
  | a :: l, [], _, _, h => by
      cases mem_of_ties total h List.mem_cons_self
  | a :: l, b :: l', hl, hl', h => by
      have hab := le_head total hl
        (mem_of_ties total (fun a => (h a).symm) List.mem_cons_self)
      have hba := le_head total hl' (mem_of_ties total h List.mem_cons_self)
      have haa := le_self total a
      -- both are the first of one tie
      have hfirst := h a
      rw [List.filter_cons_of_pos (by rw [tied, haa]; rfl),
        List.filter_cons_of_pos (by rw [tied, hab, hba]; rfl)] at hfirst
      obtain ⟨rfl, -⟩ := List.cons_eq_cons.mp hfirst
      refine congrArg (a :: ·) (eq_of_ties (List.pairwise_cons.mp hl).2
        (List.pairwise_cons.mp hl').2 fun c => ?_)
      have hc := h c
      rw [List.filter_cons, List.filter_cons] at hc
      split at hc
      · exact (List.cons_eq_cons.mp hc).2
      · exact hc

include total in
theorem StableSorting.unique {l s s' : List α} (h : StableSorting le l s)
    (h' : StableSorting le l s') : s = s' :=
  eq_of_ties total h.pairwise h'.pairwise fun a =>
    (h.ties a).trans (h'.ties a).symm

include trans total in
theorem stableSorting_mergeSort (l : List α) :
    StableSorting le l (l.mergeSort le) := by
  refine ⟨l.mergeSort_perm le, List.pairwise_mergeSort trans total l,
    fun a => ?_⟩
  have hsorted : (l.filter (tied le a)).Pairwise
      fun x y => le x y = true := by
    refine List.pairwise_of_forall_mem_list fun x hx y hy => ?_
    have hx := Bool.and_eq_true_iff.mp (List.mem_filter.mp hx).2
    have hy := Bool.and_eq_true_iff.mp (List.mem_filter.mp hy).2
    exact trans x a y hx.2 hy.1
  have hsub := (List.sublist_mergeSort trans total hsorted
    List.filter_sublist).filter (tied le a)
  simp only [List.filter_filter, Bool.and_self] at hsub
  exact (hsub.eq_of_length
    (((l.mergeSort_perm le).filter (tied le a)).length_eq.symm)).symm

-- ==== growing

include trans total in
theorem pairwise_orderedInsert (v : α) : ∀ {s : List α},
    (s.Pairwise fun a b => le a b = true) →
    (s.orderedInsert (fun a b => ¬ le b a = true) v).Pairwise
      fun a b => le a b = true
  | [], _ => List.pairwise_singleton _ _
  | x :: s, h => by
      obtain ⟨hx, hs⟩ := List.pairwise_cons.mp h
      rw [List.orderedInsert_cons]
      split
      · rename_i hxv
        have hvx : le v x = true :=
          (Bool.or_eq_true_iff.mp (total v x)).resolve_right hxv
        exact List.pairwise_cons.mpr ⟨fun y hy =>
          trans v x y hvx (le_head total h hy), h⟩
      · rename_i hxv
        refine List.pairwise_cons.mpr
          ⟨fun y hy => ?_, pairwise_orderedInsert v hs⟩
        rcases (List.mem_orderedInsert _).mp hy with rfl | hy
        · exact not_not.mp hxv
        · exact hx y hy

include trans in
theorem filter_tied_orderedInsert (v a : α) : ∀ {s : List α},
    (s.Pairwise fun a b => le a b = true) →
    (s.orderedInsert (fun a b => ¬ le b a = true) v).filter (tied le a)
      = (s ++ [v]).filter (tied le a)
  | [], _ => rfl
  | x :: s, h => by
      obtain ⟨hx, hs⟩ := List.pairwise_cons.mp h
      rw [List.orderedInsert_cons]
      split
      · rename_i hxv
        rw [List.filter_append]
        by_cases hav : tied le a v = true
        · -- whatever is behind `v` is above it, so not tied with it
          have hnone : (x :: s).filter (tied le a) = [] := by
            refine List.filter_eq_nil_iff.mpr fun y hy hay => hxv ?_
            have hyv := trans y a v (Bool.and_eq_true_iff.mp hay).2
              (Bool.and_eq_true_iff.mp hav).1
            rcases List.mem_cons.mp hy with rfl | hy
            · exact hyv
            · exact trans x y v (hx y hy) hyv
          rw [List.filter_cons_of_pos hav, hnone, List.nil_append,
            List.filter_cons_of_pos hav, List.filter_nil]
        · rw [List.filter_cons_of_neg hav, List.filter_cons_of_neg hav,
            List.filter_nil, List.append_nil]
      · rw [List.cons_append, List.filter_cons, List.filter_cons,
          filter_tied_orderedInsert v a hs]

include trans total in
/-- A stable sorting after one more arrival. -/
theorem StableSorting.snoc {l s : List α} (h : StableSorting le l s)
    (v : α) : StableSorting le (l ++ [v])
      (s.orderedInsert (fun a b => ¬ le b a = true) v) := by
  refine ⟨?_, pairwise_orderedInsert trans total v h.pairwise, fun a => ?_⟩
  · exact ((List.perm_orderedInsert _ v s).trans (h.perm.cons v)).trans
      (List.perm_append_singleton v l).symm
  · rw [filter_tied_orderedInsert trans v a h.pairwise, List.filter_append,
      List.filter_append, h.ties a]

include trans total in
theorem mergeSort_snoc {l s : List α} (h : StableSorting le l s) (v : α) :
    (l ++ [v]).mergeSort le
      = s.orderedInsert (fun a b => ¬ le b a = true) v :=
  (stableSorting_mergeSort trans total _).unique total
    (h.snoc trans total v)

/-- The first `k` elements decide the first `k` after an insertion. -/
theorem take_orderedInsert_take (r : α → α → Prop) [DecidableRel r] (v : α) :
    ∀ (k : Nat) (l : List α),
      ((l.take k).orderedInsert r v).take k = (l.orderedInsert r v).take k
  | 0, _ => by rw [List.take_zero, List.take_zero]
  | _ + 1, [] => by rw [List.take_nil]
  | k + 1, x :: l => by
      rw [List.take_succ_cons, List.orderedInsert_cons,
        List.orderedInsert_cons]
      split
      · have htake : x :: l.take k = (x :: l).take (k + 1) :=
          List.take_succ_cons.symm
        rw [List.take_succ_cons, List.take_succ_cons, htake, List.take_take,
          Nat.min_eq_left (Nat.le_succ k)]
      · rw [List.take_succ_cons, List.take_succ_cons,
          take_orderedInsert_take r v k l]

include trans total in
/-- Sorting only the first `k` elements and the arrival loses nothing of
the first `k`. -/
theorem take_mergeSort_snoc (k : Nat) (l : List α) (v : α) :
    (((l.mergeSort le).take k ++ [v]).mergeSort le).take k
      = ((l ++ [v]).mergeSort le).take k := by
  have hsorting := stableSorting_mergeSort trans total l
  have hfirst : StableSorting le ((l.mergeSort le).take k)
      ((l.mergeSort le).take k) :=
    ⟨.refl _, hsorting.pairwise.sublist (List.take_sublist k _),
      fun _ => rfl⟩
  rw [mergeSort_snoc trans total hfirst, mergeSort_snoc trans total hsorting,
    take_orderedInsert_take]

end

end Tokyo3Base.Lib
