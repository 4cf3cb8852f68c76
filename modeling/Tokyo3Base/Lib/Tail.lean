/-
Upper tails of finite sets of sequence numbers: how many members lie at
or above a cut, and when a tail is "the newest `n`".

The set is the abstract reading of a log with gaps. A cut `q` keeps the
members at or above `q`; moving the cut down by one admits at most one
member more, which is what makes a search for a cut of prescribed size
possible at all (`tailCard_le_succ`).
-/
import Mathlib.Data.Finset.Card
import Mathlib.Order.Interval.Finset.Nat

namespace Tokyo3Base.Lib

-- ==== counting

/-- The members of `M` at or above the cut `q`. -/
def tail (M : Finset Nat) (q : Nat) : Finset Nat := M.filter (q ≤ ·)

/-- How many members of `M` lie at or above the cut `q`. -/
def tailCard (M : Finset Nat) (q : Nat) : Nat := (tail M q).card

variable {M M' : Finset Nat} {q q' n last : Nat}

theorem mem_tail {m : Nat} : m ∈ tail M q ↔ m ∈ M ∧ q ≤ m := by
  unfold tail
  rw [Finset.mem_filter]

theorem tail_subset : tail M q ⊆ M := Finset.filter_subset _ _

theorem tailCard_mono (h : M ⊆ M') : tailCard M q ≤ tailCard M' q := by
  refine Finset.card_le_card fun m hm => ?_
  rw [mem_tail] at hm ⊢
  exact ⟨h hm.1, hm.2⟩

/-- Lowering the cut by one admits at most the member at the new cut. -/
theorem tailCard_le_succ : tailCard M q ≤ tailCard M (q + 1) + 1 := by
  have hsub : tail M q ⊆ insert q (tail M (q + 1)) := by
    intro m hm
    rw [mem_tail] at hm
    rw [Finset.mem_insert, mem_tail]
    rcases Nat.eq_or_lt_of_le hm.2 with heq | hlt
    · exact Or.inl heq.symm
    · exact Or.inr ⟨hm.1, hlt⟩
  exact Nat.le_trans (Finset.card_le_card hsub) (Finset.card_insert_le _ _)

/-- A tail fits in the interval from its cut to the last member. -/
theorem tailCard_le (h : ∀ m ∈ M, m ≤ last) :
    tailCard M q ≤ last + 1 - q := by
  rw [← Nat.card_Icc]
  refine Finset.card_le_card fun m hm => ?_
  rw [mem_tail] at hm
  exact Finset.mem_Icc.mpr ⟨hm.2, h m hm.1⟩

theorem tail_eq_self (h : ∀ m ∈ M, q ≤ m) : tail M q = M :=
  Finset.filter_true_of_mem h

/-- Members from one up to a bound are no more than the bound. -/
theorem card_le_of_bounds (hlo : ∀ m ∈ M, 1 ≤ m)
    (hhi : ∀ m ∈ M, m ≤ last) : M.card ≤ last := by
  have h := tailCard_le (q := 1) hhi
  rw [tailCard, tail_eq_self hlo] at h
  omega

-- ==== the newest

/-- `S` is the newest `n` members of `M`: as many as `M` has, up to `n`,
and closed under newer members of `M`. -/
structure IsNewest {α : Type*} [LinearOrder α] (n : Nat)
    (M S : Finset α) : Prop where
  subset : S ⊆ M
  card : S.card = min n M.card
  closed : ∀ a ∈ S, ∀ b ∈ M, a ≤ b → b ∈ S

/-- A tail of exactly `n` members is the newest `n`. -/
theorem isNewest_tail (h : tailCard M q = n) :
    IsNewest n M (tail M q) := by
  have hle : n ≤ M.card := by
    rw [← h]
    exact Finset.card_le_card tail_subset
  refine ⟨tail_subset, ?_, ?_⟩
  · rw [Nat.min_eq_left hle]
    exact h
  · intro a ha b hb hab
    rw [mem_tail] at ha ⊢
    exact ⟨hb, Nat.le_trans ha.2 hab⟩

/-- A set with no more than `n` members is its own newest `n`. -/
theorem isNewest_self {α : Type*} [LinearOrder α] {M : Finset α} {n : Nat}
    (h : M.card ≤ n) : IsNewest n M M :=
  ⟨Finset.Subset.refl _, (Nat.min_eq_right h).symm, fun _ _ _ hb _ => hb⟩

/-- A tail of at least `n` members contains one of exactly `n`: raising
the cut one step at a time loses at most one member per step, and a cut
past every member loses all. Induction on the distance to `last`. -/
theorem exists_tailCard_eq (hM : ∀ m ∈ M, m ≤ last) :
    ∀ (d q : Nat), last + 1 - q ≤ d → n ≤ tailCard M q →
      ∃ q', q ≤ q' ∧ tailCard M q' = n := by
  intro d
  induction d with
  | zero =>
      intro q hd hn
      have := tailCard_le (q := q) hM
      exact ⟨q, Nat.le_refl _, by omega⟩
  | succ d ih =>
      intro q hd hn
      rcases Nat.eq_or_lt_of_le hn with heq | hlt
      · exact ⟨q, Nat.le_refl _, heq.symm⟩
      · have := tailCard_le_succ (M := M) (q := q)
        obtain ⟨q', hq', hcard⟩ := ih (q + 1) (by omega) (by omega)
        exact ⟨q', by omega, hcard⟩

/-- A tail of at least `n` members contains the newest `n`. -/
theorem exists_isNewest_subset_tail (hM : ∀ m ∈ M, m ≤ last)
    (h : n ≤ tailCard M q) : ∃ S ⊆ tail M q, IsNewest n M S := by
  obtain ⟨q', hq, hcard⟩ := exists_tailCard_eq hM _ q (Nat.le_refl _) h
  refine ⟨tail M q', fun m hm => ?_, isNewest_tail hcard⟩
  rw [mem_tail] at hm ⊢
  exact ⟨hm.1, Nat.le_trans hq hm.2⟩

/-- A set that has grown only above `last` gains at most its members
above `last`, at every cut. -/
theorem tailCard_le_add (h : ∀ m ∈ M', m ≤ last → m ∈ M) :
    tailCard M' q ≤ tailCard M q + tailCard M' (last + 1) := by
  have hsub : tail M' q ⊆ tail M q ∪ tail M' (last + 1) := by
    intro m hm
    rw [Finset.mem_union, mem_tail, mem_tail]
    rw [mem_tail] at hm
    rcases Nat.lt_or_ge last m with hlt | hle
    · exact Or.inr ⟨hm.1, hlt⟩
    · exact Or.inl ⟨h m hm.1 hle, hm.2⟩
  exact Nat.le_trans (Finset.card_le_card hsub) (Finset.card_union_le _ _)

end Tokyo3Base.Lib
