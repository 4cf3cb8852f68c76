/-
Windows of a set of numbers as lists: the members from one bound up to
another, each once and in order. What a reader has got of a growing log
is such a window, and the lemmas say how windows are extended, joined
and cut short.
-/
import Mathlib.Data.Finset.Insert

namespace Tokyo3Base.Lib

/-- `ks` lists the members of `M` from `lo` up to, not including, `hi`:
none twice, none left out, in order. -/
structure IsWindow (M : Finset Nat) (lo hi : Nat) (ks : List Nat) :
    Prop where
  increasing : ks.Pairwise (· < ·)
  mem_iff : ∀ k, k ∈ ks ↔ k ∈ M ∧ lo ≤ k ∧ k < hi

variable {M M' : Finset Nat} {lo mid hi k : Nat} {ks ls : List Nat}

theorem IsWindow.empty (M : Finset Nat) (lo : Nat) :
    IsWindow M lo lo [] := by
  refine ⟨List.Pairwise.nil, fun k => ⟨nofun, fun h => ?_⟩⟩
  omega

/-- The next member, if it is the least one from the end on. -/
theorem IsWindow.snoc (h : IsWindow M lo hi ks) (hk : k ∈ M)
    (hlo : lo ≤ hi) (hhi : hi ≤ k) (hleast : ∀ j ∈ M, hi ≤ j → k ≤ j) :
    IsWindow M lo (k + 1) (ks ++ [k]) := by
  refine ⟨List.pairwise_append.mpr ⟨h.increasing, List.pairwise_singleton
    _ _, fun a ha b hb => ?_⟩, fun j => ?_⟩
  · rw [List.mem_singleton] at hb
    have := (h.mem_iff a).mp ha
    omega
  · rw [List.mem_append, List.mem_singleton, h.mem_iff]
    constructor
    · rintro (⟨hj, hloj, hjhi⟩ | rfl)
      · exact ⟨hj, hloj, by omega⟩
      · exact ⟨hk, by omega, by omega⟩
    · rintro ⟨hj, hloj, hjk⟩
      by_cases hjhi : j < hi
      · exact .inl ⟨hj, hloj, hjhi⟩
      · have := hleast j hj (by omega)
        exact .inr (by omega)

/-- Two windows that meet. -/
theorem IsWindow.append (h : IsWindow M lo mid ks)
    (h' : IsWindow M mid hi ls) (hlo : lo ≤ mid) (hhi : mid ≤ hi) :
    IsWindow M lo hi (ks ++ ls) := by
  refine ⟨List.pairwise_append.mpr ⟨h.increasing, h'.increasing,
    fun a ha b hb => ?_⟩, fun j => ?_⟩
  · have := (h.mem_iff a).mp ha
    have := (h'.mem_iff b).mp hb
    omega
  · rw [List.mem_append, h.mem_iff, h'.mem_iff]
    constructor
    · rintro (⟨hj, hloj, hjhi⟩ | ⟨hj, hloj, hjhi⟩)
      · exact ⟨hj, hloj, by omega⟩
      · exact ⟨hj, by omega, hjhi⟩
    · rintro ⟨hj, hloj, hjhi⟩
      by_cases hjm : j < mid
      · exact .inl ⟨hj, hloj, hjm⟩
      · exact .inr ⟨hj, by omega, hjhi⟩

/-- A beginning of a window is a window: it ends after its last
member. -/
theorem IsWindow.take (h : IsWindow M lo hi (ks ++ [k] ++ ls)) :
    IsWindow M lo (k + 1) (ks ++ [k]) := by
  obtain ⟨hinc, -, hcross⟩ := List.pairwise_append.mp h.increasing
  obtain ⟨-, -, hlast⟩ := List.pairwise_append.mp hinc
  have hk := (h.mem_iff k).mp (by simp)
  refine ⟨hinc, fun j => ⟨fun hj => ?_, fun ⟨hj, hloj, hjk⟩ => ?_⟩⟩
  · obtain ⟨hM, hlo, hhi⟩ :=
      (h.mem_iff j).mp (List.mem_append_left _ hj)
    refine ⟨hM, hlo, ?_⟩
    rcases List.mem_append.mp hj with hj | hj
    · have := hlast j hj k List.mem_cons_self
      omega
    · rw [List.mem_singleton] at hj
      omega
  · rcases List.mem_append.mp
        ((h.mem_iff j).mpr ⟨hj, hloj, by omega⟩) with hj | hj
    · exact hj
    · have := hcross k (by simp) j hj
      omega

/-- Members added beyond the end do not change a window. -/
theorem IsWindow.grow (h : IsWindow M lo hi ks)
    (hsame : ∀ j, lo ≤ j → j < hi → (j ∈ M' ↔ j ∈ M)) :
    IsWindow M' lo hi ks := by
  refine ⟨h.increasing, fun j => (h.mem_iff j).trans ?_⟩
  constructor
  · rintro ⟨hj, hloj, hjhi⟩
    exact ⟨(hsame j hloj hjhi).mpr hj, hloj, hjhi⟩
  · rintro ⟨hj, hloj, hjhi⟩
    exact ⟨(hsame j hloj hjhi).mp hj, hloj, hjhi⟩

end Tokyo3Base.Lib
