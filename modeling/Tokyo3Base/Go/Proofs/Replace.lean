/-
`strings.NewReplacer` and `strings.ReplaceAll`: where a text is left
alone, and where it can be taken apart.

A text is left alone that holds none of the old strings. It can be taken
apart at a byte that none of them holds, since no match reaches over it.
-/
import Tokyo3Base.Go.Strings
import Tokyo3Base.Go.Proofs.URL

namespace Tokyo3Base.Go

section Replace

variable {pairs : List (GoString × GoString)}

theorem replaceFrom_drop (n : Nat) (s : GoString) :
    replaceFrom pairs n s = replaceFrom pairs 0 (s.drop n) := by
  induction n generalizing s with
  | zero => rfl
  | succ n ih =>
      cases s with
      | nil => rfl
      | cons c s => exact ih s

theorem replaceFrom_none {c : UInt8} {s : GoString}
    (h : ∀ p ∈ pairs, ¬ p.1 <+: c :: s) :
    replaceFrom pairs 0 (c :: s) = c :: replaceFrom pairs 0 s := by
  have hfind : pairs.find? (fun p => hasPrefix (c :: s) p.1) = none := by
    rw [List.find?_eq_none]
    exact fun p hp hpre => h p hp (List.isPrefixOf_iff_prefix.mp hpre)
  rw [replaceFrom, hfind]

theorem replaceFrom_head {old new : GoString} (hne : old ≠ [])
    (s : GoString) : replaceFrom ((old, new) :: pairs) 0 (old ++ s)
      = new ++ replaceFrom ((old, new) :: pairs) 0 s := by
  obtain ⟨c, old, rfl⟩ := List.exists_cons_of_ne_nil hne
  have hfind : ((c :: old, new) :: pairs).find? (fun p =>
      hasPrefix (c :: (old ++ s)) p.1) = some (c :: old, new) :=
    List.find?_cons_of_pos (List.isPrefixOf_iff_prefix.mpr
      (List.prefix_append (c :: old) s))
  rw [List.cons_append, replaceFrom, hfind]
  dsimp only
  rw [List.length_cons, Nat.add_sub_cancel, replaceFrom_drop, List.drop_left]

/-- What does not hold `c` is found in a text up to the first `c`, or not
at all. -/
theorem hasPrefix_append {c : UInt8} {old : GoString} (hc : c ∉ old)
    (x s : GoString) : hasPrefix (x ++ c :: s) old = hasPrefix x old := by
  unfold hasPrefix
  rw [Bool.eq_iff_iff, List.isPrefixOf_iff_prefix, List.isPrefixOf_iff_prefix]
  refine ⟨fun h => ?_, fun h => h.trans (List.prefix_append x _)⟩
  have hx : x ++ [c] <+: x ++ c :: s := ⟨s, by simp⟩
  have hmem : ∀ t : GoString, c ∈ x ++ c :: t := fun t => by simp
  obtain h | h := List.prefix_or_prefix_of_prefix h hx
  · obtain rfl | h := List.prefix_concat_iff.mp h
    · exact absurd (hmem []) hc
    · exact h
  · exact absurd (h.subset (hmem [])) hc

theorem find?_congr {α : Type} {l : List α} {p q : α → Bool}
    (h : ∀ a ∈ l, p a = q a) : l.find? p = l.find? q := by
  induction l with
  | nil => rfl
  | cons a l ih =>
      rw [List.find?_cons, List.find?_cons, h a List.mem_cons_self,
        ih fun b hb => h b (List.mem_cons_of_mem a hb)]

/-- A text is taken apart at a byte that no old string holds. -/
theorem replaceFrom_append {c : UInt8}
    (h : ∀ p ∈ pairs, p.1 ≠ [] ∧ c ∉ p.1) (s : GoString) :
    ∀ (x : GoString) {n : Nat}, n ≤ x.length →
      replaceFrom pairs n (x ++ c :: s)
        = replaceFrom pairs n x ++ c :: replaceFrom pairs 0 s := by
  intro x
  induction x with
  | nil =>
      intro n hn
      obtain rfl := Nat.le_zero.mp hn
      refine replaceFrom_none fun p hp hpre => ?_
      obtain ⟨hne, hc⟩ := h p hp
      obtain ⟨d, old, hold⟩ := List.exists_cons_of_ne_nil hne
      rw [hold] at hpre hc
      obtain ⟨rfl, -⟩ := List.cons_prefix_cons.mp hpre
      exact hc List.mem_cons_self
  | cons d x ih =>
      intro n hn
      cases n with
      | succ n => exact ih (Nat.le_of_succ_le_succ hn)
      | zero =>
          have hfind : pairs.find? (fun p => hasPrefix (d :: x ++ c :: s) p.1)
              = pairs.find? fun p => hasPrefix (d :: x) p.1 := by
            exact find?_congr fun p hp => hasPrefix_append (h p hp).2 (d :: x) s
          rw [List.cons_append] at hfind ⊢
          rw [replaceFrom, replaceFrom, hfind]
          cases hmatch : pairs.find? fun p => hasPrefix (d :: x) p.1 with
          | none =>
              dsimp only
              rw [ih (Nat.zero_le _), List.cons_append]
          | some p =>
              have hpre := List.find?_some hmatch
              have hle := (List.isPrefixOf_iff_prefix.mp hpre).length_le
              rw [List.length_cons] at hle
              dsimp only
              rw [ih (by omega), List.append_assoc]

end Replace

-- ==== ReplaceAll

theorem contains_of_isPrefix {sub s : GoString} (h : sub <+: s) :
    contains s sub = true := by
  have hpre : hasPrefix s sub = true := List.isPrefixOf_iff_prefix.mpr h
  unfold contains
  cases s with
  | nil => rw [List.prefix_nil.mp h]; rfl
  | cons c s => rw [index, if_pos hpre]; rfl

theorem contains_cons {sub : GoString} {c : UInt8} {s : GoString}
    (h : contains (c :: s) sub = false) : contains s sub = false := by
  unfold contains at h ⊢
  rw [index] at h
  split at h
  · cases h
  · rwa [Option.isSome_map] at h

theorem contains_suffix {sub x y : GoString}
    (h : contains (x ++ y) sub = false) : contains y sub = false := by
  induction x with
  | nil => exact h
  | cons c x ih => exact ih (contains_cons h)

theorem replaceFrom_eq_self {pairs : List (GoString × GoString)}
    {s : GoString} (h : ∀ p ∈ pairs, contains s p.1 = false) :
    replaceFrom pairs 0 s = s := by
  induction s with
  | nil => rfl
  | cons c s ih =>
      rw [replaceFrom_none fun p hp hpre => ?_,
        ih fun p hp => contains_cons (h p hp)]
      have hno := h p hp
      rw [contains_of_isPrefix hpre] at hno
      cases hno

theorem replaceAll_eq_self {s old : GoString} (h : contains s old = false)
    (new : GoString) : replaceAll s old new = s := by
  have hne : old ≠ [] := by
    rintro rfl
    rw [contains_of_isPrefix List.nil_prefix] at h
    cases h
  rw [replaceAll, if_neg hne]
  exact replaceFrom_eq_self fun p hp => by rwa [List.mem_singleton.mp hp]

/-- An old string between two bytes that it does not hold. -/
theorem replaceAll_between {old : GoString} (hne : old ≠ []) {c : UInt8}
    (hc : c ∉ old) (new front back : GoString) :
    replaceAll (front ++ c :: (old ++ c :: back)) old new
      = replaceAll front old new ++ c :: (new ++ c :: replaceAll back old new) := by
  have hpairs : ∀ p ∈ [(old, new)], p.1 ≠ [] ∧ c ∉ p.1 := by
    intro p hp
    rw [List.mem_singleton.mp hp]
    exact ⟨hne, hc⟩
  have hold : replaceFrom [(old, new)] 0 old = new := by
    have hhead : replaceFrom [(old, new)] 0 (old ++ []) = new ++ [] :=
      replaceFrom_head hne []
    rwa [List.append_nil, List.append_nil] at hhead
  unfold replaceAll
  rw [if_neg hne, if_neg hne, if_neg hne,
    replaceFrom_append hpairs _ front (Nat.zero_le _),
    replaceFrom_append hpairs back old (Nat.zero_le _), hold]

theorem interleave_nil (n : Nat) (s : GoString) : interleave [] n s = s := by
  induction s generalizing n with
  | nil => cases n <;> rfl
  | cons c s ih => cases n <;> simp [interleave, ih]

end Tokyo3Base.Go
