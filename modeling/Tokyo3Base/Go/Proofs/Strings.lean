/-
`strings.TrimSpace`: what it takes off both ends is white space, nothing
of what it leaves at the ends is, and white space added at an end makes no
difference.

White space is a text of units, each a space of ASCII or the bytes of a
wider one. A walk from either end takes unit by unit; read backwards the
wider ones are other patterns, but no pattern is the front of another in
either direction, so that both walks see the same units.
-/
import Tokyo3Base.Go.Strings

namespace Tokyo3Base.Go

-- ==== units

/-- What the walk needs of its patterns. -/
structure Patterns (wide : List GoString) : Prop where
  ne_nil : ∀ p ∈ wide, p ≠ []
  head : ∀ p ∈ wide, p.head?.any isASCIISpace = false
  /-- no pattern is the front of another -/
  apart : ∀ p ∈ wide, ∀ q ∈ wide, p <+: q → p = q

/-- One piece of white space. -/
def IsUnit (wide : List GoString) (u : GoString) : Prop :=
  (∃ c, isASCIISpace c = true ∧ u = [c]) ∨ u ∈ wide

/-- White space. -/
def Spaces (wide : List GoString) (t : GoString) : Prop :=
  ∃ us : List GoString, (∀ u ∈ us, IsUnit wide u) ∧ t = us.flatten

section Walk

variable {wide : List GoString}

theorem IsUnit.ne_nil (hw : Patterns wide) {u : GoString}
    (hu : IsUnit wide u) : u ≠ [] := by
  obtain ⟨c, -, rfl⟩ | hu := hu
  · exact List.cons_ne_nil c []
  · exact hw.ne_nil u hu

theorem Spaces.nil : Spaces wide [] := ⟨[], nofun, rfl⟩

theorem Spaces.cons {u t : GoString} (hu : IsUnit wide u)
    (ht : Spaces wide t) : Spaces wide (u ++ t) := by
  obtain ⟨us, hus, rfl⟩ := ht
  refine ⟨u :: us, ?_, List.flatten_cons.symm⟩
  intro v hv
  obtain rfl | hv := List.mem_cons.mp hv
  · exact hu
  · exact hus v hv

/-- White space, piece by piece. -/
@[elab_as_elim]
theorem Spaces.induct {motive : (t : GoString) → Spaces wide t → Prop}
    (nil : motive [] .nil)
    (cons : ∀ u t hu ht, motive t ht → motive (u ++ t) (ht.cons hu))
    {t : GoString} (h : Spaces wide t) : motive t h := by
  obtain ⟨us, hus, rfl⟩ := h
  induction us with
  | nil => exact nil
  | cons u us ih =>
      exact cons u _ (hus u List.mem_cons_self) _
        (ih fun v hv => hus v (List.mem_cons_of_mem u hv))

theorem spaceWidth_unit (hw : Patterns wide) {u : GoString}
    (hu : IsUnit wide u) (s : GoString) :
    spaceWidth wide (u ++ s) = u.length := by
  obtain ⟨c, hc, rfl⟩ | hu := hu
  · simp [spaceWidth, hc]
  · obtain ⟨c, v, rfl⟩ := List.exists_cons_of_ne_nil (hw.ne_nil u hu)
    have hc : isASCIISpace c = false := by simpa using hw.head _ hu
    have hfind : wide.find? (hasPrefix (c :: (v ++ s))) = some (c :: v) := by
      cases hf : wide.find? (hasPrefix (c :: (v ++ s))) with
      | none =>
          rw [List.find?_eq_none] at hf
          refine absurd ?_ (hf _ hu)
          simp [hasPrefix]
      | some p =>
          have hp : p <+: c :: v ++ s := by
            simpa [hasPrefix] using List.find?_some hf
          have hmem := List.mem_of_find?_eq_some hf
          -- both stand at the front, so one is the front of the other
          obtain h | h := List.prefix_or_prefix_of_prefix hp
            (List.prefix_append (c :: v) s)
          · rw [hw.apart p hmem _ hu h]
          · rw [hw.apart _ hu p hmem h]
    rw [List.cons_append, spaceWidth, if_neg (by simp [hc]), hfind]
    rfl

theorem unit_of_spaceWidth {s : GoString} (h : spaceWidth wide s ≠ 0) :
    ∃ u t, IsUnit wide u ∧ s = u ++ t ∧ u.length = spaceWidth wide s := by
  cases s with
  | nil => exact absurd rfl h
  | cons c s =>
      rw [spaceWidth] at h ⊢
      split at h
      · rename_i hc
        rw [if_pos hc]
        exact ⟨[c], s, .inl ⟨c, hc, rfl⟩, rfl, rfl⟩
      · rename_i hc
        rw [if_neg hc]
        cases hf : wide.find? (hasPrefix (c :: s)) with
        | none =>
            rw [hf] at h
            exact absurd rfl h
        | some p =>
            have hp : p <+: c :: s := by
              simpa [hasPrefix] using List.find?_some hf
            obtain ⟨t, ht⟩ := hp
            exact ⟨p, t, .inr (List.mem_of_find?_eq_some hf), ht.symm, rfl⟩

theorem trimFront_skip (n : Nat) (s : GoString) :
    trimFront wide n s = trimFront wide 0 (s.drop n) := by
  induction n generalizing s with
  | zero => rfl
  | succ n ih =>
      cases s with
      | nil => rfl
      | cons c s => exact ih s

theorem trimFront_eq_self {s : GoString} (h : spaceWidth wide s = 0) :
    trimFront wide 0 s = s := by
  cases s with
  | nil => rfl
  | cons c s => rw [trimFront, h]

theorem trimFront_unit (hw : Patterns wide) {u : GoString}
    (hu : IsUnit wide u) (s : GoString) :
    trimFront wide 0 (u ++ s) = trimFront wide 0 s := by
  have hwidth := spaceWidth_unit hw hu s
  obtain ⟨c, v, rfl⟩ := List.exists_cons_of_ne_nil (hu.ne_nil hw)
  rw [List.cons_append, List.length_cons] at hwidth
  rw [List.cons_append, trimFront, hwidth]
  dsimp only
  rw [trimFront_skip, List.drop_left]

theorem trimFront_spaces (hw : Patterns wide) {t : GoString}
    (ht : Spaces wide t) (s : GoString) :
    trimFront wide 0 (t ++ s) = trimFront wide 0 s := by
  induction ht using Spaces.induct with
  | nil => rfl
  | cons u t hu _ ih => rw [List.append_assoc, trimFront_unit hw hu, ih]

/-- What the walk takes off is white space, and it takes all of it. -/
theorem trimFront_spec (hw : Patterns wide) (s : GoString) :
    ∃ t, Spaces wide t ∧ s = t ++ trimFront wide 0 s
      ∧ spaceWidth wide (trimFront wide 0 s) = 0 := by
  generalize hn : s.length = n
  induction n using Nat.strongRecOn generalizing s with
  | _ n ih =>
    by_cases h0 : spaceWidth wide s = 0
    · rw [trimFront_eq_self h0]
      exact ⟨[], .nil, rfl, h0⟩
    · obtain ⟨u, r, hu, rfl, -⟩ := unit_of_spaceWidth h0
      have hlt : r.length < n := by
        have := List.length_pos_iff.mpr (hu.ne_nil hw)
        rw [← hn, List.length_append]
        omega
      obtain ⟨t, ht, hr, hend⟩ := ih r.length hlt r rfl
      rw [trimFront_unit hw hu]
      refine ⟨u ++ t, ht.cons hu, ?_, hend⟩
      rw [List.append_assoc, ← hr]

/-- A text that starts with no white space is not made to by what is cut
off behind it. -/
theorem spaceWidth_front (hw : Patterns wide) {s t : GoString}
    (h : spaceWidth wide (s ++ t) = 0) : spaceWidth wide s = 0 := by
  refine Decidable.of_not_not fun h0 => ?_
  obtain ⟨u, r, hu, rfl, -⟩ := unit_of_spaceWidth h0
  rw [List.append_assoc, spaceWidth_unit hw hu] at h
  exact hu.ne_nil hw (List.length_eq_zero_iff.mp h)

end Walk

-- ==== two walks

/-- The patterns read backwards. -/
def wideSpacesRev : List GoString := wideSpaces.map List.reverse

theorem patterns_wideSpaces : Patterns wideSpaces :=
  ⟨by decide +kernel, by decide +kernel, by decide +kernel⟩

theorem patterns_wideSpacesRev : Patterns wideSpacesRev :=
  ⟨by decide +kernel, by decide +kernel, by decide +kernel⟩

theorem IsUnit.reverse {u : GoString} :
    IsUnit wideSpacesRev u.reverse ↔ IsUnit wideSpaces u := by
  constructor
  · rintro (⟨c, hc, hu⟩ | hu)
    · exact .inl ⟨c, hc, by simpa using congrArg List.reverse hu⟩
    · obtain ⟨p, hp, hu⟩ := List.mem_map.mp hu
      rw [← List.reverse_inj.mp hu]
      exact .inr hp
  · rintro (⟨c, hc, rfl⟩ | hu)
    · exact .inl ⟨c, hc, rfl⟩
    · exact .inr (List.mem_map_of_mem hu)

theorem Spaces.reverse {t : GoString} :
    Spaces wideSpacesRev t.reverse ↔ Spaces wideSpaces t := by
  constructor
  · rintro ⟨us, hus, ht⟩
    refine ⟨(us.map List.reverse).reverse, ?_, ?_⟩
    · intro u hu
      rw [List.mem_reverse, List.mem_map] at hu
      obtain ⟨v, hv, rfl⟩ := hu
      rw [← IsUnit.reverse, List.reverse_reverse]
      exact hus v hv
    · rw [← List.reverse_reverse t, ht, List.reverse_flatten]
  · rintro ⟨us, hus, rfl⟩
    refine ⟨(us.map List.reverse).reverse, ?_, List.reverse_flatten⟩
    intro u hu
    rw [List.mem_reverse, List.mem_map] at hu
    obtain ⟨v, hv, rfl⟩ := hu
    exact IsUnit.reverse.mpr (hus v hv)

/-- White space starts with no byte from the middle of a character. -/
theorem Spaces.head {t : GoString} (h : Spaces wideSpaces t) :
    t.head?.any isTail = false := by
  obtain ⟨us, hus, rfl⟩ := h
  cases us with
  | nil => rfl
  | cons u us =>
      obtain ⟨c, hc, rfl⟩ | hu := hus u List.mem_cons_self
      · exact forall_byte (P := fun c => isASCIISpace c = true →
          isTail c = false) (by decide +kernel) c hc
      · have hhead : ∀ p ∈ wideSpaces, ∀ s : GoString,
            (p ++ s).head?.any isTail = false := by
          intro p hp s
          have hp' : p ≠ [] ∧ p.head?.any isTail = false :=
            (by decide +kernel : ∀ p ∈ wideSpaces,
              p ≠ [] ∧ p.head?.any isTail = false) p hp
          obtain ⟨c, v, rfl⟩ := List.exists_cons_of_ne_nil hp'.1
          exact hp'.2
        rw [List.flatten_cons]
        exact hhead u hu _

/-- Nor does a text that starts with none come to, by white space behind
it. -/
theorem spaceWidth_append {s t : GoString} (hs : s ≠ [])
    (h : spaceWidth wideSpaces s = 0) (ht : Spaces wideSpaces t) :
    spaceWidth wideSpaces (s ++ t) = 0 := by
  refine Decidable.of_not_not fun h0 => ?_
  obtain ⟨u, r, hu, heq, -⟩ := unit_of_spaceWidth h0
  obtain ⟨v, hv⟩ | ⟨v, hv⟩ := List.prefix_or_prefix_of_prefix
    (⟨r, heq.symm⟩ : u <+: s ++ t) (List.prefix_append s t)
  · rw [← hv, spaceWidth_unit patterns_wideSpaces hu] at h
    exact hu.ne_nil patterns_wideSpaces (List.length_eq_zero_iff.mp h)
  · -- the unit reaches into the white space, with a byte of its middle
    subst hv
    rw [List.append_assoc, List.append_cancel_left_eq] at heq
    obtain ⟨c, hc, hu⟩ | hu := hu
    · cases s with
      | nil => exact hs rfl
      | cons d s =>
          obtain ⟨rfl, -⟩ : d = c ∧ s ++ v = [] := by simpa using hu
          simp [spaceWidth, hc] at h
    · cases v with
      | nil =>
          rw [List.append_nil] at hu
          have hwidth := spaceWidth_unit patterns_wideSpaces (.inr hu) []
          rw [List.append_nil, h] at hwidth
          exact hs (List.length_eq_zero_iff.mp hwidth.symm)
      | cons d v =>
          have hmid : ∀ p ∈ wideSpaces, ∀ c ∈ p.drop 1, isTail c = true := by
            decide +kernel
          have hd : isTail d = true := by
            refine hmid _ hu d ?_
            cases s with
            | nil => exact absurd rfl hs
            | cons c s => simp
          have hhead := ht.head
          rw [heq] at hhead
          rw [List.cons_append, List.head?_cons, Option.any_some, hd] at hhead
          cases hhead

-- ==== TrimSpace

/-- What `TrimSpace` takes off is white space, and what it leaves does
not start or end with any. -/
theorem trimSpace_spec (s : GoString) :
    ∃ l t, Spaces wideSpaces l ∧ Spaces wideSpaces t
      ∧ s = l ++ (trimSpace s ++ t)
      ∧ spaceWidth wideSpaces (trimSpace s) = 0
      ∧ spaceWidth wideSpacesRev (trimSpace s).reverse = 0 := by
  obtain ⟨l, hl, hs, hfront⟩ := trimFront_spec patterns_wideSpaces s
  obtain ⟨t, ht, hr, hback⟩ := trimFront_spec patterns_wideSpacesRev
    (trimFront wideSpaces 0 s).reverse
  have hmid : trimFront wideSpaces 0 s = trimSpace s ++ t.reverse := by
    have := congrArg List.reverse hr
    rwa [List.reverse_reverse, List.reverse_append] at this
  refine ⟨l, t.reverse, hl, ?_, ?_, ?_, ?_⟩
  · rw [← Spaces.reverse, List.reverse_reverse]
    exact ht
  · rw [← hmid]
    exact hs
  · rw [hmid] at hfront
    exact spaceWidth_front patterns_wideSpaces hfront
  · unfold trimSpace
    rw [List.reverse_reverse]
    exact hback

theorem trimSpace_spaces {t : GoString} (ht : Spaces wideSpaces t)
    (s : GoString) : trimSpace (t ++ s) = trimSpace s := by
  unfold trimSpace
  rw [trimFront_spaces patterns_wideSpaces ht]

theorem trimSpace_append {t : GoString} (ht : Spaces wideSpaces t)
    (s : GoString) : trimSpace (s ++ t) = trimSpace s := by
  obtain ⟨l, hl, hs, hfront⟩ := trimFront_spec patterns_wideSpaces s
  by_cases hnil : trimFront wideSpaces 0 s = []
  · rw [hnil, List.append_nil] at hs
    have hl' := trimSpace_spaces hl []
    have ht' := trimSpace_spaces ht []
    rw [List.append_nil] at hl' ht'
    rw [hs, trimSpace_spaces hl, ht', hl']
  · have hboth : trimFront wideSpaces 0 (s ++ t)
        = trimFront wideSpaces 0 s ++ t := by
      conv => lhs; rw [hs, List.append_assoc]
      rw [trimFront_spaces patterns_wideSpaces hl,
        trimFront_eq_self (spaceWidth_append hnil hfront ht)]
    unfold trimSpace
    rw [hboth, List.reverse_append]
    rw [show wideSpaces.map List.reverse = wideSpacesRev from rfl,
      trimFront_spaces patterns_wideSpacesRev (Spaces.reverse.mpr ht)]

/-- The visible characters of ASCII. -/
def isVisible (c : UInt8) : Bool := 0x21 ≤ c && c < 0x7f

theorem Spaces.eq_nil {t : GoString} (h : Spaces wideSpaces t)
    (hvisible : ∀ c ∈ t, isVisible c = true) : t = [] := by
  obtain ⟨us, hus, rfl⟩ := h
  rw [List.flatten_eq_nil_iff]
  intro u hu
  have hno : ∀ c ∈ u, isVisible c = false := by
    obtain ⟨c, hc, rfl⟩ | hwide := hus u hu
    · intro d hd
      rw [List.mem_singleton.mp hd]
      exact forall_byte (P := fun c => isASCIISpace c = true →
        isVisible c = false) (by decide +kernel) c hc
    · exact (by decide +kernel : ∀ u ∈ wideSpaces, ∀ c ∈ u,
        isVisible c = false) u hwide
  cases u with
  | nil => rfl
  | cons c u =>
      have hc := hno c List.mem_cons_self
      rw [hvisible c (List.mem_flatten_of_mem hu List.mem_cons_self)] at hc
      cases hc

theorem trimSpace_eq_self {s : GoString}
    (h : ∀ c ∈ s, isVisible c = true) : trimSpace s = s := by
  obtain ⟨l, t, hl, ht, hs, -, -⟩ := trimSpace_spec s
  have hl' := hl.eq_nil fun c hc => h c (by
    rw [hs]
    exact List.mem_append_left _ hc)
  have ht' := ht.eq_nil fun c hc => h c (by
    rw [hs]
    exact List.mem_append_right _ (List.mem_append_right _ hc))
  rw [hl', ht', List.nil_append, List.append_nil] at hs
  exact hs.symm

theorem spaces_ascii {t : GoString} (h : ∀ c ∈ t, isASCIISpace c = true) :
    Spaces wideSpaces t := by
  induction t with
  | nil => exact .nil
  | cons c t ih =>
      have ht := ih fun d hd => h d (List.mem_cons_of_mem c hd)
      exact ht.cons (.inl ⟨c, h c List.mem_cons_self, rfl⟩)

end Tokyo3Base.Go
