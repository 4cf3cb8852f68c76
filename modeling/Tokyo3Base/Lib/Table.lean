/-
Finite maps with a size, as a list of entries with distinct keys: look
up, store, and keep the entries that a test passes. The order of the
entries is not observable through these.
-/

namespace Tokyo3Base.Lib

variable {κ β : Type}

structure Table (κ β : Type) where
  entries : List (κ × β)
  nodup : (entries.map Prod.fst).Nodup

namespace Table

def empty : Table κ β := ⟨[], List.nodup_nil⟩

def size (t : Table κ β) : Nat := t.entries.length

/-- The keys that have an entry. -/
def keys (t : Table κ β) : List κ := t.entries.map Prod.fst

/-- Keep the entries that pass a test. -/
def retain (p : κ → β → Bool) (t : Table κ β) : Table κ β where
  entries := t.entries.filter fun e => p e.1 e.2
  nodup := t.nodup.sublist (List.filter_sublist.map Prod.fst)

theorem size_retain_le (p : κ → β → Bool) (t : Table κ β) :
    (t.retain p).size ≤ t.size :=
  List.length_filter_le _ _

variable [DecidableEq κ]

def get (t : Table κ β) (k : κ) : Option β :=
  (t.entries.find? fun e => e.1 = k).map Prod.snd

theorem nodup_set (t : Table κ β) (k : κ) (b : β) :
    (((k, b) :: t.entries.filter fun e => decide (e.1 ≠ k)).map
      Prod.fst).Nodup := by
  rw [List.map_cons, List.nodup_cons]
  refine ⟨fun h => ?_, t.nodup.sublist (List.filter_sublist.map _)⟩
  obtain ⟨e, he, hk⟩ := List.mem_map.mp h
  exact absurd hk (of_decide_eq_true (List.mem_filter.mp he).2)

/-- Store under a key, in place of what was there. -/
def set (t : Table κ β) (k : κ) (b : β) : Table κ β where
  entries := (k, b) :: t.entries.filter fun e => decide (e.1 ≠ k)
  nodup := t.nodup_set k b

-- ==== look up

theorem get_eq_some {t : Table κ β} {k : κ} {b : β} :
    t.get k = some b ↔ (k, b) ∈ t.entries := by
  unfold get
  rw [Option.map_eq_some_iff]
  constructor
  · rintro ⟨⟨j, c⟩, hfind, rfl⟩
    have hj : j = k := by simpa using List.find?_some hfind
    exact hj ▸ List.mem_of_find?_eq_some hfind
  · intro hmem
    have hnodup := t.nodup
    generalize t.entries = l at hmem hnodup
    induction l with
    | nil => cases hmem
    | cons e l ih =>
        rw [List.map_cons, List.nodup_cons] at hnodup
        rcases List.mem_cons.mp hmem with rfl | hmem
        · exact ⟨(k, b), List.find?_cons_of_pos (by simp), rfl⟩
        · have hne : e.1 ≠ k := fun h =>
            hnodup.1 (h ▸ List.mem_map_of_mem hmem)
          rw [List.find?_cons_of_neg (by simpa using hne)]
          exact ih hmem hnodup.2

theorem get_isSome {t : Table κ β} {k : κ} :
    (∃ b, t.get k = some b) ↔ k ∈ t.keys := by
  unfold keys
  rw [List.mem_map]
  constructor
  · rintro ⟨b, hb⟩
    exact ⟨(k, b), get_eq_some.mp hb, rfl⟩
  · rintro ⟨⟨j, b⟩, hmem, rfl⟩
    exact ⟨b, get_eq_some.mpr hmem⟩

theorem get_set_self (t : Table κ β) (k : κ) (b : β) :
    (t.set k b).get k = some b :=
  get_eq_some.mpr List.mem_cons_self

theorem get_set_ne (t : Table κ β) {j k : κ} (h : j ≠ k) (b : β) :
    (t.set k b).get j = t.get j := by
  refine Option.ext fun c => ?_
  rw [get_eq_some, get_eq_some]
  show (j, c) ∈ _ :: _ ↔ _
  rw [List.mem_cons, List.mem_filter]
  constructor
  · rintro (heq | hmem)
    · exact absurd (congrArg Prod.fst heq) h
    · exact hmem.1
  · exact fun hmem => .inr ⟨hmem, by simpa using h⟩

theorem get_retain (p : κ → β → Bool) (t : Table κ β) (k : κ) :
    (t.retain p).get k = (t.get k).filter (p k) := by
  refine Option.ext fun c => ?_
  rw [get_eq_some, Option.filter_eq_some_iff, get_eq_some]
  exact List.mem_filter

-- ==== size

theorem size_set_of_none {t : Table κ β} {k : κ} (h : t.get k = none)
    (b : β) : (t.set k b).size = t.size + 1 := by
  have hself : (t.entries.filter fun e => decide (e.1 ≠ k))
      = t.entries := List.filter_eq_self.mpr fun e he => by
    refine decide_eq_true fun hk => ?_
    rw [get_eq_some.mpr (show (k, e.2) ∈ t.entries from hk ▸ he)] at h
    cases h
  show (_ :: _ : List (κ × β)).length = _
  rw [hself]
  rfl

theorem size_set_of_some {t : Table κ β} {k : κ} {c : β}
    (h : t.get k = some c) (b : β) : (t.set k b).size ≤ t.size := by
  show (t.entries.filter fun e => decide (e.1 ≠ k)).length + 1 ≤ _
  refine Nat.succ_le_of_lt (List.length_filter_lt_length_iff_exists.mpr
    ⟨(k, c), get_eq_some.mp h, by simp⟩)

/-- An entry that is not kept makes room. -/
theorem size_retain_lt {p : κ → β → Bool} {t : Table κ β} {k : κ} {b : β}
    (h : t.get k = some b) (hp : (t.retain p).get k = none) :
    (t.retain p).size < t.size := by
  refine List.length_filter_lt_length_iff_exists.mpr
    ⟨(k, b), get_eq_some.mp h, fun hkeep => ?_⟩
  rw [get_retain, h, Option.filter_some, if_pos hkeep] at hp
  cases hp

/-- Not more entries than there are keys to choose from. -/
theorem size_le_of_subset {t : Table κ β} {ks : List κ}
    (h : ∀ k b, t.get k = some b → k ∈ ks) : t.size ≤ ks.length := by
  have hsub : t.keys ⊆ ks := fun k hk => by
    obtain ⟨b, hb⟩ := get_isSome.mpr hk
    exact h k b hb
  have := t.nodup.length_le_of_subset hsub
  rwa [List.length_map] at this

end Table

end Tokyo3Base.Lib
