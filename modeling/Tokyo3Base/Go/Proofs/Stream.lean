/-
Reading a body to its end.

Whatever the pace of a reader and the room in the buffers, `readAll` either
returns all of the body, up to its limit, or the error with which the
reader ends. It returns the bytes if the reader ends with `io.EOF`
(`readAll_ok`). If the reader ends with an error it depends on the limit
(`Body.Hidden`): an error that comes after more bytes than the limit is not
seen, one that comes right at the limit only if it comes together with the
last bytes.
-/
import Tokyo3Base.Go.Gzip
import Tokyo3Base.Go.Proofs.NetURL

namespace Tokyo3Base.Go

section Reads

variable {ε : Type} (pace : Pace)

/-- A read while bytes are left: how many it delivers, and when it reports
the end. -/
theorem Stream.read_bytes (room : Nat) (s : Stream ε) (h : s.data ≠ []) :
    ∃ n, 1 ≤ n ∧ n ≤ max 1 room ∧
      s.read pace room = (s.data.take n,
        if s.data.length ≤ n ∧ pace.together = true then some s.fin else none,
        ⟨s.data.drop n, s.fin⟩) := by
  obtain ⟨data, fin⟩ := s
  cases data with
  | nil => exact absurd rfl h
  | cons b data =>
      exact ⟨_, Nat.le_max_left _ _, by omega, rfl⟩

/-- What a body delivers at most. -/
def Body.kept (b : Body ε) : GoString :=
  match b.limit with
  | none => b.stream.data
  | some n => b.stream.data.take n

theorem Body.take_kept (s : Stream ε) (n : Nat) :
    (Body.mk s (some n)).kept.take n = s.data.take n := by
  rw [Body.kept, List.take_take, Nat.min_self]

/-- The limit hides how the reader of the body ends. -/
def Body.Hidden (b : Body ε) : Prop :=
  ∃ n, b.limit = some n ∧ (n < b.stream.data.length
    ∨ n = b.stream.data.length ∧ (pace.together = false ∨ n = 0))

/-- What one read of a body does: report `io.EOF` with the last bytes,
report the error of the reader, or deliver some bytes. -/
inductive Body.ReadCases (b : Body ε) :
    GoString × Option (ReadEnd ε) × Body ε → Prop where
  | eof (left : Body ε) (h : b.stream.fin = .eof ∨ b.Hidden pace) :
      b.ReadCases (b.kept, some .eof, left)
  | failed (err : ε) (chunk : GoString) (left : Body ε)
      (hfin : b.stream.fin = .failed err) (h : ¬ b.Hidden pace) :
      b.ReadCases (chunk, some (.failed err), left)
  | bytes (chunk : GoString) (left : Body ε)
      (hless : left.stream.data.length < b.stream.data.length)
      (hfin : left.stream.fin = b.stream.fin)
      (hkept : b.kept = chunk ++ left.kept)
      (h : left.Hidden pace ↔ b.Hidden pace) :
      b.ReadCases (chunk, none, left)

/-- The end, reported with the last bytes or without any. -/
theorem Body.readCases_end {b left : Body ε} {chunk : GoString}
    (hkept : b.kept = chunk) (hshown : ¬ b.Hidden pace) :
    b.ReadCases pace (chunk, some b.stream.fin, left) := by
  cases hfin : b.stream.fin with
  | eof => exact hkept ▸ .eof left (.inl hfin)
  | failed err => exact .failed err chunk left hfin hshown

theorem Body.read_unlimited (room : Nat) (s : Stream ε) :
    (Body.mk s none).ReadCases pace ((Body.mk s none).read pace room) := by
  have hshown (s : Stream ε) : ¬ (Body.mk s none).Hidden pace := by
    rintro ⟨n, hn, -⟩
    cases hn
  by_cases hdata : s.data = []
  · obtain ⟨data, fin⟩ := s
    cases hdata
    exact Body.readCases_end pace rfl (hshown _)
  · obtain ⟨n, hn, -, hread⟩ := s.read_bytes pace room hdata
    have hpos := List.length_pos_iff.mpr hdata
    simp only [Body.read, hread]
    split
    · next h =>
      refine Body.readCases_end pace ?_ (hshown _)
      exact (List.take_of_length_le h.1).symm
    · refine .bytes _ _ ?_ rfl (List.take_append_drop n s.data).symm
        (iff_of_false (hshown _) (hshown _))
      simp only [List.length_drop]
      omega

theorem Body.read_limited (room limit : Nat) (s : Stream ε)
    (hlimit : 1 ≤ limit) :
    (Body.mk s (some limit)).ReadCases pace
      ((Body.mk s (some limit)).read pace room) := by
  obtain ⟨limit, rfl⟩ := Nat.exists_eq_add_of_le' hlimit
  by_cases hdata : s.data = []
  · obtain ⟨data, fin⟩ := s
    cases hdata
    refine Body.readCases_end pace rfl ?_
    simp [Body.Hidden]
  · obtain ⟨n, hn, hle, hread⟩ :=
      s.read_bytes pace (min room (limit + 1)) hdata
    have hpos := List.length_pos_iff.mpr hdata
    -- the read asks for no more than the limit allows
    have hwithin : n ≤ limit + 1 := by omega
    simp only [Body.read, hread]
    split
    · next h =>
      refine Body.readCases_end pace ?_ ?_
      · rw [List.take_of_length_le h.1]
        exact List.take_of_length_le (Nat.le_trans h.1 hwithin)
      · have hlast := h.1
        simp only [Body.Hidden, Option.some.injEq, exists_eq_left', h.2,
          Bool.true_eq_false, false_or]
        omega
    · next h =>
      refine .bytes _ _ ?_ rfl ?_ ?_
      · simp only [List.length_drop]
        omega
      · simp only [Body.kept, List.length_take]
        rcases Nat.le_total n s.data.length with hmore | hall
        · rw [Nat.min_eq_left hmore, ← List.take_add]
          congr 1
          omega
        · rw [List.drop_of_length_le hall, List.take_of_length_le hall,
            List.take_of_length_le (Nat.le_trans hall hwithin)]
          simp
      · cases htogether : pace.together with
        | false =>
            simp only [Body.Hidden, List.length_take, List.length_drop,
              Option.some.injEq, exists_eq_left', htogether, true_or,
              and_true]
            omega
        | true =>
            have hmore : n < s.data.length := by
              simpa [htogether] using h
            simp only [Body.Hidden, List.length_take, List.length_drop,
              Option.some.injEq, exists_eq_left', htogether,
              Bool.true_eq_false, false_or]
            omega

theorem Body.read_cases (room : Nat) (b : Body ε) :
    b.ReadCases pace (b.read pace room) := by
  obtain ⟨s, limit⟩ := b
  cases limit with
  | none => exact Body.read_unlimited pace room s
  | some limit =>
      cases limit with
      | zero =>
          refine .eof _ (.inr ⟨0, rfl, ?_⟩)
          rcases Nat.eq_zero_or_pos s.data.length with hnone | hpos
          · exact .inr ⟨hnone.symm, .inr rfl⟩
          · exact .inl hpos
      | succ limit =>
          exact Body.read_limited pace room (limit + 1) s (by omega)

-- ==== reading all

variable (room : Nat → Nat)

/-- A body whose reader ends with `io.EOF`, or whose limit hides how it
ends, is read up to its limit. -/
theorem readAll_ok {fuel : Nat} {b : Body ε} (acc : GoString)
    (hfuel : b.stream.data.length < fuel)
    (h : b.stream.fin = .eof ∨ b.Hidden pace) :
    readAll pace room fuel b acc = some (.ok (acc ++ b.kept)) := by
  induction fuel generalizing b acc with
  | zero => omega
  | succ fuel ih =>
      have hcases := b.read_cases pace (room acc.length + 1)
      rw [readAll]
      generalize b.read pace (room acc.length + 1) = result at hcases
      cases hcases with
      | eof left hend => rfl
      | failed err chunk left hfin hshown =>
          rcases h with heof | hhidden
          · rw [heof] at hfin
            cases hfin
          · exact absurd hhidden hshown
      | bytes chunk left hless hfin hkept hiff =>
          rw [hkept, ← List.append_assoc]
          exact ih (acc ++ chunk) (by omega)
            (h.imp (hfin.trans ·) hiff.mpr)

/-- An error of the reader fails the whole read if the limit does not hide
it. -/
theorem readAll_failed {fuel : Nat} {b : Body ε} {err : ε} (acc : GoString)
    (hfuel : b.stream.data.length < fuel)
    (hfin : b.stream.fin = .failed err) (hshown : ¬ b.Hidden pace) :
    readAll pace room fuel b acc = some (.error err) := by
  induction fuel generalizing b acc with
  | zero => omega
  | succ fuel ih =>
      have hcases := b.read_cases pace (room acc.length + 1)
      rw [readAll]
      generalize b.read pace (room acc.length + 1) = result at hcases
      cases hcases with
      | eof left hend =>
          rcases hend with heof | hhidden
          · rw [heof] at hfin
            cases hfin
          · exact absurd hhidden hshown
      | failed err' chunk left hfin' _ =>
          rw [hfin] at hfin'
          cases hfin'
          rfl
      | bytes chunk left hless hsame hkept hiff =>
          exact ih (acc ++ chunk) (by omega) (hsame.trans hfin)
            (mt hiff.mp hshown)

end Reads

end Tokyo3Base.Go
