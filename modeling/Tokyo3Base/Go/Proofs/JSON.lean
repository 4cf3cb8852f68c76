/-
Coercing a string to valid UTF-8: the result is its own coercion, it is
the string itself exactly when that was valid, and it is never written
longer than the string was.

The argument is on pieces. A valid encoding in front of anything is read
as the piece it is (`pieces_append`), so the pieces of the coerced string
are the old ones with the replacement character for the bytes that were
none (`pieces_toValidUTF8`), and each of the three facts is read off
piece by piece.
-/
import Tokyo3Base.Go.JSON

namespace Tokyo3Base.Go

-- ==== one piece

/-- The bytes of exactly one valid character. -/
structure IsRune (p : GoString) : Prop where
  ne_nil : p ≠ []
  width : runeWidth p = p.length

theorem isRune_replacement : IsRune replacement :=
  ⟨by decide, by decide⟩

theorem runeWidth_succ {b0 : UInt8} {s : GoString} {w : Nat} :
    runeWidth (b0 :: s) = w + 1 ↔ leadWidth b0 = w + 1
      ∧ (s.take w).length = w ∧ areTails b0 (s.take w) = true := by
  unfold runeWidth
  dsimp only
  constructor
  · intro h
    split at h
    · rename_i hok
      rw [h, Nat.add_sub_cancel] at hok
      exact ⟨h, Nat.succ.inj hok.1, hok.2⟩
    · cases h
  · rintro ⟨hlead, hlen, htails⟩
    rw [hlead, Nat.add_sub_cancel, if_pos ⟨by rw [hlen], htails⟩]

/-- Whether a string starts with a valid encoding is decided by the bytes
of that encoding. -/
theorem runeWidth_append {p : GoString} (hp : IsRune p) (s : GoString) :
    runeWidth (p ++ s) = p.length := by
  obtain ⟨b0, p, rfl⟩ := List.exists_cons_of_ne_nil hp.ne_nil
  obtain ⟨hlead, hlen, htails⟩ := runeWidth_succ.mp hp.width
  rw [List.cons_append, List.length_cons, runeWidth_succ,
    List.take_append_of_le_length (Nat.le_refl _)]
  exact ⟨hlead, hlen, htails⟩

/-- The encoding that a string starts with is one character. -/
theorem isRune_take {b0 : UInt8} {s : GoString} {w : Nat}
    (h : runeWidth (b0 :: s) = w + 1) :
    IsRune ((b0 :: s).take (w + 1)) := by
  obtain ⟨hlead, hlen, htails⟩ := runeWidth_succ.mp h
  rw [List.take_succ_cons]
  refine ⟨List.cons_ne_nil _ _, ?_⟩
  rw [List.length_cons, hlen, runeWidth_succ, List.take_take, Nat.min_self]
  exact ⟨hlead, hlen, htails⟩

/-- No byte of ASCII continues a character. -/
theorem areTails_ascii {b0 c : UInt8} (hc : c < 0x80) :
    ∀ x y : GoString, areTails b0 (x ++ c :: y) = false := by
  have htail : isTail c = false :=
    forall_byte (P := fun c => c < 0x80 → isTail c = false)
      (by decide +kernel) c hc
  have hsecond : isSecond b0 c = false := by
    have : ∀ n : UInt8, 0x80 ≤ n → (decide (n ≤ c)) = false := fun n hn =>
      decide_eq_false fun hle => by
        have := UInt8.le_trans hn hle
        exact absurd hc (UInt8.not_lt.mpr this)
    simp [isSecond, htail, this 0xa0 (by decide), this 0x80 (by decide),
      this 0x90 (by decide)]
  intro x y
  cases x with
  | nil => simp [areTails, hsecond]
  | cons b1 x => simp [areTails, htail]

/-- Nor does it make a difference to a character before it. -/
theorem runeWidth_append_ascii {c : UInt8} (hc : c < 0x80) (b : UInt8)
    (x y : GoString) : runeWidth (b :: (x ++ c :: y)) = runeWidth (b :: x) := by
  unfold runeWidth
  dsimp only
  by_cases hlen : leadWidth b - 1 ≤ x.length
  · rw [List.take_append_of_le_length hlen]
  · obtain ⟨n, hn⟩ : ∃ n, leadWidth b - 1 = x.length + (n + 1) :=
      ⟨leadWidth b - 1 - x.length - 1, by omega⟩
    rw [if_neg, if_neg]
    · rintro ⟨h, -⟩
      rw [List.length_take] at h
      omega
    · rintro ⟨-, h⟩
      rw [hn, List.take_length_add_append, List.take_succ_cons,
        areTails_ascii hc] at h
      cases h

theorem width_le {b : UInt8} {s : GoString} {w : Nat}
    (h : runeWidth (b :: s) = w + 1) : w ≤ s.length := by
  obtain ⟨-, hlen, -⟩ := runeWidth_succ.mp h
  rw [List.length_take] at hlen
  omega

theorem isRune_ascii {b : UInt8} (h : b < 0x80) : IsRune [b] := by
  refine ⟨List.cons_ne_nil _ _, ?_⟩
  have hlead : leadWidth b = 0 + 1 := if_pos h
  exact runeWidth_succ.mpr ⟨hlead, rfl, rfl⟩

-- ==== all pieces

/-- A string that starts with a valid encoding. -/
theorem piecesFrom_rune {b0 : UInt8} {s : GoString} {w : Nat}
    (h : runeWidth (b0 :: s) = w + 1) : piecesFrom 0 (b0 :: s)
      = some ((b0 :: s).take (w + 1)) :: piecesFrom w s := by
  rw [piecesFrom, h]

/-- A string that starts with none. -/
theorem piecesFrom_bad {b0 : UInt8} {s : GoString}
    (h : runeWidth (b0 :: s) = 0) : piecesFrom 0 (b0 :: s)
      = none :: piecesFrom 0 s := by
  rw [piecesFrom, h]

theorem piecesFrom_drop (n : Nat) (s : GoString) :
    piecesFrom n s = pieces (s.drop n) := by
  induction n generalizing s with
  | zero => rfl
  | succ n ih =>
      cases s with
      | nil => rfl
      | cons b s => exact ih s

/-- Every piece is a character or one byte. -/
theorem isRune_of_mem_piecesFrom {s p : GoString} {n : Nat}
    (h : some p ∈ piecesFrom n s) : IsRune p := by
  induction s generalizing n with
  | nil => cases n <;> cases h
  | cons b s ih =>
      cases n with
      | succ n => exact ih h
      | zero =>
          cases hw : runeWidth (b :: s) with
          | zero =>
              rw [piecesFrom_bad hw] at h
              rcases List.mem_cons.mp h with h | h
              · cases h
              · exact ih h
          | succ w =>
              rw [piecesFrom_rune hw] at h
              rcases List.mem_cons.mp h with h | h
              · cases h
                exact isRune_take hw
              · exact ih h

theorem pieces_append {p : GoString} (hp : IsRune p) (s : GoString) :
    pieces (p ++ s) = some p :: pieces s := by
  have hwidth := runeWidth_append hp s
  obtain ⟨b0, p, rfl⟩ := List.exists_cons_of_ne_nil hp.ne_nil
  rw [List.cons_append, List.length_cons] at hwidth
  show piecesFrom 0 (b0 :: (p ++ s)) = _
  rw [piecesFrom_rune hwidth, piecesFrom_drop, List.take_succ_cons,
    List.take_left, List.drop_left]

/-- A byte of ASCII is a piece, and the pieces on both sides of it do not
depend on each other. -/
theorem piecesFrom_append {c : UInt8} (hc : c < 0x80) (y : GoString) :
    ∀ (x : GoString) {n : Nat}, n ≤ x.length →
      piecesFrom n (x ++ c :: y) = piecesFrom n x ++ some [c] :: pieces y := by
  intro x
  induction x with
  | nil =>
      intro n hn
      obtain rfl := Nat.le_zero.mp hn
      exact pieces_append (isRune_ascii hc) y
  | cons b x ih =>
      intro n hn
      cases n with
      | succ n => exact ih (Nat.le_of_succ_le_succ hn)
      | zero =>
          have hwidth := runeWidth_append_ascii hc b x y
          cases hw : runeWidth (b :: x) with
          | zero =>
              rw [hw] at hwidth
              rw [List.cons_append, piecesFrom_bad hwidth,
                piecesFrom_bad hw, ih (Nat.zero_le _), List.cons_append]
          | succ w =>
              rw [hw] at hwidth
              have hle := width_le hw
              rw [List.cons_append, piecesFrom_rune hwidth,
                piecesFrom_rune hw, ih hle, List.take_succ_cons,
                List.take_succ_cons, List.take_append_of_le_length hle,
                List.cons_append]

theorem pieces_flatten {ps : List GoString} (h : ∀ p ∈ ps, IsRune p) :
    pieces ps.flatten = ps.map some := by
  induction ps with
  | nil => rfl
  | cons p ps ih =>
      rw [List.flatten_cons, pieces_append (h p List.mem_cons_self),
        ih fun q hq => h q (List.mem_cons_of_mem _ hq), List.map_cons]

theorem pieces_toValidUTF8 (s : GoString) : pieces (toValidUTF8 s)
    = (pieces s).map fun p => some (p.getD replacement) := by
  have hrune : ∀ q ∈ (pieces s).map (·.getD replacement), IsRune q := by
    intro q hq
    obtain ⟨p, hp, rfl⟩ := List.mem_map.mp hq
    cases p with
    | none => exact isRune_replacement
    | some p => exact isRune_of_mem_piecesFrom hp
  unfold toValidUTF8
  rw [List.flatMap_def, pieces_flatten hrune, List.map_map]
  rfl

theorem flatten_pieces (n : Nat) (s : GoString)
    (h : (piecesFrom n s).all Option.isSome = true) :
    (piecesFrom n s).flatMap (fun p => p.getD replacement) = s.drop n := by
  induction s generalizing n with
  | nil => cases n <;> rfl
  | cons b s ih =>
      cases n with
      | succ n => exact ih n h
      | zero =>
          cases hw : runeWidth (b :: s) with
          | zero =>
              rw [piecesFrom_bad hw] at h
              cases h
          | succ w =>
              rw [piecesFrom_rune hw] at h ⊢
              rw [List.flatMap_cons, ih w h, List.take_succ_cons]
              show b :: (s.take w ++ s.drop w) = _
              rw [List.take_append_drop]
              rfl

-- ==== coercion

theorem toValidUTF8_idem (s : GoString) :
    toValidUTF8 (toValidUTF8 s) = toValidUTF8 s := by
  rw [toValidUTF8, pieces_toValidUTF8, List.flatMap_map]
  rfl

theorem isValidUTF8_toValidUTF8 (s : GoString) :
    isValidUTF8 (toValidUTF8 s) = true := by
  unfold isValidUTF8
  rw [pieces_toValidUTF8, List.all_map]
  simp

/-- A string is handed back as it was exactly when it is valid. -/
theorem toValidUTF8_eq_self_iff (s : GoString) :
    toValidUTF8 s = s ↔ isValidUTF8 s = true := by
  constructor
  · intro h
    rw [← h]
    exact isValidUTF8_toValidUTF8 s
  · exact flatten_pieces 0 s

theorem toValidUTF8_append {c : UInt8} (hc : c < 0x80) (x y : GoString) :
    toValidUTF8 (x ++ c :: y) = toValidUTF8 x ++ c :: toValidUTF8 y := by
  unfold toValidUTF8 pieces
  rw [piecesFrom_append hc y x (Nat.zero_le _), List.flatMap_append]
  rfl

theorem isValidUTF8_append {c : UInt8} (hc : c < 0x80) (x y : GoString) :
    isValidUTF8 (x ++ c :: y) = true
      ↔ isValidUTF8 x = true ∧ isValidUTF8 y = true := by
  unfold isValidUTF8
  rw [pieces, piecesFrom_append hc y x (Nat.zero_le _), List.all_append,
    Bool.and_eq_true]
  rfl

theorem isValidUTF8_cons {b : UInt8} (h : b < 0x80) (s : GoString) :
    isValidUTF8 (b :: s) = true ↔ isValidUTF8 s = true :=
  (isValidUTF8_append h [] s).trans (and_iff_right rfl)

theorem toValidUTF8_cons {b : UInt8} (h : b < 0x80) (s : GoString) :
    toValidUTF8 (b :: s) = b :: toValidUTF8 s :=
  toValidUTF8_append h [] s

theorem toValidUTF8_snoc {b : UInt8} (h : b < 0x80) (s : GoString) :
    toValidUTF8 (s ++ [b]) = toValidUTF8 s ++ [b] :=
  toValidUTF8_append h s []

theorem toValidUTF8_ascii {s : GoString} (h : ∀ b ∈ s, b < 0x80) :
    toValidUTF8 s = s := by
  induction s with
  | nil => rfl
  | cons b s ih =>
      rw [List.forall_mem_cons] at h
      rw [toValidUTF8_cons h.1, ih h.2]

/-- Coercing changes no ASCII. -/
theorem filter_toValidUTF8 (s : GoString) :
    (toValidUTF8 s).filter (· < 0x80) = s.filter (· < 0x80) := by
  have hfrom : ∀ (s : GoString) (n : Nat),
      ((piecesFrom n s).flatMap (·.getD replacement)).filter (· < 0x80)
        = (s.drop n).filter (· < 0x80) := by
    intro s
    induction s with
    | nil => intro n; cases n <;> rfl
    | cons b s ih =>
        intro n
        cases n with
        | succ n => exact ih n
        | zero =>
            cases hw : runeWidth (b :: s) with
            | zero =>
                have hb : ¬ b < 0x80 := fun hb => by
                  have := runeWidth_append (isRune_ascii hb) s
                  rw [List.singleton_append, hw] at this
                  cases this
                rw [piecesFrom_bad hw, List.flatMap_cons,
                  List.filter_append, ih 0, List.drop_zero, List.drop_zero,
                  List.filter_cons_of_neg (by simpa using hb)]
                rfl
            | succ w =>
                rw [piecesFrom_rune hw, List.flatMap_cons,
                  List.filter_append, ih w, ← List.filter_append]
                show ((b :: s).take (w + 1) ++ s.drop w).filter _ = _
                rw [List.take_succ_cons, List.cons_append,
                  List.take_append_drop, List.drop_zero]
  exact hfrom s 0

theorem not_mem_toValidUTF8 {c : UInt8} (hc : c < 0x80) {s : GoString}
    (h : c ∉ s) : c ∉ toValidUTF8 s := fun hmem => by
  have hfilter : c ∈ (toValidUTF8 s).filter (· < 0x80) :=
    List.mem_filter.mpr ⟨hmem, decide_eq_true hc⟩
  rw [filter_toValidUTF8] at hfilter
  exact h (List.mem_filter.mp hfilter).1

/-- The coerced string is not written longer. -/
theorem length_quote_toValidUTF8 (s : GoString) :
    (quote (toValidUTF8 s)).length ≤ (quote s).length := by
  -- six bytes for an invalid byte become the three of U+FFFD
  have hpiece : ∀ p : Option GoString,
      (escapePiece (some (p.getD replacement))).length
        ≤ (escapePiece p).length := by
    intro p
    cases p with
    | none => decide
    | some p => exact Nat.le_refl _
  have hall : ∀ ps : List (Option GoString),
      ((ps.map fun p => some (p.getD replacement)).flatMap
          escapePiece).length ≤ (ps.flatMap escapePiece).length := by
    intro ps
    induction ps with
    | nil => exact Nat.le_refl _
    | cons p ps ih =>
        rw [List.map_cons, List.flatMap_cons, List.flatMap_cons,
          List.length_append, List.length_append]
        exact Nat.add_le_add (hpiece p) ih
  unfold quote
  rw [pieces_toValidUTF8]
  simpa using hall (pieces s)

end Tokyo3Base.Go
