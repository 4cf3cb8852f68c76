/-
`base64.RawURLEncoding`: base64url without padding (RFC 4648 §5), on
lists of bytes. As in Go, the decoder skips line ends and does not look
at the bits that a last incomplete group leaves over.
-/
import Tokyo3Base.Go.Bytes

namespace Tokyo3Base.Go

/-- The character of a six bit value. -/
def base64Char (n : UInt8) : UInt8 :=
  if n < 26 then 65 + n
  else if n < 52 then 71 + n
  else if n < 62 then n - 4
  else if n = 62 then 45
  else 95

/-- `RawURLEncoding.EncodeToString`. -/
def rawURLEncode : GoString → GoString
  | [] => []
  | [a] => [base64Char (a >>> 2), base64Char ((a &&& 0x03) <<< 4)]
  | [a, b] =>
      [base64Char (a >>> 2),
        base64Char ((a &&& 0x03) <<< 4 ||| b >>> 4),
        base64Char ((b &&& 0x0f) <<< 2)]
  | a :: b :: c :: s =>
      base64Char (a >>> 2)
        :: base64Char ((a &&& 0x03) <<< 4 ||| b >>> 4)
        :: base64Char ((b &&& 0x0f) <<< 2 ||| c >>> 6)
        :: base64Char (c &&& 0x3f) :: rawURLEncode s

/-- The six bit value of a character. -/
def base64Value (c : UInt8) : Option UInt8 :=
  if 65 ≤ c ∧ c ≤ 90 then some (c - 65)
  else if 97 ≤ c ∧ c ≤ 122 then some (c - 71)
  else if 48 ≤ c ∧ c ≤ 57 then some (c + 4)
  else if c = 45 then some 62
  else if c = 95 then some 63
  else none

/-- The bytes of six bit values; a single one that is left over is an
error. -/
def joinSextets : List UInt8 → Option GoString
  | [] => some []
  | [_] => none
  | [w, x] => some [w <<< 2 ||| x >>> 4]
  | [w, x, y] => some [w <<< 2 ||| x >>> 4, x <<< 4 ||| y >>> 2]
  | w :: x :: y :: z :: s =>
      (joinSextets s).map fun t =>
        (w <<< 2 ||| x >>> 4) :: (x <<< 4 ||| y >>> 2)
          :: (y <<< 6 ||| z) :: t

/-- `RawURLEncoding.DecodeString`. -/
def rawURLDecode (s : GoString) : Option GoString :=
  ((s.filter fun c => decide (c ≠ 10 ∧ c ≠ 13)).mapM base64Value).bind
    joinSextets

/-- `RawURLEncoding.EncodedLen`. -/
def encodedLen (n : Nat) : Nat := n / 3 * 4 + (n % 3 * 8 + 5) / 6

theorem length_rawURLEncode (s : GoString) :
    (rawURLEncode s).length = encodedLen s.length := by
  unfold encodedLen
  induction s using rawURLEncode.induct with
  | case1 => rfl
  | case2 a => simp [rawURLEncode]
  | case3 a b => simp [rawURLEncode]
  | case4 a b c s ih =>
      simp only [rawURLEncode, List.length_cons, ih]
      omega

theorem encodedLen_mono {m n : Nat} (h : m ≤ n) :
    encodedLen m ≤ encodedLen n := by
  unfold encodedLen
  omega

theorem base64Char_lt (n : UInt8) : base64Char n < 0x80 :=
  forall_byte (P := fun n => base64Char n < 0x80) (by decide +kernel) n

theorem lt_of_mem_rawURLEncode {s : GoString} {c : UInt8}
    (h : c ∈ rawURLEncode s) : c < 0x80 := by
  induction s using rawURLEncode.induct with
  | case1 => cases h
  | case2 a =>
      simp only [rawURLEncode, List.mem_cons, List.not_mem_nil,
        or_false] at h
      rcases h with rfl | rfl <;> exact base64Char_lt _
  | case3 a b =>
      simp only [rawURLEncode, List.mem_cons, List.not_mem_nil,
        or_false] at h
      rcases h with rfl | rfl | rfl <;> exact base64Char_lt _
  | case4 a b c' s ih =>
      simp only [rawURLEncode, List.mem_cons] at h
      rcases h with rfl | rfl | rfl | rfl | h
      · exact base64Char_lt _
      · exact base64Char_lt _
      · exact base64Char_lt _
      · exact base64Char_lt _
      · exact ih h

-- ==== round trip

/-- The six bit values of a text. -/
def sextets : GoString → List UInt8
  | [] => []
  | [a] => [a >>> 2, (a &&& 0x03) <<< 4]
  | [a, b] =>
      [a >>> 2, (a &&& 0x03) <<< 4 ||| b >>> 4, (b &&& 0x0f) <<< 2]
  | a :: b :: c :: s =>
      a >>> 2 :: ((a &&& 0x03) <<< 4 ||| b >>> 4)
        :: ((b &&& 0x0f) <<< 2 ||| c >>> 6) :: (c &&& 0x3f) :: sextets s

theorem rawURLEncode_eq (s : GoString) :
    rawURLEncode s = (sextets s).map base64Char := by
  induction s using sextets.induct with
  | case1 => rfl
  | case2 a => rfl
  | case3 a b => rfl
  | case4 a b c s ih => simp [rawURLEncode, sextets, ih]

theorem split_two_four (a b : UInt8) :
    ((a &&& 0x03) <<< 4 ||| b >>> 4) < 64
      ∧ ((a &&& 0x03) <<< 4 ||| b >>> 4) >>> 4 = a &&& 0x03
      ∧ ((a &&& 0x03) <<< 4 ||| b >>> 4) <<< 4 = b >>> 4 <<< 4 := by
  have hall : ∀ p ∈ (List.range 4).map UInt8.ofNat,
      ∀ q ∈ (List.range 16).map UInt8.ofNat,
      (p <<< 4 ||| q) < 64 ∧ (p <<< 4 ||| q) >>> 4 = p
        ∧ (p <<< 4 ||| q) <<< 4 = q <<< 4 := by decide +kernel
  exact hall _
    (forall_byte (P := fun a => a &&& 0x03 ∈
      (List.range 4).map UInt8.ofNat) (by decide +kernel) a) _
    (forall_byte (P := fun b => b >>> 4 ∈
      (List.range 16).map UInt8.ofNat) (by decide +kernel) b)

theorem split_four_two (b c : UInt8) :
    ((b &&& 0x0f) <<< 2 ||| c >>> 6) < 64
      ∧ ((b &&& 0x0f) <<< 2 ||| c >>> 6) >>> 2 = b &&& 0x0f
      ∧ ((b &&& 0x0f) <<< 2 ||| c >>> 6) <<< 6 = c >>> 6 <<< 6 := by
  have hall : ∀ p ∈ (List.range 16).map UInt8.ofNat,
      ∀ q ∈ (List.range 4).map UInt8.ofNat,
      (p <<< 2 ||| q) < 64 ∧ (p <<< 2 ||| q) >>> 2 = p
        ∧ (p <<< 2 ||| q) <<< 6 = q <<< 6 := by decide +kernel
  exact hall _
    (forall_byte (P := fun b => b &&& 0x0f ∈
      (List.range 16).map UInt8.ofNat) (by decide +kernel) b) _
    (forall_byte (P := fun c => c >>> 6 ∈
      (List.range 4).map UInt8.ofNat) (by decide +kernel) c)

/-- A byte in two parts, for each of the three cuts. -/
theorem byte_parts (a : UInt8) :
    a >>> 2 <<< 2 ||| (a &&& 0x03) = a
      ∧ a >>> 4 <<< 4 ||| (a &&& 0x0f) = a
      ∧ a >>> 6 <<< 6 ||| (a &&& 0x3f) = a :=
  forall_byte (P := fun a => a >>> 2 <<< 2 ||| (a &&& 0x03) = a
    ∧ a >>> 4 <<< 4 ||| (a &&& 0x0f) = a
    ∧ a >>> 6 <<< 6 ||| (a &&& 0x3f) = a) (by decide +kernel) a

/-- The bits that the last group shifts in and out. -/
theorem shift_parts (a : UInt8) :
    (a &&& 0x03) <<< 4 >>> 4 = a &&& 0x03
      ∧ (a &&& 0x0f) <<< 2 >>> 2 = a &&& 0x0f
      ∧ (a &&& 0x03) <<< 4 < 64 ∧ (a &&& 0x0f) <<< 2 < 64
      ∧ a >>> 2 < 64 ∧ a &&& 0x3f < 64 :=
  forall_byte (P := fun a => (a &&& 0x03) <<< 4 >>> 4 = a &&& 0x03
    ∧ (a &&& 0x0f) <<< 2 >>> 2 = a &&& 0x0f
    ∧ (a &&& 0x03) <<< 4 < 64 ∧ (a &&& 0x0f) <<< 2 < 64
    ∧ a >>> 2 < 64 ∧ a &&& 0x3f < 64) (by decide +kernel) a

theorem joinSextets_sextets (s : GoString) :
    joinSextets (sextets s) = some s := by
  induction s using sextets.induct with
  | case1 => rfl
  | case2 a =>
      rw [sextets, joinSextets, (shift_parts a).1, (byte_parts a).1]
  | case3 a b =>
      rw [sextets, joinSextets, (split_two_four a b).2.1,
        (split_two_four a b).2.2, (shift_parts b).2.1,
        (byte_parts a).1, (byte_parts b).2.1]
  | case4 a b c s ih =>
      rw [sextets, joinSextets, ih, Option.map_some,
        (split_two_four a b).2.1, (split_two_four a b).2.2,
        (split_four_two b c).2.1, (split_four_two b c).2.2,
        (byte_parts a).1, (byte_parts b).2.1, (byte_parts c).2.2]

theorem sextets_lt {s : GoString} {x : UInt8} (h : x ∈ sextets s) :
    x < 64 := by
  induction s using sextets.induct with
  | case1 => cases h
  | case2 a =>
      simp only [sextets, List.mem_cons, List.not_mem_nil, or_false] at h
      obtain ⟨-, -, htwo, -, hsix, -⟩ := shift_parts a
      rcases h with rfl | rfl
      · exact hsix
      · exact htwo
  | case3 a b =>
      simp only [sextets, List.mem_cons, List.not_mem_nil, or_false] at h
      obtain ⟨-, -, -, -, hsix, -⟩ := shift_parts a
      obtain ⟨-, -, -, hfour, -, -⟩ := shift_parts b
      rcases h with rfl | rfl | rfl
      · exact hsix
      · exact (split_two_four a b).1
      · exact hfour
  | case4 a b c s ih =>
      simp only [sextets, List.mem_cons] at h
      obtain ⟨-, -, -, -, hsix, -⟩ := shift_parts a
      obtain ⟨-, -, -, -, -, hlow⟩ := shift_parts c
      rcases h with rfl | rfl | rfl | rfl | h
      · exact hsix
      · exact (split_two_four a b).1
      · exact (split_four_two b c).1
      · exact hlow
      · exact ih h

/-- A character stands for its value, and is no line end. -/
theorem base64Value_char {x : UInt8} (h : x < 64) :
    base64Value (base64Char x) = some x
      ∧ base64Char x ≠ 10 ∧ base64Char x ≠ 13 :=
  forall_byte (P := fun x => x < 64 → base64Value (base64Char x) = some x
    ∧ base64Char x ≠ 10 ∧ base64Char x ≠ 13) (by decide +kernel) x h

theorem rawURLDecode_encode (s : GoString) :
    rawURLDecode (rawURLEncode s) = some s := by
  have hkeep : ((sextets s).map base64Char).filter
      (fun c => decide (c ≠ 10 ∧ c ≠ 13)) = (sextets s).map base64Char :=
    List.filter_eq_self.mpr fun c hc => by
      obtain ⟨x, hx, rfl⟩ := List.mem_map.mp hc
      exact decide_eq_true (base64Value_char (sextets_lt hx)).2
  unfold rawURLDecode
  rw [rawURLEncode_eq, hkeep,
    mapM_map_eq_some fun x hx => (base64Value_char (sextets_lt hx)).1,
    Option.bind_some, joinSextets_sextets]

example : rawURLEncode (ascii "login") = ascii "bG9naW4" := by
  decide +kernel

end Tokyo3Base.Go
