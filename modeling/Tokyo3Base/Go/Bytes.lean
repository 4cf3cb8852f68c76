/-
Go strings and byte slices: sequences of bytes, with no encoding
promised. The operations that the modelled code uses on them, on lists
of bytes.
-/

namespace Tokyo3Base.Go

/-- A Go `string`. -/
abbrev GoString := List UInt8

/-- The bytes of an ASCII literal. -/
def ascii (s : String) : GoString := s.toList.map Char.toUInt8

def slash : UInt8 := 0x2f

def backslash : UInt8 := 0x5c

def question : UInt8 := 0x3f

def hash : UInt8 := 0x23

def percent : UInt8 := 0x25

def dot : UInt8 := 0x2e

/-- A decidable fact about bytes is checked byte by byte. -/
theorem forall_byte {P : UInt8 → Prop}
    (h : ∀ n : Fin 256, P (UInt8.ofFin n)) (c : UInt8) : P c :=
  h c.toFin

/-- Reading what was written, item by item. -/
theorem mapM_map_eq_some {α β : Type} {f : α → Option β} {g : β → α}
    {xs : List β} (h : ∀ x ∈ xs, f (g x) = some x) :
    (xs.map g).mapM f = some xs := by
  induction xs with
  | nil => rfl
  | cons x xs ih =>
      rw [List.map_cons, List.mapM_cons, h x List.mem_cons_self,
        ih fun y hy => h y (List.mem_cons_of_mem _ hy)]
      rfl

/-- `strings.HasPrefix`. -/
def hasPrefix (s p : GoString) : Bool := p.isPrefixOf s

/-- `strings.HasSuffix` for a single byte. -/
def endsIn (s : GoString) (b : UInt8) : Bool := s.getLast? == some b

/-- `strings.TrimSuffix` of a single byte. -/
def trimByte (s : GoString) (b : UInt8) : GoString :=
  if endsIn s b then s.dropLast else s

/-- The text before the first `sep`: the first result of
`strings.Cut`. -/
def before (sep : UInt8) (s : GoString) : GoString :=
  s.takeWhile (· != sep)

/-- The text from the first `sep` on. -/
def fromFirst (sep : UInt8) (s : GoString) : GoString :=
  s.dropWhile (· != sep)

/-- `binary.BigEndian.AppendUint64`. -/
def appendUint64 (b : GoString) (v : UInt64) : GoString :=
  b ++ [(v >>> 56).toUInt8, (v >>> 48).toUInt8, (v >>> 40).toUInt8,
    (v >>> 32).toUInt8, (v >>> 24).toUInt8, (v >>> 16).toUInt8,
    (v >>> 8).toUInt8, v.toUInt8]

theorem toNat_byte (v : UInt64) (k : UInt64) (hk : k < 64) :
    (v >>> k).toUInt8.toNat = v.toNat >>> k.toNat % 256 := by
  have hk' : k.toNat % 64 = k.toNat := Nat.mod_eq_of_lt hk
  rw [UInt64.toNat_toUInt8, UInt64.toNat_shiftRight, hk']

/-- A quotient, from the one eight bits higher and its own last byte. -/
theorem div_eq_of_high {a a' m : Nat} (hhigh : a / (m * 256) = a' / (m * 256))
    (hlow : a / m % 256 = a' / m % 256) : a / m = a' / m := by
  rw [← Nat.div_div_eq_div_mul, ← Nat.div_div_eq_div_mul] at hhigh
  omega

/-- The eight bytes determine the integer, and the text before them. -/
theorem appendUint64_inj {b b' : GoString} {v v' : UInt64}
    (h : appendUint64 b v = appendUint64 b' v') : b = b' ∧ v = v' := by
  obtain ⟨hb, hv⟩ := List.append_inj' h (by simp only [List.length_cons])
  refine ⟨hb, ?_⟩
  simp only [List.cons.injEq, and_true] at hv
  obtain ⟨h7, h6, h5, h4, h3, h2, h1, h0⟩ := hv
  have byte : ∀ (k : UInt64), k < 64 →
      (v >>> k).toUInt8 = (v' >>> k).toUInt8 →
      v.toNat / 2 ^ k.toNat % 256 = v'.toNat / 2 ^ k.toNat % 256 := by
    intro k hk heq
    rw [← Nat.shiftRight_eq_div_pow, ← Nat.shiftRight_eq_div_pow,
      ← toNat_byte v k hk, ← toNat_byte v' k hk, heq]
  -- from the highest byte down
  have e8 : v.toNat / 2 ^ 64 = v'.toNat / 2 ^ 64 := by
    rw [Nat.div_eq_of_lt v.toNat_lt, Nat.div_eq_of_lt v'.toNat_lt]
  have e7 := div_eq_of_high (m := 2 ^ 56) e8 (byte 56 (by decide) h7)
  have e6 := div_eq_of_high (m := 2 ^ 48) e7 (byte 48 (by decide) h6)
  have e5 := div_eq_of_high (m := 2 ^ 40) e6 (byte 40 (by decide) h5)
  have e4 := div_eq_of_high (m := 2 ^ 32) e5 (byte 32 (by decide) h4)
  have e3 := div_eq_of_high (m := 2 ^ 24) e4 (byte 24 (by decide) h3)
  have e2 := div_eq_of_high (m := 2 ^ 16) e3 (byte 16 (by decide) h2)
  have e1 := div_eq_of_high (m := 2 ^ 8) e2 (byte 8 (by decide) h1)
  have e0 : v.toNat % 256 = v'.toNat % 256 := by
    rw [← UInt64.toNat_toUInt8, ← UInt64.toNat_toUInt8, h0]
  apply UInt64.toNat_inj.mp
  omega

end Tokyo3Base.Go
