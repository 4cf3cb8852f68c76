/-
The UTF-8 decoder of the Encoding Standard, on bytes: what it decodes is
given in UTF-8 again.

# The machine

Between two bytes the decoder is between characters or inside one. In
the second case it knows which bytes it has read, how many are still
owed, and the range of the next one; the narrower ranges leave out
overlong forms, surrogates and what is beyond the last code point. A
byte out of range ends the character with a replacement character and is
then read again, as the start of the next one.

# What is used of it

An ASCII byte stands for itself, whatever is around it, and nothing else
decodes to one (`decode_ascii`, `mem_step_ascii`). So decoding can be
moved past anything that only looks at ASCII bytes.
-/

namespace Tokyo3Base.Lib.Utf8

/-- U+FFFD, encoded. -/
def replacement : List UInt8 := [0xef, 0xbf, 0xbd]

/-- Inside a character. -/
structure Pending where
  /-- the bytes of it so far -/
  read : List UInt8
  /-- how many are owed after the next one -/
  more : Nat
  lower : UInt8
  upper : UInt8
  read_ne : read ≠ []
  read_high : ∀ b ∈ read, 0x80 ≤ b
  lower_high : 0x80 ≤ lower

/-- The smallest byte that may follow this one. -/
def lowerAfter (b : UInt8) : UInt8 :=
  if b = 0xe0 then 0xa0 else if b = 0xf0 then 0x90 else 0x80

/-- The largest byte that may follow this one. -/
def upperAfter (b : UInt8) : UInt8 :=
  if b = 0xed then 0x9f else if b = 0xf4 then 0x8f else 0xbf

theorem lowerAfter_high (b : UInt8) : 0x80 ≤ lowerAfter b := by
  unfold lowerAfter
  split
  · decide
  · split <;> decide

/-- The character that a byte starts, if it takes more than one byte. -/
def lead (b : UInt8) : Option Pending :=
  if h : 0xc2 ≤ b ∧ b ≤ 0xf4 then
    some
      { read := [b]
        more := if b ≤ 0xdf then 0 else if b ≤ 0xef then 1 else 2
        lower := lowerAfter b
        upper := upperAfter b
        read_ne := List.cons_ne_nil _ _
        read_high := fun _ hc => List.mem_singleton.mp hc ▸
          UInt8.le_trans (by decide) h.1
        lower_high := lowerAfter_high b }
  else none

/-- A byte between two characters: what it decodes to, and where it
leaves the decoder. -/
def start (b : UInt8) : List UInt8 × Option Pending :=
  if b < 0x80 then ([b], none)
  else
    match lead b with
    | some p => ([], some p)
    | none => (replacement, none)

/-- The byte is one that may come next. -/
def Pending.takes (p : Pending) (b : UInt8) : Prop :=
  p.lower ≤ b ∧ b ≤ p.upper

instance (p : Pending) (b : UInt8) : Decidable (p.takes b) :=
  inferInstanceAs (Decidable (_ ∧ _))

theorem Pending.high_of_takes {p : Pending} {b : UInt8}
    (h : p.takes b) : 0x80 ≤ b :=
  UInt8.le_trans p.lower_high h.1

theorem Pending.read_snoc_high {p : Pending} {b : UInt8}
    (h : p.takes b) : ∀ c ∈ p.read ++ [b], 0x80 ≤ c := by
  intro c hc
  rcases List.mem_append.mp hc with hc | hc
  · exact p.read_high c hc
  · exact List.mem_singleton.mp hc ▸ p.high_of_takes h

/-- The next byte of a character that is not complete with it. -/
def Pending.push (p : Pending) (b : UInt8) (more : Nat)
    (h : p.takes b) : Pending :=
  ⟨p.read ++ [b], more, 0x80, 0xbf, by simp, p.read_snoc_high h,
    by decide⟩

/-- One byte. -/
def step (st : Option Pending) (b : UInt8) :
    List UInt8 × Option Pending :=
  match st with
  | none => start b
  | some p =>
      if h : p.takes b then
        match p.more with
        | 0 => (p.read ++ [b], none)
        | more + 1 => ([], some (p.push b more h))
      else (replacement ++ (start b).1, (start b).2)

/-- The end of the text. -/
def finish : Option Pending → List UInt8
  | none => []
  | some _ => replacement

/-- The rest of a text. -/
def decodeFrom (st : Option Pending) : List UInt8 → List UInt8
  | [] => finish st
  | b :: s => (step st b).1 ++ decodeFrom (step st b).2 s

/-- UTF-8 decode without BOM. -/
def decode (s : List UInt8) : List UInt8 := decodeFrom none s

/-- UTF-8 decode: one byte order mark at the start is dropped. -/
def decodeBOM (s : List UInt8) : List UInt8 :=
  match s with
  | 0xef :: 0xbb :: 0xbf :: rest => decode rest
  | _ => decode s

theorem decodeBOM_eq {s : List UInt8} (h : s.head? ≠ some 0xef) :
    decodeBOM s = decode s := by
  unfold decodeBOM
  split
  · exact absurd rfl h
  · rfl

-- ==== ASCII bytes

theorem not_high {b : UInt8} (h : b < 0x80) : ¬ 0x80 ≤ b :=
  UInt8.not_le.mpr h

theorem start_ascii {b : UInt8} (h : b < 0x80) :
    start b = ([b], none) :=
  if_pos h

/-- An ASCII byte ends what came before it. -/
theorem step_ascii {b : UInt8} (h : b < 0x80) (st : Option Pending) :
    step st b = (finish st ++ [b], none) := by
  cases st with
  | none => exact start_ascii h
  | some p =>
      have hnot : ¬ p.takes b := fun ht => not_high h (p.high_of_takes ht)
      unfold step
      dsimp only
      rw [dif_neg hnot, start_ascii h]
      rfl

theorem decodeFrom_cons_ascii {b : UInt8} (h : b < 0x80)
    (st : Option Pending) (s : List UInt8) :
    decodeFrom st (b :: s) = finish st ++ b :: decode s := by
  rw [decodeFrom, step_ascii h]
  simp [decode]

/-- Texts around an ASCII byte are decoded each for itself. -/
theorem decodeFrom_append_ascii {b : UInt8} (h : b < 0x80)
    (st : Option Pending) (s t : List UInt8) :
    decodeFrom st (s ++ b :: t) = decodeFrom st s ++ b :: decode t := by
  induction s generalizing st with
  | nil => exact decodeFrom_cons_ascii h st t
  | cons c s ih =>
      rw [List.cons_append, decodeFrom, decodeFrom, ih,
        List.append_assoc]

theorem decode_append_ascii {b : UInt8} (h : b < 0x80)
    (s t : List UInt8) :
    decode (s ++ b :: t) = decode s ++ b :: decode t :=
  decodeFrom_append_ascii h none s t

example : decode [0xc3, 0x41] = replacement ++ [0x41] := by decide +kernel

/-- ASCII text stands for itself. -/
theorem decode_ascii {s : List UInt8} (h : ∀ b ∈ s, b < 0x80)
    (t : List UInt8) : decode (s ++ t) = s ++ decode t := by
  induction s with
  | nil => rfl
  | cons b s ih =>
      have hb := h b List.mem_cons_self
      rw [List.cons_append, decode, decodeFrom_cons_ascii hb,
        ih fun c hc => h c (List.mem_cons_of_mem _ hc)]
      rfl

theorem replacement_high : ∀ b ∈ replacement, 0x80 ≤ b := by
  decide +kernel

theorem mem_start_ascii {b c : UInt8} (hc : c < 0x80)
    (h : c ∈ (start b).1) : c = b := by
  unfold start at h
  split at h
  · exact List.mem_singleton.mp h
  · split at h
    · cases h
    · exact absurd (replacement_high c h) (not_high hc)

/-- One byte decodes to no ASCII byte but itself. -/
theorem mem_step_ascii {st : Option Pending} {b c : UInt8}
    (hc : c < 0x80) (h : c ∈ (step st b).1) : c = b := by
  cases st with
  | none => exact mem_start_ascii hc h
  | some p =>
      unfold step at h
      dsimp only at h
      split at h
      · rename_i htakes
        split at h
        · exact absurd (p.read_snoc_high htakes c h) (not_high hc)
        · cases h
      · rcases List.mem_append.mp h with h | h
        · exact absurd (replacement_high c h) (not_high hc)
        · exact mem_start_ascii hc h

/-- What comes out of the inside of a character starts with no ASCII
byte. -/
theorem head_decodeFrom_pending (p : Pending) (s : List UInt8)
    {c : UInt8} (h : (decodeFrom (some p) s).head? = some c) :
    0x80 ≤ c := by
  induction s generalizing p with
  | nil =>
      cases h
      decide
  | cons b s ih =>
      rw [decodeFrom] at h
      unfold step at h
      dsimp only at h
      split at h
      · split at h
        · obtain ⟨d, read, hread⟩ := List.exists_cons_of_ne_nil p.read_ne
          rw [hread] at h
          exact Option.some.inj h ▸
            p.read_high d (hread ▸ List.mem_cons_self)
        · exact ih _ h
      · cases h
        decide

/-- A decoded text starts with the ASCII byte that the text starts
with, if any. -/
theorem head_decode {b c : UInt8} {s : List UInt8} (hc : c < 0x80)
    (h : (decode (b :: s)).head? = some c) : b = c := by
  rw [decode, decodeFrom] at h
  change ((start b).1 ++ decodeFrom (start b).2 s).head? = some c at h
  unfold start at h
  split at h
  · exact Option.some.inj h
  · split at h
    · exact absurd (head_decodeFrom_pending _ _ h) (not_high hc)
    · cases h
      exact absurd hc (by decide)

end Tokyo3Base.Lib.Utf8
