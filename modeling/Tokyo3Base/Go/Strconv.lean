/-
Integers in base 10: `fmt`'s `%d`, `strconv.ParseUint` and `strconv.Atoi`,
on lists of bytes, and that reading back what was written gives the
number.
-/
import Mathlib.Data.Nat.Digits.Defs
import Tokyo3Base.Go.Bytes

namespace Tokyo3Base.Go

/-- The byte of a decimal digit. -/
def digit (d : Nat) : UInt8 := UInt8.ofNat (48 + d)

/-- `%d` of an unsigned integer. -/
def formatUint (n : Nat) : GoString :=
  if n = 0 then [digit 0] else (Nat.digits 10 n).reverse.map digit

/-- `%d` of a signed integer. -/
def formatInt (n : Int) : GoString :=
  if n < 0 then 45 :: formatUint n.natAbs else formatUint n.natAbs

def isDigit (c : UInt8) : Bool := 48 ≤ c && c ≤ 57

/-- `strconv.ParseUint(s, 10, 64)`: the number, if there is no error. -/
def parseUint (s : GoString) : Option UInt64 :=
  if s = [] ∨ s.all isDigit = false then none
  else
    let n := s.foldl (fun n c => n * 10 + (c.toNat - 48)) 0
    if n < 2 ^ 64 then some (UInt64.ofNat n) else none

/-- The number that a text of digits spells. -/
def decimal (s : GoString) : Nat :=
  s.foldl (fun n c => n * 10 + (c.toNat - 48)) 0

/-- `strconv.Atoi`: the number, if there is no error. -/
def atoi (s : GoString) : Option Int :=
  let digits := if s.head? = some 45 ∨ s.head? = some 43 then s.drop 1 else s
  if digits = [] ∨ digits.all isDigit = false then none
  else if s.head? = some 45 then
    if decimal digits ≤ 9223372036854775808 then some (-decimal digits)
    else none
  else if decimal digits ≤ 9223372036854775807 then some (decimal digits)
  else none

theorem digit_toNat {d : Nat} (hd : d < 10) : (digit d).toNat = 48 + d := by
  rw [digit, UInt8.toNat_ofNat']
  omega

theorem isDigit_digit {d : Nat} (hd : d < 10) : isDigit (digit d) = true := by
  have h := digit_toNat hd
  simp only [isDigit, Bool.and_eq_true, decide_eq_true_eq,
    UInt8.le_iff_toNat_le, h]
  exact ⟨Nat.le_add_right _ _, by
    rw [show (57 : UInt8).toNat = 57 from rfl]
    omega⟩

theorem formatUint_digits (n : Nat) : ∃ ds : List Nat,
    formatUint n = ds.reverse.map digit ∧ ds ≠ [] ∧ (∀ d ∈ ds, d < 10)
      ∧ Nat.ofDigits 10 ds = n := by
  unfold formatUint
  split
  · rename_i hn
    exact ⟨[0], rfl, by simp, by simp, by simp [hn]⟩
  · rename_i hn
    exact ⟨Nat.digits 10 n, rfl, Nat.digits_ne_nil_iff_ne_zero.mpr hn,
      fun d hd => Nat.digits_lt_base (by decide) hd,
      Nat.ofDigits_digits 10 n⟩

theorem isDigit_of_mem_formatUint {n : Nat} {c : UInt8}
    (hc : c ∈ formatUint n) : isDigit c = true := by
  obtain ⟨ds, hds, -, hlt, -⟩ := formatUint_digits n
  rw [hds, List.mem_map] at hc
  obtain ⟨d, hd, rfl⟩ := hc
  exact isDigit_digit (hlt d (List.mem_reverse.mp hd))

theorem formatUint_ne_nil (n : Nat) : formatUint n ≠ [] := by
  obtain ⟨ds, hds, hne, -, -⟩ := formatUint_digits n
  rw [hds]
  simpa using hne

theorem foldl_digits (ds : List Nat) (hlt : ∀ d ∈ ds, d < 10) :
    (ds.reverse.map digit).foldl (fun n c => n * 10 + (c.toNat - 48)) 0
      = Nat.ofDigits 10 ds := by
  induction ds with
  | nil => rfl
  | cons d ds ih =>
      have hd := digit_toNat (hlt d List.mem_cons_self)
      have ih := ih fun x hx => hlt x (List.mem_cons_of_mem _ hx)
      rw [List.reverse_cons, List.map_append, List.foldl_append, ih,
        Nat.ofDigits_cons]
      simp only [List.map_cons, List.map_nil, List.foldl_cons,
        List.foldl_nil, hd]
      omega

theorem parseUint_formatUint {n : Nat} (hn : n < 2 ^ 64) :
    parseUint (formatUint n) = some (UInt64.ofNat n) := by
  obtain ⟨ds, hds, -, hlt, hval⟩ := formatUint_digits n
  have hall : (formatUint n).all isDigit = true :=
    List.all_eq_true.mpr fun c hc => isDigit_of_mem_formatUint hc
  unfold parseUint
  rw [if_neg (by simp [formatUint_ne_nil, hall]), hds,
    foldl_digits ds hlt, hval, if_pos hn]

theorem decimal_formatUint (n : Nat) : decimal (formatUint n) = n := by
  obtain ⟨ds, hds, -, hlt, hval⟩ := formatUint_digits n
  rw [decimal, hds, foldl_digits ds hlt, hval]

theorem head_formatUint {n : Nat} {c : UInt8} (h : (formatUint n).head? = some c) :
    isDigit c = true :=
  isDigit_of_mem_formatUint (List.mem_of_mem_head? h)

theorem atoi_formatInt {n : Int} (hlo : -9223372036854775808 ≤ n)
    (hhi : n ≤ 9223372036854775807) : atoi (formatInt n) = some n := by
  have hall : (formatUint n.natAbs).all isDigit = true :=
    List.all_eq_true.mpr fun c hc => isDigit_of_mem_formatUint hc
  have hok : ¬ (formatUint n.natAbs = []
      ∨ (formatUint n.natAbs).all isDigit = false) := by
    simp [formatUint_ne_nil, hall]
  unfold formatInt
  by_cases hneg : n < 0
  · rw [if_pos hneg]
    unfold atoi
    simp only [List.head?_cons, true_or, if_true, List.drop_succ_cons,
      List.drop_zero, if_neg hok, decimal_formatUint]
    rw [if_pos (by omega)]
    exact congrArg some (by omega)
  · -- the first byte is a digit, so there is no sign to drop
    rw [if_neg hneg]
    have hsign : ∀ c : UInt8, isDigit c = false →
        (formatUint n.natAbs).head? ≠ some c := fun c hc h => by
      rw [head_formatUint h] at hc
      cases hc
    unfold atoi
    simp only [hsign 45 rfl, hsign 43 rfl, or_self, if_false, if_neg hok,
      decimal_formatUint]
    rw [if_pos (by omega)]
    exact congrArg some (by omega)

theorem atoi_bounds {s : GoString} {n : Int} (h : atoi s = some n) :
    -9223372036854775808 ≤ n ∧ n ≤ 9223372036854775807 := by
  unfold atoi at h
  extract_lets digits at h
  split at h
  · cases h
  · split at h
    · split at h
      · cases h
        omega
      · cases h
    · split at h
      · cases h
        omega
      · cases h

example : formatUint 1907 = ascii "1907" := by decide

example : parseUint (ascii "18446744073709551616") = none := by decide

end Tokyo3Base.Go
