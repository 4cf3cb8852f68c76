/-
Facts about `strconv.Quote`. A byte of ASCII is never part of a longer
character, so that a text can be quoted in two halves around it
(`quoteFrom_append`). Nothing is written shorter than it was, so that a
text that is written as it is holds nothing that is escaped.
-/
import Tokyo3Base.Go.Quote
import Tokyo3Base.Go.Proofs.JSON

namespace Tokyo3Base.Go.Strconv

section Quote

variable (isPrint : GoString → Bool)

theorem quoteFrom_bad {b : UInt8} {s : GoString}
    (h : runeWidth (b :: s) = 0) :
    quoteFrom isPrint 0 (b :: s) = hexByte b ++ quoteFrom isPrint 0 s := by
  rw [quoteFrom, h]

theorem quoteFrom_rune {b : UInt8} {s : GoString} {w : Nat}
    (h : runeWidth (b :: s) = w + 1) :
    quoteFrom isPrint 0 (b :: s)
      = quoteRune isPrint ((b :: s).take (w + 1)) ++ quoteFrom isPrint w s := by
  rw [quoteFrom, h]

theorem quoteFrom_ascii {c : UInt8} (hc : c < 0x80) (s : GoString) :
    quoteFrom isPrint 0 (c :: s) = quoteASCII c ++ quoteFrom isPrint 0 s := by
  have h : runeWidth (c :: s) = 0 + 1 := runeWidth_append (isRune_ascii hc) s
  rw [quoteFrom_rune isPrint h]
  rfl

/-- A text is quoted in two halves, around a byte of ASCII. -/
theorem quoteFrom_append {c : UInt8} (hc : c < 0x80) (y : GoString) :
    ∀ (x : GoString) {n : Nat}, n ≤ x.length →
      quoteFrom isPrint n (x ++ c :: y)
        = quoteFrom isPrint n x ++ (quoteASCII c ++ quoteFrom isPrint 0 y) := by
  intro x
  induction x with
  | nil =>
      intro n hn
      obtain rfl := Nat.le_zero.mp hn
      exact quoteFrom_ascii isPrint hc y
  | cons b x ih =>
      intro n hn
      cases n with
      | succ n => exact ih (Nat.le_of_succ_le_succ hn)
      | zero =>
          have hwidth := runeWidth_append_ascii hc b x y
          cases hw : runeWidth (b :: x) with
          | zero =>
              rw [hw] at hwidth
              rw [List.cons_append, quoteFrom_bad isPrint hwidth,
                quoteFrom_bad isPrint hw, ih (Nat.zero_le _),
                List.append_assoc]
          | succ w =>
              rw [hw] at hwidth
              have hle := width_le hw
              rw [List.cons_append, quoteFrom_rune isPrint hwidth,
                quoteFrom_rune isPrint hw, ih hle, List.append_assoc,
                List.take_succ_cons, List.take_succ_cons,
                List.take_append_of_le_length hle]

-- ==== what is written

theorem length_hexDigits (width n : Nat) :
    (hexDigits width n).length = width := by
  induction width generalizing n with
  | zero => rfl
  | succ width ih => rw [hexDigits, List.length_append, ih]; rfl

theorem length_quoteASCII (c : UInt8) : 1 ≤ (quoteASCII c).length :=
  forall_byte (P := fun c => 1 ≤ (quoteASCII c).length) (by decide +kernel) c

theorem length_quoteRune {p : GoString} (hp : IsRune p) :
    p.length ≤ (quoteRune isPrint p).length := by
  obtain ⟨b, p, rfl⟩ := List.exists_cons_of_ne_nil hp.ne_nil
  cases p with
  | nil => exact length_quoteASCII b
  | cons d p =>
      have hlead := (runeWidth_succ.mp hp.width).1
      have hle : leadWidth b ≤ 4 :=
        forall_byte (P := fun b => leadWidth b ≤ 4) (by decide +kernel) b
      have hlen : (b :: d :: p).length ≤ 4 := by
        rw [List.length_cons, ← hlead]
        exact hle
      rw [quoteRune]
      · split
        · exact Nat.le_refl _
        · split <;> rw [List.length_append, length_hexDigits] <;>
            exact Nat.le_trans hlen (by decide)
      · rintro c ⟨⟩

theorem length_quoteFrom (s : GoString) :
    ∀ {n : Nat}, n ≤ s.length →
      s.length - n ≤ (quoteFrom isPrint n s).length := by
  induction s with
  | nil => exact fun _ => by simp
  | cons b s ih =>
      intro n hn
      cases n with
      | succ n =>
          rw [List.length_cons, Nat.add_sub_add_right]
          exact ih (Nat.le_of_succ_le_succ hn)
      | zero =>
          cases hw : runeWidth (b :: s) with
          | zero =>
              have hrest := ih (Nat.zero_le s.length)
              rw [quoteFrom_bad isPrint hw, hexByte, List.length_append,
                List.length_append, length_hexDigits]
              simp only [List.length_cons]
              omega
          | succ w =>
              have hle := width_le hw
              have hrune := length_quoteRune isPrint (isRune_take hw)
              have hrest := ih hle
              rw [List.length_take, List.length_cons] at hrune
              rw [quoteFrom_rune isPrint hw, List.length_append]
              simp only [List.length_cons]
              omega

/-- A text that is quoted as it is holds no quote. -/
theorem not_mem_of_quote_eq {s : GoString}
    (h : quote isPrint s = 34 :: s ++ [34]) : 34 ∉ s := by
  have hbody : quoteFrom isPrint 0 s = s := by
    rw [quote] at h
    exact (List.cons.inj (List.append_cancel_right h)).2
  intro hmem
  obtain ⟨x, y, rfl, -⟩ := List.eq_append_cons_of_mem hmem
  have hlen := congrArg List.length hbody
  have hx := length_quoteFrom isPrint x (Nat.zero_le _)
  have hy := length_quoteFrom isPrint y (Nat.zero_le _)
  have hquote : (quoteASCII 34).length = 2 := by decide
  rw [quoteFrom_append isPrint (by decide) y x (Nat.zero_le _)] at hlen
  simp only [List.length_append, List.length_cons, hquote] at hlen
  omega

end Quote

end Tokyo3Base.Go.Strconv
