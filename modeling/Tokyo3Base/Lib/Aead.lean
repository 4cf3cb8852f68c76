/-
Ideal authenticated encryption with additional data: a ciphertext opens
under a key exactly if it was sealed under that key, and with the same
additional data.

A cipher is a function that never gives one ciphertext for two plaintexts,
under one key and with the same additional data. Nothing else is assumed of
it. The calls of it are kept in a log, and opening is a lookup there: this
is where forgeries are excluded.
-/

namespace Tokyo3Base.Lib

/-- Keys `κ`, nonces `ν`, plaintexts `π`, additional data `α` and
ciphertexts `χ`. -/
structure Cipher (κ ν π α χ : Type) where
  encrypt : κ → ν → π → α → χ
  inj : ∀ {k n n' p p' a}, encrypt k n p a = encrypt k n' p' a → p = p'

/-- What was encrypted. -/
structure SealCall (κ ν π α : Type) where
  key : κ
  nonce : ν
  plaintext : π
  aad : α
deriving DecidableEq

variable {κ ν π α χ : Type} [DecidableEq κ] [DecidableEq α] [DecidableEq χ]

namespace Cipher

/-- The result of a call. -/
def output (c : Cipher κ ν π α χ) (s : SealCall κ ν π α) : χ :=
  c.encrypt s.key s.nonce s.plaintext s.aad

/-- What a ciphertext opens to, after these calls. -/
def opens (c : Cipher κ ν π α χ) (log : List (SealCall κ ν π α)) (k : κ)
    (x : χ) (a : α) : Option π :=
  (log.find? fun s => decide (s.key = k ∧ s.aad = a ∧ c.output s = x)).map
    SealCall.plaintext

theorem opens_eq_some {c : Cipher κ ν π α χ}
    {log : List (SealCall κ ν π α)} {k : κ} {x : χ} {a : α} {p : π} :
    c.opens log k x a = some p
      ↔ ∃ n, ⟨k, n, p, a⟩ ∈ log ∧ c.encrypt k n p a = x := by
  unfold opens
  rw [Option.map_eq_some_iff]
  constructor
  · rintro ⟨s, hfind, rfl⟩
    have hs : s.key = k ∧ s.aad = a ∧ c.output s = x := by
      simpa using List.find?_some hfind
    obtain ⟨rfl, rfl, rfl⟩ := hs
    exact ⟨s.nonce, List.mem_of_find?_eq_some hfind, rfl⟩
  · rintro ⟨n, hmem, rfl⟩
    cases hfind : log.find? fun s => decide (s.key = k ∧ s.aad = a
        ∧ c.output s = c.encrypt k n p a) with
    | none =>
        exact absurd (decide_eq_true ⟨rfl, rfl, rfl⟩)
          (List.find?_eq_none.mp hfind _ hmem)
    | some s =>
        have hs : s.key = k ∧ s.aad = a
            ∧ c.output s = c.encrypt k n p a := by
          simpa using List.find?_some hfind
        obtain ⟨rfl, rfl, hout⟩ := hs
        exact ⟨s, rfl, c.inj hout⟩

theorem opens_append {c : Cipher κ ν π α χ}
    {log : List (SealCall κ ν π α)} {k : κ} {x : χ} {a : α} {p : π}
    (h : c.opens log k x a = some p) (calls : List (SealCall κ ν π α)) :
    c.opens (log ++ calls) k x a = some p := by
  obtain ⟨n, hmem, hx⟩ := opens_eq_some.mp h
  exact opens_eq_some.mpr ⟨n, List.mem_append_left _ hmem, hx⟩

end Cipher

end Tokyo3Base.Lib
