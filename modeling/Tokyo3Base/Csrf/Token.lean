/-
Anti-CSRF tokens (`csrf/csrf.go`): the HMAC of a scope under a secret,
masked with a fresh pad for each token.

HMAC-SHA256 is a function of which only the size of its result is known.
`RandomBytes` is an argument, errors included.
-/
import Tokyo3Base.Go.Base64

namespace Tokyo3Base.Csrf

open Go

/-- `sha256.Size`. -/
def sumSize : Nat := 32

/-- HMAC-SHA256, of a key and a message. -/
structure Hmac where
  sum : GoString → GoString → GoString
  size : ∀ secret scope, (sum secret scope).length = sumSize

/-- What one call of `RandomBytes` gives for each number of bytes. -/
abbrev RandomBytes := (n : Nat) → Except GoString { b : GoString // b.length = n }

/-- `subtle.XORBytes`, as far as both arguments go. -/
def xorBytes (x y : GoString) : GoString := List.zipWith (· ^^^ ·) x y

/-- The shared derivation. -/
def derive (hmac : Hmac) (secret scope : GoString) : GoString :=
  hmac.sum secret scope

def mask (real : GoString) (random : RandomBytes) :
    Except GoString GoString :=
  match random real.length with
  | .error err => .error (ascii "csrf: pad: " ++ err)
  | .ok pad => .ok (rawURLEncode (pad.val ++ xorBytes real pad.val))

def unmask (token : GoString) (wantLen : Nat) : Except GoString GoString :=
  match rawURLDecode token with
  | none => .error (ascii "csrf: malformed token")
  | some raw =>
      if raw.length ≠ 2 * wantLen then
        .error (ascii "csrf: malformed token")
      else .ok (xorBytes (raw.take wantLen) (raw.drop wantLen))

def token (hmac : Hmac) (secret scope : GoString) (random : RandomBytes) :
    Except GoString GoString :=
  if secret = [] then .error (ascii "csrf: empty secret")
  else mask (derive hmac secret scope) random

def validate (hmac : Hmac) (secret token scope : GoString) : Bool :=
  if secret = [] ∨ token = [] then false
  else
    match unmask token sumSize with
    | .error _ => false
    | .ok real => derive hmac secret scope == real

-- ==== masking

theorem xorBytes_cancel {pad real : GoString}
    (h : pad.length = real.length) :
    xorBytes pad (xorBytes real pad) = real := by
  unfold xorBytes
  induction real generalizing pad with
  | nil => rw [List.length_eq_zero_iff.mp h]; rfl
  | cons b real ih =>
      cases pad with
      | nil => cases h
      | cons p pad =>
          have hb : p ^^^ (b ^^^ p) = b := by
            rw [UInt8.xor_comm b p, ← UInt8.xor_assoc, UInt8.xor_self,
              UInt8.zero_xor]
          simp only [List.zipWith_cons_cons, hb, ih (Nat.succ.inj h)]

theorem length_xorBytes {x y : GoString} (h : x.length = y.length) :
    (xorBytes x y).length = x.length := by
  unfold xorBytes
  rw [List.length_zipWith, h, Nat.min_self]

theorem unmask_of_mask {real text : GoString} {random : RandomBytes}
    (h : mask real random = .ok text) :
    unmask text real.length = .ok real := by
  unfold mask at h
  split at h
  · cases h
  · rename_i pad hpad
    have hxor := length_xorBytes pad.property.symm
    cases h
    unfold unmask
    rw [rawURLDecode_encode]
    have hlen : (pad.val ++ xorBytes real pad.val).length
        = 2 * real.length := by
      rw [List.length_append, hxor, pad.property]
      omega
    dsimp only
    rw [if_neg (not_not_intro hlen), List.take_left' pad.property,
      List.drop_left' pad.property, xorBytes_cancel pad.property]

-- ==== validation

/-- A secret and a pad are enough for a token. -/
theorem exists_token (hmac : Hmac) {secret : GoString} (hne : secret ≠ [])
    (scope : GoString) {random : RandomBytes}
    (hpad : (random sumSize).isOk = true) :
    ∃ text, token hmac secret scope random = .ok text := by
  have hok : (random (derive hmac secret scope).length).isOk = true :=
    (hmac.size secret scope).symm ▸ hpad
  unfold token mask
  rw [if_neg hne]
  cases hrandom : random (derive hmac secret scope).length with
  | error err =>
      rw [hrandom] at hok
      cases hok
  | ok pad => exact ⟨_, rfl⟩

theorem unmask_token {hmac : Hmac} {secret scope text : GoString}
    {random : RandomBytes} (h : token hmac secret scope random = .ok text) :
    secret ≠ [] ∧ unmask text sumSize = .ok (derive hmac secret scope) := by
  unfold token at h
  split at h
  · cases h
  · rename_i hne
    have hunmask := unmask_of_mask h
    rw [show (derive hmac secret scope).length = sumSize from
      hmac.size secret scope] at hunmask
    exact ⟨hne, hunmask⟩

/-- What a text has to hold to be valid. -/
theorem validate_iff {hmac : Hmac} {secret text scope : GoString} :
    validate hmac secret text scope = true ↔ secret ≠ []
      ∧ unmask text sumSize = .ok (derive hmac secret scope) := by
  unfold validate
  constructor
  · intro h
    split at h
    · cases h
    · rename_i hne
      split at h
      · cases h
      · rename_i real hreal
        rw [hreal, beq_iff_eq.mp h]
        exact ⟨fun hs => hne (.inl hs), rfl⟩
  · rintro ⟨hne, hunmask⟩
    have htext : text ≠ [] := by
      rintro rfl
      cases hunmask
    rw [if_neg (not_or_intro hne htext), hunmask]
    exact beq_self_eq_true _

/-- The same in bytes: two halves of 32, whose XOR is the HMAC. -/
theorem unmask_eq_ok_iff {text real : GoString} {n : Nat} :
    unmask text n = .ok real
      ↔ ∃ raw, rawURLDecode text = some raw ∧ raw.length = 2 * n
        ∧ xorBytes (raw.take n) (raw.drop n) = real := by
  unfold unmask
  constructor
  · intro h
    split at h
    · cases h
    · rename_i raw hraw
      split at h
      · cases h
      · rename_i hlen
        exact ⟨raw, hraw, Decidable.not_not.mp hlen, Except.ok.inj h⟩
  · rintro ⟨raw, hraw, hlen, rfl⟩
    rw [hraw]
    dsimp only
    rw [if_neg (not_not_intro hlen)]

/-- A token is valid for its own secret and scope, and for others only if
their HMAC is the same. -/
theorem validate_token_iff {hmac : Hmac}
    {secret scope text secret' scope' : GoString} {random : RandomBytes}
    (h : token hmac secret scope random = .ok text) :
    validate hmac secret' text scope' = true ↔ secret' ≠ []
      ∧ hmac.sum secret scope = hmac.sum secret' scope' := by
  rw [validate_iff, (unmask_token h).2]
  exact and_congr_right fun _ => ⟨Except.ok.inj, congrArg Except.ok⟩

end Tokyo3Base.Csrf
