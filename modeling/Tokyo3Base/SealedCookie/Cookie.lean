/-
The sealed cookie (sealedcookie/sealedcookie.go) down to the bytes of
its value, over `crypto.SealAAD` and `crypto.OpenAAD`.

# What is assumed of AES-GCM

Under one key, a ciphertext opens with some additional data if and only
if it was sealed with that additional data, and then to what was sealed.
So a key is known by what was sealed under it: `Vault` is the list of
these calls, and opening is a lookup. That a ciphertext opens to one
plaintext at most is a property of the list, and a field of it.

`json` is a `Codec`: of one type, `Unmarshal` undoes `Marshal`.
-/
import Tokyo3Base.Go.Base64

namespace Tokyo3Base.SealedCookie

open Go

-- ==== what was sealed

/-- `gcm.NonceSize()`. -/
def nonceSize : Nat := 12

/-- A call of `SealAAD`: what it was given, and what it returned. -/
structure Sealed where
  plaintext : GoString
  aad : GoString
  ciphertext : GoString
  nonce : nonceSize ≤ ciphertext.length
deriving DecidableEq

/-- The calls of `SealAAD` under one key. -/
structure Vault where
  sealed : List Sealed
  opens_once : ∀ a ∈ sealed, ∀ b ∈ sealed,
    a.ciphertext = b.ciphertext → a.aad = b.aad →
    a.plaintext = b.plaintext

def Vault.openAAD (v : Vault) (ciphertext aad : GoString) :
    Option GoString :=
  if ciphertext.length < nonceSize then none
  else
    (v.sealed.find? fun e =>
      decide (e.ciphertext = ciphertext ∧ e.aad = aad)).map
        Sealed.plaintext

theorem Vault.openAAD_eq_some {v : Vault}
    {ciphertext aad plaintext : GoString} :
    v.openAAD ciphertext aad = some plaintext
      ↔ ∃ e ∈ v.sealed, e.ciphertext = ciphertext ∧ e.aad = aad
        ∧ e.plaintext = plaintext := by
  unfold Vault.openAAD
  constructor
  · intro h
    split at h
    · cases h
    · obtain ⟨e, hfind, rfl⟩ := Option.map_eq_some_iff.mp h
      have he : e.ciphertext = ciphertext ∧ e.aad = aad := by
        simpa using List.find?_some hfind
      exact ⟨e, List.mem_of_find?_eq_some hfind, he.1, he.2, rfl⟩
  · rintro ⟨e, hmem, rfl, rfl, rfl⟩
    rw [if_neg (Nat.not_lt.mpr e.nonce), Option.map_eq_some_iff]
    cases hfind : v.sealed.find? fun x =>
        decide (x.ciphertext = e.ciphertext ∧ x.aad = e.aad) with
    | none =>
        exact absurd (decide_eq_true ⟨rfl, rfl⟩)
          (List.find?_eq_none.mp hfind e hmem)
    | some x =>
        have hx : x.ciphertext = e.ciphertext ∧ x.aad = e.aad := by
          simpa using List.find?_some hfind
        exact ⟨x, rfl, v.opens_once x (List.mem_of_find?_eq_some hfind)
          e hmem hx.1 hx.2⟩

-- ==== the cookie

/-- `json.Marshal` and `json.Unmarshal` for one type of value. -/
structure Codec (α : Type) where
  marshal : α → GoString
  unmarshal : GoString → Option α
  round_trip : ∀ v, unmarshal (marshal v) = some v

variable {α : Type}

/-- `Cookie.aad`, of the cookie with this name. -/
def aad (name : GoString) : GoString := ascii "sealedcookie:" ++ name

/-- `open`; the package's `Open` passes no additional data, a cookie's
`Open` its name. -/
def openValue (v : Vault) (codec : Codec α) (val aad : GoString) :
    Option α :=
  (rawURLDecode val).bind fun raw =>
    (v.openAAD raw aad).bind codec.unmarshal

/-- `Request.Cookie`: the first cookie of this name. -/
def cookieValue (cookies : List (GoString × GoString)) (name : GoString) :
    Option GoString :=
  (cookies.find? fun c => decide (c.1 = name)).map Prod.snd

/-- `Cookie.Read`. -/
def read (v : Vault) (codec : Codec α) (name : GoString)
    (cookies : List (GoString × GoString)) : Option α :=
  (cookieValue cookies name).bind fun val =>
    openValue v codec val (aad name)

/-- What is read was sealed under the cookie's name, and its value was
presented. -/
theorem read_eq_some {v : Vault} {codec : Codec α} {name : GoString}
    {cookies : List (GoString × GoString)} {x : α} :
    read v codec name cookies = some x
      ↔ ∃ val raw, cookieValue cookies name = some val
        ∧ rawURLDecode val = some raw
        ∧ ∃ e ∈ v.sealed, e.ciphertext = raw ∧ e.aad = aad name
          ∧ codec.unmarshal e.plaintext = some x := by
  unfold read openValue
  simp only [Option.bind_eq_some_iff]
  constructor
  · rintro ⟨val, hval, raw, hraw, plaintext, hopen, hx⟩
    obtain ⟨e, hmem, hct, haad, rfl⟩ := Vault.openAAD_eq_some.mp hopen
    exact ⟨val, raw, hval, hraw, e, hmem, hct, haad, hx⟩
  · rintro ⟨val, raw, hval, hraw, e, hmem, hct, haad, hx⟩
    exact ⟨val, hval, raw, hraw, e.plaintext,
      Vault.openAAD_eq_some.mpr ⟨e, hmem, hct, haad, rfl⟩, hx⟩

end Tokyo3Base.SealedCookie
