/-
Envelope encryption (`crypto/crypto.go`, `crypto/keyprovider.go`): values
sealed under data keys of their own, and these wrapped by key providers
that hold a master key.

# AES-GCM

Both layers share `SealAAD` and `OpenAAD`. Of AES-GCM it is assumed that it
opens only what it sealed (`Lib.Cipher`): the functions pass a log of the
calls along, and `gcm.Open` is a lookup in it. What `RandomBytes` gives is
an argument (`Draw`), errors included.

# Histories

A history is a list of calls on providers that are named by a type `ι`.
After each call the log, the data keys drawn so far and the calls that
returned without an error are kept.
-/
import Tokyo3Base.Go.Strconv
import Tokyo3Base.Lib.Aead

namespace Tokyo3Base.Crypto.Envelope

open Go Lib

-- ==== AES-GCM

def keySize : Nat := 32

/-- `gcm.NonceSize()`. -/
def nonceSize : Nat := 12

abbrev Key := { k : GoString // k.length = keySize }

abbrev Nonce := { n : GoString // n.length = nonceSize }

/-- What `RandomBytes` returned. -/
abbrev Draw (α : Type) := Except GoString α

/-- `gcm.Seal`, as a function: the ciphertext and the tag. -/
structure Gcm where
  gcmSeal : GoString → GoString → GoString → GoString → GoString
  inj : ∀ {key nonce plaintext plaintext' aad},
    gcmSeal key nonce plaintext aad = gcmSeal key nonce plaintext' aad →
    plaintext = plaintext'

/-- The cipher of `SealAAD`: the nonce goes in front. -/
def Gcm.cipher (g : Gcm) :
    Cipher GoString Nonce GoString GoString GoString where
  encrypt key nonce plaintext aad :=
    nonce.val ++ g.gcmSeal key nonce.val plaintext aad
  inj := by
    intro key n n' p p' aad h
    obtain ⟨hn, hct⟩ := List.append_inj h (n.property.trans n'.property.symm)
    rw [hn] at hct
    exact g.inj hct

/-- The calls of `gcm.Seal`. -/
abbrev Log := List (SealCall GoString Nonce GoString GoString)

/-- `newGCM`: the key has the right size. -/
def newGCM (key : GoString) : Except GoString Unit :=
  if key.length ≠ keySize then
    .error (ascii "key must be " ++ formatUint keySize
      ++ ascii " bytes, got " ++ formatUint key.length)
  else .ok ()

def sealAAD (g : Gcm) (key plaintext aad : GoString) (nonce : Draw Nonce)
    (log : Log) : Except GoString GoString × Log :=
  match newGCM key with
  | .error err => (.error err, log)
  | .ok () =>
      match nonce with
      | .error err => (.error (ascii "generate nonce: " ++ err), log)
      | .ok nonce =>
          (.ok (g.cipher.encrypt key nonce plaintext aad),
            log ++ [⟨key, nonce, plaintext, aad⟩])

def openAAD (g : Gcm) (key ciphertext aad : GoString) (log : Log) :
    Except GoString GoString :=
  match newGCM key with
  | .error err => .error err
  | .ok () =>
      if ciphertext.length < nonceSize then
        .error (ascii "ciphertext too short")
      else
        match g.cipher.opens log key ciphertext aad with
        | none => .error
            (ascii "decrypt: cipher: message authentication failed")
        | some plaintext => .ok plaintext

-- ==== providers

structure LocalKeyProvider where
  masterKey : GoString

/-- `Wrap`: `Seal` is `SealAAD` without additional data. -/
def LocalKeyProvider.wrap (kp : LocalKeyProvider) (g : Gcm)
    (dek : GoString) (nonce : Draw Nonce) (log : Log) :
    Except GoString GoString × Log :=
  sealAAD g kp.masterKey dek [] nonce log

def LocalKeyProvider.unwrap (kp : LocalKeyProvider) (g : Gcm)
    (wrappedDEK : GoString) (log : Log) : Except GoString GoString :=
  openAAD g kp.masterKey wrappedDEK [] log

-- ==== envelopes

/-- What is drawn in a call of `EncryptEnvelopeAAD`, as far as it gets. -/
structure Draws where
  dek : Draw Key
  valueNonce : Draw Nonce
  wrapNonce : Draw Nonce

/-- The encrypted value and the wrapped key. -/
def encryptEnvelopeAAD (g : Gcm) (kp : LocalKeyProvider)
    (plaintext aad : GoString) (draws : Draws) (log : Log) :
    Except GoString (GoString × GoString) × Log :=
  match draws.dek with
  | .error err => (.error (ascii "generate dek: " ++ err), log)
  | .ok dek =>
      match sealAAD g dek.val plaintext aad draws.valueNonce log with
      | (.error err, log) => (.error (ascii "seal value: " ++ err), log)
      | (.ok encryptedValue, log) =>
          match kp.wrap g dek.val draws.wrapNonce log with
          | (.error err, log) => (.error (ascii "wrap dek: " ++ err), log)
          | (.ok wrappedDEK, log) => (.ok (encryptedValue, wrappedDEK), log)

def decryptEnvelopeAAD (g : Gcm) (kp : LocalKeyProvider)
    (wrappedDEK encryptedValue aad : GoString) (log : Log) :
    Except GoString GoString :=
  match kp.unwrap g wrappedDEK log with
  | .error err => .error (ascii "unwrap dek: " ++ err)
  | .ok dek =>
      match openAAD g dek encryptedValue aad log with
      | .error err => .error (ascii "decrypt value: " ++ err)
      | .ok plaintext => .ok plaintext

def rewrap (g : Gcm) (oldKP newKP : LocalKeyProvider)
    (wrappedDEK : GoString) (nonce : Draw Nonce) (log : Log) :
    Except GoString GoString × Log :=
  match oldKP.unwrap g wrappedDEK log with
  | .error err => (.error (ascii "unwrap dek: " ++ err), log)
  | .ok dek =>
      match newKP.wrap g dek nonce log with
      | (.error err, log) => (.error (ascii "rewrap dek: " ++ err), log)
      | (.ok rewrapped, log) => (.ok rewrapped, log)

-- ==== histories

variable {ι : Type}

/-- A call, with what is drawn in it. -/
inductive Call (ι : Type) where
  | encrypt (provider : ι) (plaintext aad : GoString) (draws : Draws)
  | rewrap (old new : ι) (wrappedDEK : GoString) (nonce : Draw Nonce)

/-- A call of `EncryptEnvelopeAAD` that returned, with the key that it
drew. -/
structure Encryption (ι : Type) where
  provider : ι
  plaintext : GoString
  aad : GoString
  dek : Key
  encryptedValue : GoString
  wrappedDEK : GoString

/-- A call that returned without an error. -/
inductive Returned (ι : Type) where
  | encrypted (e : Encryption ι)
  | rewrapped (old new : ι) (wrappedDEK result : GoString)

structure History (ι : Type) where
  log : Log
  drawn : List Key
  returned : List (Returned ι)

def History.init : History ι := ⟨[], [], []⟩

/-- The data key that a call draws, if any. -/
def Call.draws : Call ι → List Key
  | .encrypt _ _ _ draws => draws.dek.toOption.toList
  | .rewrap _ _ _ _ => []

/-- One more call, for providers with these master keys. -/
def History.step (g : Gcm) (masterKey : ι → GoString) (h : History ι)
    (c : Call ι) : History ι :=
  match c with
  | .encrypt p plaintext aad draws =>
      let (result, log) :=
        encryptEnvelopeAAD g ⟨masterKey p⟩ plaintext aad draws h.log
      { log := log
        drawn := h.drawn ++ c.draws
        returned :=
          match draws.dek, result with
          | .ok dek, .ok (value, wrapped) => h.returned
              ++ [.encrypted ⟨p, plaintext, aad, dek, value, wrapped⟩]
          | _, _ => h.returned }
  | .rewrap old new wrapped nonce =>
      let (result, log) :=
        rewrap g ⟨masterKey old⟩ ⟨masterKey new⟩ wrapped nonce h.log
      { log := log
        drawn := h.drawn
        returned :=
          match result with
          | .ok r => h.returned ++ [.rewrapped old new wrapped r]
          | .error _ => h.returned }

def history (g : Gcm) (masterKey : ι → GoString) (calls : List (Call ι)) :
    History ι :=
  calls.foldl (History.step g masterKey) .init

/-- `w` is the wrapped key of the envelope, or was made of it by `Rewrap`s,
and `p` wrapped it last. -/
inductive WrappedBy (returned : List (Returned ι)) (e : Encryption ι) :
    ι → GoString → Prop where
  | made : WrappedBy returned e e.provider e.wrappedDEK
  | rewrapped {p q : ι} {w w' : GoString} (h : WrappedBy returned e p w)
      (hcall : .rewrapped p q w w' ∈ returned) : WrappedBy returned e q w'

end Tokyo3Base.Crypto.Envelope
