/-
An envelope opens with its own parts only, and after every rotation: over
any history of `EncryptEnvelopeAAD` and `Rewrap`, `DecryptEnvelopeAAD`
succeeds exactly for the value of one call together with a key wrapped from
that call's.

# The log, accounted for

Both layers write to one log. Every entry is one of two things
(`HistoryInv.accounted`): a value sealed under a data key that was drawn
for it, or the data key of a returned envelope wrapped under a master key.
Data keys are distinct from master keys, so which of the two an entry is
can be told from its key alone, and data keys are distinct from each other,
so an entry under one of them is the value of its own envelope. Both hold
for arbitrary inputs to `Rewrap`: what it unwraps is in the log, so it is
the data key of an envelope.

The other direction is that nothing is lost: what was returned opens
(`value_opens`, `wrapped_opens`), and along a chain of `Rewrap`s each step
unwraps what the one before it wrapped.
-/
import Tokyo3Base.Crypto.Envelope

namespace Tokyo3Base.Crypto.Envelope

open Go Lib

variable {ι : Type} {g : Gcm} {masterKey : ι → GoString}

-- ==== assumptions

/-- Master keys have the size of AES-256 keys, and are distinct. -/
structure MasterKeys (masterKey : ι → GoString) : Prop where
  size : ∀ p, (masterKey p).length = keySize
  distinct : ∀ {p q}, masterKey p = masterKey q → p = q

/-- Data keys are distinct from each other and from the master keys. -/
structure Fresh (masterKey : ι → GoString) (drawn : List Key) : Prop where
  nodup : drawn.Nodup
  apart : ∀ d ∈ drawn, ∀ p, d.val ≠ masterKey p

theorem Fresh.front {drawn more : List Key}
    (h : Fresh masterKey (drawn ++ more)) : Fresh masterKey drawn :=
  ⟨(List.nodup_append.mp h.nodup).1,
    fun d hd => h.apart d (List.mem_append_left _ hd)⟩

/-- The key of a new draw is none of the earlier ones. -/
theorem Fresh.new {drawn : List Key} {d : Key}
    (h : Fresh masterKey (drawn ++ [d])) : d ∉ drawn := fun hd =>
  (List.nodup_append.mp h.nodup).2.2 d hd d (List.mem_singleton.mpr rfl) rfl

-- ==== the cipher

theorem newGCM_ok {key : GoString} (h : key.length = keySize) :
    newGCM key = .ok () := by
  unfold newGCM
  rw [if_neg (not_not_intro h)]

/-- A ciphertext that opens is long enough. -/
theorem nonceSize_le_of_opens {log : Log} {key x aad p : GoString}
    (h : g.cipher.opens log key x aad = some p) : nonceSize ≤ x.length := by
  obtain ⟨n, -, rfl⟩ := Cipher.opens_eq_some.mp h
  show nonceSize ≤ (n.val ++ _).length
  rw [List.length_append, n.property]
  exact Nat.le_add_right _ _

/-- `OpenAAD` succeeds exactly on what was sealed. -/
theorem openAAD_eq_ok_iff {log : Log} {key x aad p : GoString}
    (hkey : key.length = keySize) :
    openAAD g key x aad log = .ok p
      ↔ g.cipher.opens log key x aad = some p := by
  unfold openAAD
  rw [newGCM_ok hkey]
  dsimp only
  constructor
  · intro h
    split at h
    · cases h
    · split at h
      · cases h
      · rename_i hopens
        rw [hopens, Except.ok.inj h]
  · intro h
    rw [if_neg (Nat.not_lt.mpr (nonceSize_le_of_opens h)), h]

/-- What a call of `SealAAD` returns opens afterwards. -/
theorem opens_sealed (log : Log) (key p aad : GoString) (n : Nonce)
    (more : Log) :
    g.cipher.opens (log ++ [⟨key, n, p, aad⟩] ++ more) key
      (g.cipher.encrypt key n p aad) aad = some p :=
  Cipher.opens_append (Cipher.opens_eq_some.mpr
    ⟨n, List.mem_append_right _ (List.mem_singleton.mpr rfl), rfl⟩) more

/-- The two outcomes of `SealAAD` under a key of the right size. -/
theorem sealAAD_cases (key p aad : GoString) (nonce : Draw Nonce)
    (log : Log) (hkey : key.length = keySize) :
    (∃ err, sealAAD g key p aad nonce log = (.error err, log))
      ∨ ∃ n, nonce = .ok n ∧ sealAAD g key p aad nonce log
        = (.ok (g.cipher.encrypt key n p aad), log ++ [⟨key, n, p, aad⟩]) := by
  unfold sealAAD
  rw [newGCM_ok hkey]
  cases nonce with
  | error err => exact .inl ⟨_, rfl⟩
  | ok n => exact .inr ⟨n, rfl, rfl⟩

-- ==== one call

variable {h : History ι}

/-- The entry of the log that seals the value of an envelope. -/
abbrev valueCall (dek : Key) (n : Nonce) (plaintext aad : GoString) :
    SealCall GoString Nonce GoString GoString :=
  ⟨dek.val, n, plaintext, aad⟩

/-- The entry that wraps a data key. -/
abbrev wrapCall (masterKey : ι → GoString) (p : ι) (n : Nonce)
    (dek : GoString) : SealCall GoString Nonce GoString GoString :=
  ⟨masterKey p, n, dek, []⟩

/-- What a call of `EncryptEnvelopeAAD` does: it fails before it draws a
key, before or after the value is sealed, or it returns. -/
theorem step_encrypt_cases (hkeys : MasterKeys masterKey) (h : History ι)
    (p : ι) (plaintext aad : GoString) (draws : Draws) :
    h.step g masterKey (.encrypt p plaintext aad draws) = h
      ∨ ∃ dek, draws.dek = .ok dek
        ∧ (h.step g masterKey (.encrypt p plaintext aad draws)
            = ⟨h.log, h.drawn ++ [dek], h.returned⟩
          ∨ ∃ n, let v := valueCall dek n plaintext aad
            h.step g masterKey (.encrypt p plaintext aad draws)
              = ⟨h.log ++ [v], h.drawn ++ [dek], h.returned⟩
            ∨ ∃ n', let w := wrapCall masterKey p n' dek.val
              h.step g masterKey (.encrypt p plaintext aad draws)
                = ⟨h.log ++ [v] ++ [w], h.drawn ++ [dek], h.returned
                    ++ [.encrypted ⟨p, plaintext, aad, dek,
                      g.cipher.output v, g.cipher.output w⟩]⟩) := by
  unfold History.step encryptEnvelopeAAD
  cases hdek : draws.dek with
  | error err =>
      left
      simp [Call.draws, hdek, Except.toOption]
  | ok dek =>
      refine .inr ⟨dek, rfl, ?_⟩
      have hdrawn : (Call.encrypt p plaintext aad draws).draws = [dek] := by
        simp [Call.draws, hdek, Except.toOption]
      rcases sealAAD_cases (g := g) dek.val plaintext aad draws.valueNonce
        h.log dek.property with ⟨err, hvalue⟩ | ⟨n, -, hvalue⟩
      · left
        simp only [hdek, hvalue, hdrawn]
      · right
        refine ⟨n, ?_⟩
        rcases sealAAD_cases (g := g) (masterKey p) dek.val []
          draws.wrapNonce (h.log ++ [valueCall dek n plaintext aad])
          (hkeys.size p) with ⟨err, hwrap⟩ | ⟨n', -, hwrap⟩
        · left
          simp only [hdek, hvalue, LocalKeyProvider.wrap, hwrap, hdrawn]
        · right
          refine ⟨n', ?_⟩
          simp only [hdek, hvalue, LocalKeyProvider.wrap, hwrap, hdrawn]
          rfl

/-- What a call of `Rewrap` does: it fails, or it wraps what it
unwrapped. -/
theorem step_rewrap_cases (hkeys : MasterKeys masterKey) (h : History ι)
    (old new : ι) (w : GoString) (nonce : Draw Nonce) :
    h.step g masterKey (.rewrap old new w nonce) = h
      ∨ ∃ dek n, g.cipher.opens h.log (masterKey old) w [] = some dek
        ∧ h.step g masterKey (.rewrap old new w nonce)
          = ⟨h.log ++ [wrapCall masterKey new n dek], h.drawn, h.returned
              ++ [.rewrapped old new w
                (g.cipher.output (wrapCall masterKey new n dek))]⟩ := by
  unfold History.step rewrap
  cases hunwrap : LocalKeyProvider.unwrap ⟨masterKey old⟩ g w h.log with
  | error err =>
      left
      simp only [hunwrap]
  | ok dek =>
      have hopens := (openAAD_eq_ok_iff (hkeys.size old)).mp hunwrap
      rcases sealAAD_cases (g := g) (masterKey new) dek [] nonce h.log
        (hkeys.size new) with ⟨err, hwrap⟩ | ⟨n, -, hwrap⟩
      · left
        simp only [hunwrap, LocalKeyProvider.wrap, hwrap]
      · refine .inr ⟨dek, n, hopens, ?_⟩
        simp only [hunwrap, LocalKeyProvider.wrap, hwrap]
        rfl

-- ==== invariant

/-- An entry that seals a value: under a key that was drawn, and if an
envelope was returned for that key, the value of it. -/
structure SealsValue (g : Gcm) (h : History ι)
    (s : SealCall GoString Nonce GoString GoString) (d : Key) : Prop where
  drawn : d ∈ h.drawn
  key : s.key = d.val
  own : ∀ e, .encrypted e ∈ h.returned → e.dek = d →
    e.plaintext = s.plaintext ∧ e.aad = s.aad
      ∧ e.encryptedValue = g.cipher.output s

/-- An entry that wraps the data key of an envelope. -/
structure WrapsKey (g : Gcm) (masterKey : ι → GoString) (h : History ι)
    (s : SealCall GoString Nonce GoString GoString) (p : ι)
    (e : Encryption ι) : Prop where
  returned : .encrypted e ∈ h.returned
  key : s.key = masterKey p
  dek : s.plaintext = e.dek.val
  wrapped : WrappedBy h.returned e p (g.cipher.output s)

structure HistoryInv (g : Gcm) (masterKey : ι → GoString)
    (h : History ι) : Prop where
  accounted : ∀ s ∈ h.log,
    (∃ d, SealsValue g h s d) ∨ ∃ p e, WrapsKey g masterKey h s p e
  dek_drawn : ∀ e, .encrypted e ∈ h.returned → e.dek ∈ h.drawn
  value_opens : ∀ e, .encrypted e ∈ h.returned →
    g.cipher.opens h.log e.dek.val e.encryptedValue e.aad = some e.plaintext
  wrapped_opens : ∀ e, .encrypted e ∈ h.returned →
    g.cipher.opens h.log (masterKey e.provider) e.wrappedDEK []
      = some e.dek.val
  rewrapped_opens : ∀ p q w w', .rewrapped p q w w' ∈ h.returned →
    ∃ dek, g.cipher.opens h.log (masterKey p) w [] = some dek
      ∧ g.cipher.opens h.log (masterKey q) w' [] = some dek

theorem historyInv_init :
    HistoryInv g masterKey (History.init : History ι) := by
  constructor <;> simp [History.init]

theorem WrappedBy.append {returned : List (Returned ι)} {e : Encryption ι}
    {p : ι} {w : GoString} (hw : WrappedBy returned e p w)
    (more : List (Returned ι)) : WrappedBy (returned ++ more) e p w := by
  induction hw with
  | made => exact .made
  | rewrapped _ hcall ih =>
      exact .rewrapped ih (List.mem_append_left _ hcall)

theorem WrapsKey.grow {s : SealCall GoString Nonce GoString GoString}
    {p : ι} {e : Encryption ι} (hs : WrapsKey g masterKey h s p e)
    (log : Log) (drawn : List Key) (more : List (Returned ι)) :
    WrapsKey g masterKey ⟨log, drawn, h.returned ++ more⟩ s p e :=
  ⟨List.mem_append_left _ hs.returned, hs.key, hs.dek,
    hs.wrapped.append more⟩

/-- An entry under a master key wraps a key. -/
theorem HistoryInv.wrapsKey (hinv : HistoryInv g masterKey h)
    (hkeys : MasterKeys masterKey) (hfresh : Fresh masterKey h.drawn)
    {w dek : GoString} {p : ι}
    (hopens : g.cipher.opens h.log (masterKey p) w [] = some dek) :
    ∃ e, .encrypted e ∈ h.returned ∧ dek = e.dek.val
      ∧ WrappedBy h.returned e p w := by
  obtain ⟨n, hmem, rfl⟩ := Cipher.opens_eq_some.mp hopens
  rcases hinv.accounted _ hmem with ⟨d, hvalue⟩ | ⟨q, e, hwrap⟩
  · exact absurd hvalue.key.symm (hfresh.apart d hvalue.drawn p)
  · obtain rfl := hkeys.distinct hwrap.key
    exact ⟨e, hwrap.returned, hwrap.dek, hwrap.wrapped⟩

/-- An entry under a data key seals the value of its envelope. -/
theorem HistoryInv.sealsValue (hinv : HistoryInv g masterKey h)
    (hfresh : Fresh masterKey h.drawn) {e : Encryption ι}
    (he : .encrypted e ∈ h.returned) {v aad plaintext : GoString}
    (hopens : g.cipher.opens h.log e.dek.val v aad = some plaintext) :
    e.plaintext = plaintext ∧ e.aad = aad ∧ e.encryptedValue = v := by
  obtain ⟨n, hmem, rfl⟩ := Cipher.opens_eq_some.mp hopens
  rcases hinv.accounted _ hmem with ⟨d, hvalue⟩ | ⟨q, e', hwrap⟩
  · exact hvalue.own e he (Subtype.ext hvalue.key)
  · exact absurd hwrap.key (hfresh.apart _ (hinv.dek_drawn e he) q)

/-- A key was drawn, and perhaps a value sealed under it, but nothing was
returned. -/
theorem HistoryInv.drawn (hinv : HistoryInv g masterKey h) {dek : Key}
    (hnew : dek ∉ h.drawn) (calls : Log)
    (hcalls : ∀ s ∈ calls, s.key = dek.val) :
    HistoryInv g masterKey
      ⟨h.log ++ calls, h.drawn ++ [dek], h.returned⟩ where
  accounted := by
    intro s hs
    rcases List.mem_append.mp hs with hs | hs
    · rcases hinv.accounted s hs with ⟨d, hvalue⟩ | ⟨p, e, hwrap⟩
      · exact .inl ⟨d, List.mem_append_left _ hvalue.drawn, hvalue.key,
          hvalue.own⟩
      · exact .inr ⟨p, e, hwrap.returned, hwrap.key, hwrap.dek,
          hwrap.wrapped⟩
    · refine .inl ⟨dek, List.mem_append_right _ (List.mem_singleton.mpr rfl),
        hcalls s hs, fun e he hdek => ?_⟩
      exact absurd (hdek ▸ hinv.dek_drawn e he) hnew
  dek_drawn e he := List.mem_append_left _ (hinv.dek_drawn e he)
  value_opens e he := Cipher.opens_append (hinv.value_opens e he) calls
  wrapped_opens e he := Cipher.opens_append (hinv.wrapped_opens e he) calls
  rewrapped_opens p q w w' hr := by
    obtain ⟨dek, hold, hnew⟩ := hinv.rewrapped_opens p q w w' hr
    exact ⟨dek, Cipher.opens_append hold calls,
      Cipher.opens_append hnew calls⟩

theorem HistoryInv.encrypted (hinv : HistoryInv g masterKey h) {dek : Key}
    (hnew : dek ∉ h.drawn) (p : ι) (plaintext aad : GoString)
    (n n' : Nonce) :
    HistoryInv g masterKey
      ⟨h.log ++ [valueCall dek n plaintext aad]
          ++ [wrapCall masterKey p n' dek.val],
        h.drawn ++ [dek], h.returned ++ [.encrypted ⟨p, plaintext, aad, dek,
          g.cipher.output (valueCall dek n plaintext aad),
          g.cipher.output (wrapCall masterKey p n' dek.val)⟩]⟩ := by
  -- `e` is the new envelope, the only one with this key
  let e : Encryption ι := ⟨p, plaintext, aad, dek,
    g.cipher.output (valueCall dek n plaintext aad),
    g.cipher.output (wrapCall masterKey p n' dek.val)⟩
  have hmem : ∀ {x}, Returned.encrypted x ∈ h.returned ++ [.encrypted e] →
      .encrypted x ∈ h.returned ∨ x = e := by
    intro x hx
    rcases List.mem_append.mp hx with hx | hx
    · exact .inl hx
    · exact .inr (Returned.encrypted.inj (List.mem_singleton.mp hx))
  have hlast : .encrypted e ∈ h.returned ++ [.encrypted e] :=
    List.mem_append_right _ (List.mem_singleton.mpr rfl)
  have hdrawn : dek ∈ h.drawn ++ [dek] :=
    List.mem_append_right _ (List.mem_singleton.mpr rfl)
  have hkeep : ∀ {key x a m}, g.cipher.opens h.log key x a = some m →
      g.cipher.opens (h.log ++ [valueCall dek n plaintext aad]
        ++ [wrapCall masterKey p n' dek.val]) key x a = some m :=
    fun hopens => Cipher.opens_append (Cipher.opens_append hopens _) _
  constructor
  case accounted =>
    intro s hs
    rcases List.mem_append.mp hs with hs | hs
    · rcases List.mem_append.mp hs with hs | hs
      · rcases hinv.accounted s hs with ⟨d, hvalue⟩ | ⟨q, x, hwrap⟩
        · refine .inl ⟨d, List.mem_append_left _ hvalue.drawn, hvalue.key,
            fun x hx hd => ?_⟩
          rcases hmem hx with hx | rfl
          · exact hvalue.own x hx hd
          · exact absurd (show dek ∈ h.drawn from
              (show dek = d from hd) ▸ hvalue.drawn) hnew
        · exact .inr ⟨q, x, hwrap.grow _ _ _⟩
      · obtain rfl := List.mem_singleton.mp hs
        refine .inl ⟨dek, hdrawn, rfl, fun x hx hd => ?_⟩
        rcases hmem hx with hx | rfl
        · exact absurd (hd ▸ hinv.dek_drawn x hx) hnew
        · exact ⟨rfl, rfl, rfl⟩
    · obtain rfl := List.mem_singleton.mp hs
      exact .inr ⟨p, e, hlast, rfl, rfl, .made⟩
  case dek_drawn =>
    intro x hx
    rcases hmem hx with hx | rfl
    · exact List.mem_append_left _ (hinv.dek_drawn x hx)
    · exact hdrawn
  case value_opens =>
    intro x hx
    rcases hmem hx with hx | rfl
    · exact hkeep (hinv.value_opens x hx)
    · exact opens_sealed h.log dek.val plaintext aad n _
  case wrapped_opens =>
    intro x hx
    rcases hmem hx with hx | rfl
    · exact hkeep (hinv.wrapped_opens x hx)
    · have hopens := opens_sealed (g := g)
        (h.log ++ [valueCall dek n plaintext aad]) (masterKey p) dek.val []
        n' []
      rwa [List.append_nil] at hopens
  case rewrapped_opens =>
    intro q r w w' hr
    rcases List.mem_append.mp hr with hr | hr
    · obtain ⟨d, hold, hrew⟩ := hinv.rewrapped_opens q r w w' hr
      exact ⟨d, hkeep hold, hkeep hrew⟩
    · cases List.mem_singleton.mp hr

theorem HistoryInv.rewrapped (hinv : HistoryInv g masterKey h)
    (hkeys : MasterKeys masterKey) (hfresh : Fresh masterKey h.drawn)
    {old : ι} {w dek : GoString}
    (hopens : g.cipher.opens h.log (masterKey old) w [] = some dek)
    (new : ι) (n : Nonce) :
    HistoryInv g masterKey
      ⟨h.log ++ [wrapCall masterKey new n dek], h.drawn,
        h.returned ++ [.rewrapped old new w
          (g.cipher.output (wrapCall masterKey new n dek))]⟩ := by
  have hmem : ∀ {x}, Returned.encrypted x ∈ h.returned
      ++ [.rewrapped old new w
        (g.cipher.output (wrapCall masterKey new n dek))] →
      .encrypted x ∈ h.returned := by
    intro x hx
    rcases List.mem_append.mp hx with hx | hx
    · exact hx
    · cases List.mem_singleton.mp hx
  constructor
  case accounted =>
    intro s hs
    rcases List.mem_append.mp hs with hs | hs
    · rcases hinv.accounted s hs with ⟨d, hvalue⟩ | ⟨q, x, hwrap⟩
      · exact .inl ⟨d, hvalue.drawn, hvalue.key,
          fun x hx => hvalue.own x (hmem hx)⟩
      · exact .inr ⟨q, x, hwrap.grow _ _ _⟩
    · -- what was unwrapped is in the log, so it is a data key
      obtain rfl := List.mem_singleton.mp hs
      obtain ⟨e, he, hdek, hwrapped⟩ := hinv.wrapsKey hkeys hfresh hopens
      exact .inr ⟨new, e, List.mem_append_left _ he, rfl, hdek,
        .rewrapped (hwrapped.append _)
          (List.mem_append_right _ (List.mem_singleton.mpr rfl))⟩
  case dek_drawn => exact fun x hx => hinv.dek_drawn x (hmem hx)
  case value_opens =>
    exact fun x hx => Cipher.opens_append (hinv.value_opens x (hmem hx)) _
  case wrapped_opens =>
    exact fun x hx => Cipher.opens_append (hinv.wrapped_opens x (hmem hx)) _
  case rewrapped_opens =>
    intro q r x x' hr
    rcases List.mem_append.mp hr with hr | hr
    · obtain ⟨d, hold, hrew⟩ := hinv.rewrapped_opens q r x x' hr
      exact ⟨d, Cipher.opens_append hold _, Cipher.opens_append hrew _⟩
    · cases List.mem_singleton.mp hr
      have hsealed := opens_sealed (g := g) h.log (masterKey new) dek [] n []
      rw [List.append_nil] at hsealed
      exact ⟨dek, Cipher.opens_append hopens _, hsealed⟩

-- ==== histories

theorem step_drawn (c : Call ι) :
    (h.step g masterKey c).drawn = h.drawn ++ c.draws := by
  cases c with
  | encrypt p plaintext aad draws => rfl
  | rewrap old new w nonce => exact (List.append_nil _).symm

theorem foldl_drawn (g : Gcm) (masterKey : ι → GoString)
    (calls : List (Call ι)) (h : History ι) :
    ∃ more, (calls.foldl (History.step g masterKey) h).drawn
      = h.drawn ++ more := by
  induction calls generalizing h with
  | nil => exact ⟨[], (List.append_nil _).symm⟩
  | cons c calls ih =>
      obtain ⟨more, hmore⟩ := ih (h.step g masterKey c)
      refine ⟨c.draws ++ more, ?_⟩
      rw [List.foldl_cons, hmore, step_drawn, List.append_assoc]

theorem HistoryInv.step (hkeys : MasterKeys masterKey)
    (hinv : HistoryInv g masterKey h) (c : Call ι)
    (hfresh : Fresh masterKey (h.step g masterKey c).drawn) :
    HistoryInv g masterKey (h.step g masterKey c) := by
  cases c with
  | encrypt p plaintext aad draws =>
      rcases step_encrypt_cases (g := g) hkeys h p plaintext aad draws with
        hstep | ⟨dek, -, hstep | ⟨n, hstep | ⟨n', hstep⟩⟩⟩
      · rwa [hstep]
      · rw [hstep] at hfresh ⊢
        have hdrawn := hinv.drawn hfresh.new [] nofun
        rwa [List.append_nil] at hdrawn
      · rw [hstep] at hfresh ⊢
        refine hinv.drawn hfresh.new _ fun s hs => ?_
        rw [List.mem_singleton.mp hs]
      · rw [hstep] at hfresh ⊢
        exact hinv.encrypted hfresh.new p plaintext aad n n'
  | rewrap old new w nonce =>
      rcases step_rewrap_cases (g := g) hkeys h old new w nonce with
        hstep | ⟨dek, n, hopens, hstep⟩
      · rwa [hstep]
      · rw [hstep] at hfresh ⊢
        exact hinv.rewrapped hkeys hfresh hopens new n

/-- So do all calls of a history, by induction on them; that keys are
fresh at the end says that they were at every point. -/
theorem historyInv_foldl (hkeys : MasterKeys masterKey)
    (calls : List (Call ι)) (h : History ι)
    (hinv : HistoryInv g masterKey h)
    (hfresh : Fresh masterKey
      (calls.foldl (History.step g masterKey) h).drawn) :
    HistoryInv g masterKey (calls.foldl (History.step g masterKey) h) := by
  induction calls generalizing h with
  | nil => exact hinv
  | cons c calls ih =>
      refine ih _ (hinv.step hkeys c ?_) hfresh
      obtain ⟨more, hmore⟩ :=
        foldl_drawn g masterKey calls (h.step g masterKey c)
      rw [List.foldl_cons, hmore] at hfresh
      exact hfresh.front

/-- Along a chain of `Rewrap`s the data key stays the same. -/
theorem HistoryInv.opens_wrapped (hinv : HistoryInv g masterKey h)
    {e : Encryption ι} (he : .encrypted e ∈ h.returned) {p : ι}
    {w : GoString} (hw : WrappedBy h.returned e p w) :
    g.cipher.opens h.log (masterKey p) w [] = some e.dek.val := by
  induction hw with
  | made => exact hinv.wrapped_opens e he
  | rewrapped _ hcall ih =>
      obtain ⟨dek, hold, hnew⟩ := hinv.rewrapped_opens _ _ _ _ hcall
      rw [hold] at ih
      rw [hnew, ih]

/-- `DecryptEnvelopeAAD` opens both layers. -/
theorem decryptEnvelopeAAD_eq_ok_iff (hkeys : MasterKeys masterKey)
    {log : Log} {p : ι} {w v aad plaintext : GoString}
    (hsize : ∀ dek, g.cipher.opens log (masterKey p) w [] = some dek →
      dek.length = keySize) :
    decryptEnvelopeAAD g ⟨masterKey p⟩ w v aad log = .ok plaintext
      ↔ ∃ dek, g.cipher.opens log (masterKey p) w [] = some dek
        ∧ g.cipher.opens log dek v aad = some plaintext := by
  unfold decryptEnvelopeAAD
  constructor
  · intro hok
    split at hok
    · cases hok
    · rename_i dek hunwrap
      have hopens := (openAAD_eq_ok_iff (hkeys.size p)).mp hunwrap
      split at hok
      · cases hok
      · rename_i value hvalue
        cases hok
        exact ⟨dek, hopens,
          (openAAD_eq_ok_iff (hsize dek hopens)).mp hvalue⟩
  · rintro ⟨dek, hopens, hvalue⟩
    have hunwrap : LocalKeyProvider.unwrap ⟨masterKey p⟩ g w log = .ok dek :=
      (openAAD_eq_ok_iff (hkeys.size p)).mpr hopens
    rw [hunwrap]
    dsimp only
    rw [(openAAD_eq_ok_iff (hsize dek hopens)).mpr hvalue]

/-- After any history, a value and a wrapped key decrypt under a provider
and with additional data exactly if they belong to one envelope, the value
as it was returned for that data and the key wrapped last by that
provider. The plaintext is that of the envelope. -/
theorem decryptEnvelopeAAD_iff_envelope (g : Gcm)
    (masterKey : ι → GoString) (hkeys : MasterKeys masterKey)
    (calls : List (Call ι))
    (hfresh : Fresh masterKey (history g masterKey calls).drawn) (p : ι)
    (w v a plaintext : GoString) :
    let h := history g masterKey calls
    decryptEnvelopeAAD g ⟨masterKey p⟩ w v a h.log = .ok plaintext
      ↔ ∃ e, .encrypted e ∈ h.returned ∧ e.encryptedValue = v ∧ e.aad = a
        ∧ WrappedBy h.returned e p w ∧ e.plaintext = plaintext := by
  intro h
  have hinv : HistoryInv g masterKey h :=
    historyInv_foldl hkeys calls .init historyInv_init hfresh
  have hsize : ∀ dek, g.cipher.opens h.log (masterKey p) w [] = some dek →
      dek.length = keySize := by
    intro dek hopens
    obtain ⟨e, -, rfl, -⟩ := hinv.wrapsKey hkeys hfresh hopens
    exact e.dek.property
  rw [decryptEnvelopeAAD_eq_ok_iff hkeys hsize]
  constructor
  · rintro ⟨dek, hopens, hvalue⟩
    obtain ⟨e, he, rfl, hwrapped⟩ := hinv.wrapsKey hkeys hfresh hopens
    obtain ⟨hplain, haad, hv⟩ := hinv.sealsValue hfresh he hvalue
    exact ⟨e, he, hv, haad, hwrapped, hplain⟩
  · rintro ⟨e, he, rfl, rfl, hwrapped, rfl⟩
    exact ⟨e.dek.val, hinv.opens_wrapped he hwrapped, hinv.value_opens e he⟩

-- ==== a sample

/-- A cipher that hides nothing. -/
def plainGcm : Gcm where
  gcmSeal _ _ plaintext _ := plaintext
  inj h := h

/-- Two providers, of a first and of a second master key. -/
def sampleKeys (second : Bool) : GoString :=
  List.replicate keySize (if second then 2 else 1)

def sampleDEK : Key := ⟨List.replicate keySize 7, by decide⟩

def sampleNonce : Nonce := ⟨List.replicate nonceSize 0, by decide⟩

/-- A value is encrypted under the first master key, and rotated to the
second. -/
def rotation : List (Call Bool) :=
  [.encrypt false (ascii "value") (ascii "row")
      ⟨.ok sampleDEK, .ok sampleNonce, .ok sampleNonce⟩,
    .rewrap false true (sampleNonce.val ++ sampleDEK.val) (.ok sampleNonce)]

theorem decryptEnvelopeAAD_iff_envelope_rotated :
    decryptEnvelopeAAD plainGcm ⟨sampleKeys true⟩
        (sampleNonce.val ++ sampleDEK.val) (sampleNonce.val ++ ascii "value")
        (ascii "row") (history plainGcm sampleKeys rotation).log
      = .ok (ascii "value") := by
  have hkeys : MasterKeys sampleKeys := ⟨by decide, fun {p q} => by
    revert p q
    decide⟩
  have hfresh : Fresh sampleKeys (history plainGcm sampleKeys rotation).drawn :=
    ⟨by decide, by decide⟩
  refine (decryptEnvelopeAAD_iff_envelope plainGcm sampleKeys hkeys rotation
    hfresh true _ _ _ _).mpr ⟨⟨false, ascii "value", ascii "row", sampleDEK,
      sampleNonce.val ++ ascii "value", sampleNonce.val ++ sampleDEK.val⟩,
      .head _, rfl, rfl, .rewrapped .made (.tail _ (.head _)), rfl⟩

end Tokyo3Base.Crypto.Envelope
