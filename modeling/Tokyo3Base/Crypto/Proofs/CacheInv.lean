/-
The invariant of the key cache: what every cached entry, every flight
and every call knows about the providers it holds.

# Two questions, one invariant

Where does a provider come from, and how old is it? For the first, the
digest of the bytes it was unwrapped from travels with it: the entry's,
the flight's and the call's digest all equal it (`ProviderOk`). For the
second, the unwrap began after the invalidations that matter
(`Later`): for an entry, all of its key id; for a flight, those up to
the generation it was started under; for a call, those before the call
began. The generation is the bridge. A call that begins after an
invalidation reads a generation at or above it (`Reads`), equal flight
keys have equal generations (`flightKey_inj`), and a flight stores only
if its generation is still the newest.

The generation is a 64-bit counter. What rests on it is known only while
it has not wrapped (`History.Exact`); where a provider comes from does
not rest on it.

# Shape

Everything known about a flight or a call is stable when the history
grows (`History.Le`): new invalidations come later than the events and
above the generations already recorded. Only entries are not, and
`Invalidate` removes exactly the ones it would break.
-/
import Tokyo3Base.Crypto.KeyProviderCache

namespace Tokyo3Base.Crypto

open Go

variable {ρ : Type} {sha256 : GoString → KeyDigest} {ttl : Int}

-- ==== flight keys

/-- The fixed-width suffix makes the flight key unambiguous, whatever
bytes the key id contains. -/
theorem flightKey_inj {k k' : GoString} {g g' : UInt64}
    {d d' : KeyDigest} (h : flightKey k g d = flightKey k' g' d') :
    k = k' ∧ g = g' ∧ d = d' := by
  obtain ⟨hpre, hd⟩ :=
    List.append_inj' h (d.property.trans d'.property.symm)
  obtain ⟨hk, hg⟩ := appendUint64_inj hpre
  exact ⟨List.append_cancel_right hk, hg, Subtype.ext hd⟩

-- ==== what is known

/-- The generation counter has not wrapped. -/
def History.Exact (h : History) : Prop := h.invalidations.length < UInt64.size

/-- A provider of a key whose wrapped form has this digest: it was
unwrapped by the root, from bytes that some call asked for. -/
structure ProviderOk (sha256 : GoString → KeyDigest) (h : History)
    (digest : KeyDigest) (p : LocalKeyProvider) : Prop where
  digest : sha256 p.origin.wrapped = digest
  asked : p.origin.wrapped ∈ h.asked
  unwrapped : ⟨p.origin, p.masterKey⟩ ∈ h.unwraps

/-- The unwrap began after each invalidation of the key id up to
generation `bound`. -/
def Later (h : History) (keyID : GoString) (bound : Nat) (o : Origin) :
    Prop :=
  h.Exact → ∀ r ∈ h.invalidations, r.keyID = keyID → r.after ≤ bound →
    r.time < o.beganAt

/-- A cache hit happens before the entry's end of life. -/
def Via.Ok (ttl : Int) : Via → Prop
  | .unwrap => True
  | .cache storedAt lookedUpAt => lookedUpAt < storedAt + ttl

/-- A cached entry is newer than every invalidation of its key id. -/
structure EntryOk (sha256 : GoString → KeyDigest) (ttl : Int)
    (h : History) (keyID : GoString) (e : CacheEntry) : Prop where
  provider : ProviderOk sha256 h e.wrappedDigest e.provider
  later : h.Exact → ∀ r ∈ h.invalidations, r.keyID = keyID →
    r.time < e.provider.origin.beganAt
  expiresAt : e.expiresAt = e.storedAt + ttl

/-- What a flight may hand to those who wait for it. -/
structure FlightServes (sha256 : GoString → KeyDigest) (ttl : Int)
    (h : History) (t : Task) (s : Served) : Prop where
  provider : ProviderOk sha256 h t.digest s.provider
  later : Later h t.keyID t.gen.toNat s.provider.origin
  via : s.via.Ok ttl

/-- What a flight knows in each phase. -/
def FlightPhaseOk (sha256 : GoString → KeyDigest) (ttl : Int)
    (h : History) (t : Task) : FlightPhase ρ → Prop
  | .recheck => True
  | .begin => True
  | .running origin =>
      origin.wrapped = t.wrapped ∧ Later h t.keyID t.gen.toNat origin
  | .stamp p => FlightServes sha256 ttl h t ⟨p, .unwrap⟩
  | .store p _ => FlightServes sha256 ttl h t ⟨p, .unwrap⟩
  | .done result => ∀ s, result = .ok s → FlightServes sha256 ttl h t s
  | .landed result => ∀ s, result = .ok s → FlightServes sha256 ttl h t s

/-- What the shared function closes over is one call's question. -/
structure TaskOk (sha256 : GoString → KeyDigest) (h : History)
    (t : Task) : Prop where
  gen : h.Exact → t.gen.toNat ≤ h.invalidations.length
  digest : sha256 t.wrapped = t.digest
  asked : t.wrapped ∈ h.asked

structure FlightOk (sha256 : GoString → KeyDigest) (ttl : Int)
    (h : History) (f : Flight ρ) : Prop where
  task : TaskOk sha256 h f.task
  phase : FlightPhaseOk sha256 ttl h f.task f.phase

/-- What every started call knows. -/
structure AskOk (sha256 : GoString → KeyDigest) (h : History) (a : Ask) :
    Prop where
  digest : a.digest = sha256 a.wrapped
  asked : a.wrapped ∈ h.asked
  began : a.beganAt ≤ h.events

/-- A generation read by the call: not below any invalidation that
happened before the call began. -/
def Reads (h : History) (a : Ask) (gen : UInt64) : Prop :=
  h.Exact → ∀ r ∈ h.invalidations, r.time < a.beganAt → r.after ≤ gen.toNat

/-- What a call may return. -/
structure AskServed (sha256 : GoString → KeyDigest) (ttl : Int)
    (h : History) (a : Ask) (s : Served) : Prop where
  provider : ProviderOk sha256 h a.digest s.provider
  later : h.Exact → ∀ r ∈ h.invalidations, r.keyID = a.keyID →
    r.time < a.beganAt → r.time < s.provider.origin.beganAt
  via : s.via.Ok ttl

/-- The caller leaves the buffer alone while the call runs on it. -/
structure Lent (w : World ρ) (c : Nat) (a : Ask) : Prop where
  borrowed : c ∈ w.borrowed a.buf
  heap : w.heap a.buf = a.wrapped

/-- The flight a call waits for is one for its own question. -/
structure WaitsFor (h : History) (a : Ask) (t : Task) : Prop where
  keyID : t.keyID = a.keyID
  digest : t.digest = a.digest
  reads : Reads h a t.gen

def PhaseOk (sha256 : GoString → KeyDigest) (ttl : Int) (w : World ρ)
    (c : Nat) : Phase ρ → Prop
  | .idle => True
  | .root _ => True
  | .lookup a => AskOk sha256 w.history a ∧ Lent w c a
  | .missed a => AskOk sha256 w.history a ∧ Lent w c a
  | .join a wrapped gen =>
      AskOk sha256 w.history a ∧ wrapped = a.wrapped
        ∧ Reads w.history a gen
        ∧ (w.history.Exact → gen.toNat ≤ w.history.invalidations.length)
  | .wait a i =>
      AskOk sha256 w.history a
        ∧ ∃ f, w.flights i = some f ∧ WaitsFor w.history a f.task
  | .returned a result =>
      AskOk sha256 w.history a
        ∧ ∀ s, result = .ok s → AskServed sha256 ttl w.history a s

structure CacheInv (sha256 : GoString → KeyDigest) (ttl : Int)
    (w : World ρ) : Prop where
  generation : w.history.Exact →
    w.generation.toNat = w.history.invalidations.length
  numbered : ∀ r ∈ w.history.invalidations,
    r.time < w.history.events ∧ r.after ≤ w.history.invalidations.length
  entries : ∀ k e, w.entries k = some e → EntryOk sha256 ttl w.history k e
  flown : ∀ key i, w.unwrapFlights key = some i →
    ∃ f, w.flights i = some f ∧ f.task.key = key
  flights : ∀ i f, w.flights i = some f → FlightOk sha256 ttl w.history f
  calls : ∀ c, PhaseOk sha256 ttl w c (w.calls c)

theorem CacheInv.phase {w : World ρ} (hI : CacheInv sha256 ttl w)
    {c : Nat} {p : Phase ρ} (hcall : w.calls c = p) :
    PhaseOk sha256 ttl w c p :=
  hcall ▸ hI.calls c

-- ==== growth of the history

/-- The history grows: nothing is forgotten, and a new invalidation is
later than every event and above every generation so far. -/
structure History.Le (h h' : History) : Prop where
  events : h.events ≤ h'.events
  count : h.invalidations.length ≤ h'.invalidations.length
  asked : ∀ b ∈ h.asked, b ∈ h'.asked
  unwraps : ∀ u ∈ h.unwraps, u ∈ h'.unwraps
  fresh : ∀ r ∈ h'.invalidations, r ∈ h.invalidations
    ∨ h.events ≤ r.time ∧ h.invalidations.length < r.after

section Growth

variable {h h' : History}

theorem History.Le.refl (h : History) : h.Le h :=
  ⟨Nat.le_refl _, Nat.le_refl _, fun _ hb => hb, fun _ hu => hu,
    fun _ hr => .inl hr⟩

theorem History.Le.exact (hle : h.Le h') (hx : h'.Exact) : h.Exact :=
  Nat.lt_of_le_of_lt hle.count hx

theorem ProviderOk.mono {d : KeyDigest} {p : LocalKeyProvider}
    (hle : h.Le h') (hp : ProviderOk sha256 h d p) :
    ProviderOk sha256 h' d p :=
  ⟨hp.digest, hle.asked _ hp.asked, hle.unwraps _ hp.unwrapped⟩

theorem Later.mono {k : GoString} {bound : Nat} {o : Origin}
    (hle : h.Le h') (hbound : h.Exact → bound ≤ h.invalidations.length)
    (hl : Later h k bound o) : Later h' k bound o := by
  intro hx r hr hk hafter
  rcases hle.fresh r hr with hr | ⟨-, habove⟩
  · exact hl (hle.exact hx) r hr hk hafter
  · have := hbound (hle.exact hx)
    omega

theorem FlightServes.mono {t : Task} {s : Served} (hle : h.Le h')
    (hgen : h.Exact → t.gen.toNat ≤ h.invalidations.length)
    (hs : FlightServes sha256 ttl h t s) :
    FlightServes sha256 ttl h' t s :=
  ⟨hs.provider.mono hle, hs.later.mono hle hgen, hs.via⟩

theorem TaskOk.mono {t : Task} (hle : h.Le h') (ht : TaskOk sha256 h t) :
    TaskOk sha256 h' t :=
  ⟨fun hx => Nat.le_trans (ht.gen (hle.exact hx)) hle.count, ht.digest,
    hle.asked _ ht.asked⟩

theorem FlightPhaseOk.mono {t : Task} {p : FlightPhase ρ} (hle : h.Le h')
    (hgen : h.Exact → t.gen.toNat ≤ h.invalidations.length)
    (hp : FlightPhaseOk sha256 ttl h t p) :
    FlightPhaseOk sha256 ttl h' t p := by
  cases p with
  | recheck => trivial
  | begin => trivial
  | running o => exact ⟨hp.1, hp.2.mono hle hgen⟩
  | stamp p => exact FlightServes.mono hle hgen hp
  | store p now => exact FlightServes.mono hle hgen hp
  | done result => exact fun s hs => (hp s hs).mono hle hgen
  | landed result => exact fun s hs => (hp s hs).mono hle hgen

theorem FlightOk.mono {f : Flight ρ} (hle : h.Le h')
    (hf : FlightOk sha256 ttl h f) : FlightOk sha256 ttl h' f :=
  ⟨hf.task.mono hle, hf.phase.mono hle hf.task.gen⟩

theorem AskOk.mono {a : Ask} (hle : h.Le h') (ha : AskOk sha256 h a) :
    AskOk sha256 h' a :=
  ⟨ha.digest, hle.asked _ ha.asked, Nat.le_trans ha.began hle.events⟩

theorem Reads.mono {a : Ask} {gen : UInt64} (hle : h.Le h')
    (hbegan : a.beganAt ≤ h.events) (hr : Reads h a gen) :
    Reads h' a gen := by
  intro hx r hr' htime
  rcases hle.fresh r hr' with hmem | ⟨hlate, -⟩
  · exact hr (hle.exact hx) r hmem htime
  · omega

theorem AskServed.mono {a : Ask} {s : Served} (hle : h.Le h')
    (hbegan : a.beganAt ≤ h.events) (hs : AskServed sha256 ttl h a s) :
    AskServed sha256 ttl h' a s := by
  refine ⟨hs.provider.mono hle, fun hx r hr hk htime => ?_, hs.via⟩
  rcases hle.fresh r hr with hr | ⟨hlate, -⟩
  · exact hs.later (hle.exact hx) r hr hk htime
  · omega

end Growth

/-- From `w` to `w'` the history grows and no flight disappears or
changes what it is for. -/
structure World.Le (w w' : World ρ) : Prop where
  history : w.history.Le w'.history
  flights : ∀ i f, w.flights i = some f →
    ∃ f', w'.flights i = some f' ∧ f'.task = f.task

/-- A call that does not move keeps what it knows, as long as its own
buffer stays lent and untouched. -/
theorem PhaseOk.mono {w w' : World ρ} {c : Nat} {p : Phase ρ}
    (hle : w.Le w')
    (hlent : ∀ b, c ∈ w.borrowed b →
      c ∈ w'.borrowed b ∧ w'.heap b = w.heap b)
    (hp : PhaseOk sha256 ttl w c p) : PhaseOk sha256 ttl w' c p := by
  have lent : ∀ {a : Ask}, Lent w c a → Lent w' c a := fun ha =>
    ⟨(hlent _ ha.borrowed).1, (hlent _ ha.borrowed).2.trans ha.heap⟩
  cases p with
  | idle => trivial
  | root k => trivial
  | lookup a => exact ⟨hp.1.mono hle.history, lent hp.2⟩
  | missed a => exact ⟨hp.1.mono hle.history, lent hp.2⟩
  | join a wrapped gen =>
      obtain ⟨ha, hw, hr, hg⟩ := hp
      exact ⟨ha.mono hle.history, hw, hr.mono hle.history ha.began,
        fun hx =>
          Nat.le_trans (hg (hle.history.exact hx)) hle.history.count⟩
  | wait a i =>
      obtain ⟨ha, f, hf, hwf⟩ := hp
      obtain ⟨f', hf', ht⟩ := hle.flights i f hf
      refine ⟨ha.mono hle.history, f', hf', ?_⟩
      rw [ht]
      exact ⟨hwf.keyID, hwf.digest,
        hwf.reads.mono hle.history ha.began⟩
  | returned a result =>
      exact ⟨hp.1.mono hle.history,
        fun s hs => (hp.2 s hs).mono hle.history hp.1.began⟩

/-- A growing history without new invalidations keeps the entries. -/
theorem EntryOk.mono {h h' : History} {k : GoString} {e : CacheEntry}
    (hle : h.Le h') (hsame : h'.invalidations = h.invalidations)
    (he : EntryOk sha256 ttl h k e) : EntryOk sha256 ttl h' k e :=
  ⟨he.provider.mono hle, fun hx => hsame ▸ he.later (hle.exact hx),
    he.expiresAt⟩

end Tokyo3Base.Crypto
