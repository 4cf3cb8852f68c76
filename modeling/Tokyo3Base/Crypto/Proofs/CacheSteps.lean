/-
Preservation of `CacheInv`: one lemma per kind of step, assembled in
`CacheInv.step`.

Most steps move one call or one flight and leave the rest alone, so
they go through `CacheInv.setCall`, `CacheInv.answer` and
`CacheInv.setFlight`. Three do more: a call begins (`CacheInv.begin`),
a flight stores (`CacheInv.store`) and a key is invalidated
(`CacheInv.invalidate`), where the counting of generations meets the
numbering of events.
-/
import Tokyo3Base.Lib.Run
import Tokyo3Base.Crypto.Proofs.CacheInv

namespace Tokyo3Base.Crypto

open Go

variable {ρ : Type} {sha256 : GoString → KeyDigest} {ttl : Int}
  {w w' : World ρ}

-- ==== framing

theorem World.Le.of_eq (hh : w'.history = w.history)
    (hf : w'.flights = w.flights) : w.Le w' :=
  ⟨hh ▸ History.Le.refl _, fun _ f h => ⟨f, hf ▸ h, rfl⟩⟩

/-- Every call but `c` stays where it is. -/
theorem CacheInv.calls_of (hI : CacheInv sha256 ttl w) (hle : w.Le w')
    (c : Nat) (hcalls : ∀ c', c' ≠ c → w'.calls c' = w.calls c')
    (hlent : ∀ c', c' ≠ c → ∀ b, c' ∈ w.borrowed b →
      c' ∈ w'.borrowed b ∧ w'.heap b = w.heap b)
    (hc : PhaseOk sha256 ttl w' c (w'.calls c)) :
    ∀ c', PhaseOk sha256 ttl w' c' (w'.calls c') := by
  intro c'
  by_cases hcc : c' = c
  · rw [hcc]
    exact hc
  · rw [hcalls c' hcc]
    exact (hI.calls c').mono hle (hlent c' hcc)

/-- No call moves and no buffer is touched. -/
theorem CacheInv.calls_same (hI : CacheInv sha256 ttl w) (hle : w.Le w')
    (hcalls : w'.calls = w.calls) (hborrowed : w'.borrowed = w.borrowed)
    (hheap : w'.heap = w.heap) :
    ∀ c', PhaseOk sha256 ttl w' c' (w'.calls c') := by
  intro c'
  rw [hcalls]
  refine (hI.calls c').mono hle fun b hb => ?_
  rw [hborrowed, hheap]
  exact ⟨hb, rfl⟩

/-- A flight that moves on, or starts, hides no other. -/
theorem World.le_setFlight {h' : History} {i : Nat} {t : Task}
    {p : FlightPhase ρ} (hle : w.history.Le h')
    (hi : ∀ f, w.flights i = some f → f.task = t) :
    w.Le { w.setFlight i t p with history := h' } := by
  refine ⟨hle, fun j f hf => ?_⟩
  by_cases hj : j = i
  · subst hj
    exact ⟨⟨t, p⟩, Function.update_self .., (hi f hf).symm⟩
  · exact ⟨f, by simpa [World.setFlight, Function.update_of_ne hj] using hf,
      rfl⟩

-- ==== one call moves

theorem CacheInv.setCall (hI : CacheInv sha256 ttl w) {c : Nat}
    {p : Phase ρ} (hp : PhaseOk sha256 ttl (w.setCall c p) c p) :
    CacheInv sha256 ttl (w.setCall c p) := by
  refine ⟨hI.generation, hI.numbered, hI.entries, hI.flown, hI.flights,
    hI.calls_of (.of_eq rfl rfl) c ?_ ?_ ?_⟩
  · exact fun c' hc => Function.update_of_ne hc ..
  · exact fun c' _ b hb => ⟨hb, rfl⟩
  · rw [show (w.setCall c p).calls c = p from Function.update_self ..]
    exact hp

theorem CacheInv.answer (hI : CacheInv sha256 ttl w) {c : Nat} {a : Ask}
    {result : Except (ForKeyError ρ) Served}
    (ha : AskOk sha256 w.history a)
    (hs : ∀ s, result = .ok s → AskServed sha256 ttl w.history a s) :
    CacheInv sha256 ttl (w.answer c a result) := by
  refine ⟨hI.generation, hI.numbered, hI.entries, hI.flown, hI.flights,
    hI.calls_of (.of_eq rfl rfl) c ?_ ?_ ?_⟩
  · exact fun c' hc => Function.update_of_ne hc ..
  · -- only this call's loan ends
    intro c' hc b hb
    refine ⟨?_, rfl⟩
    by_cases hbuf : b = a.buf
    · subst hbuf
      simp [World.answer, hb, hc]
    · simpa [World.answer, Function.update_of_ne hbuf] using hb
  · simp only [World.answer, Function.update_self]
    exact ⟨ha, hs⟩

/-- A hit is an entry's provider, looked up in time. -/
theorem CacheInv.lookup (hI : CacheInv sha256 ttl w) {k : GoString}
    {d : KeyDigest} {s : Served} (h : w.lookup k d = some s) :
    ProviderOk sha256 w.history d s.provider
    ∧ (w.history.Exact → ∀ r ∈ w.history.invalidations, r.keyID = k →
        r.time < s.provider.origin.beganAt)
    ∧ s.via.Ok ttl := by
  unfold World.lookup at h
  split at h
  · cases h
  · rename_i e he
    split at h
    · obtain ⟨hd, hlive⟩ := ‹_ ∧ _›
      cases h
      have hentry := hI.entries k e he
      refine ⟨hd ▸ hentry.provider, hentry.later, ?_⟩
      show w.clock < e.storedAt + ttl
      rw [← hentry.expiresAt]
      exact hlive
    · cases h

theorem CacheInv.reads (hI : CacheInv sha256 ttl w) (a : Ask) :
    Reads w.history a w.generation := by
  intro hx r hr _
  rw [hI.generation hx]
  exact (hI.numbered r hr).2

/-- What a flight serves, it may serve to a call that waits for it. -/
theorem FlightServes.toAsk {h : History} {a : Ask} {t : Task}
    {s : Served} (hw : WaitsFor h a t)
    (hs : FlightServes sha256 ttl h t s) : AskServed sha256 ttl h a s := by
  refine ⟨hw.digest ▸ hs.provider, fun hx r hr hk htime => ?_, hs.via⟩
  exact hs.later hx r hr (hk.trans hw.keyID.symm) (hw.reads hx r hr htime)

theorem CacheInv.begin (hI : CacheInv sha256 ttl w) {c : Nat}
    {keyID : GoString} {buf : Nat} :
    CacheInv sha256 ttl
      { w.setCall c (.lookup
          { keyID := keyID, buf := buf, digest := sha256 (w.heap buf),
            wrapped := w.heap buf, beganAt := w.history.events }) with
        borrowed := Function.update w.borrowed buf (c :: w.borrowed buf)
        history := { w.history with
          events := w.history.events + 1
          asked := w.heap buf :: w.history.asked } } := by
  have hle : w.history.Le { w.history with
      events := w.history.events + 1
      asked := w.heap buf :: w.history.asked } :=
    ⟨Nat.le_succ _, Nat.le_refl _, fun b hb => List.mem_cons_of_mem _ hb,
      fun u hu => hu, fun r hr => .inl hr⟩
  refine ⟨hI.generation, fun r hr => ?_,
    fun k e he => (hI.entries k e he).mono hle rfl, hI.flown,
    fun i f hf => (hI.flights i f hf).mono hle,
    hI.calls_of ⟨hle, fun i f hf => ⟨f, hf, rfl⟩⟩ c ?_ ?_ ?_⟩
  · exact ⟨Nat.lt_succ_of_lt (hI.numbered r hr).1, (hI.numbered r hr).2⟩
  · exact fun c' hc => Function.update_of_ne hc ..
  · intro c' _ b hb
    refine ⟨?_, rfl⟩
    by_cases hbuf : b = buf
    · subst hbuf
      simp [hb]
    · simpa [Function.update_of_ne hbuf] using hb
  · simp only [World.setCall, Function.update_self]
    refine ⟨⟨rfl, List.mem_cons_self, Nat.le_succ _⟩, ?_, rfl⟩
    simp

/-- The caller reuses a buffer on which no call is running. -/
theorem CacheInv.overwrite (hI : CacheInv sha256 ttl w) {buf : Nat}
    (hfree : w.borrowed buf = []) (bytes : GoString) :
    CacheInv sha256 ttl
      { w with heap := Function.update w.heap buf bytes } := by
  refine ⟨hI.generation, hI.numbered, hI.entries, hI.flown, hI.flights,
    fun c => ?_⟩
  refine PhaseOk.mono (w := w) (.of_eq rfl rfl) (fun b hb => ⟨hb, ?_⟩)
    (hI.calls c)
  have hne : b ≠ buf := by
    rintro rfl
    rw [hfree] at hb
    cases hb
  exact Function.update_of_ne hne ..

-- ==== one flight moves

/-- A flight moves to another phase, with a history that has no new
invalidation. -/
theorem CacheInv.setFlight (hI : CacheInv sha256 ttl w) {i : Nat}
    {t : Task} {q p : FlightPhase ρ} (hf : w.flights i = some ⟨t, q⟩)
    {h' : History} (hle : w.history.Le h')
    (hsame : h'.invalidations = w.history.invalidations)
    (hp : FlightPhaseOk sha256 ttl h' t p) :
    CacheInv sha256 ttl { w.setFlight i t p with history := h' } := by
  have hwle := World.le_setFlight (i := i) (t := t) (p := p) hle
    fun f h => by rw [Option.some.inj (h.symm.trans hf)]
  refine ⟨?_, fun r hr => ?_, fun k e he => ?_, fun key j hj => ?_,
    fun j f hj => ?_, hI.calls_same hwle rfl rfl rfl⟩
  · exact fun hx => (hI.generation (hle.exact hx)).trans (by rw [hsame])
  · have hr' : r ∈ w.history.invalidations := hsame ▸ hr
    obtain ⟨htime, hafter⟩ := hI.numbered r hr'
    exact ⟨Nat.lt_of_lt_of_le htime hle.events,
      Nat.le_trans hafter hle.count⟩
  · exact (hI.entries k e he).mono hle hsame
  · obtain ⟨f, hf', hkey⟩ := hI.flown key j hj
    obtain ⟨f', hf'', ht⟩ := hwle.flights j f hf'
    exact ⟨f', hf'', by rw [ht, hkey]⟩
  · by_cases hji : j = i
    · subst hji
      simp only [World.setFlight, Function.update_self] at hj
      cases hj
      exact ⟨(hI.flights j _ hf).task.mono hle, hp⟩
    · simp only [World.setFlight, Function.update_of_ne hji] at hj
      exact (hI.flights j f hj).mono hle

/-- As `CacheInv.setFlight`, with nothing new in the history. -/
theorem CacheInv.setFlight_same (hI : CacheInv sha256 ttl w) {i : Nat}
    {t : Task} {q p : FlightPhase ρ} (hf : w.flights i = some ⟨t, q⟩)
    (hp : FlightPhaseOk sha256 ttl w.history t p) :
    CacheInv sha256 ttl (w.setFlight i t p) :=
  hI.setFlight hf (History.Le.refl _) rfl hp

theorem CacheInv.startFlight (hI : CacheInv sha256 ttl w) {c i : Nat}
    {a : Ask} {t : Task} (hfree : w.flights i = none)
    (ha : AskOk sha256 w.history a) (ht : TaskOk sha256 w.history t)
    (hw : WaitsFor w.history a t) :
    CacheInv sha256 ttl
      { (w.setFlight i t .recheck).setCall c (.wait a i) with
        unwrapFlights :=
          Function.update w.unwrapFlights t.key (some i) } := by
  have hwle : w.Le (w.setFlight i t .recheck) :=
    World.le_setFlight (History.Le.refl _) fun f h => by
      cases hfree.symm.trans h
  refine ⟨hI.generation, hI.numbered, hI.entries, fun key j hj => ?_,
    fun j f hj => ?_, hI.calls_of ⟨hwle.history, hwle.flights⟩ c ?_ ?_ ?_⟩
  · by_cases hkey : key = t.key
    · subst hkey
      simp only [Function.update_self] at hj
      cases hj
      exact ⟨⟨t, .recheck⟩, Function.update_self .., rfl⟩
    · simp only [Function.update_of_ne hkey] at hj
      obtain ⟨f, hf, hfk⟩ := hI.flown key j hj
      obtain ⟨f', hf', ht'⟩ := hwle.flights j f hf
      exact ⟨f', hf', by rw [ht', hfk]⟩
  · by_cases hji : j = i
    · subst hji
      simp only [World.setCall, World.setFlight, Function.update_self]
        at hj
      cases hj
      exact ⟨ht, trivial⟩
    · simp only [World.setCall, World.setFlight,
        Function.update_of_ne hji] at hj
      exact hI.flights j f hj
  · exact fun c' hc => Function.update_of_ne hc ..
  · exact fun c' _ b hb => ⟨hb, rfl⟩
  · simp only [World.setCall, Function.update_self]
    exact ⟨ha, ⟨t, .recheck⟩, Function.update_self .., hw⟩

/-- Landing takes the flight out of singleflight's map. -/
theorem CacheInv.land (hI : CacheInv sha256 ttl w) {i : Nat} {t : Task}
    {result : Except (ForKeyError ρ) Served}
    (hf : w.flights i = some ⟨t, .done result⟩) :
    CacheInv sha256 ttl
      { w.setFlight i t (.landed result) with
        unwrapFlights :=
          if w.unwrapFlights t.key = some i then
            Function.update w.unwrapFlights t.key none
          else w.unwrapFlights } := by
  have hI' := hI.setFlight_same hf (p := .landed result)
    (hI.flights i _ hf).phase
  refine ⟨hI'.generation, hI'.numbered, hI'.entries, fun key j hj => ?_,
    hI'.flights, hI'.calls_same (.of_eq rfl rfl) rfl rfl rfl⟩
  refine hI'.flown key j ?_
  dsimp only at hj
  split at hj
  · by_cases hkey : key = t.key
    · rw [hkey, Function.update_self] at hj
      cases hj
    · rw [Function.update_of_ne hkey] at hj
      exact hj
  · exact hj

-- ==== the store

/-- An entry after `store` is a live old one or the new one. -/
theorem purgeAndStore_cases {entries : GoString → Option CacheEntry}
    {k id : GoString} {d : KeyDigest} {p : LocalKeyProvider} {now : Int}
    {e : CacheEntry}
    (h : purgeAndStore ttl entries k d p now id = some e) :
    entries id = some e
    ∨ id = k ∧ e =
        { provider := p, wrappedDigest := d, expiresAt := now + ttl,
          storedAt := now } := by
  have live : (entries id).filter (fun e => now < e.expiresAt) = some e →
      entries id = some e := by
    intro h
    exact (Option.filter_eq_some_iff.mp h).1
  unfold purgeAndStore at h
  split at h
  · by_cases hid : id = k
    · subst hid
      rw [Function.update_self] at h
      exact .inr ⟨rfl, (Option.some.inj h).symm⟩
    · rw [Function.update_of_ne hid] at h
      exact .inl (live h)
  · exact .inl (live h)

/-- A flight stores only under the newest generation, so what it stores
is newer than every invalidation there has been. -/
theorem CacheInv.store (hI : CacheInv sha256 ttl w) {i : Nat} {t : Task}
    {p : LocalKeyProvider} {now : Int}
    (hf : w.flights i = some ⟨t, .store p now⟩)
    (hgen : t.gen = w.generation) :
    CacheInv sha256 ttl
      { w.setFlight i t (.done (.ok ⟨p, .unwrap⟩)) with
        entries :=
          purgeAndStore ttl w.entries t.keyID t.digest p now } := by
  have hserves : FlightServes sha256 ttl w.history t ⟨p, .unwrap⟩ :=
    (hI.flights i _ hf).phase
  have hI' := hI.setFlight_same hf (p := .done (.ok ⟨p, .unwrap⟩))
    fun s hs => by
      cases hs
      exact hserves
  refine ⟨hI'.generation, hI'.numbered, fun k e he => ?_, hI'.flown,
    hI'.flights, hI'.calls_same (.of_eq rfl rfl) rfl rfl rfl⟩
  rcases purgeAndStore_cases he with hold | ⟨rfl, rfl⟩
  · exact hI.entries k e hold
  · refine ⟨hserves.provider, fun hx r hr hk => ?_, rfl⟩
    refine hserves.later hx r hr hk ?_
    rw [hgen, hI.generation hx]
    exact (hI.numbered r hr).2

-- ==== the invalidate

/-- The history after an invalidation of `keyID`. -/
def History.invalidated (h : History) (keyID : GoString) : History :=
  { h with
    events := h.events + 1
    invalidations :=
      { keyID := keyID, time := h.events,
        after := h.invalidations.length + 1 } :: h.invalidations }

theorem History.le_invalidated (h : History) (keyID : GoString) :
    h.Le (h.invalidated keyID) := by
  refine ⟨Nat.le_succ _, Nat.le_succ _, fun b hb => hb, fun u hu => hu,
    fun r hr => ?_⟩
  rcases List.mem_cons.mp hr with rfl | hr
  · exact .inr ⟨Nat.le_refl _, Nat.lt_succ_self _⟩
  · exact .inl hr

/-- Counting up by one does not wrap yet. -/
theorem toNat_succ {g : UInt64} {n : Nat} (hg : g.toNat = n)
    (hn : n + 1 < UInt64.size) : (g + 1).toNat = n + 1 := by
  rw [UInt64.toNat_add, hg]
  exact Nat.mod_eq_of_lt hn

theorem CacheInv.invalidate (hI : CacheInv sha256 ttl w)
    {keyID : GoString} :
    CacheInv sha256 ttl
      { w with
        generation := w.generation + 1
        entries := Function.update w.entries keyID none
        history := w.history.invalidated keyID } := by
  have hle := w.history.le_invalidated keyID
  refine ⟨fun hx => toNat_succ (hI.generation (hle.exact hx)) hx,
    fun r hr => ?_,
    fun k e he => ?_, hI.flown, fun i f hf => (hI.flights i f hf).mono hle,
    hI.calls_same ⟨hle, fun i f hf => ⟨f, hf, rfl⟩⟩ rfl rfl rfl⟩
  · rcases List.mem_cons.mp hr with rfl | hr
    · exact ⟨Nat.lt_succ_self _, Nat.le_refl _⟩
    · obtain ⟨htime, hafter⟩ := hI.numbered r hr
      exact ⟨Nat.lt_succ_of_lt htime, Nat.le_succ_of_le hafter⟩
  · -- the entry of this key is gone, the others are not concerned
    by_cases hk : k = keyID
    · simp only [hk, Function.update_self] at he
      cases he
    · simp only [Function.update_of_ne hk] at he
      have hentry := hI.entries k e he
      refine ⟨hentry.provider.mono hle, fun hx r hr hrk => ?_,
        hentry.expiresAt⟩
      rcases List.mem_cons.mp hr with rfl | hr
      · exact absurd hrk.symm hk
      · exact hentry.later (hle.exact hx) r hr hrk

-- ==== the machine

theorem cacheInv_init :
    CacheInv sha256 ttl (World.init : World ρ) := by
  refine ⟨fun _ => rfl, ?_, ?_, ?_, ?_, fun c => trivial⟩
  · exact fun r hr => nomatch hr
  · exact fun k e he => nomatch he
  · exact fun k i hi => nomatch hi
  · exact fun i f hf => nomatch hf

theorem CacheInv.step_lookup (hI : CacheInv sha256 ttl w) {c : Nat}
    (h : Crypto.step sha256 ttl (.lookup c) w = some w') :
    CacheInv sha256 ttl w' := by
  simp only [Crypto.step] at h
  split at h
  case h_2 => cases h
  case h_1 a hcall =>
  obtain ⟨ha, hlent⟩ : AskOk sha256 w.history a ∧ Lent w c a :=
    hI.phase hcall
  split at h
  · cases h
    refine hI.answer ha fun s hs => ?_
    cases hs
    obtain ⟨hp, hlater, hvia⟩ := hI.lookup ‹_›
    exact ⟨hp, fun hx r hr hk _ => hlater hx r hr hk, hvia⟩
  · cases h
    exact hI.setCall ⟨ha, hlent.borrowed, hlent.heap⟩

theorem CacheInv.step_doChan (hI : CacheInv sha256 ttl w) {c i : Nat}
    (h : Crypto.step sha256 ttl (.doChan c i) w = some w') :
    CacheInv sha256 ttl w' := by
  simp only [Crypto.step] at h
  split at h
  case h_2 => cases h
  case h_1 a wrapped gen hcall =>
  obtain ⟨ha, hwrapped, hreads, hgen⟩ :
      AskOk sha256 w.history a ∧ wrapped = a.wrapped
        ∧ Reads w.history a gen
        ∧ (w.history.Exact →
            gen.toNat ≤ w.history.invalidations.length) :=
    hI.phase hcall
  split at h
  · -- equal flight keys: the running flight is for this question
    cases h
    rename_i running hrunning
    obtain ⟨f, hf, hkey⟩ := hI.flown _ _ hrunning
    obtain ⟨hk, hg, hd⟩ := flightKey_inj hkey
    exact hI.setCall ⟨ha, f, hf, hk, hd, hg ▸ hreads⟩
  · split at h
    · cases h
    · cases h
      refine hI.startFlight ‹_› ha ⟨hgen, ?_, ?_⟩ ⟨rfl, rfl, hreads⟩
      · exact (congrArg sha256 hwrapped).trans ha.digest.symm
      · exact hwrapped ▸ ha.asked

theorem CacheInv.step_receive (hI : CacheInv sha256 ttl w) {c : Nat}
    (h : Crypto.step sha256 ttl (.receive c) w = some w') :
    CacheInv sha256 ttl w' := by
  simp only [Crypto.step] at h
  split at h
  case h_2 => cases h
  case h_1 a i hcall =>
  obtain ⟨ha, f, hf, hw⟩ : AskOk sha256 w.history a
      ∧ ∃ f, w.flights i = some f ∧ WaitsFor w.history a f.task :=
    hI.phase hcall
  split at h
  case h_2 => cases h
  case h_1 t result hlanded =>
  cases h
  cases hf.symm.trans hlanded
  refine hI.answer ha fun s hs => ?_
  exact ((hI.flights i _ hf).phase s hs).toAsk hw

theorem CacheInv.step_recheck (hI : CacheInv sha256 ttl w) {i : Nat}
    (h : Crypto.step sha256 ttl (.recheck i) w = some w') :
    CacheInv sha256 ttl w' := by
  simp only [Crypto.step] at h
  split at h
  case h_2 => cases h
  case h_1 t hf =>
  split at h
  · cases h
    refine hI.setFlight_same hf fun s hs => ?_
    cases hs
    obtain ⟨hp, hlater, hvia⟩ := hI.lookup ‹_›
    exact ⟨hp, fun hx r hr hk _ => hlater hx r hr hk, hvia⟩
  · cases h
    exact hI.setFlight_same hf trivial

theorem CacheInv.step_unwrapBegin (hI : CacheInv sha256 ttl w) {i : Nat}
    (h : Crypto.step sha256 ttl (.unwrapBegin i) w = some w') :
    CacheInv sha256 ttl w' := by
  simp only [Crypto.step] at h
  split at h
  case h_2 => cases h
  case h_1 t hf =>
  cases h
  refine hI.setFlight hf ⟨Nat.le_succ _, Nat.le_refl _,
    fun b hb => hb, fun u hu => hu, fun r hr => .inl hr⟩ rfl ⟨rfl, ?_⟩
  -- every invalidation so far is an earlier event
  exact fun _ r hr _ _ => (hI.numbered r hr).1

theorem CacheInv.step_unwrapEnd (hI : CacheInv sha256 ttl w)
    {i : Nat} {o : RootOutcome ρ}
    (h : Crypto.step sha256 ttl (.unwrapEnd i o) w = some w') :
    CacheInv sha256 ttl w' := by
  simp only [Crypto.step] at h
  split at h
  case h_2 => cases h
  case h_1 t origin hf =>
  obtain ⟨hwrapped, hlater⟩ : origin.wrapped = t.wrapped
      ∧ Later w.history t.keyID t.gen.toNat origin :=
    (hI.flights i _ hf).phase
  have htask := (hI.flights i _ hf).task
  cases o with
  | fail err =>
      cases h
      exact hI.setFlight_same hf fun s hs => nomatch hs
  | panicked value =>
      cases h
      exact hI.setFlight_same hf fun s hs => nomatch hs
  | plain key =>
      cases h
      refine hI.setFlight hf ⟨Nat.le_refl _, Nat.le_refl _,
        fun b hb => hb, fun u hu => List.mem_cons_of_mem _ hu,
        fun r hr => .inl hr⟩ rfl ⟨⟨?_, ?_, ?_⟩, hlater, trivial⟩
      · exact (congrArg sha256 hwrapped).trans htask.digest
      · exact hwrapped ▸ htask.asked
      · exact List.mem_cons_self

theorem CacheInv.step_store (hI : CacheInv sha256 ttl w) {i : Nat}
    (h : Crypto.step sha256 ttl (.store i) w = some w') :
    CacheInv sha256 ttl w' := by
  simp only [Crypto.step] at h
  split at h
  case h_2 => cases h
  case h_1 t p now hf =>
  split at h
  · cases h
    refine hI.setFlight_same hf fun s hs => ?_
    cases hs
    exact (hI.flights i _ hf).phase
  · rename_i hgen
    cases h
    exact hI.store hf (Classical.not_not.mp hgen)

theorem CacheInv.step (a : Action ρ) (w w' : World ρ)
    (hI : CacheInv sha256 ttl w)
    (h : Crypto.step sha256 ttl a w = some w') :
    CacheInv sha256 ttl w' := by
  cases a with
  | tick now =>
      cases h
      exact ⟨hI.generation, hI.numbered, hI.entries, hI.flown, hI.flights,
        hI.calls_same (.of_eq rfl rfl) rfl rfl rfl⟩
  | overwrite buf bytes =>
      simp only [Crypto.step] at h
      split at h
      · cases h
        exact hI.overwrite ‹_› bytes
      · cases h
  | invalidate keyID =>
      cases h
      exact hI.invalidate
  | begin c keyID wrappedKey =>
      simp only [Crypto.step] at h
      split at h
      · cases h
        exact hI.setCall trivial
      · cases h
        exact hI.begin
      · cases h
  | lookup c => exact hI.step_lookup h
  | readGeneration c =>
      simp only [Crypto.step] at h
      split at h
      case h_2 => cases h
      case h_1 a hcall =>
      obtain ⟨ha, hlent⟩ : AskOk sha256 w.history a ∧ Lent w c a :=
        hI.phase hcall
      cases h
      exact hI.setCall ⟨ha, hlent.heap, hI.reads a,
        fun hx => Nat.le_of_eq (hI.generation hx)⟩
  | doChan c i => exact hI.step_doChan h
  | receive c => exact hI.step_receive h
  | ctxDone c err =>
      simp only [Crypto.step] at h
      split at h
      case h_2 => cases h
      case h_1 a i hcall =>
      obtain ⟨ha, -⟩ : AskOk sha256 w.history a
          ∧ ∃ f, w.flights i = some f ∧ WaitsFor w.history a f.task :=
        hI.phase hcall
      cases h
      exact hI.answer ha fun s hs => nomatch hs
  | recheck i => exact hI.step_recheck h
  | unwrapBegin i => exact hI.step_unwrapBegin h
  | unwrapEnd i o => exact hI.step_unwrapEnd h
  | stamp i =>
      simp only [Crypto.step] at h
      split at h
      case h_2 => cases h
      case h_1 t p hf =>
      cases h
      exact hI.setFlight_same hf (hI.flights i _ hf).phase
  | store i => exact hI.step_store h
  | land i =>
      simp only [Crypto.step] at h
      split at h
      case h_2 => cases h
      case h_1 t result hf =>
      cases h
      exact hI.land hf

theorem cacheInv_run {as : List (Action ρ)}
    (h : Lib.run (Crypto.step sha256 ttl) as World.init = some w) :
    CacheInv sha256 ttl w :=
  Lib.run_invariant CacheInv.step as cacheInv_init h

end Tokyo3Base.Crypto
