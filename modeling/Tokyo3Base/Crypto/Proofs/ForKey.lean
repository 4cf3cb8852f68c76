/-
What `ForKey` promises its callers, over every interleaving of calls,
flights, invalidations and clock readings: no provider from before an
invalidation, and no provider of somebody else's key.

Both are read off `CacheInv` at the returned call. Freshness is about
the numbering of events alone. Provenance needs one assumption, that
`sha256` does not collide on the wrapped keys the run asks for; it is a
hypothesis over exactly those (`History.asked`).
-/
import Tokyo3Base.Crypto.Proofs.CacheSteps

namespace Tokyo3Base.Crypto

open Go

variable {ρ : Type}

theorem CacheInv.returned {sha256 : GoString → KeyDigest} {ttl : Int}
    {w : World ρ} (hI : CacheInv sha256 ttl w) {c : Nat} {a : Ask}
    {s : Served} (hret : w.calls c = .returned a (.ok s)) :
    AskOk sha256 w.history a ∧ AskServed sha256 ttl w.history a s := by
  obtain ⟨ha, hs⟩ := hI.phase hret
  exact ⟨ha, hs s rfl⟩

/-- A digest for the runs below: the first 32 bytes. -/
def padDigest (b : GoString) : KeyDigest :=
  ⟨(b ++ List.replicate 32 0).take 32, by simp⟩

-- ==== freshness

/-- A call that began after an invalidation of its key id returns no
provider whose root `Unwrap` began before that invalidation, however it
came by the provider. -/
theorem forKey_after_invalidate (sha256 : GoString → KeyDigest)
    (ttl : Int) (as : List (Action ρ)) (w : World ρ)
    (hrun : Lib.run (step sha256 ttl) as World.init = some w)
    (hcount : w.history.invalidations.length < UInt64.size)
    (c : Nat) (a : Ask) (s : Served)
    (hret : w.calls c = .returned a (.ok s))
    (r : Invalidation) (hr : r ∈ w.history.invalidations)
    (hkey : r.keyID = a.keyID) (hbegan : r.time < a.beganAt) :
    r.time < s.provider.origin.beganAt := by
  have hI := cacheInv_run hrun
  exact (hI.returned hret).2.later hcount r hr hkey hbegan

/-- An unwrap is in the air when its key is invalidated and finishes
late; the call that began after the invalidation gets its own. -/
theorem forKey_after_invalidate_late :
    let as : List (Action Unit) :=
      [.overwrite 0 [7], .begin 0 [1] (some 0), .lookup 0,
       .readGeneration 0, .doChan 0 0, .recheck 0, .unwrapBegin 0,
       .invalidate [1], .begin 1 [1] (some 0), .lookup 1,
       .readGeneration 1, .doChan 1 1, .unwrapEnd 0 (.plain [8]), .stamp 0,
       .store 0, .land 0, .receive 0, .recheck 1, .unwrapBegin 1,
       .unwrapEnd 1 (.plain [9]), .stamp 1, .store 1, .land 1, .receive 1]
    ∃ w a s, Lib.run (step padDigest 60) as World.init = some w
      ∧ w.calls 1 = .returned a (.ok s) ∧ s.provider.masterKey = [9]
      ∧ 2 < s.provider.origin.beganAt := by
  intro as
  obtain ⟨w, hw⟩ :
      ∃ w, Lib.run (step padDigest 60) as World.init = some w :=
    Option.isSome_iff_exists.mp rfl
  let a : Ask := ⟨[1], 0, padDigest [7], [7], 3⟩
  let s : Served := ⟨⟨[9], ⟨[7], 4⟩⟩, .unwrap⟩
  have hmap : (Lib.run (step padDigest 60) as World.init).map
        (fun w => (w.calls 1, w.history.invalidations))
      = some (.returned a (.ok s), [⟨[1], 2, 1⟩]) := rfl
  rw [hw] at hmap
  obtain ⟨hret, hinv⟩ := Prod.mk.inj (Option.some.inj hmap)
  refine ⟨w, a, s, hw, hret, rfl, ?_⟩
  exact forKey_after_invalidate padDigest 60 as w hw (by rw [hinv]; decide)
    1 a s hret ⟨[1], 2, 1⟩ (by rw [hinv]; decide) rfl (by decide)

-- ==== provenance

/-- Every provider a call returns is built from a completed root
`Unwrap` of exactly the call's wrapped key, and one found in the cache
was looked up before its store time plus `ttl`. -/
theorem forKey_provenance (sha256 : GoString → KeyDigest)
    (ttl : Int) (as : List (Action ρ)) (w : World ρ)
    (hrun : Lib.run (step sha256 ttl) as World.init = some w)
    (hcollide : ∀ b ∈ w.history.asked, ∀ b' ∈ w.history.asked,
      sha256 b = sha256 b' → b = b')
    (c : Nat) (a : Ask) (s : Served)
    (hret : w.calls c = .returned a (.ok s)) :
    (∃ u ∈ w.history.unwraps, u.origin.wrapped = a.wrapped
      ∧ s.provider.masterKey = u.plain)
    ∧ (∀ storedAt lookedUpAt, s.via = .cache storedAt lookedUpAt →
        lookedUpAt < storedAt + ttl) := by
  have hI := cacheInv_run hrun
  obtain ⟨ha, hs⟩ := hI.returned hret
  refine ⟨⟨_, hs.provider.unwrapped, ?_, rfl⟩, fun st lu hvia => ?_⟩
  · exact hcollide _ hs.provider.asked _ ha.asked
      (hs.provider.digest.trans ha.digest)
  · have hok := hs.via
    rw [hvia] at hok
    exact hok

/-- Stored at 100 for 60, served from the cache at 159, with the first
caller's buffer overwritten in between. -/
theorem forKey_provenance_cached :
    let as : List (Action Unit) :=
      [.overwrite 0 [7], .begin 0 [1] (some 0), .lookup 0,
       .readGeneration 0, .doChan 0 0, .recheck 0, .unwrapBegin 0,
       .unwrapEnd 0 (.plain [8]), .tick 100, .stamp 0, .store 0, .land 0,
       .receive 0, .overwrite 0 [5], .overwrite 1 [7],
       .begin 1 [1] (some 1), .tick 159, .lookup 1]
    ∃ w a s, Lib.run (step padDigest 60) as World.init = some w
      ∧ w.calls 1 = .returned a (.ok s)
      ∧ (∃ u ∈ w.history.unwraps, u.origin.wrapped = [7]
        ∧ s.provider.masterKey = u.plain)
      ∧ s.via = .cache 100 159 ∧ (159 : Int) < 100 + 60 := by
  intro as
  obtain ⟨w, hw⟩ :
      ∃ w, Lib.run (step padDigest 60) as World.init = some w :=
    Option.isSome_iff_exists.mp rfl
  let a : Ask := ⟨[1], 1, padDigest [7], [7], 2⟩
  let s : Served := ⟨⟨[8], ⟨[7], 1⟩⟩, .cache 100 159⟩
  have hmap : (Lib.run (step padDigest 60) as World.init).map
        (fun w => (w.calls 1, w.history.asked))
      = some (.returned a (.ok s), [[7], [7]]) := rfl
  rw [hw] at hmap
  obtain ⟨hret, hasked⟩ := Prod.mk.inj (Option.some.inj hmap)
  obtain ⟨hfrom, hlive⟩ := forKey_provenance padDigest 60 as w hw
    (by rw [hasked]; decide) 1 a s hret
  exact ⟨w, a, s, hw, hret, hfrom, rfl, hlive 100 159 rfl⟩

end Tokyo3Base.Crypto
