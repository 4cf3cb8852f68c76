/-
A call that returns without reading returns a value at least as new as
what it stat'ed: freshness of the mtime gate under any interleaving.

# Why it holds

Three facts carry the argument. An mtime names one version of its file
(`File.Ok.unique`, from the writers' discipline). The stamp a load
records was taken before its reads, so each of its mtimes names a
version no newer than the bytes parsed (`SharedOk.stamped`). And loads
are serialised by the write lock, so what is held only gets newer: a
load whose stat failed keeps the older stamp next to newer bytes
(`GotOk.held`). A settled stat equals the recorded stamp, hence names
the same versions, which are no newer than the value held.

# Shape

`PhaseOk` says per phase what a call knows; it only speaks about
versions already used, so it survives every growth of the disk
(`File.Le`). `FreshInv` collects it with the shared state; one lemma per
kind of step, and `run_invariant` for the run.
-/
import Tokyo3Base.Lib.Run
import Tokyo3Base.Tls.Concurrent
import Tokyo3Base.Tls.Proofs.Staleness

namespace Tokyo3Base.Tls

open Go

variable {κ τ ε : Type}

-- ==== the files

/-- What the writers' discipline gives: the present contents are listed
under their mtime, and an mtime names one version. -/
structure File.Ok (f : File κ) : Prop where
  present : f.content.isSome = true → (f.mtime, f.version) ∈ f.used
  bound : ∀ u ∈ f.used, u.2 ≤ f.version
  unique : ∀ m v v', (m, v) ∈ f.used → (m, v') ∈ f.used → v = v'

/-- A file grows: no mtime is forgotten and no version taken back. -/
structure File.Le (f g : File κ) : Prop where
  used : ∀ u ∈ f.used, u ∈ g.used
  version : f.version ≤ g.version

theorem File.Le.refl (f : File κ) : f.Le f := ⟨fun _ h => h, Nat.le_refl _⟩

/-- A step of a writer keeps the discipline and grows the file. -/
structure File.Step (f g : File κ) : Prop where
  ok : g.Ok
  le : f.Le g

/-- A new mtime names the new version only. -/
theorem File.Ok.write {f : File κ} (hf : f.Ok) {m : Int} {c : κ}
    (hm : f.unused m = true) : f.Step (f.write m c) := by
  have hnew : ∀ v, (m, v) ∉ f.used := by
    intro v hv
    have := List.all_eq_true.mp hm _ hv
    simp at this
  refine ⟨⟨fun _ => List.mem_cons_self, ?_, ?_⟩,
    ⟨fun u hu => List.mem_cons_of_mem _ hu, Nat.le_succ _⟩⟩
  · intro u hu
    rcases List.mem_cons.mp hu with rfl | hu
    · exact Nat.le_refl _
    · exact Nat.le_succ_of_le (hf.bound u hu)
  · intro m' v v' hv hv'
    rcases List.mem_cons.mp hv with heq | hv
    · cases heq
      rcases List.mem_cons.mp hv' with heq' | hv'
      · cases heq'
        rfl
      · exact absurd hv' (hnew v')
    · rcases List.mem_cons.mp hv' with heq' | hv'
      · cases heq'
        exact absurd hv (hnew v)
      · exact hf.unique m' v v' hv hv'

/-- A touch names the present version once more. -/
theorem File.Ok.touch {f : File κ} (hf : f.Ok) {m : Int}
    (hm : f.own m = true) : f.Step (f.touch m) := by
  have hown : ∀ v, (m, v) ∈ f.used → v = f.version := by
    intro v hv
    have := List.all_eq_true.mp hm _ hv
    simpa using this
  refine ⟨⟨fun _ => List.mem_cons_self, ?_, ?_⟩,
    ⟨fun u hu => List.mem_cons_of_mem _ hu, Nat.le_refl _⟩⟩
  · intro u hu
    rcases List.mem_cons.mp hu with rfl | hu
    · exact Nat.le_refl _
    · exact hf.bound u hu
  · intro m' v v' hv hv'
    rcases List.mem_cons.mp hv with heq | hv
    · cases heq
      rcases List.mem_cons.mp hv' with heq' | hv'
      · cases heq'
        rfl
      · exact (hown v' hv').symm
    · rcases List.mem_cons.mp hv' with heq' | hv'
      · cases heq'
        exact hown v hv
      · exact hf.unique m' v v' hv hv'

theorem File.Ok.remove {f : File κ} (hf : f.Ok) : f.Step f.remove :=
  ⟨⟨fun h => Bool.noConfusion (show false = true from h),
    fun u hu => Nat.le_succ_of_le (hf.bound u hu), hf.unique⟩,
    ⟨fun _ h => h, Nat.le_succ _⟩⟩

-- ==== what a call knows

/-- Each mtime of a stat is one its file had, for the version seen. -/
def SeenOk (disk : Nat → File κ) (seen : List Seen) : Prop :=
  ∀ (i : Nat) (s : Seen), seen[i]? = some s → (s.mtime, s.version) ∈ (disk i).used

/-- A finished stat covers every file; a failed one says nothing. -/
structure StatOk (L : Loader κ τ ε) (disk : Nat → File κ)
    (seen : Option (List Seen)) : Prop where
  known : ∀ l, seen = some l → SeenOk disk l
  length : ∀ l, seen = some l → l.length = L.files

/-- The bytes a call has read under the lock: not newer than the disk,
not older than the value held nor than what the call stat'ed. -/
structure GotOk (disk : Nat → File κ) (f : FileValue (Built κ τ) ε)
    (seen : Option (List Seen)) (got : List (Source κ)) : Prop where
  current : ∀ (i : Nat) (g : Source κ), got[i]? = some g →
    g.version ≤ (disk i).version
  held : ∀ (i : Nat) (g b : Source κ), got[i]? = some g →
    f.val.sources[i]? = some b → b.version ≤ g.version
  statted : ∀ l (i : Nat) (g : Source κ) (s : Seen), seen = some l →
    got[i]? = some g → l[i]? = some s → s.version ≤ g.version

/-- The freshness of a return: decided from the kept value, with no
failure run open, it is a value built from sources no older than what
the call stat'ed. -/
def Return.Fresh (L : Loader κ τ ε) (r : Return κ τ ε) : Prop :=
  r.forced = false → r.viaRead = false → r.failing = false →
    r.err = none
    ∧ L.parse (r.value.sources.map Source.content) = .ok r.value.value
    ∧ ∃ seen, r.seen = some seen ∧ seen.length = L.files
      ∧ ∀ (i : Nat) (s : Seen), seen[i]? = some s →
          ∃ b : Source κ, r.value.sources[i]? = some b ∧ s.version ≤ b.version

def PhaseOk (L : Loader κ τ ε) (disk : Nat → File κ)
    (f : FileValue (Built κ τ) ε) : Phase κ τ ε → Prop
  | .idle => True
  | .stat _ seen => SeenOk disk seen
  | .check _ seen => StatOk L disk seen
  | .lock _ seen => StatOk L disk seen
  | .read _ seen got => StatOk L disk seen ∧ GotOk disk f seen got
  | .returned r => r.Fresh L

/-- What holds of the shared `fileValue`. -/
structure SharedOk (L : Loader κ τ ε) (disk : Nat → File κ)
    (f : FileValue (Built κ τ) ε) : Prop where
  parsed : f.loaded = true →
    L.parse (f.val.sources.map Source.content) = .ok f.val.value
  current : ∀ (i : Nat) (b : Source κ), f.val.sources[i]? = some b →
    i < L.files ∧ b.version ≤ (disk i).version
  stamped : ∀ (i : Nat) (m : Int), f.loadedAt[i]? = some m →
    ∃ v, ∃ b : Source κ, (m, v) ∈ (disk i).used ∧ f.val.sources[i]? = some b
      ∧ v ≤ b.version
  healthy : f.failErr = none → f.failSince = 0 ∧ f.statFailed = false

structure FreshInv (L : Loader κ τ ε) (w : World κ τ ε) : Prop where
  files : ∀ i, (w.disk i).Ok
  shared : SharedOk L w.disk w.shared
  calls : ∀ t, PhaseOk L w.disk w.shared (w.calls t)
  lock : ∀ t, (w.calls t).holds = true → w.writer = some t

theorem FreshInv.phase {L : Loader κ τ ε} {w : World κ τ ε}
    (hI : FreshInv L w) {t : Nat} {p : Phase κ τ ε}
    (hcall : w.calls t = p) : PhaseOk L w.disk w.shared p :=
  hcall ▸ hI.calls t

section Growth

variable {L : Loader κ τ ε} {disk disk' : Nat → File κ}
  {f : FileValue (Built κ τ) ε}

theorem SeenOk.mono {seen : List Seen} (hle : ∀ i, (disk i).Le (disk' i))
    (h : SeenOk disk seen) : SeenOk disk' seen :=
  fun i s hs => (hle i).used _ (h i s hs)

theorem StatOk.mono {seen : Option (List Seen)}
    (hle : ∀ i, (disk i).Le (disk' i)) (h : StatOk L disk seen) :
    StatOk L disk' seen :=
  ⟨fun l hl => (h.known l hl).mono hle, h.length⟩

theorem GotOk.mono {seen : Option (List Seen)} {got : List (Source κ)}
    (hle : ∀ i, (disk i).Le (disk' i)) (h : GotOk disk f seen got) :
    GotOk disk' f seen got :=
  ⟨fun i g hg => Nat.le_trans (h.current i g hg) (hle i).version, h.held,
    h.statted⟩

theorem SharedOk.mono (hle : ∀ i, (disk i).Le (disk' i))
    (h : SharedOk L disk f) : SharedOk L disk' f := by
  refine ⟨h.parsed, fun i b hb => ?_, fun i m hm => ?_, h.healthy⟩
  · obtain ⟨hi, hv⟩ := h.current i b hb
    exact ⟨hi, Nat.le_trans hv (hle i).version⟩
  · obtain ⟨v, b, hv, hb, hle'⟩ := h.stamped i m hm
    exact ⟨v, b, (hle i).used _ hv, hb, hle'⟩

theorem PhaseOk.mono {p : Phase κ τ ε} (hle : ∀ i, (disk i).Le (disk' i))
    (h : PhaseOk L disk f p) : PhaseOk L disk' f p := by
  cases p with
  | idle => exact h
  | stat forced seen => exact SeenOk.mono hle h
  | check forced seen => exact StatOk.mono hle h
  | lock forced seen => exact StatOk.mono hle h
  | read forced seen got => exact ⟨h.1.mono hle, h.2.mono hle⟩
  | returned r => exact h

/-- Only a call that holds the lock depends on the shared state. -/
theorem PhaseOk.of_not_holds {f' : FileValue (Built κ τ) ε}
    {p : Phase κ τ ε} (hp : p.holds ≠ true) (h : PhaseOk L disk f p) :
    PhaseOk L disk f' p := by
  cases p with
  | read forced seen got => exact absurd rfl hp
  | idle => exact h
  | stat forced seen => exact h
  | check forced seen => exact h
  | lock forced seen => exact h
  | returned r => exact h

end Growth

/-- A writer's step. -/
theorem FreshInv.setFile {L : Loader κ τ ε} {w : World κ τ ε}
    (hI : FreshInv L w) {i : Nat} {g : File κ}
    (hstep : (w.disk i).Step g) : FreshInv L (w.setFile i g) := by
  have hle : ∀ j, (w.disk j).Le (Function.update w.disk i g j) := by
    intro j
    by_cases hj : j = i
    · subst hj
      rw [Function.update_self]
      exact hstep.le
    · rw [Function.update_of_ne hj]
      exact File.Le.refl _
  refine ⟨fun j => ?_, hI.shared.mono hle, fun t => (hI.calls t).mono hle,
    hI.lock⟩
  by_cases hj : j = i
  · subst hj
    simp only [World.setFile, Function.update_self]
    exact hstep.ok
  · simp only [World.setFile, Function.update_of_ne hj]
    exact hI.files j

-- ==== the phases

/-- A call moves to another phase; with the lock, if it asks for it. -/
theorem FreshInv.setCall {L : Loader κ τ ε} {w : World κ τ ε}
    (hI : FreshInv L w) {t : Nat} {p : Phase κ τ ε}
    (hp : PhaseOk L w.disk w.shared p)
    (hlock : p.holds = true → w.writer = some t) :
    FreshInv L (w.setCall t p) := by
  refine ⟨hI.files, hI.shared, fun t' => ?_, fun t' => ?_⟩
  · by_cases ht : t' = t
    · subst ht
      simpa only [World.setCall, Function.update_self] using hp
    · simpa only [World.setCall, Function.update_of_ne ht] using hI.calls t'
  · by_cases ht : t' = t
    · subst ht
      simpa only [World.setCall, Function.update_self] using hlock
    · simpa only [World.setCall, Function.update_of_ne ht] using hI.lock t'

/-- A call moves to a phase outside the lock. -/
theorem FreshInv.setOutside {L : Loader κ τ ε} {w : World κ τ ε}
    (hI : FreshInv L w) {t : Nat} {p : Phase κ τ ε}
    (hp : PhaseOk L w.disk w.shared p) (hout : p.holds = false) :
    FreshInv L (w.setCall t p) :=
  hI.setCall hp fun h => Bool.noConfusion (hout.symm.trans h)

/-- One more element at the end of a list. -/
theorem getElem?_append_one {α : Type} {l : List α} {x y : α} {i : Nat}
    (h : (l ++ [x])[i]? = some y) :
    l[i]? = some y ∨ (i = l.length ∧ y = x) := by
  rcases Nat.lt_trichotomy i l.length with hi | hi | hi
  · rw [List.getElem?_append_left hi] at h
    exact .inl h
  · subst hi
    rw [List.getElem?_concat_length] at h
    exact .inr ⟨rfl, (Option.some.inj h).symm⟩
  · rw [List.getElem?_eq_none (by simp; omega)] at h
    cases h

theorem SeenOk.snoc {disk : Nat → File κ} {seen : List Seen}
    (h : SeenOk disk seen) (hok : (disk seen.length).Ok)
    (hpresent : (disk seen.length).content.isSome = true) :
    SeenOk disk (seen ++ [⟨(disk seen.length).mtime,
      (disk seen.length).version⟩]) := by
  intro i s hs
  rcases getElem?_append_one hs with hs | ⟨rfl, rfl⟩
  · exact h i s hs
  · exact hok.present hpresent

/-- Read one more file: the disk is at least as new as everything any
call has seen or holds. -/
theorem GotOk.snoc {L : Loader κ τ ε} {disk : Nat → File κ}
    {f : FileValue (Built κ τ) ε} {seen : Option (List Seen)}
    {got : List (Source κ)} (h : GotOk disk f seen got)
    (hshared : SharedOk L disk f) (hstat : StatOk L disk seen)
    (hok : ∀ i, (disk i).Ok) (c : κ) :
    GotOk disk f seen (got ++ [⟨c, (disk got.length).version⟩]) := by
  refine ⟨fun i g hg => ?_, fun i g b hg hb => ?_,
    fun l i g s hl hg hs => ?_⟩
  · rcases getElem?_append_one hg with hg | ⟨rfl, rfl⟩
    · exact h.current i g hg
    · exact Nat.le_refl _
  · rcases getElem?_append_one hg with hg | ⟨rfl, rfl⟩
    · exact h.held i g b hg hb
    · exact (hshared.current _ b hb).2
  · rcases getElem?_append_one hg with hg | ⟨rfl, rfl⟩
    · exact h.statted l i g s hl hg hs
    · exact (hok _).bound _ (hstat.known l hl _ s hs)

theorem FreshInv.enter {L : Loader κ τ ε} {w : World κ τ ε}
    (hI : FreshInv L w) (hfree : w.writer = none) {t : Nat}
    {forced : Bool} {seen : Option (List Seen)}
    (hstat : StatOk L w.disk seen) :
    FreshInv L { w.setCall t (.read forced seen []) with
      writer := some t } := by
  refine ⟨hI.files, hI.shared, fun t' => ?_, fun t' h => ?_⟩
  · by_cases ht : t' = t
    · subst ht
      simp only [World.setCall, Function.update_self]
      refine ⟨hstat, ?_, ?_, ?_⟩
      · intro i g hg
        cases hg
      · intro i g b hg
        cases hg
      · intro l i g s _ hg
        cases hg
    · simp only [World.setCall, Function.update_of_ne ht]
      exact hI.calls t'
  · by_cases ht : t' = t
    · rw [ht]
    · simp only [World.setCall, Function.update_of_ne ht] at h
      cases (hI.lock t' h).symm.trans hfree

-- ==== the mtime gate

variable [Inhabited τ]

/-- A value kept by the mtime gate is fresh. -/
theorem fresh_of_fromKept {L : Loader κ τ ε} {disk : Nat → File κ}
    {f : FileValue (Built κ τ) ε} {seen : Option (List Seen)}
    (hok : ∀ i, (disk i).Ok) (hshared : SharedOk L disk f)
    (hstat : StatOk L disk seen) {maxStale : Option Int} {forced : Bool}
    {now : Int} {kept : Built κ τ × Option (GetError ε)}
    (hkept : f.fromKept maxStale forced (stampOf seen) now = some kept) :
    Return.Fresh L
      { forced := forced, viaRead := false, seen := seen, value := kept.1,
        err := kept.2, failing := f.failing } := by
  intro hforced _ hfailing
  dsimp only at hforced hfailing ⊢
  unfold FileValue.fromKept at hkept
  split at hkept
  case isFalse => cases hkept
  case isTrue hsettled =>
  rw [hforced, Bool.not_false, Bool.true_and] at hsettled
  have hloaded := loaded_of_settledLocked hsettled
  obtain ⟨hsince, hstatFailed⟩ :=
    hshared.healthy (Option.not_isSome_iff_eq_none.mp (by
      rw [FileValue.failing] at hfailing
      rw [hfailing]
      decide))
  -- with no failure run open the kept value is the one held
  have hval : kept = (f.val, none) := by
    injection hkept with hkept
    rw [← hkept]
    cases maxStale with
    | none => rfl
    | some limit => simp [FileValue.keptLocked, hsince, isZero]
  subst hval
  refine ⟨rfl, hshared.parsed hloaded, ?_⟩
  cases seen with
  | none =>
      -- a failed stat settles only after a failed load
      simp [FileValue.settledLocked, stampOf, hloaded, hstatFailed]
        at hsettled
  | some l =>
      have hstamp : l.map Seen.mtime = f.loadedAt := by
        simpa [FileValue.settledLocked, stampOf, hloaded, hsince,
          Stamp.equal] using hsettled
      refine ⟨l, rfl, hstat.length l rfl, fun i s hs => ?_⟩
      have hm : f.loadedAt[i]? = some s.mtime := by
        rw [← hstamp, List.getElem?_map, hs]
        rfl
      obtain ⟨v, b, hv, hb, hle⟩ := hshared.stamped i s.mtime hm
      have hsv := (hok i).unique _ _ _ (hstat.known l rfl i s hs) hv
      exact ⟨b, hb, hsv ▸ hle⟩

theorem FreshInv.keep {L : Loader κ τ ε} {w : World κ τ ε}
    (hI : FreshInv L w) {t : Nat} {forced : Bool}
    {seen : Option (List Seen)} (hstat : StatOk L w.disk seen)
    {maxStale : Option Int} {now : Int}
    {kept : Built κ τ × Option (GetError ε)}
    (hkept : w.shared.fromKept maxStale forced (stampOf seen) now
      = some kept) : FreshInv L (w.keep t forced seen kept) :=
  hI.setOutside (fresh_of_fromKept hI.files hI.shared hstat hkept) rfl

-- ==== the reload

/-- A failed load changes nothing but the failure state. -/
theorem SharedOk.afterRead_error {L : Loader κ τ ε}
    {disk : Nat → File κ} {f : FileValue (Built κ τ) ε}
    (h : SharedOk L disk f) {maxStale : Option Int} {forced : Bool}
    {stat : Option Stamp} {e : ε} {nowFail nowAfter : Int} :
    SharedOk L disk (f.afterRead maxStale forced stat (.error e) nowFail
      nowAfter).2 := by
  unfold FileValue.afterRead
  dsimp only
  split
  · exact h
  · split
    · exact ⟨h.parsed, h.current, h.stamped, fun he => nomatch he⟩
    · exact ⟨h.parsed, h.current, h.stamped, fun he => nomatch he⟩

/-- A successful load: its stamp was taken before its bytes, and an old
stamp kept by a failed stat stands next to newer bytes. -/
theorem SharedOk.afterRead_ok {L : Loader κ τ ε}
    {disk : Nat → File κ} {f : FileValue (Built κ τ) ε}
    (h : SharedOk L disk f) {seen : Option (List Seen)}
    {got : List (Source κ)} (hstat : StatOk L disk seen)
    (hgot : GotOk disk f seen got) (hlen : got.length = L.files) {v : τ}
    (hparse : L.parse (got.map Source.content) = .ok v)
    {maxStale : Option Int} {forced : Bool} {nowFail nowAfter : Int} :
    SharedOk L disk (f.afterRead maxStale forced (stampOf seen)
      (.ok ⟨v, got⟩) nowFail nowAfter).2 := by
  -- every file has been read
  have hread : ∀ i, i < L.files → ∃ g, got[i]? = some g := fun i hi =>
    ⟨got[i], List.getElem?_eq_getElem (hlen ▸ hi)⟩
  refine ⟨fun _ => hparse, fun i b hb => ⟨?_, hgot.current i b hb⟩,
    fun i m hm => ?_, fun _ => ⟨rfl, rfl⟩⟩
  · obtain ⟨hi, -⟩ := List.getElem?_eq_some_iff.mp hb
    exact hlen ▸ hi
  · cases seen with
    | none =>
        obtain ⟨v', b, hv', hb, hle⟩ := h.stamped i m hm
        obtain ⟨g, hg⟩ := hread i (h.current i b hb).1
        exact ⟨v', g, hv', hg, Nat.le_trans hle (hgot.held i g b hg hb)⟩
    | some l =>
        have hm' : (l.map Seen.mtime)[i]? = some m := hm
        rw [List.getElem?_map, Option.map_eq_some_iff] at hm'
        obtain ⟨s, hs, rfl⟩ := hm'
        obtain ⟨hi, -⟩ := List.getElem?_eq_some_iff.mp hs
        obtain ⟨g, hg⟩ := hread i (hstat.length l rfl ▸ hi)
        exact ⟨s.version, g, hstat.known l rfl i s hs, hg,
          hgot.statted l i g s rfl hg hs⟩

/-- The lock holder replaces the shared state and unlocks. -/
theorem FreshInv.finish {L : Loader κ τ ε} {w : World κ τ ε}
    (hI : FreshInv L w) {t : Nat} (hholds : (w.calls t).holds = true)
    {forced : Bool} {seen : Option (List Seen)}
    {read : Except ε (Built κ τ)} {maxStale : Option Int}
    {nowFail nowAfter : Int}
    (hshared : SharedOk L w.disk (w.shared.afterRead maxStale forced
      (stampOf seen) read nowFail nowAfter).2) :
    FreshInv L (w.finish t forced seen read maxStale nowFail
      nowAfter) := by
  -- the holder is the only call inside the lock
  have hothers : ∀ t', t' ≠ t → (w.calls t').holds ≠ true := by
    intro t' ht h
    have := (hI.lock t' h).symm.trans (hI.lock t hholds)
    exact ht (Option.some.inj this)
  refine ⟨hI.files, hshared, fun t' => ?_, fun t' => ?_⟩
  · by_cases ht : t' = t
    · subst ht
      simp only [World.finish, Function.update_self]
      exact fun _ h => Bool.noConfusion (show true = false from h)
    · simp only [World.finish, Function.update_of_ne ht]
      exact (hI.calls t').of_not_holds (hothers t' ht)
  · intro h
    by_cases ht : t' = t
    · subst ht
      simp only [World.finish, Function.update_self] at h
      cases h
    · simp only [World.finish, Function.update_of_ne ht] at h
      exact absurd h (hothers t' ht)

-- ==== the runs

theorem freshInv_init (L : Loader κ τ ε) :
    FreshInv L (World.init : World κ τ ε) := by
  refine ⟨fun i => ⟨?_, ?_, ?_⟩, ⟨?_, ?_, ?_, ?_⟩, fun _ => trivial, ?_⟩
  · exact fun h => Bool.noConfusion (show false = true from h)
  · exact fun u hu => nomatch hu
  · exact fun m v v' hv => nomatch hv
  · exact fun h => Bool.noConfusion (show false = true from h)
  · exact fun i b hb => nomatch hb
  · exact fun i m hm => nomatch hm
  · exact fun _ => ⟨rfl, rfl⟩
  · exact fun t h => Bool.noConfusion (show false = true from h)

section Steps

variable {L : Loader κ τ ε} {w w' : World κ τ ε}

/-- A call stats its next file, or has seen them all. -/
theorem FreshInv.step_stat (hI : FreshInv L w) {t : Nat}
    (h : Tls.step L (.stat t) w = some w') : FreshInv L w' := by
  simp only [Tls.step] at h
  split at h
  case h_2 => cases h
  case h_1 forced seen hcall =>
  have hseen : SeenOk w.disk seen := hI.phase hcall
  split at h
  · cases h
    refine hI.setOutside ⟨?_, ?_⟩ rfl
    · intro l hl
      cases hl
      exact hseen
    · intro l hl
      cases hl
      assumption
  · split at h
    case h_1 => cases h
    case h_2 c hc =>
    cases h
    exact hI.setOutside (hseen.snoc (hI.files _) (by rw [hc]; rfl)) rfl

/-- The check under the read lock. -/
theorem FreshInv.step_check (hI : FreshInv L w) {t : Nat}
    {maxStale : Option Int} {now : Int}
    (h : Tls.step L (.check t maxStale now) w = some w') :
    FreshInv L w' := by
  simp only [Tls.step] at h
  split at h
  case h_2 => cases h
  case h_1 forced seen hcall hfree =>
  have hstat : StatOk L w.disk seen := hI.phase hcall
  split at h
  · cases h
    exact hI.keep hstat ‹_›
  · cases h
    exact hI.setOutside hstat rfl

/-- The same check once more, under the write lock. -/
theorem FreshInv.step_lock (hI : FreshInv L w) {t : Nat}
    {maxStale : Option Int} {now : Int}
    (h : Tls.step L (.lock t maxStale now) w = some w') :
    FreshInv L w' := by
  simp only [Tls.step] at h
  split at h
  case h_2 => cases h
  case h_1 forced seen hcall hfree =>
  have hstat : StatOk L w.disk seen := hI.phase hcall
  split at h
  · cases h
    exact hI.keep hstat ‹_›
  · cases h
    exact hI.enter hfree hstat

/-- A call reads its next file. -/
theorem FreshInv.step_read (hI : FreshInv L w) {t : Nat}
    (h : Tls.step L (.read t) w = some w') : FreshInv L w' := by
  simp only [Tls.step] at h
  split at h
  case h_2 => cases h
  case h_1 forced seen got hcall =>
  have hread : StatOk L w.disk seen ∧ GotOk w.disk w.shared seen got :=
    hI.phase hcall
  split at h
  · cases h
  · split at h
    case h_1 => cases h
    case h_2 c hc =>
    cases h
    refine hI.setCall ⟨hread.1, ?_⟩ fun _ => ?_
    · exact hread.2.snoc hI.shared hread.1 hI.files c
    · exact hI.lock t (by rw [hcall]; rfl)

/-- What was read is parsed, and the reload ends. -/
theorem FreshInv.step_parse (hI : FreshInv L w) {t : Nat}
    {maxStale : Option Int} {nowFail nowAfter : Int}
    (h : Tls.step L (.parse t maxStale nowFail nowAfter) w = some w') :
    FreshInv L w' := by
  simp only [Tls.step] at h
  split at h
  case h_2 => cases h
  case h_1 forced seen got hcall =>
  have hread : StatOk L w.disk seen ∧ GotOk w.disk w.shared seen got :=
    hI.phase hcall
  split at h
  case isFalse => cases h
  case isTrue hlen =>
  cases h
  refine hI.finish (by rw [hcall]; rfl) ?_
  cases hparse : L.parse (got.map Source.content) with
  | error e => exact hI.shared.afterRead_error
  | ok v => exact hI.shared.afterRead_ok hread.1 hread.2 hlen hparse

end Steps

/-- Every step of every writer and caller keeps the invariant. -/
theorem FreshInv.step {L : Loader κ τ ε} (a : Action κ ε)
    (w w' : World κ τ ε) (hI : FreshInv L w)
    (h : Tls.step L a w = some w') : FreshInv L w' := by
  cases a with
  | write i m c =>
      simp only [Tls.step] at h
      split at h
      · cases h
        exact hI.setFile ((hI.files i).write ‹_›)
      · cases h
  | touch i m =>
      simp only [Tls.step] at h
      split at h
      · cases h
        exact hI.setFile ((hI.files i).touch ‹_›)
      · cases h
  | remove i =>
      cases h
      exact hI.setFile (hI.files i).remove
  | begin t forced =>
      simp only [Tls.step] at h
      split at h
      · cases h
        exact hI.setOutside (fun i s hs => nomatch hs) rfl
      · cases h
  | stat t => exact hI.step_stat h
  | statError t =>
      simp only [Tls.step] at h
      split at h
      · cases h
        refine hI.setOutside ⟨?_, ?_⟩ rfl
        · exact fun l hl => nomatch hl
        · exact fun l hl => nomatch hl
      · cases h
  | check t maxStale now => exact hI.step_check h
  | lock t maxStale now => exact hI.step_lock h
  | read t => exact hI.step_read h
  | readError t e maxStale nowFail nowAfter =>
      simp only [Tls.step] at h
      split at h
      case h_2 => cases h
      case h_1 forced seen got hcall =>
      cases h
      exact hI.finish (by rw [hcall]; rfl) hI.shared.afterRead_error
  | parse t maxStale nowFail nowAfter => exact hI.step_parse h

/-- In every interleaving, a non-forced call that returned without
reading while no failure run was open returned, without an error, a
value parsed from sources each at least as new as the contents its file
had when the call stat'ed it. -/
theorem get_fresh (L : Loader κ τ ε) (as : List (Action κ ε))
    (w : World κ τ ε) (hrun : Lib.run (step L) as World.init = some w)
    (t : Nat) (r : Return κ τ ε) (hr : w.calls t = .returned r)
    (hforced : r.forced = false) (hkept : r.viaRead = false)
    (hhealthy : r.failing = false) :
    r.err = none
    ∧ L.parse (r.value.sources.map Source.content) = .ok r.value.value
    ∧ ∃ seen, r.seen = some seen ∧ seen.length = L.files
      ∧ ∀ (i : Nat) (s : Seen), seen[i]? = some s →
          ∃ b : Source κ, r.value.sources[i]? = some b
            ∧ s.version ≤ b.version := by
  have hI := Lib.run_invariant FreshInv.step as (freshInv_init L) hrun
  have hfresh : r.Fresh L := hI.phase hr
  exact hfresh hforced hkept hhealthy

/-- A two-file load whose second file is rewritten between its stat and
its read. The next call stats the new mtime, loads again, and the call
after that settles on the new pair. -/
theorem get_fresh_rewritten :
    let L : Loader Nat Nat Unit := ⟨2, fun bs => .ok (bs.foldl (· + ·) 0)⟩
    let load (t : Nat) : List (Action Nat Unit) :=
      [.begin t false, .stat t, .stat t, .stat t, .check t none 0,
       .lock t none 0, .read t, .read t, .parse t none 0 0]
    let as : List (Action Nat Unit) :=
      [.write 0 10 1, .write 1 11 2, .begin 0 false, .stat 0, .stat 0,
       .stat 0, .write 1 12 5, .check 0 none 0, .lock 0 none 0, .read 0,
       .read 0, .parse 0 none 0 0]
        ++ load 1
        ++ [.begin 2 false, .stat 2, .stat 2, .stat 2, .check 2 none 0]
    ∃ w r, Lib.run (step L) as World.init = some w
      ∧ w.calls 2 = .returned r ∧ r.value.value = 6
      ∧ ∃ seen, r.seen = some seen ∧ seen.length = 2
        ∧ ∀ (i : Nat) (s : Seen), seen[i]? = some s →
            ∃ b : Source Nat, r.value.sources[i]? = some b
              ∧ s.version ≤ b.version := by
  intro L load as
  obtain ⟨w, hw⟩ : ∃ w, Lib.run (step L) as World.init = some w :=
    Option.isSome_iff_exists.mp rfl
  let r : Return Nat Nat Unit :=
    { forced := false, viaRead := false, seen := some [⟨10, 1⟩, ⟨12, 2⟩]
      value := ⟨6, [⟨1, 1⟩, ⟨5, 2⟩]⟩, err := none, failing := false }
  have hr : w.calls 2 = .returned r := by
    have hmap : (Lib.run (step L) as World.init).map (fun w => w.calls 2)
        = some (.returned r) := rfl
    rw [hw] at hmap
    exact Option.some.inj hmap
  exact ⟨w, r, hw, hr, rfl,
    (get_fresh L as w hw 2 r hr rfl rfl rfl).2.2⟩

end Tokyo3Base.Tls
