/-
One loader among several: what a step of its callers can do, and what
its values are made of, whatever the writers do.

# Steps

`CallStep` lists what a step of one call can be, and `LoaderStep` what a
step of the whole system can be for one loader: a change of its files, a
step of a call, or a caller that takes what was returned.

# Facts

`Parsed` says that a value without an error was parsed from one content
per file, and that a reading call has the lock. `Tracked Q` says that
the value held, and whatever is being read, consists of contents with a
property `Q`. Every step keeps it as long as the contents on disk have
the property: what a call reads is added, and what it parses replaces
the value. With "was written to this file" for `Q` it is provenance;
with "at least as new as" it is freshness. `Serving` says that a loader
with a value does not fail a call that is not forced, unless there is a
limit to its age.
-/
import Tokyo3Base.Tls.Proofs.Freshness
import Tokyo3Base.Tls.Reloader

namespace Tokyo3Base.Tls

open Go

variable {κ τ ε : Type}

-- ==== vocabulary

/-- Whether a call under way began forced. -/
def Phase.start : Phase κ τ ε → Option Bool
  | .idle => none
  | .stat forced _ => some forced
  | .check forced _ => some forced
  | .lock forced _ => some forced
  | .read forced _ _ => some forced
  | .returned r => some r.forced

/-- The call neither reads nor has returned. -/
def Phase.quiet : Phase κ τ ε → Bool
  | .read .. => false
  | .returned _ => false
  | _ => true

/-- The value was parsed from its sources, one per file. -/
structure Built.Of (L : Loader κ τ ε) (b : Built κ τ) : Prop where
  length : b.sources.length = L.files
  parse : L.parse (b.sources.map Source.content) = .ok b.value

/-- What is held and what is returned was parsed, and one call reads at
a time. -/
structure Parsed (L : Loader κ τ ε) (w : World κ τ ε) : Prop where
  held : w.shared.loaded = true → w.shared.val.Of L
  returned : ∀ t r, w.calls t = .returned r → r.err = none →
    r.value.Of L ∧ w.shared.loaded = true
  lock : ∀ t, (w.calls t).holds = true → w.writer = some t

/-- A list of sources, one per file, all with the property. -/
def All (Q : Nat → Source κ → Prop) (sources : List (Source κ)) : Prop :=
  ∀ (i : Nat) (b : Source κ), sources[i]? = some b → Q i b

/-- The contents on disk have the property. -/
def OnDisk (Q : Nat → Source κ → Prop) (disk : Nat → File κ) : Prop :=
  ∀ i c, (disk i).content = some c → Q i ⟨c, (disk i).version⟩

/-- What is held and what is being read has the property, and so has
what was returned to the calls in `S`. -/
structure Tracked (Q : Nat → Source κ → Prop) (S : Nat → Prop)
    (w : World κ τ ε) : Prop where
  held : All Q w.shared.val.sources
  reading : ∀ t forced seen got, w.calls t = .read forced seen got →
    All Q got
  returned : ∀ t r, S t → w.calls t = .returned r →
    All Q r.value.sources

/-- The error of a value that is kept for too long. -/
def TooOld (maxStale : Option Int) (err : GetError ε) : Prop :=
  ∃ limit cause, maxStale = some limit ∧ 0 < limit
    ∧ err = .keptPast limit cause

/-- A loader with a value: a call that is not forced fails only because
the value is too old. -/
structure Serving (maxStale : Option Int) (w : World κ τ ε) : Prop where
  loaded : w.shared.loaded = true
  returned : ∀ t r, w.calls t = .returned r → r.forced = false →
    ∀ err, r.err = some err → TooOld maxStale err

section Moves

variable {L : Loader κ τ ε} {maxStale : Option Int} {t : Nat}
  {w : World κ τ ε} {Q : Nat → Source κ → Prop} {S : Nat → Prop}

/-- The call itself, after its own move. -/
theorem calls_setCall (w : World κ τ ε) (t : Nat) (ph : Phase κ τ ε) :
    (w.setCall t ph).calls t = ph :=
  Function.update_self _ _ _

/-- The call is in the phase that it moved to, or it is another call. -/
theorem calls_update_cases {calls : Nat → Phase κ τ ε} {t t' : Nat}
    {ph ph' : Phase κ τ ε} (h : Function.update calls t ph t' = ph') :
    (t' = t ∧ ph' = ph) ∨ (t' ≠ t ∧ calls t' = ph') := by
  by_cases ht : t' = t
  · subst ht
    rw [Function.update_self] at h
    exact .inl ⟨rfl, h.symm⟩
  · rw [Function.update_of_ne ht] at h
    exact .inr ⟨ht, h⟩

theorem holds_update_cases {calls : Nat → Phase κ τ ε} {t t' : Nat}
    {ph : Phase κ τ ε}
    (h : (Function.update calls t ph t').holds = true) :
    (t' = t ∧ ph.holds = true) ∨ (t' ≠ t ∧ (calls t').holds = true) := by
  by_cases ht : t' = t
  · subst ht
    rw [Function.update_self] at h
    exact .inl ⟨rfl, h⟩
  · rw [Function.update_of_ne ht] at h
    exact .inr ⟨ht, h⟩

/-- A move that returns nothing, and takes no lock. -/
theorem Parsed.move (hI : Parsed L w) {ph : Phase κ τ ε}
    (hlock : ph.holds = true → w.writer = some t)
    (hret : ∀ r, ph ≠ .returned r) : Parsed L (w.setCall t ph) := by
  refine ⟨hI.held, fun t' r hr herr => ?_, fun t' ht' => ?_⟩
  · rcases calls_update_cases hr with ⟨-, heq⟩ | ⟨-, hr⟩
    · exact absurd heq.symm (hret r)
    · exact hI.returned t' r hr herr
  · rcases holds_update_cases ht' with ⟨rfl, hp⟩ | ⟨-, hp⟩
    · exact hlock hp
    · exact hI.lock t' hp

/-- Nobody reads while the lock is free. -/
theorem Parsed.not_holds (hI : Parsed L w) (hfree : w.writer = none)
    (t : Nat) : (w.calls t).holds = false := by
  cases h : (w.calls t).holds with
  | false => rfl
  | true => cases hfree.symm.trans (hI.lock t h)

/-- Nobody else reads while a call does. -/
theorem Parsed.alone (hI : Parsed L w)
    (hread : (w.calls t).holds = true) {t' : Nat} (hne : t' ≠ t) :
    (w.calls t').holds = false := by
  cases h : (w.calls t').holds with
  | false => rfl
  | true =>
      have heq := (hI.lock t' h).symm.trans (hI.lock t hread)
      exact absurd (Option.some.inj heq) hne

theorem All.nil : All Q [] := fun i b hb => by
  rw [List.getElem?_nil] at hb
  cases hb

theorem All.snoc {got : List (Source κ)} {b : Source κ} (h : All Q got)
    (hb : Q got.length b) : All Q (got ++ [b]) := by
  intro i g hg
  rcases getElem?_append_one hg with hg | ⟨rfl, rfl⟩
  · exact h i g hg
  · exact hb

theorem Tracked.move (hT : Tracked Q S w) {ph : Phase κ τ ε}
    (hread : ∀ forced seen got, ph = .read forced seen got → All Q got)
    (hret : ∀ r, S t → ph = .returned r → All Q r.value.sources) :
    Tracked Q S (w.setCall t ph) := by
  refine ⟨hT.held, fun t' forced seen got h => ?_, fun t' r hS h => ?_⟩
  · rcases calls_update_cases h with ⟨-, heq⟩ | ⟨-, h⟩
    · exact hread forced seen got heq.symm
    · exact hT.reading t' forced seen got h
  · rcases calls_update_cases h with ⟨rfl, heq⟩ | ⟨-, h⟩
    · exact hret r hS heq.symm
    · exact hT.returned t' r hS h

theorem Serving.move (hS : Serving maxStale w) {ph : Phase κ τ ε}
    (hret : ∀ r, ph = .returned r → r.forced = false → ∀ err,
      r.err = some err → TooOld maxStale err) :
    Serving maxStale (w.setCall t ph) := by
  refine ⟨hS.loaded, fun t' r hr => ?_⟩
  rcases calls_update_cases hr with ⟨-, heq⟩ | ⟨-, hr⟩
  · exact hret r heq.symm
  · exact hS.returned t' r hr

end Moves

-- ==== steps

variable [Inhabited τ]

/-- The steps of call `t`; `start` says whether it begins forced. -/
inductive CallStep (L : Loader κ τ ε) (start : Bool)
    (maxStale : Option Int) (t : Nat) (w : World κ τ ε) :
    World κ τ ε → Prop where
  | quiet {ph : Phase κ τ ε} (hquiet : ph.quiet = true)
      (hstart : ph.start = some ((w.calls t).start.getD start)) :
      CallStep L start maxStale t w (w.setCall t ph)
  | kept {forced : Bool} {seen : Option (List Seen)} {now : Int}
      {kept : Built κ τ × Option (GetError ε)}
      (hcall : (w.calls t).start = some forced) (hfree : w.writer = none)
      (hkept : w.shared.fromKept maxStale forced (stampOf seen) now
        = some kept) :
      CallStep L start maxStale t w (w.keep t forced seen kept)
  | locked {forced : Bool} {seen : Option (List Seen)}
      (hcall : (w.calls t).start = some forced) (hfree : w.writer = none) :
      CallStep L start maxStale t w
        { w.setCall t (.read forced seen []) with writer := some t }
  | read {forced : Bool} {seen : Option (List Seen)}
      {got : List (Source κ)} {c : κ}
      (hcall : w.calls t = .read forced seen got)
      (hc : (w.disk got.length).content = some c) :
      CallStep L start maxStale t w (w.setCall t (.read forced seen
        (got ++ [⟨c, (w.disk got.length).version⟩])))
  | failed {forced : Bool} {seen : Option (List Seen)}
      {got : List (Source κ)} {e : ε} {nowFail nowAfter : Int}
      (hcall : w.calls t = .read forced seen got) :
      CallStep L start maxStale t w
        (w.finish t forced seen (.error e) maxStale nowFail nowAfter)
  | loaded {forced : Bool} {seen : Option (List Seen)}
      {got : List (Source κ)} {v : τ} {nowFail nowAfter : Int}
      (hcall : w.calls t = .read forced seen got)
      (hlen : got.length = L.files)
      (hparse : L.parse (got.map Source.content) = .ok v) :
      CallStep L start maxStale t w
        (w.finish t forced seen (.ok ⟨v, got⟩) maxStale nowFail nowAfter)

/-- The machine takes no other steps. -/
theorem callStep_of_inner {L : Loader GoString τ GoString}
    {maxStale : Option Int} {t : Nat} {forced : Bool} {i : Inner}
    {w w' : World GoString τ GoString}
    (h : Tls.step L (i.action t forced maxStale) w = some w') :
    CallStep L forced maxStale t w w' := by
  have hquiet : ∀ {ph ph' : Phase GoString τ GoString},
      w.calls t = ph → ph'.quiet = true → ph'.start
        = some (ph.start.getD forced) →
      CallStep L forced maxStale t w (w.setCall t ph') :=
    fun hcall hq hs => .quiet hq (hcall ▸ hs)
  cases i with
  | begin =>
      simp only [Inner.action, Tls.step] at h
      split at h
      · cases h
        exact hquiet ‹_› rfl rfl
      · cases h
  | stat =>
      simp only [Inner.action, Tls.step] at h
      split at h
      case h_2 => cases h
      case h_1 forced seen hcall =>
      split at h
      · cases h
        exact hquiet hcall rfl rfl
      · split at h
        · cases h
        · cases h
          exact hquiet hcall rfl rfl
  | statError =>
      simp only [Inner.action, Tls.step] at h
      split at h
      · cases h
        exact hquiet ‹_› rfl rfl
      · cases h
  | check now =>
      simp only [Inner.action, Tls.step] at h
      split at h
      case h_2 => cases h
      case h_1 forced seen hcall hfree =>
      split at h
      · cases h
        exact .kept (by rw [hcall]; rfl) hfree ‹_›
      · cases h
        exact hquiet hcall rfl rfl
  | lock now =>
      simp only [Inner.action, Tls.step] at h
      split at h
      case h_2 => cases h
      case h_1 forced seen hcall hfree =>
      split at h
      · cases h
        exact .kept (by rw [hcall]; rfl) hfree ‹_›
      · cases h
        exact .locked (by rw [hcall]; rfl) hfree
  | read =>
      simp only [Inner.action, Tls.step] at h
      split at h
      case h_2 => cases h
      case h_1 forced seen got hcall =>
      split at h
      · cases h
      · split at h
        · cases h
        · cases h
          exact .read hcall ‹_›
  | readError err nowFail nowAfter =>
      simp only [Inner.action, Tls.step] at h
      split at h
      · cases h
        exact .failed ‹_›
      · cases h
  | parse nowFail nowAfter =>
      simp only [Inner.action, Tls.step] at h
      split at h
      case h_2 => cases h
      case h_1 forced seen got hcall =>
      split at h
      case isFalse => cases h
      case isTrue hlen =>
      cases h
      cases hparse : L.parse (got.map Source.content) with
      | error e => exact .failed hcall
      | ok v => exact .loaded hcall hlen hparse

/-- What a step of the system is for one loader. -/
inductive LoaderStep (L : Loader κ τ ε) (maxStale : Option Int)
    (w : World κ τ ε) : World κ τ ε → Prop where
  | files {disk : Nat → File κ} :
      LoaderStep L maxStale w { w with disk := disk }
  | call {start : Bool} {t : Nat} {w' : World κ τ ε}
      (h : CallStep L start maxStale t w w') : LoaderStep L maxStale w w'
  | collected {t : Nat} : LoaderStep L maxStale w (w.setCall t .idle)

section Facts

variable {L : Loader κ τ ε} {start : Bool} {maxStale : Option Int}
  {t : Nat} {w w' : World κ τ ε} {Q : Nat → Source κ → Prop}
  {S : Nat → Prop}

/-- The disk is the writers'. -/
theorem CallStep.disk_eq (h : CallStep L start maxStale t w w') :
    w'.disk = w.disk := by
  cases h <;> rfl

/-- A call leaves the other calls where they are. -/
theorem CallStep.calls_of_ne (h : CallStep L start maxStale t w w')
    {t' : Nat} (hne : t' ≠ t) : w'.calls t' = w.calls t' := by
  cases h <;> exact Function.update_of_ne hne _ _

/-- A call stays forced, or not, until it has returned. -/
theorem CallStep.start_eq (h : CallStep L start maxStale t w w')
    (hstart : ∀ f, (w.calls t).start = some f → f = start) :
    (w'.calls t).start = some start := by
  have hself : ∀ {ph : Phase κ τ ε} {f : Bool}, w.calls t = ph →
      ph.start = some f → f = start := fun hcall hf =>
    hstart _ (hcall ▸ hf)
  cases h with
  | quiet hquiet hs =>
      rw [calls_setCall, hs]
      cases hf : (w.calls t).start with
      | none => rfl
      | some f => exact congrArg some (hstart f hf)
  | kept hcall hfree hkept =>
      rw [World.keep, calls_setCall, ← hstart _ hcall]
      rfl
  | locked hcall hfree =>
      simp only [World.setCall, Function.update_self]
      rw [← hstart _ hcall]
      rfl
  | read hcall hc =>
      rw [calls_setCall, ← hself hcall rfl]
      rfl
  | failed hcall =>
      simp only [World.finish, Function.update_self]
      rw [← hself hcall rfl]
      rfl
  | loaded hcall hlen hparse =>
      simp only [World.finish, Function.update_self]
      rw [← hself hcall rfl]
      rfl

/-- A kept value is the value held, which is loaded. -/
theorem fromKept_eq_some {f : FileValue τ ε} {forced : Bool}
    {stat : Option Stamp} {now : Int} {kept : τ × Option (GetError ε)}
    (h : f.fromKept maxStale forced stat now = some kept) :
    forced = false ∧ f.loaded = true ∧ kept = f.keptLocked maxStale now := by
  unfold FileValue.fromKept at h
  split at h
  · rename_i hsettled
    rw [Bool.and_eq_true, Bool.not_eq_true'] at hsettled
    exact ⟨hsettled.1, loaded_of_settledLocked hsettled.2,
      (Option.some.inj h).symm⟩
  · cases h

/-- A failed read leaves the value; what it returns without an error is
the value held. -/
theorem afterRead_error (f : FileValue τ ε) (maxStale : Option Int)
    (forced : Bool) (stat : Option Stamp) (e : ε)
    (nowFail nowAfter : Int) :
    let out := f.afterRead maxStale forced stat (.error e) nowFail nowAfter
    out.2.val = f.val ∧ out.2.loaded = f.loaded
      ∧ (out.1.err = none → f.loaded = true ∧ forced = false
        ∧ out.1.value = f.val) := by
  intro out
  by_cases hl : f.loaded = true
  · have hstate : out.2 = _ := afterRead_error_loaded hl
    refine ⟨by rw [hstate], by rw [hstate], fun herr => ?_⟩
    cases forced with
    | true => simp [out, FileValue.afterRead, hl] at herr
    | false =>
        refine ⟨hl, rfl, ?_⟩
        simp only [out, FileValue.afterRead, hl, Bool.not_true,
          Bool.false_eq_true, if_false] at herr ⊢
        exact keptLocked_val herr
  · have hstate : out.2 = f := afterRead_error_unloaded hl
    refine ⟨by rw [hstate], by rw [hstate], fun herr => ?_⟩
    simp [out, FileValue.afterRead, hl] at herr

/-- A loader that has a value keeps one. -/
theorem LoaderStep.loaded_mono (h : LoaderStep L maxStale w w')
    (hloaded : w.shared.loaded = true) : w'.shared.loaded = true := by
  cases h with
  | files => exact hloaded
  | collected => exact hloaded
  | call h =>
      cases h with
      | failed hcall =>
          exact (afterRead_error _ _ _ _ _ _ _).2.1.trans hloaded
      | loaded hcall hlen hparse => rfl
      | quiet | kept | locked | read => exact hloaded

-- ==== parsed

theorem Parsed.finish (hI : Parsed L w)
    (hread : (w.calls t).holds = true) {forced : Bool}
    {seen : Option (List Seen)} {read : Except ε (Built κ τ)}
    {nowFail nowAfter : Int} (hok : ∀ b, read = .ok b → b.Of L) :
    Parsed L (w.finish t forced seen read maxStale nowFail nowAfter) := by
  have hothers : ∀ t', ((w.finish t forced seen read maxStale nowFail
      nowAfter).calls t').holds = true → False := by
    intro t' h
    rcases holds_update_cases h with ⟨-, h⟩ | ⟨hne, h⟩
    · cases h
    · cases (hI.alone hread hne).symm.trans h
  cases read with
  | error e =>
      obtain ⟨hval, hloaded, hret⟩ := afterRead_error w.shared maxStale
        forced (stampOf seen) e nowFail nowAfter
      refine ⟨fun h => ?_, fun t' r hr herr => ?_,
        fun t' h => (hothers t' h).elim⟩
      · have hheld := hI.held (hloaded ▸ h)
        rw [← hval] at hheld
        exact hheld
      · rcases calls_update_cases hr with ⟨-, heq⟩ | ⟨-, hr⟩
        · cases heq
          obtain ⟨hl, -, hv⟩ := hret herr
          have hheld := hI.held hl
          rw [← hv] at hheld
          exact ⟨hheld, hloaded.trans hl⟩
        · obtain ⟨hof, hl⟩ := hI.returned t' r hr herr
          exact ⟨hof, hloaded.trans hl⟩
  | ok b =>
      refine ⟨fun _ => hok b rfl, fun t' r hr herr => ?_,
        fun t' h => (hothers t' h).elim⟩
      rcases calls_update_cases hr with ⟨-, heq⟩ | ⟨-, hr⟩
      · cases heq
        exact ⟨hok b rfl, rfl⟩
      · exact ⟨(hI.returned t' r hr herr).1, rfl⟩

theorem Parsed.call (hI : Parsed L w)
    (h : CallStep L start maxStale t w w') : Parsed L w' := by
  cases h with
  | @quiet ph hquiet hstart =>
      refine hI.move (fun hp => ?_) fun r hr => ?_
      · cases ph with
        | read => cases hquiet
        | idle | stat | check | lock | returned => cases hp
      · rw [hr] at hquiet
        cases hquiet
  | kept hcall hfree hkept =>
      obtain ⟨-, hloaded, rfl⟩ := fromKept_eq_some hkept
      refine ⟨hI.held, fun t' r hr herr => ?_, fun t' ht' => ?_⟩
      · rcases calls_update_cases hr with ⟨-, heq⟩ | ⟨-, hr⟩
        · cases heq
          have hheld := hI.held hloaded
          rw [← keptLocked_val herr] at hheld
          exact ⟨hheld, hloaded⟩
        · exact hI.returned t' r hr herr
      · rcases holds_update_cases ht' with ⟨-, ht'⟩ | ⟨-, ht'⟩
        · cases ht'
        · exact hI.lock t' ht'
  | locked hcall hfree =>
      refine ⟨hI.held, fun t' r hr herr => ?_, fun t' ht' => ?_⟩
      · rcases calls_update_cases hr with ⟨-, heq⟩ | ⟨-, hr⟩
        · cases heq
        · exact hI.returned t' r hr herr
      · rcases holds_update_cases ht' with ⟨rfl, -⟩ | ⟨-, ht'⟩
        · rfl
        · cases (hI.not_holds hfree t').symm.trans ht'
  | read hcall hc =>
      exact hI.move (fun _ => hI.lock t (by rw [hcall]; rfl))
        fun r h => by cases h
  | failed hcall =>
      exact hI.finish (by rw [hcall]; rfl) fun b h => by cases h
  | loaded hcall hlen hparse =>
      refine hI.finish (by rw [hcall]; rfl) fun b hb => ?_
      cases hb
      exact ⟨hlen, hparse⟩

theorem Parsed.step (hI : Parsed L w) (h : LoaderStep L maxStale w w') :
    Parsed L w' := by
  cases h with
  | files => exact ⟨hI.held, hI.returned, hI.lock⟩
  | call h => exact hI.call h
  | collected =>
      exact hI.move (fun h => by cases h) fun r h => by cases h

-- ==== tracked

/-- A kept value is the value held, or nothing. -/
theorem All.keptLocked {f : FileValue (Built κ τ) ε}
    (h : All Q f.val.sources) (now : Int) :
    All Q (f.keptLocked maxStale now).1.sources := by
  cases maxStale with
  | none => exact h
  | some limit =>
      unfold FileValue.keptLocked
      dsimp only
      split
      · exact All.nil
      · exact h

/-- What a call returns after its read, and the value that it leaves. -/
theorem All.afterRead {f : FileValue (Built κ τ) ε}
    (h : All Q f.val.sources) {read : Except ε (Built κ τ)}
    (hread : ∀ b, read = .ok b → All Q b.sources) (forced : Bool)
    (stat : Option Stamp) (nowFail nowAfter : Int) :
    let out := f.afterRead maxStale forced stat read nowFail nowAfter
    All Q out.1.value.sources ∧ All Q out.2.val.sources := by
  cases read with
  | ok b => exact ⟨hread b rfl, hread b rfl⟩
  | error e =>
      dsimp only [FileValue.afterRead]
      split
      · exact ⟨All.nil, h⟩
      · split
        · exact ⟨All.keptLocked (by exact h) _, h⟩
        · exact ⟨All.keptLocked (by exact h) _, h⟩

theorem Tracked.finish (hT : Tracked Q S w) {forced : Bool}
    {seen : Option (List Seen)} {read : Except ε (Built κ τ)}
    {nowFail nowAfter : Int}
    (hread : ∀ b, read = .ok b → All Q b.sources) :
    Tracked Q S
      (w.finish t forced seen read maxStale nowFail nowAfter) := by
  obtain ⟨hvalue, hheld⟩ := hT.held.afterRead hread forced (stampOf seen)
    nowFail nowAfter
  refine ⟨hheld, fun t' forced' seen' got h => ?_, fun t' r hS h => ?_⟩
  · rcases calls_update_cases h with ⟨-, heq⟩ | ⟨-, h⟩
    · cases heq
    · exact hT.reading t' forced' seen' got h
  · rcases calls_update_cases h with ⟨rfl, heq⟩ | ⟨-, h⟩
    · cases heq
      exact hvalue
    · exact hT.returned t' r hS h

theorem Tracked.call (hT : Tracked Q S w) (hdisk : OnDisk Q w.disk)
    (h : CallStep L start maxStale t w w') : Tracked Q S w' := by
  cases h with
  | quiet hquiet hstart =>
      refine hT.move (fun _ _ _ h => ?_) fun _ _ h => ?_
      · rw [h] at hquiet
        cases hquiet
      · rw [h] at hquiet
        cases hquiet
  | kept hcall hfree hkept =>
      obtain ⟨-, -, rfl⟩ := fromKept_eq_some hkept
      refine hT.move (fun _ _ _ h => by cases h) fun r _ hr => ?_
      cases hr
      exact hT.held.keptLocked _
  | @locked forced seen hcall hfree =>
      have hmove : Tracked Q S (w.setCall t (.read forced seen [])) :=
        hT.move (fun _ _ _ h => by cases h; exact All.nil)
          fun _ _ h => by cases h
      exact ⟨hmove.held, hmove.reading, hmove.returned⟩
  | read hcall hc =>
      refine hT.move (fun forced seen got h => ?_) fun _ _ h => by cases h
      cases h
      exact (hT.reading t _ _ _ hcall).snoc (hdisk _ _ hc)
  | failed hcall => exact hT.finish fun b h => by cases h
  | loaded hcall hlen hparse =>
      refine hT.finish fun b hb => ?_
      cases hb
      exact hT.reading t _ _ _ hcall

theorem Tracked.step (hT : Tracked Q S w) (hdisk : OnDisk Q w.disk)
    (h : LoaderStep L maxStale w w') : Tracked Q S w' := by
  cases h with
  | files => exact ⟨hT.held, hT.reading, hT.returned⟩
  | call h => exact hT.call hdisk h
  | collected =>
      exact hT.move (fun _ _ _ h => by cases h) fun _ _ h => by cases h

-- ==== serving

/-- A kept value is refused with an error that says so. -/
theorem tooOld_of_keptLocked {f : FileValue τ ε} {now : Int}
    {err : GetError ε} (h : (f.keptLocked maxStale now).2 = some err) :
    TooOld maxStale err := by
  cases maxStale with
  | none => cases h
  | some limit =>
      unfold FileValue.keptLocked at h
      dsimp only at h
      split at h
      · rename_i hold
        exact ⟨limit, f.failErr, rfl, hold.1, (Option.some.inj h).symm⟩
      · cases h

theorem Serving.finish (hS : Serving maxStale w) {forced : Bool}
    {seen : Option (List Seen)} {read : Except ε (Built κ τ)}
    {nowFail nowAfter : Int} :
    Serving maxStale
      (w.finish t forced seen read maxStale nowFail nowAfter) := by
  cases read with
  | ok b =>
      refine ⟨rfl, fun t' r hr hforced err herr => ?_⟩
      rcases calls_update_cases hr with ⟨-, heq⟩ | ⟨-, hr⟩
      · cases heq
        cases herr
      · exact hS.returned t' r hr hforced err herr
  | error e =>
      obtain ⟨-, hloaded, -⟩ := afterRead_error w.shared maxStale forced
        (stampOf seen) e nowFail nowAfter
      refine ⟨hloaded.trans hS.loaded, fun t' r hr hforced err herr => ?_⟩
      rcases calls_update_cases hr with ⟨-, heq⟩ | ⟨-, hr⟩
      · cases heq
        subst hforced
        simp only [FileValue.afterRead, hS.loaded, Bool.not_true,
          Bool.false_eq_true, if_false] at herr
        exact tooOld_of_keptLocked herr
      · exact hS.returned t' r hr hforced err herr

theorem Serving.step (hS : Serving maxStale w)
    (h : LoaderStep L maxStale w w') : Serving maxStale w' := by
  cases h with
  | files => exact ⟨hS.loaded, hS.returned⟩
  | collected => exact hS.move fun r h => by cases h
  | @call start t w' h =>
      cases h with
      | quiet hquiet hstart =>
          refine hS.move fun r hr => ?_
          rw [hr] at hquiet
          cases hquiet
      | kept hcall hfree hkept =>
          obtain ⟨-, -, rfl⟩ := fromKept_eq_some hkept
          refine hS.move fun r hr _ err herr => ?_
          cases hr
          exact tooOld_of_keptLocked herr
      | @locked forced seen hcall hfree =>
          have hmove : Serving maxStale
              (w.setCall t (.read forced seen [])) :=
            hS.move fun r h => by cases h
          exact ⟨hmove.loaded, hmove.returned⟩
      | read hcall hc => exact hS.move fun r h => by cases h
      | failed hcall => exact hS.finish
      | loaded hcall hlen hparse => exact hS.finish

end Facts

end Tokyo3Base.Tls
