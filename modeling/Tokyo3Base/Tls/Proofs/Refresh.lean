/-
`Refresh` takes effect: what a call that begins after it uses is not
older than the files were when it began. Nothing is assumed about the
writers, so this covers contents that were given an old mtime.

# The argument

`NotBefore f b`: the source `b` is what the file was at `f`, or newer.
`Refresh` goes through the loaders one after the other, while other
calls and the writers go on. While it is in a loader, its call is forced
and reads nothing that is older (`Phase.Since`); when it leaves the
loader, what that holds is not older and nobody else is reading
(`Caught`, with the lock); from then on a read can only bring newer
contents. `Sweeping` puts this together over the loaders that are still
to come, and `Later` follows a call that begins when the sweep is over.
-/
import Tokyo3Base.Tls.Proofs.Serving

namespace Tokyo3Base.Tls

open Go

section Versions

variable {κ : Type}

/-- A file at a later time: its contents have changed, or are the
same. -/
def File.Since (f g : File κ) : Prop :=
  f.version < g.version ∨ f.version = g.version ∧ f.content = g.content

/-- The contents that the file had, or later ones. -/
def NotBefore (f : File κ) (b : Source κ) : Prop :=
  f.version < b.version ∨ f.version = b.version ∧ f.content = some b.content

theorem File.Since.refl (f : File κ) : f.Since f := .inr ⟨rfl, rfl⟩

theorem File.Since.trans {f g h : File κ} (hfg : f.Since g)
    (hgh : g.Since h) : f.Since h := by
  rcases hfg with hlt | ⟨hv, hc⟩
  · rcases hgh with hlt' | ⟨hv', -⟩
    · exact .inl (Nat.lt_trans hlt hlt')
    · exact .inl (hv' ▸ hlt)
  · rcases hgh with hlt' | ⟨hv', hc'⟩
    · exact .inl (hv ▸ hlt')
    · exact .inr ⟨hv.trans hv', hc.trans hc'⟩

/-- What is read now is not older. -/
theorem File.Since.notBefore {f g : File κ} (h : f.Since g) {c : κ}
    (hc : g.content = some c) : NotBefore f ⟨c, g.version⟩ := by
  rcases h with hlt | ⟨hv, hc'⟩
  · exact .inl hlt
  · exact .inr ⟨hv, hc'.trans hc⟩

end Versions

section Loader

variable {κ τ ε : Type} {f₁ : Nat → File κ}

/-- What is held and read is not older than the files were. -/
abbrev Caught (f₁ : Nat → File κ) (S : Nat → Prop) (w : World κ τ ε) :
    Prop :=
  Tracked (fun i => NotBefore (f₁ i)) S w

/-- What a forced call knows that began after the files were at `f₁`. -/
def Phase.Since (f₁ : Nat → File κ) (w : World κ τ ε) :
    Phase κ τ ε → Prop
  | .read _ _ got => All (fun i => NotBefore (f₁ i)) got
  | .returned r => r.err = none → Caught f₁ (fun _ => False) w
  | _ => True

theorem since_of_quiet {w : World κ τ ε} {ph : Phase κ τ ε}
    (h : ph.quiet = true) : ph.Since f₁ w := by
  cases ph with
  | read | returned => cases h
  | idle | stat | check | lock => trivial

variable [Inhabited τ] {L : Loader κ τ ε} {maxStale : Option Int}
  {t : Nat} {w w' : World κ τ ε}

/-- A step of somebody else. -/
theorem Phase.Since.other (h : (w.calls t).Since f₁ w)
    (hdisk : ∀ i, (f₁ i).Since (w.disk i))
    (hstep : LoaderStep L maxStale w w')
    (hcalls : w'.calls t = w.calls t) : (w'.calls t).Since f₁ w' := by
  rw [hcalls]
  cases hph : w.calls t with
  | returned r =>
      rw [hph] at h
      exact fun herr =>
        (h herr).step (fun i _ hc => (hdisk i).notBefore hc) hstep
  | read =>
      rw [hph] at h
      exact h
  | idle | stat | check | lock => trivial

/-- A call that has read what it parsed is alone in the lock. -/
theorem caught_of_loaded {forced : Bool} {seen : Option (List Seen)}
    {got : List (Source κ)} {v : τ} {nowFail nowAfter : Int}
    (hparsed : Parsed L w) (hcall : w.calls t = .read forced seen got)
    (hgot : All (fun i => NotBefore (f₁ i)) got) :
    Caught f₁ (fun _ => False)
      (w.finish t forced seen (.ok ⟨v, got⟩) maxStale nowFail
        nowAfter) := by
  refine ⟨hgot, fun t' forced' seen' got' h => ?_, fun _ _ h => h.elim⟩
  rcases calls_update_cases h with ⟨-, heq⟩ | ⟨hne, h⟩
  · cases heq
  · have hholds := hparsed.alone (by rw [hcall]; rfl) hne
    rw [h] at hholds
    cases hholds

/-- The call's own step. The mtime gate is not for it, and a failed read
shows. -/
theorem Phase.Since.own (h : (w.calls t).Since f₁ w)
    (hdisk : ∀ i, (f₁ i).Since (w.disk i)) (hparsed : Parsed L w)
    (hstart : ∀ f, (w.calls t).start = some f → f = true)
    (hstep : CallStep L true maxStale t w w') :
    (w'.calls t).Since f₁ w' := by
  cases hstep with
  | quiet hquiet hs =>
      rw [calls_setCall]
      exact since_of_quiet hquiet
  | kept hcall hfree hkept =>
      cases (hstart _ hcall).symm.trans (fromKept_eq_some hkept).1
  | locked hcall hfree =>
      simp only [World.setCall, Function.update_self]
      exact All.nil
  | read hcall hc =>
      rw [calls_setCall]
      rw [hcall] at h
      exact All.snoc h ((hdisk _).notBefore hc)
  | @failed forced seen got e nowFail nowAfter hcall =>
      simp only [World.finish, Function.update_self]
      intro herr
      obtain ⟨-, hforced, -⟩ := (afterRead_error w.shared maxStale forced
        (stampOf seen) e nowFail nowAfter).2.2 herr
      cases (hstart forced (by rw [hcall]; rfl)).symm.trans hforced
  | loaded hcall hlen hparse =>
      simp only [World.finish, Function.update_self]
      intro _
      rw [hcall] at h
      exact caught_of_loaded hparsed hcall h

end Loader

-- ==== the sweep

variable {C P X : Type} {x : X509 C P X} {cfg : Config}
  {s s' : Reloader C P X}

/-- How far a `Refresh` is: the loaders that it has not left, and the
errors of the others. -/
def Task.progress : Task C P X →
    Option (List Slot × List (Slot × GetError GoString))
  | .refresh todo errs => some (todo, errs)
  | .done (.refreshed errs) => some ([], errs)
  | _ => none

theorem progress_refreshFrom (errs : List (Slot × GetError GoString))
    (todo : List Slot) :
    (Task.refreshFrom errs todo : Task C P X).progress
      = some (todo, errs) := by
  cases todo with
  | nil => rfl
  | cons k todo => rfl

/-- A sweep is in the first of the loaders that it has not left, with a
forced call; it leaves it, and an error shows. -/
theorem progress_after {task : Task C P X} {todo : List Slot}
    {errs : List (Slot × GetError GoString)}
    (h : task.progress = some (todo, errs)) {k : Slot} {forced : Bool}
    (hcurrent : task.current = some (k, forced)) :
    forced = true ∧ ∃ todo', todo = k :: todo'
      ∧ ∀ r : LoadReturn C P, ∃ errs',
        (task.after x r).progress = some (todo', errs')
          ∧ (errs' = [] → errs = [] ∧ r.err = none) := by
  cases task with
  | idle | new | tick | getClientCertificate | verify => cases h
  | done a => cases hcurrent
  | refresh todo₁ errs₁ =>
      cases h
      cases todo with
      | nil => cases hcurrent
      | cons k todo =>
          cases hcurrent
          refine ⟨rfl, todo, rfl, fun r => ?_⟩
          simp only [Task.after]
          cases herr : r.err with
          | none =>
              exact ⟨errs, progress_refreshFrom errs todo,
                fun h => ⟨h, rfl⟩⟩
          | some err =>
              refine ⟨_, progress_refreshFrom _ todo, fun h => ?_⟩
              exact absurd h (List.append_ne_nil_of_right_ne_nil _
                (List.cons_ne_nil _ _))

/-- The files only go forward. -/
theorem ReloaderStep.disk_since {a : ReloaderAction X}
    (h : ReloaderStep x cfg s a s') (path : GoString) :
    (s.disk path).Since (s'.disk path) := by
  cases h with
  | task | inner | collect => exact File.Since.refl _
  | @file path' f hfile =>
      have hf : (s.disk path').Since f := by
        cases hfile with
        | write => exact .inl (Nat.lt_succ_self _)
        | touch => exact .inr ⟨rfl, rfl⟩
        | remove => exact .inl (Nat.lt_succ_self _)
      by_cases hp : path = path'
      · subst hp
        simpa only [Reloader.setFile, Function.update_self] using hf
      · simp only [Reloader.setFile, Function.update_of_ne hp]
        exact File.Since.refl _

/-- The files of a loader, as they were. -/
def filesOf (cfg : Config) (disk₁ : GoString → File GoString) (k : Slot) :
    Nat → File GoString :=
  fun i => disk₁ (cfg.file k i)

/-- Sweep `t` began when the disk was `disk₁`. It has not left loader
`k`, or met an error, or what `k` holds is not older than its files were
then. -/
structure Sweeping (cfg : Config) (disk₁ : GoString → File GoString)
    (t : Nat) (k : Slot) (s : Reloader C P X) : Prop where
  disk : ∀ path, (disk₁ path).Since (s.disk path)
  call : ((s.world cfg k).calls t).Since (filesOf cfg disk₁ k)
    (s.world cfg k)
  progress : ∃ todo errs, (s.tasks t).progress = some (todo, errs)
    ∧ (errs = [] → k ∈ todo
      ∨ Caught (filesOf cfg disk₁ k) (fun _ => False) (s.world cfg k))

section Sweeping

variable {disk₁ : GoString → File GoString} {t : Nat} {k : Slot}

theorem Sweeping.caught_step {a : ReloaderAction X} {S : Nat → Prop}
    (hdisk : ∀ path, (disk₁ path).Since (s.disk path))
    (h : ReloaderStep x cfg s a s')
    (hc : Caught (filesOf cfg disk₁ k) S (s.world cfg k)) :
    Caught (filesOf cfg disk₁ k) S (s'.world cfg k) :=
  hc.step (fun _ _ hc => (hdisk _).notBefore hc) (h.loader k)

theorem Sweeping.other {a : ReloaderAction X}
    (hI : Sweeping cfg disk₁ t k s) (h : ReloaderStep x cfg s a s')
    (htask : s'.tasks t = s.tasks t)
    (hcall : ((s'.world cfg k).calls t).Since (filesOf cfg disk₁ k)
      (s'.world cfg k)) : Sweeping cfg disk₁ t k s' := by
  obtain ⟨todo, errs, hprogress, hcaught⟩ := hI.progress
  exact ⟨fun path => (hI.disk path).trans (h.disk_since path), hcall,
    todo, errs, htask ▸ hprogress, fun herrs =>
      (hcaught herrs).imp_right (caught_step hI.disk h)⟩

theorem Sweeping.collect {a : ReloaderAction X}
    (hI : Sweeping cfg disk₁ t k s) {k' : Slot} {forced : Bool}
    {r : LoadReturn C P}
    (hcurrent : (s.tasks t).current = some (k', forced))
    (hret : (s.world cfg k').calls t = .returned r)
    (h : ReloaderStep x cfg s a s')
    (htask : s'.tasks t = (s.tasks t).after x r)
    (hcall : ((s'.world cfg k).calls t).Since (filesOf cfg disk₁ k)
      (s'.world cfg k)) : Sweeping cfg disk₁ t k s' := by
  obtain ⟨todo, errs, hprogress, hcaught⟩ := hI.progress
  obtain ⟨-, todo', rfl, hafter⟩ :=
    progress_after (x := x) hprogress hcurrent
  obtain ⟨errs', hafter, hclean⟩ := hafter r
  refine ⟨fun path => (hI.disk path).trans (h.disk_since path), hcall,
    todo', errs', htask ▸ hafter, fun herrs => ?_⟩
  obtain ⟨hbefore, hr⟩ := hclean herrs
  by_cases hk : k = k'
  · subst hk
    have hsince := hI.call
    rw [hret] at hsince
    exact .inr (caught_step hI.disk h (hsince hr))
  · rcases hcaught hbefore with hmem | hc
    · rcases List.mem_cons.mp hmem with heq | hmem
      · exact absurd heq hk
      · exact .inl hmem
    · exact .inr (caught_step hI.disk h hc)

theorem Sweeping.step {a : ReloaderAction X}
    (hI : Sweeping cfg disk₁ t k s) (hA : Available x cfg s)
    (h : ReloaderStep x cfg s a s') : Sweeping cfg disk₁ t k s' := by
  obtain ⟨todo, errs, hprogress, -⟩ := hI.progress
  have hsince : (s'.world cfg k).calls t = (s.world cfg k).calls t →
      ((s'.world cfg k).calls t).Since (filesOf cfg disk₁ k)
        (s'.world cfg k) :=
    hI.call.other (fun i => hI.disk _) (h.loader k)
  have hh := h
  cases h with
  | file hfile => exact hI.other hh rfl (hsince rfl)
  | @task t' task stage htask =>
      -- a task that takes such a step is not the sweep
      have hne : t ≠ t' := by
        rintro rfl
        cases htask with
        | invalid hidle | new hstage hidle | call hstage hidle =>
            rw [hidle] at hprogress
            cases hprogress
        | noSystem htask hfile | system htask hfile =>
            rw [htask] at hprogress
            cases hprogress
      exact hI.other hh (tasks_setTask_ne s hne _) (hsince rfl)
  | @inner t' k' forced w hcurrent hfile hcall =>
      refine hI.other hh rfl ?_
      by_cases hk : k = k'
      · subst hk
        have hself := world_setWorld_self (s := s) hcall.disk_eq
        by_cases ht : t = t'
        · subst ht
          obtain ⟨rfl, -⟩ := progress_after (x := x) hprogress hcurrent
          rw [hself]
          refine hI.call.own (fun i => hI.disk _) (hA.parsed k)
            (fun f hf => ?_) hcall
          cases hcurrent.symm.trans (hA.tasked t k f hf).1
          rfl
        · refine hsince ?_
          rw [hself]
          exact hcall.calls_of_ne ht
      · refine hsince ?_
        rw [world_setWorld_ne hk]
  | @collect t' k' forced r hcurrent hret =>
      have hworld : ∀ w, (Reloader.world cfg { (s.setWorld k' w).setTask t'
          ((s.tasks t').after x r) with
            stage := s.stage.after ((s.tasks t').after x r) } k)
          = (s.setWorld k' w).world cfg k := fun _ => rfl
      have hself := world_setWorld_self (s := s)
        (w := (s.world cfg k').setCall t' .idle) rfl
      by_cases ht : t = t'
      · subst ht
        refine hI.collect hcurrent hret hh (Function.update_self _ _ _) ?_
        by_cases hk : k = k'
        · rw [hworld, hk, hself, calls_setCall]
          trivial
        · refine hsince ?_
          rw [hworld, world_setWorld_ne hk]
      · refine hI.other hh (Function.update_of_ne ht _ _) (hsince ?_)
        rw [hworld]
        by_cases hk : k = k'
        · rw [hk, hself]
          exact Function.update_of_ne ht _ _
        · rw [world_setWorld_ne hk]

/-- The sweep begins: it has every loader before it. -/
theorem sweeping_begin (hA : Available x cfg s) {task : Task C P X}
    (hidle : s.tasks t = .idle) {todo : List Slot}
    (hprogress : task.progress = some (todo, [])) (hk : k ∈ todo) :
    Sweeping cfg s.disk t k (s.setTask t task) := by
  refine ⟨fun path => File.Since.refl _, ?_, todo, [], ?_,
    fun _ => .inl hk⟩
  · show ((s.world cfg k).calls t).Since _ _
    have hnone := hA.tasked.of_idle hidle k
    cases hph : (s.world cfg k).calls t with
    | idle => trivial
    | stat | check | lock | read | returned =>
        exact absurd (by rw [hph]; rfl) (hnone _)
  · rw [tasks_setTask_self]
    exact hprogress

/-- A sweep without an error has brought loader `k` up to date. -/
theorem Sweeping.done (hI : Sweeping cfg disk₁ t k s)
    (hdone : s.tasks t = .done (.refreshed [])) :
    Caught (filesOf cfg disk₁ k) (fun _ => False) (s.world cfg k) := by
  obtain ⟨todo, errs, hprogress, hcaught⟩ := hI.progress
  rw [hdone] at hprogress
  cases hprogress
  rcases hcaught rfl with hmem | hc
  · cases hmem
  · exact hc

end Sweeping

-- ==== later

/-- What a call came to that began when the loaders had caught up. -/
def Task.Later (x : X509 C P X) (cfg : Config)
    (disk₁ : GoString → File GoString) : Task C P X → Prop
  | .done (.cert value err) => err = none →
      value.Of (cfg.loader x .pair)
      ∧ All (fun i => NotBefore (filesOf cfg disk₁ .pair i)) value.sources
  | .done (.verified conf _ (some trust) err) =>
      cfg.fileBacked (.pool conf.poolName) = true
      ∧ ((∀ e, err ≠ some (.caBundle e)) →
        trust.Of (cfg.loader x (.pool conf.poolName))
        ∧ All (fun i => NotBefore (filesOf cfg disk₁
          (.pool conf.poolName) i)) trust.sources)
  | _ => True

/-- The loaders have caught up with `disk₁`, and so has task `t`. -/
structure Later (x : X509 C P X) (cfg : Config)
    (disk₁ : GoString → File GoString) (t : Nat) (s : Reloader C P X) :
    Prop where
  disk : ∀ path, (disk₁ path).Since (s.disk path)
  caught : ∀ k, cfg.fileBacked k = true →
    Caught (filesOf cfg disk₁ k) (· = t) (s.world cfg k)
  task : (s.tasks t).Later x cfg disk₁

section Later

variable {disk₁ : GoString → File GoString} {t : Nat}

theorem later_of_plain {task : Task C P X} (h : task.plain = true) :
    task.Later x cfg disk₁ := by
  cases task with
  | getClientCertificate | verify => cases h
  | idle | new | refresh | tick => trivial
  | done a =>
      cases a with
      | cert | verified => cases h
      | invalid | noSystemPool | notLoaded | built | refreshed | ticked =>
          trivial

/-- A task that takes a step outside the loaders has used nothing. -/
theorem TaskStep.later {a : ReloaderAction X} {task : Task C P X}
    {stage : Stage} (h : TaskStep x cfg s a t task stage) :
    task.Later x cfg disk₁ := by
  cases h with
  | invalid | new | noSystem => trivial
  | system htask hfile => exact later_of_plain (plain_newFrom _)
  | call hstage hidle hbegin =>
      rcases begin_cases hbegin with ⟨hplain, -⟩ | rfl | ⟨conf, cs, rfl⟩
      · exact later_of_plain hplain
      · trivial
      · unfold Config.beginVerify
        split <;> trivial

/-- It goes on with what a loader returned. -/
theorem later_after {task : Task C P X} {k : Slot} {forced : Bool}
    {r : LoadReturn C P} (hcurrent : task.current = some (k, forced))
    (hfile : cfg.fileBacked k = true)
    (hof : r.err = none → r.value.Of (cfg.loader x k))
    (hcaught : All (fun i => NotBefore (filesOf cfg disk₁ k i))
      r.value.sources) : (task.after x r).Later x cfg disk₁ := by
  rcases after_cases (x := x) (r := r) hcurrent with
    hplain | ⟨rfl, -, hafter⟩ | ⟨conf, cs, rfl, -, -, hafter⟩
  · exact later_of_plain hplain
  · rw [hafter]
    exact fun herr => ⟨hof herr, hcaught⟩
  · rw [hafter, verifyLoaded]
    cases herr : r.err with
    | none => exact ⟨hfile, fun _ => ⟨hof herr, hcaught⟩⟩
    | some err => exact ⟨hfile, fun hne => absurd rfl (hne err)⟩

theorem Later.step {a : ReloaderAction X} (hI : Later x cfg disk₁ t s)
    (hA : Available x cfg s) (h : ReloaderStep x cfg s a s') :
    Later x cfg disk₁ t s' := by
  refine ⟨fun path => (hI.disk path).trans (h.disk_since path),
    fun k hk => Sweeping.caught_step hI.disk h (hI.caught k hk), ?_⟩
  have hset : ∀ {t' : Nat} {task : Task C P X},
      (t = t' → task.Later x cfg disk₁) →
      ((s.setTask t' task).tasks t).Later x cfg disk₁ := by
    intro t' task htask
    by_cases ht : t = t'
    · subst ht
      rw [tasks_setTask_self]
      exact htask rfl
    · rw [tasks_setTask_ne s ht]
      exact hI.task
  cases h with
  | file | inner => exact hI.task
  | task htask => exact hset fun _ => htask.later
  | @collect t' k forced r hcurrent hret =>
      refine hset fun ht => ?_
      subst ht
      have hfile := (hA.tasked t k r.forced (by rw [hret]; rfl)).2
      exact later_after hcurrent hfile
        (fun herr => ((hA.parsed k).returned t r hret herr).1)
        ((hI.caught k hfile).returned t r rfl hret)

/-- A task that is idle when the loaders have caught up. -/
theorem later_of_idle (hA : Available x cfg s)
    (hdisk : ∀ path, (disk₁ path).Since (s.disk path))
    (hcaught : ∀ k, cfg.fileBacked k = true →
      Caught (filesOf cfg disk₁ k) (fun _ => False) (s.world cfg k))
    (hidle : s.tasks t = .idle) : Later x cfg disk₁ t s := by
  refine ⟨hdisk, fun k hk => ⟨(hcaught k hk).held, (hcaught k hk).reading,
    fun t' r ht h => ?_⟩, by rw [hidle]; trivial⟩
  subst ht
  exact absurd (by rw [h]; rfl) (hA.tasked.of_idle hidle k r.forced)

end Later

-- ==== refresh

/-- The loaders that a sweep goes through. -/
theorem mem_sweep {order : List GoString} {k : Slot}
    (horder : order.Perm cfg.pools.keys)
    (hfile : cfg.fileBacked k = true) :
    k ∈ Slot.pair :: cfg.poolSlots order := by
  cases k with
  | pair => exact List.mem_cons_self
  | pool name =>
      obtain ⟨path, hget, -⟩ := (Option.any_eq_true _ _).mp hfile
      refine List.mem_cons_of_mem _
        (List.mem_filter.mpr ⟨List.mem_map_of_mem ?_, hfile⟩)
      exact horder.mem_iff.mpr (Lib.Table.get_isSome.mp ⟨path, hget⟩)

/-- Call `Refresh` at any moment of any run, with no assumption about
mtimes. If it returns no error, then whatever a call hands out or checks
against that begins after it, however much later and with whatever else
going on, was parsed from the contents that the files had when `Refresh`
was called, or later ones. -/
theorem refresh_effective (x : X509 C P X) (cfg : Config)
    (disk₀ : GoString → File GoString)
    (as₀ as₁ as₂ : List (ReloaderAction X)) (s₁ s₂ s₃ : Reloader C P X)
    (hrun : Lib.run (Reloader.step x cfg) as₀ (.init disk₀) = some s₁)
    (t : Nat) (order : List GoString)
    (hrefresh : Lib.run (Reloader.step x cfg)
      (.call t (.refresh order) :: as₁) s₁ = some s₂)
    (hok : s₂.tasks t = .done (.refreshed []))
    (t' : Nat) (hidle : s₂.tasks t' = .idle)
    (hlater : Lib.run (Reloader.step x cfg) as₂ s₂ = some s₃) :
    (∀ value err, s₃.tasks t' = .done (.cert value err) →
      ∃ certSrc keySrc cert, value = ⟨.pair cert, [certSrc, keySrc]⟩
        ∧ x.keyPair certSrc.content keySrc.content = .ok cert
        ∧ NotBefore (s₁.disk cfg.certPath) certSrc
        ∧ NotBefore (s₁.disk cfg.keyPath) keySrc)
    ∧ ∀ conf cs trust err,
      s₃.tasks t' = .done (.verified conf cs (some trust) err) →
      (∀ e, err ≠ some (.caBundle e)) →
      ∃ path src roots, cfg.pools.get conf.poolName = some path
        ∧ trust = ⟨.roots roots, [src]⟩
        ∧ certPoolFromPEM x src.content = .ok roots
        ∧ NotBefore (s₁.disk path) src := by
  have hA₁ := available_run hrun
  obtain ⟨s₁', hstep, hrest⟩ := Lib.run_cons hrefresh
  have hA := hA₁.step (.of_step hstep)
  obtain ⟨task, hidle₁, hbegin, rfl⟩ : ∃ task, s₁.tasks t = .idle
      ∧ cfg.begin x (.refresh order) = some task
      ∧ s₁' = s₁.setTask t task := by
    simp only [Reloader.step] at hstep
    split at hstep
    · obtain ⟨task, hbegin, rfl⟩ := Option.map_eq_some_iff.mp hstep
      exact ⟨task, ‹_›, hbegin, rfl⟩
    · cases hstep
  simp only [Config.begin] at hbegin
  split at hbegin
  case isFalse => cases hbegin
  case isTrue horder =>
  cases hbegin
  -- the sweep has every loader before it, and goes through all of them
  obtain ⟨hA₂, hsweep⟩ : Available x cfg s₂ ∧ ∀ k,
      cfg.fileBacked k = true → Sweeping cfg s₁.disk t k s₂ := by
    refine Lib.run_invariant (I := fun s => Available x cfg s
      ∧ ∀ k, cfg.fileBacked k = true → Sweeping cfg s₁.disk t k s)
      (fun a s s' hI h => ⟨hI.1.step (.of_step h), fun k hk =>
        (hI.2 k hk).step hI.1 (.of_step h)⟩) as₁ ⟨hA, fun k hk => ?_⟩ hrest
    exact sweeping_begin hA₁ hidle₁ rfl
      (mem_sweep (List.isPerm_iff.mp horder) hk)
  -- the call that begins afterwards
  obtain ⟨hA₃, hlater⟩ : Available x cfg s₃
      ∧ Later x cfg s₁.disk t' s₃ := by
    refine Lib.run_invariant (I := fun s => Available x cfg s
      ∧ Later x cfg s₁.disk t' s)
      (fun a s s' hI h => ⟨hI.1.step (.of_step h),
        hI.2.step hI.1 (.of_step h)⟩) as₂ ⟨hA₂, ?_⟩ hlater
    exact later_of_idle hA₂ (hsweep .pair rfl).disk
      (fun k hk => (hsweep k hk).done hok) hidle
  have htask := hlater.task
  refine ⟨fun value err hdone => ?_, fun conf cs trust err hdone herr => ?_⟩
  · have hserved := hA₃.staged.served t'
    rw [hdone] at hserved htask
    obtain ⟨hof, hall⟩ := htask hserved
    obtain ⟨certSrc, keySrc, cert, rfl, hpair⟩ := hof.pair
    exact ⟨certSrc, keySrc, cert, rfl, hpair, hall 0 certSrc rfl,
      hall 1 keySrc rfl⟩
  · rw [hdone] at htask
    obtain ⟨hof, hall⟩ := htask.2 herr
    obtain ⟨path, hget, -⟩ := (Option.any_eq_true _ _).mp htask.1
    obtain ⟨src, roots, rfl, hcert⟩ := hof.pool
    have hsrc := hall 0 src rfl
    simp only [filesOf, Config.file, hget, Option.getD_some] at hsrc
    exact ⟨path, src, roots, hget, rfl, hcert, hsrc⟩

/-- The bundle is replaced within the second of its last change: a
handshake alone would keep the old one. `Refresh` does not, and a peer
of the new bundle is accepted. -/
theorem refresh_effective_same_second :
    ∃ s₁ s₂ s₃ trust, Lib.run (Reloader.step sampleX509 sampleConfig)
        (sampleNew ++ [.write (ascii "pem") 1 [6]]) sampleInit = some s₁
      ∧ Lib.run (Reloader.step sampleX509 sampleConfig)
        (.call 1 (.refresh [ascii "ca"])
          :: (sampleRead 1 2 ++ sampleRead 1 1)) s₁ = some s₂
      ∧ Lib.run (Reloader.step sampleX509 sampleConfig)
        (sampleCall 2 6 :: sampleKeep 2 1) s₂ = some s₃
      ∧ s₃.tasks 2 = .done (.verified ⟨ascii "ca", ascii "db"⟩ ⟨[], [6]⟩
        (some trust) none)
      ∧ ∃ path src roots, sampleConfig.pools.get (ascii "ca") = some path
        ∧ trust = ⟨.roots roots, [src]⟩
        ∧ certPoolFromPEM sampleX509 src.content = .ok roots
        ∧ NotBefore (s₁.disk path) src := by
  have hmap : ((Lib.run (Reloader.step sampleX509 sampleConfig)
      (sampleNew ++ [.write (ascii "pem") 1 [6]]) sampleInit).bind
      fun s₁ => (Lib.run (Reloader.step sampleX509 sampleConfig)
        (.call 1 (.refresh [ascii "ca"])
          :: (sampleRead 1 2 ++ sampleRead 1 1)) s₁).bind
      fun s₂ => (Lib.run (Reloader.step sampleX509 sampleConfig)
        (sampleCall 2 6 :: sampleKeep 2 1) s₂).map
      fun s₃ => (s₂.tasks 1, s₂.tasks 2, s₃.tasks 2))
      = some (.done (.refreshed []), .idle,
        .done (.verified ⟨ascii "ca", ascii "db"⟩ ⟨[], [6]⟩
          (some ⟨.roots [6], [⟨[6], 2⟩]⟩) none)) := rfl
  obtain ⟨s₁, h₁, hmap⟩ := Option.bind_eq_some_iff.mp hmap
  obtain ⟨s₂, h₂, hmap⟩ := Option.bind_eq_some_iff.mp hmap
  obtain ⟨s₃, h₃, hmap⟩ := Option.map_eq_some_iff.mp hmap
  obtain ⟨hok, hmap⟩ := Prod.mk.inj hmap
  obtain ⟨hidle, hdone⟩ := Prod.mk.inj hmap
  exact ⟨s₁, s₂, s₃, _, h₁, h₂, h₃, hdone,
    (refresh_effective sampleX509 sampleConfig _ _ _ _ s₁ s₂ s₃ h₁ 1 _ h₂
      hok 2 hidle h₃).2 _ _ _ _ hdone fun e h => by cases h⟩

end Tokyo3Base.Tls
