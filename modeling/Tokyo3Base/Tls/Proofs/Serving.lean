/-
A `Reloader` that exists can serve: whatever happens to the files after
`New` has returned, `GetClientCertificate` does not fail, and a
handshake fails for want of roots only if `CAMaxStale` is set and has
passed (`built_serves`).

# The argument

It is about `New`. It is the only caller before the reloader is built
(`Staged.early`, `Staged.single`), it has seen every loader that it has
left succeed (`Staged.loaded`), and a loader with a value keeps one and
answers with it (`Serving`). That a loader's call belongs to one task,
and to no other, is `Tasked`.
-/
import Tokyo3Base.Tls.Proofs.Reloader

namespace Tokyo3Base.Tls

open Go

variable {C P X : Type} {x : X509 C P X} {cfg : Config}

-- ==== own calls

/-- A loader's call is that of the task with its number, which is in
this loader. -/
def Tasked (cfg : Config) (s : Reloader C P X) : Prop :=
  ∀ t k f, ((s.world cfg k).calls t).start = some f →
    (s.tasks t).current = some (k, f) ∧ cfg.fileBacked k = true

section Tasked

variable {s s' : Reloader C P X}

/-- A task without calls may become any other. -/
theorem Tasked.setTask (hI : Tasked cfg s) {t : Nat}
    (hnone : ∀ k f, ((s.world cfg k).calls t).start ≠ some f)
    (task : Task C P X) : Tasked cfg (s.setTask t task) := by
  intro t' k f hf
  by_cases ht : t' = t
  · subst ht
    exact absurd hf (hnone k f)
  · rw [tasks_setTask_ne s ht]
    exact hI t' k f hf

/-- A task that is not in a loader has no calls. -/
theorem Tasked.of_current (hI : Tasked cfg s) {t : Nat}
    (hcurrent : ∀ k f, (s.tasks t).current = some (k, f) →
      cfg.fileBacked k = false) (k : Slot) (f : Bool) :
    ((s.world cfg k).calls t).start ≠ some f := by
  intro hf
  obtain ⟨hcur, hfile⟩ := hI t k f hf
  rw [hcurrent k f hcur] at hfile
  cases hfile

theorem Tasked.of_idle (hI : Tasked cfg s) {t : Nat}
    (hidle : s.tasks t = .idle) (k : Slot) (f : Bool) :
    ((s.world cfg k).calls t).start ≠ some f :=
  hI.of_current (fun k f h => by rw [hidle] at h; cases h) k f

theorem Tasked.inner (hI : Tasked cfg s) {t : Nat} {k : Slot}
    {forced : Bool} {w : World GoString (Material C P) GoString}
    (hcurrent : (s.tasks t).current = some (k, forced))
    (hfile : cfg.fileBacked k = true)
    (hcall : CallStep (cfg.loader x k) forced (cfg.maxStale k) t
      (s.world cfg k) w) : Tasked cfg (s.setWorld k w) := by
  intro t' k' f hf
  by_cases hk : k' = k
  · subst hk
    rw [world_setWorld_self hcall.disk_eq] at hf
    by_cases ht : t' = t
    · subst ht
      rw [hcall.start_eq fun f hf => by
        have hcur := hcurrent.symm.trans (hI t' k' f hf).1
        cases hcur
        rfl] at hf
      cases hf
      exact ⟨hcurrent, hfile⟩
    · rw [hcall.calls_of_ne ht] at hf
      exact hI t' k' f hf
  · rw [world_setWorld_ne hk] at hf
    exact hI t' k' f hf

theorem Tasked.collect (hI : Tasked cfg s) {t : Nat} {k : Slot}
    {forced : Bool} (hcurrent : (s.tasks t).current = some (k, forced))
    (task : Task C P X) :
    Tasked cfg ((s.setWorld k ((s.world cfg k).setCall t .idle)).setTask t
      task) := by
  have hworld : (s.setWorld k ((s.world cfg k).setCall t .idle)).world cfg k
      = (s.world cfg k).setCall t .idle := world_setWorld_self rfl
  refine Tasked.setTask (fun t' k' f hf => ?_) (fun k' f hf => ?_) task
  · by_cases hk : k' = k
    · subst hk
      rw [hworld] at hf
      by_cases ht : t' = t
      · subst ht
        rw [calls_setCall] at hf
        cases hf
      · refine hI t' k' f ?_
        simpa only [World.setCall, Function.update_of_ne ht] using hf
    · rw [world_setWorld_ne hk] at hf
      exact hI t' k' f hf
  · by_cases hk : k' = k
    · subst hk
      rw [hworld, calls_setCall] at hf
      cases hf
    · rw [world_setWorld_ne hk] at hf
      have hcur := (hI t k' f hf).1.symm.trans hcurrent
      cases hcur
      exact hk rfl

/-- A task that takes a step outside the loaders has no calls. -/
theorem TaskStep.no_calls {a : ReloaderAction X} {t : Nat}
    {task : Task C P X} {stage : Stage}
    (h : TaskStep x cfg s a t task stage) (hI : Tasked cfg s) (k : Slot)
    (f : Bool) : ((s.world cfg k).calls t).start ≠ some f := by
  refine hI.of_current (fun k f hcurrent => ?_) k f
  cases h with
  | invalid hidle | new hstage hidle | call hstage hidle =>
      rw [hidle] at hcurrent
      cases hcurrent
  | noSystem htask hfile | system htask hfile =>
      rw [htask] at hcurrent
      cases hcurrent
      exact hfile

theorem Tasked.step {a : ReloaderAction X} (hI : Tasked cfg s)
    (h : ReloaderStep x cfg s a s') : Tasked cfg s' := by
  cases h with
  | file hfile => exact hI
  | task htask => exact hI.setTask (htask.no_calls hI) _
  | inner hcurrent hfile hcall => exact hI.inner hcurrent hfile hcall
  | collect hcurrent hcall => exact hI.collect hcurrent _

end Tasked

-- ==== availability

/-- A call that may exist before the reloader does. -/
def Task.early : Task C P X → Bool
  | .idle => true
  | .new _ => true
  | .done (.invalid _) => true
  | .done (.noSystemPool ..) => true
  | .done (.notLoaded ..) => true
  | _ => false

/-- Of these calls, only `New` is ever in a loader. -/
theorem Task.new_of_early {task : Task C P X} (he : task.early = true)
    {c : Slot × Bool} (hcurrent : task.current = some c) :
    ∃ todo, task = .new todo := by
  cases task with
  | new todo => exact ⟨todo, rfl⟩
  | idle | done => cases hcurrent
  | refresh | tick | getClientCertificate | verify => cases he

/-- No certificate is refused, and roots only when they are too old. -/
def Task.Served (cfg : Config) : Task C P X → Prop
  | .done (.cert _ err) => err = none
  | .done (.verified _ _ _ (some (.caBundle err))) =>
      0 < cfg.caMaxStale ∧ ∃ cause, err = .keptPast cfg.caMaxStale cause
  | _ => True

/-- `New` is alone until it returns, has seen a value in every loader
that it has left, and leaves a reloader whose loaders all have one. -/
structure Staged (cfg : Config) (s : Reloader C P X) : Prop where
  early : s.stage ≠ .built → ∀ t, (s.tasks t).early = true
  building : ∀ t todo, s.tasks t = .new todo → s.stage = .building
  single : ∀ t t' todo todo', s.tasks t = .new todo →
    s.tasks t' = .new todo' → t = t'
  loaded : ∀ t todo, s.tasks t = .new todo → ∀ k,
    cfg.fileBacked k = true →
    k ∈ todo ∨ (s.world cfg k).shared.loaded = true
  serving : s.stage = .built → ∀ k, cfg.fileBacked k = true →
    Serving (cfg.maxStale k) (s.world cfg k)
  served : ∀ t, (s.tasks t).Served cfg

/-- A call that is not building. -/
structure Task.Outside (cfg : Config) (stage : Stage)
    (task : Task C P X) : Prop where
  new : ∀ todo, task ≠ .new todo
  early : stage ≠ .built → task.early = true
  served : task.Served cfg

section Staged

variable {s s' : Reloader C P X}

/-- A step outside `New`: each task stays, or becomes one that is not
building. -/
theorem Staged.outside (hI : Staged cfg s)
    (hloader : ∀ k, LoaderStep (cfg.loader x k) (cfg.maxStale k)
      (s.world cfg k) (s'.world cfg k))
    (hstage : s'.stage = s.stage)
    (htasks : ∀ t, s'.tasks t = s.tasks t
      ∨ (s'.tasks t).Outside cfg s.stage) : Staged cfg s' := by
  have hnew : ∀ t todo, s'.tasks t = .new todo → s.tasks t = .new todo := by
    intro t todo h
    rcases htasks t with heq | hout
    · exact heq ▸ h
    · exact absurd h (hout.new todo)
  refine ⟨fun hs t => ?_, fun t todo h => ?_,
    fun t t' todo todo' h h' => ?_, fun t todo h k hk => ?_,
    fun hs k hk => ?_, fun t => ?_⟩
  · rw [hstage] at hs
    rcases htasks t with heq | hout
    · exact heq ▸ hI.early hs t
    · exact hout.early hs
  · exact hstage.trans (hI.building t todo (hnew t todo h))
  · exact hI.single t t' todo todo' (hnew t todo h) (hnew t' todo' h')
  · exact (hI.loaded t todo (hnew t todo h) k hk).imp_right
      (hloader k).loaded_mono
  · exact (hI.serving (hstage ▸ hs) k hk).step (hloader k)
  · rcases htasks t with heq | hout
    · exact heq ▸ hI.served t
    · exact hout.served

theorem outside_setTask {stage : Stage} {t : Nat} {task : Task C P X}
    (htask : task.Outside cfg stage) (t' : Nat) :
    (s.setTask t task).tasks t' = s.tasks t'
      ∨ ((s.setTask t task).tasks t').Outside cfg stage := by
  by_cases ht : t' = t
  · subst ht
    rw [tasks_setTask_self]
    exact .inr htask
  · exact .inl (tasks_setTask_ne s ht task)

theorem Staged.new (hI : Staged cfg s) {t : Nat} {order : List GoString}
    (hstage : s.stage = .unbuilt)
    (horder : order.Perm cfg.pools.keys) :
    Staged cfg { s.setTask t (.new (.pair :: order.map Slot.pool)) with
      stage := .building } := by
  -- nobody else is building
  have hnone : ∀ t todo, s.tasks t ≠ .new todo := fun t todo h => by
    cases hstage.symm.trans (hI.building t todo h)
  have hself : ∀ t' todo, (s.setTask t
      (.new (.pair :: order.map Slot.pool))).tasks t' = .new todo →
      t' = t ∧ todo = .pair :: order.map Slot.pool := by
    intro t' todo h
    by_cases ht : t' = t
    · subst ht
      rw [tasks_setTask_self] at h
      cases h
      exact ⟨rfl, rfl⟩
    · rw [tasks_setTask_ne s ht] at h
      exact absurd h (hnone t' todo)
  refine ⟨fun _ t' => ?_, fun _ _ _ => rfl,
    fun t₁ t₂ todo₁ todo₂ h₁ h₂ => ?_, fun t' todo h k hk => .inl ?_,
    fun h => (by cases h), forall_setTask hI.served trivial⟩
  · exact forall_setTask (F := fun task => task.early = true)
      (hI.early (by rw [hstage]; decide)) rfl t'
  · exact (hself t₁ todo₁ h₁).1.trans (hself t₂ todo₂ h₂).1.symm
  · rw [(hself t' todo h).2]
    cases k with
    | pair => exact List.mem_cons_self
    | pool name =>
        refine List.mem_cons_of_mem _ (List.mem_map_of_mem ?_)
        obtain ⟨path, hget, -⟩ := (Option.any_eq_true _ _).mp hk
        exact horder.mem_iff.mpr (Lib.Table.get_isSome.mp ⟨path, hget⟩)

theorem Staged.advance (hI : Staged cfg s)
    (hloader : ∀ k, LoaderStep (cfg.loader x k) (cfg.maxStale k)
      (s.world cfg k) (s'.world cfg k)) {t : Nat} {k : Slot}
    {todo : List Slot} (htask : s.tasks t = .new (k :: todo))
    (htasks : s'.tasks = Function.update s.tasks t (.newFrom todo))
    (hstage : s'.stage = s.stage.after (Task.newFrom todo : Task C P X))
    (hk : cfg.fileBacked k = true → (s'.world cfg k).shared.loaded = true)
    (htasked : Tasked cfg s') : Staged cfg s' := by
  have hbuilding := hI.building t _ htask
  have hself : s'.tasks t = .newFrom todo := by
    rw [htasks, Function.update_self]
  have hother : ∀ t', t' ≠ t → s'.tasks t' = s.tasks t' := by
    intro t' ht
    rw [htasks, Function.update_of_ne ht]
  -- nobody but `t` builds, before and after
  have hnone : ∀ t' todo', t' ≠ t → s'.tasks t' ≠ .new todo' := by
    intro t' todo' ht h
    rw [hother t' ht] at h
    exact ht (hI.single t' t todo' _ h htask)
  have hearly : ∀ t', t' ≠ t → (s'.tasks t').early = true := by
    intro t' ht
    rw [hother t' ht]
    exact hI.early (by rw [hbuilding]; decide) t'
  have hloaded : ∀ k', cfg.fileBacked k' = true →
      k' ∈ todo ∨ (s'.world cfg k').shared.loaded = true := by
    intro k' hk'
    rcases hI.loaded t _ htask k' hk' with hmem | hl
    · rcases List.mem_cons.mp hmem with rfl | hmem
      · exact .inr (hk hk')
      · exact .inl hmem
    · exact .inr ((hloader k').loaded_mono hl)
  have hserved : ∀ t', (s'.tasks t').Served cfg := by
    intro t'
    by_cases ht : t' = t
    · rw [ht, hself]
      cases todo with
      | nil => trivial
      | cons => trivial
    · rw [hother t' ht]
      exact hI.served t'
  cases todo with
  | cons k₁ todo =>
      have hstage' : s'.stage = .building := hstage.trans hbuilding
      refine ⟨fun _ t' => ?_, fun _ _ _ => hstage',
        fun t₁ t₂ todo₁ todo₂ h₁ h₂ => ?_, fun t' todo' h k' hk' => ?_,
        fun h => (by cases hstage'.symm.trans h), hserved⟩
      · by_cases ht : t' = t
        · rw [ht, hself]
          rfl
        · exact hearly t' ht
      · have h₁ : t₁ = t := by_contra fun ht => hnone t₁ todo₁ ht h₁
        have h₂ : t₂ = t := by_contra fun ht => hnone t₂ todo₂ ht h₂
        exact h₁.trans h₂.symm
      · have ht : t' = t := by_contra fun ht => hnone t' todo' ht h
        rw [ht, hself] at h
        cases h
        exact hloaded k' hk'
  | nil =>
      have hnew : ∀ t' todo', s'.tasks t' ≠ .new todo' := by
        intro t' todo' h
        by_cases ht : t' = t
        · rw [ht, hself] at h
          cases h
        · exact hnone t' todo' ht h
      -- the calls of `New` are over, and there have been no others
      have hidle : ∀ t' k' r, (s'.world cfg k').calls t' ≠ .returned r := by
        intro t' k' r h
        have hcur := (htasked t' k' r.forced (by rw [h]; rfl)).1
        by_cases ht : t' = t
        · rw [ht, hself] at hcur
          cases hcur
        · obtain ⟨todo', htask'⟩ := Task.new_of_early (hearly t' ht) hcur
          exact hnew t' todo' htask'
      refine ⟨fun h => absurd hstage h, fun t' todo' h => ?_,
        fun t₁ _ todo₁ _ h₁ _ => ?_, fun t' todo' h => ?_,
        fun _ k' hk' => ⟨?_, fun t' r h => ?_⟩, hserved⟩
      · exact absurd h (hnew t' todo')
      · exact absurd h₁ (hnew t₁ todo₁)
      · exact absurd h (hnew t' todo')
      · rcases hloaded k' hk' with hmem | hl
        · cases hmem
        · exact hl
      · exact absurd h (hidle t' k' r)

theorem served_of_plain {task : Task C P X} (h : task.plain = true) :
    task.Served cfg := by
  cases task with
  | getClientCertificate | verify => cases h
  | idle | new | refresh | tick => trivial
  | done a =>
      cases a with
      | cert | verified => cases h
      | invalid | noSystemPool | notLoaded | built | refreshed | ticked =>
          trivial

/-- What begins on a reloader that is built. -/
theorem begin_outside {r : Request X} {task : Task C P X}
    (h : cfg.begin x r = some task) : task.Outside cfg .built := by
  rcases begin_cases h with ⟨hplain, hnew⟩ | rfl | ⟨conf, cs, rfl⟩
  · exact ⟨hnew, fun h => absurd rfl h, served_of_plain hplain⟩
  · exact ⟨fun _ h => (by cases h), fun h => absurd rfl h, trivial⟩
  · unfold Config.beginVerify
    split
    · exact ⟨fun _ h => (by cases h), fun h => absurd rfl h, trivial⟩
    · cases verifyPeerChain x x.systemRoots.toOption
          (fallbackServerName conf.serverName cs) with
      | none =>
          exact ⟨fun _ h => (by cases h), fun h => absurd rfl h, trivial⟩
      | some err =>
          exact ⟨fun _ h => (by cases h), fun h => absurd rfl h, trivial⟩
    · exact ⟨fun _ h => (by cases h), fun h => absurd rfl h, trivial⟩

/-- A call other than `New` goes on as one. -/
theorem after_outside {task : Task C P X} {k : Slot} {forced : Bool}
    {r : LoadReturn C P} (hcurrent : task.current = some (k, forced))
    (hnew : ∀ todo, task ≠ .new todo) :
    (∀ todo, task.after x r ≠ .new todo) ∧ task.after x r ≠ .done .built := by
  cases task with
  | idle => cases hcurrent
  | done a => cases hcurrent
  | new todo => exact absurd rfl (hnew todo)
  | refresh todo errs =>
      cases todo with
      | nil => cases hcurrent
      | cons k todo =>
          simp only [Task.after]
          split <;> cases todo <;>
            exact ⟨fun _ h => (by cases h), fun h => by cases h⟩
  | tick todo =>
      cases todo with
      | nil => cases hcurrent
      | cons k todo =>
          cases todo <;>
            exact ⟨fun _ h => (by cases h), fun h => by cases h⟩
  | getClientCertificate =>
      exact ⟨fun _ h => (by cases h), fun h => by cases h⟩
  | verify conf cs =>
      simp only [Task.after, verifyLoaded]
      split <;> exact ⟨fun _ h => (by cases h), fun h => by cases h⟩

/-- A loader's answer, to a call that is not forced. -/
theorem served_after {task : Task C P X} {k : Slot} {forced : Bool}
    {r : LoadReturn C P} (hcurrent : task.current = some (k, forced))
    (hret : forced = false → ∀ err, r.err = some err →
      TooOld (cfg.maxStale k) err) : (task.after x r).Served cfg := by
  rcases after_cases (x := x) (r := r) hcurrent with
    hplain | ⟨rfl, hforced, hafter⟩ | ⟨conf, cs, rfl, hforced, -, hafter⟩
  · exact served_of_plain hplain
  · rw [hafter]
    show r.err = none
    cases herr : r.err with
    | none => rfl
    | some err =>
        -- the loader of the pair has no limit
        obtain ⟨limit, cause, hlimit, -⟩ := hret hforced err herr
        cases hlimit
  · rw [hafter, verifyLoaded]
    cases herr : r.err with
    | none =>
        cases verifyPeerChain x r.value.value.pool
            (fallbackServerName conf.serverName cs) with
        | none => trivial
        | some e => trivial
    | some err =>
        obtain ⟨limit, cause, hlimit, hpos, rfl⟩ := hret hforced err herr
        cases hlimit
        exact ⟨hpos, cause, rfl⟩

theorem Stage.after_of_ne {stage : Stage} {task : Task C P X}
    (h : task ≠ .done .built) : stage.after task = stage := by
  cases task with
  | done a =>
      cases a with
      | built => exact absurd rfl h
      | _ => rfl
  | _ => rfl

theorem Staged.collect (hI : Staged cfg s) (htasked : Tasked cfg s)
    (hparsed : ∀ k, Parsed (cfg.loader x k) (s.world cfg k))
    {t : Nat} {k : Slot} {forced : Bool} {r : LoadReturn C P}
    (hcurrent : (s.tasks t).current = some (k, forced))
    (hcall : (s.world cfg k).calls t = .returned r)
    (hs' : s' = { (s.setWorld k ((s.world cfg k).setCall t .idle)).setTask t
        ((s.tasks t).after x r) with
      stage := s.stage.after ((s.tasks t).after x r) })
    (hloader : ∀ k, LoaderStep (cfg.loader x k) (cfg.maxStale k)
      (s.world cfg k) (s'.world cfg k)) (htasked' : Tasked cfg s') :
    Staged cfg s' := by
  obtain ⟨hcur, hfile⟩ := htasked t k r.forced (by rw [hcall]; rfl)
  have hforced : r.forced = forced := by
    cases hcur.symm.trans hcurrent
    rfl
  by_cases hnew : ∃ todo, s.tasks t = .new todo
  · obtain ⟨todo, htask⟩ := hnew
    cases todo with
    | nil =>
        rw [htask] at hcurrent
        cases hcurrent
    | cons k' todo =>
        have hk : k' = k := by
          rw [htask] at hcurrent
          cases hcurrent
          rfl
        subst hk
        cases herr : r.err with
        | none =>
            have hafter : (s.tasks t).after x r = .newFrom todo := by
              simp only [htask, Task.after, herr]
            rw [hafter] at hs'
            refine hI.advance hloader htask (by rw [hs']; rfl)
              (by rw [hs']) (fun _ => ?_) htasked'
            exact (hloader k').loaded_mono
              ((hparsed k').returned t r hcall herr).2
        | some err =>
            have hafter : (s.tasks t).after x r
                = .done (.notLoaded k' err) := by
              simp only [htask, Task.after, herr]
            rw [hafter] at hs'
            refine hI.outside hloader (by rw [hs']; rfl) fun t' => ?_
            rw [hs']
            have hout : (Task.done (.notLoaded k' err) :
                Task C P X).Outside cfg s.stage :=
              ⟨fun _ h => (by cases h), fun _ => rfl, trivial⟩
            exact outside_setTask hout t'
  · have hnew' : ∀ todo, s.tasks t ≠ .new todo := fun todo h =>
      hnew ⟨todo, h⟩
    -- the reloader is built, for nobody else was in a loader before
    have hbuilt : s.stage = .built := by
      by_contra hstage
      exact hnew (Task.new_of_early (hI.early hstage t) hcurrent)
    obtain ⟨hne, hlive⟩ := after_outside (x := x) (r := r) hcurrent hnew'
    have hserved : ((s.tasks t).after x r).Served cfg :=
      served_after hcurrent fun hf =>
        (hI.serving hbuilt k hfile).returned t r hcall (hforced.trans hf)
    refine hI.outside hloader
      (by rw [hs']; exact Stage.after_of_ne hlive) fun t' => ?_
    rw [hs']
    exact outside_setTask ⟨hne, fun h => absurd hbuilt h, hserved⟩ t'

end Staged

structure Available (x : X509 C P X) (cfg : Config)
    (s : Reloader C P X) : Prop where
  parsed : ∀ k, Parsed (cfg.loader x k) (s.world cfg k)
  tasked : Tasked cfg s
  staged : Staged cfg s

theorem Available.step {s s' : Reloader C P X} {a : ReloaderAction X}
    (hI : Available x cfg s) (h : ReloaderStep x cfg s a s') :
    Available x cfg s' := by
  have hparsed := fun k => (hI.parsed k).step (h.loader k)
  have htasked := hI.tasked.step h
  have hloader := h.loader
  refine ⟨hparsed, htasked, ?_⟩
  have hS := hI.staged
  cases h with
  | file | inner => exact hS.outside hloader rfl fun t => .inl rfl
  | task htask =>
      cases htask with
      | invalid | noSystem =>
          exact hS.outside hloader rfl (outside_setTask
            ⟨fun _ h => (by cases h), fun _ => rfl, trivial⟩)
      | new hstage hidle horder => exact hS.new hstage horder
      | call hstage hidle hbegin =>
          exact hS.outside hloader rfl
            (outside_setTask (hstage ▸ begin_outside hbegin))
      | system htask hfile =>
          refine hS.advance hloader htask rfl rfl (fun hk => ?_) htasked
          cases hfile.symm.trans hk
  | collect hcurrent hcall =>
      exact hS.collect hI.tasked hI.parsed hcurrent hcall rfl hloader
        htasked

theorem available_init (disk₀ : GoString → File GoString) :
    Available x cfg (Reloader.init disk₀ : Reloader C P X) := by
  refine ⟨fun k => ⟨?_, ?_, ?_⟩, ?_,
    ⟨fun _ _ => rfl, ?_, ?_, ?_, ?_, fun _ => trivial⟩⟩
  · intro h
    cases h
  · intro t r h
    cases h
  · intro t h
    cases h
  · intro t k f h
    cases h
  · intro t todo h
    cases h
  · intro t t' todo todo' h
    cases h
  · intro t todo h
    cases h
  · intro h
    cases h

theorem available_run {disk₀ : GoString → File GoString}
    {as : List (ReloaderAction X)} {s : Reloader C P X}
    (hrun : Lib.run (Reloader.step x cfg) as (.init disk₀) = some s) :
    Available x cfg s :=
  Lib.run_invariant (fun _ _ _ hI h => hI.step (.of_step h)) as
    (available_init disk₀) hrun

/-- In every run, whatever has become of the files: a call of
`GetClientCertificate` returned, without an error, a pair that was
parsed from contents which the two files have had, and a handshake that
failed for want of roots did so because `CAMaxStale` is set and the
roots held were older than that. -/
theorem built_serves (x : X509 C P X) (cfg : Config)
    (disk₀ : GoString → File GoString) (as : List (ReloaderAction X))
    (s : Reloader C P X)
    (hrun : Lib.run (Reloader.step x cfg) as (.init disk₀) = some s)
    (t : Nat) :
    (∀ value err, s.tasks t = .done (.cert value err) →
      err = none ∧ ∃ cert certPEM keyPEM, value.value = .pair cert
        ∧ x.keyPair certPEM keyPEM = .ok cert
        ∧ Had disk₀ as cfg.certPath certPEM
        ∧ Had disk₀ as cfg.keyPath keyPEM)
    ∧ ∀ conf cs trust err,
      s.tasks t = .done (.verified conf cs trust (some (.caBundle err))) →
        0 < cfg.caMaxStale
        ∧ ∃ cause, err = .keptPast cfg.caMaxStale cause := by
  have hserved := (available_run hrun).staged.served t
  have hproven := (provenance_run hrun).tasks t
  refine ⟨fun value err hdone => ?_, fun conf cs trust err hdone => ?_⟩
  · rw [hdone] at hserved hproven
    have herr : err = none := hserved
    subst herr
    obtain ⟨cert, certPEM, keyPEM, hvalue, hcert, hkey, hpair⟩ := hproven
    exact ⟨rfl, cert, certPEM, keyPEM, hvalue, hpair, hcert, hkey⟩
  · rw [hdone] at hserved
    exact hserved

/-- The key file is gone, and the call is served. -/
def sampleRemoved : List (ReloaderAction UInt8) :=
  sampleNew
    ++ [.remove (ascii "key"), .call 1 .getClientCertificate,
      .inner 1 .begin, .inner 1 .stat, .inner 1 .statError,
      .inner 1 (.check 0), .inner 1 (.lock 0), .inner 1 .read,
      .inner 1 (.readError (ascii "no such file") 2 2), .collect 1]

theorem built_serves_removed :
    ∃ s value err, Lib.run (Reloader.step sampleX509 sampleConfig)
        sampleRemoved sampleInit = some s
      ∧ s.tasks 1 = .done (.cert value err) ∧ err = none
      ∧ ∃ cert certPEM keyPEM, value.value = .pair cert
        ∧ sampleX509.keyPair certPEM keyPEM = .ok cert
        ∧ Had (fun _ => .missing) sampleRemoved (ascii "crt") certPEM
        ∧ Had (fun _ => .missing) sampleRemoved (ascii "key") keyPEM := by
  obtain ⟨s, hs⟩ : ∃ s, Lib.run (Reloader.step sampleX509 sampleConfig)
      sampleRemoved sampleInit = some s :=
    Option.isSome_iff_exists.mp (by decide +kernel)
  have hmap : (Lib.run (Reloader.step sampleX509 sampleConfig)
      sampleRemoved sampleInit).map (fun s => s.tasks 1)
      = some (.done (.cert ⟨.pair [7], [⟨[7], 1⟩, ⟨[7], 1⟩]⟩ none)) := rfl
  rw [hs] at hmap
  have hdone := Option.some.inj hmap
  exact ⟨s, _, _, hs, hdone, (built_serves sampleX509 sampleConfig _
    sampleRemoved s hs 1).1 _ _ hdone⟩

end Tokyo3Base.Tls
