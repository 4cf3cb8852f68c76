/-
What a `Reloader` hands out, over whole runs: any number of callers, and
writers that do what they like with the files.

# Provenance

`handshake_provenance`: a handshake that succeeds was checked, chain and
name, against the roots of the pool that its configuration names, and
these were parsed from contents that the pool's own file has had. No
interleaving mixes up the loaders, and nothing stands in for roots that
could not be read.
-/
import Mathlib.Data.List.Basic
import Tokyo3Base.Lib.Run
import Tokyo3Base.Tls.Proofs.Loader

namespace Tokyo3Base.Tls

open Go

variable {C P X : Type} {x : X509 C P X} {cfg : Config}

-- ==== tasks

/-- A call that has used nothing, and will not hand anything out. -/
def Task.plain : Task C P X → Bool
  | .getClientCertificate => false
  | .verify .. => false
  | .done (.cert ..) => false
  | .done (.verified ..) => false
  | _ => true

theorem plain_newFrom (todo : List Slot) :
    (Task.newFrom todo : Task C P X).plain = true := by
  cases todo with
  | nil => rfl
  | cons k todo => rfl

theorem plain_refreshFrom (errs : List (Slot × GetError GoString))
    (todo : List Slot) :
    (Task.refreshFrom errs todo : Task C P X).plain = true := by
  cases todo with
  | nil => rfl
  | cons k todo => rfl

theorem plain_tickFrom (todo : List Slot) :
    (Task.tickFrom todo : Task C P X).plain = true := by
  cases todo with
  | nil => rfl
  | cons k todo => rfl

/-- What begins on a reloader: a sweep, or one of the two calls that
hand something out. -/
theorem begin_cases {r : Request X} {task : Task C P X}
    (h : cfg.begin x r = some task) :
    (task.plain = true ∧ ∀ todo, task ≠ .new todo)
      ∨ task = .getClientCertificate
      ∨ ∃ conf cs, task = cfg.beginVerify x conf cs := by
  cases r with
  | refresh order =>
      simp only [Config.begin] at h
      split at h
      · cases h
        exact .inl ⟨plain_refreshFrom _ _, fun _ h => by cases h⟩
      · cases h
  | tick order =>
      simp only [Config.begin] at h
      split at h
      · cases h
        refine .inl ⟨plain_tickFrom _, fun todo h => ?_⟩
        revert h
        generalize (if cfg.pollCert = true then _ else _) = slots
        cases slots with
        | nil => exact fun h => by cases h
        | cons => exact fun h => by cases h
      · cases h
  | getClientCertificate => exact .inr (.inl (Option.some.inj h).symm)
  | handshake conf cs =>
      exact .inr (.inr ⟨conf, cs, (Option.some.inj h).symm⟩)

/-- How a call goes on: with its sweep, or to its end with what the
loader returned. -/
theorem after_cases {task : Task C P X} {k : Slot} {forced : Bool}
    {r : LoadReturn C P} (hcurrent : task.current = some (k, forced)) :
    (task.after x r).plain = true
      ∨ (k = .pair ∧ forced = false
        ∧ task.after x r = .done (.cert r.value r.err))
      ∨ ∃ conf cs, k = .pool conf.poolName ∧ forced = false
        ∧ task = .verify conf cs
        ∧ task.after x r = .done (verifyLoaded x conf cs r) := by
  cases task with
  | idle => cases hcurrent
  | done a => cases hcurrent
  | new todo =>
      cases todo with
      | nil => cases hcurrent
      | cons k todo =>
          simp only [Task.after]
          split
          · exact .inl rfl
          · exact .inl (plain_newFrom todo)
  | refresh todo errs =>
      cases todo with
      | nil => cases hcurrent
      | cons k todo =>
          simp only [Task.after]
          split <;> exact .inl (plain_refreshFrom _ todo)
  | tick todo =>
      cases todo with
      | nil => cases hcurrent
      | cons k todo => exact .inl (plain_tickFrom todo)
  | getClientCertificate =>
      cases hcurrent
      exact .inr (.inl ⟨rfl, rfl, rfl⟩)
  | verify conf cs =>
      cases hcurrent
      exact .inr (.inr ⟨conf, cs, rfl, rfl, rfl, rfl⟩)

theorem tasks_setTask_self (s : Reloader C P X) (t : Nat)
    (task : Task C P X) : (s.setTask t task).tasks t = task :=
  Function.update_self _ _ _

theorem tasks_setTask_ne (s : Reloader C P X) {t t' : Nat}
    (hne : t' ≠ t) (task : Task C P X) :
    (s.setTask t task).tasks t' = s.tasks t' :=
  Function.update_of_ne hne _ _

/-- A property of every task, when one of them moves on. -/
theorem forall_setTask {F : Task C P X → Prop} {s : Reloader C P X}
    (hall : ∀ t, F (s.tasks t)) {t : Nat} {task : Task C P X}
    (htask : F task) : ∀ t', F ((s.setTask t task).tasks t') := by
  intro t'
  by_cases ht : t' = t
  · subst ht
    rw [tasks_setTask_self]
    exact htask
  · rw [tasks_setTask_ne s ht]
    exact hall t'

-- ==== steps

/-- The steps of the writers. -/
inductive FileStep (f : File GoString) : ReloaderAction X → GoString →
    File GoString → Prop where
  | write {path : GoString} {m : Int} {c : GoString} :
      FileStep f (.write path m c) path (f.write m c)
  | touch {path : GoString} {m : Int} :
      FileStep f (.touch path m) path (f.touch m)
  | remove {path : GoString} : FileStep f (.remove path) path f.remove

/-- The steps of the calls outside the loaders: which task changes, to
what, and the stage after it. -/
inductive TaskStep (x : X509 C P X) (cfg : Config) (s : Reloader C P X) :
    ReloaderAction X → Nat → Task C P X → Stage → Prop where
  | invalid {t : Nat} {order : List GoString} {err : GoString}
      (hidle : s.tasks t = .idle) :
      TaskStep x cfg s (.new t order) t (.done (.invalid err)) s.stage
  | new {t : Nat} {order : List GoString} (hstage : s.stage = .unbuilt)
      (hidle : s.tasks t = .idle) (horder : order.Perm cfg.pools.keys) :
      TaskStep x cfg s (.new t order) t
        (.new (.pair :: order.map Slot.pool)) .building
  | call {t : Nat} {r : Request X} {task : Task C P X}
      (hstage : s.stage = .built) (hidle : s.tasks t = .idle)
      (hbegin : cfg.begin x r = some task) :
      TaskStep x cfg s (.call t r) t task s.stage
  | noSystem {t : Nat} {name err : GoString} {todo : List Slot}
      (htask : s.tasks t = .new (.pool name :: todo))
      (hfile : cfg.fileBacked (.pool name) = false) :
      TaskStep x cfg s (.system t) t (.done (.noSystemPool name err))
        s.stage
  | system {t : Nat} {k : Slot} {todo : List Slot}
      (htask : s.tasks t = .new (k :: todo))
      (hfile : cfg.fileBacked k = false) :
      TaskStep x cfg s (.system t) t (.newFrom todo)
        (s.stage.after (Task.newFrom todo : Task C P X))

/-- The steps of the machine, with what is known when they are taken. -/
inductive ReloaderStep (x : X509 C P X) (cfg : Config)
    (s : Reloader C P X) (a : ReloaderAction X) :
    Reloader C P X → Prop where
  | file {path : GoString} {f : File GoString}
      (hfile : FileStep (s.disk path) a path f) :
      ReloaderStep x cfg s a (s.setFile path f)
  | task {t : Nat} {task : Task C P X} {stage : Stage}
      (htask : TaskStep x cfg s a t task stage) :
      ReloaderStep x cfg s a { s.setTask t task with stage := stage }
  | inner {t : Nat} {k : Slot} {forced : Bool}
      {w : World GoString (Material C P) GoString}
      (hcurrent : (s.tasks t).current = some (k, forced))
      (hfile : cfg.fileBacked k = true)
      (hcall : CallStep (cfg.loader x k) forced (cfg.maxStale k) t
        (s.world cfg k) w) : ReloaderStep x cfg s a (s.setWorld k w)
  | collect {t : Nat} {k : Slot} {forced : Bool} {r : LoadReturn C P}
      (hcurrent : (s.tasks t).current = some (k, forced))
      (hcall : (s.world cfg k).calls t = .returned r) :
      ReloaderStep x cfg s a
        { (s.setWorld k ((s.world cfg k).setCall t .idle)).setTask t
            ((s.tasks t).after x r) with
          stage := s.stage.after ((s.tasks t).after x r) }

theorem ReloaderStep.of_new {s s' : Reloader C P X} {t : Nat}
    {order : List GoString}
    (h : Reloader.step x cfg (.new t order) s = some s') :
    ReloaderStep x cfg s (.new t order) s' := by
  simp only [Reloader.step] at h
  split at h
  case h_2 => cases h
  case h_1 hstage hidle hperm =>
  split at h
  · cases h
    exact .task (.invalid hidle)
  · cases h
    exact .task (.new hstage hidle (List.isPerm_iff.mp hperm))

theorem ReloaderStep.of_system {s s' : Reloader C P X} {t : Nat}
    (h : Reloader.step x cfg (.system t) s = some s') :
    ReloaderStep x cfg s (.system t) s' := by
  obtain ⟨s₁, htake, rfl⟩ := Option.map_eq_some_iff.mp h
  unfold Reloader.takeSystem at htake
  split at htake
  case h_2 => cases htake
  case h_1 k todo htask =>
  split at htake
  · cases htake
  · rename_i hfile
    rw [Bool.not_eq_true] at hfile
    split at htake
    · cases htake
      rw [tasks_setTask_self]
      exact .task (.noSystem htask hfile)
    · cases htake
      rw [tasks_setTask_self]
      exact .task (.system htask hfile)

/-- The machine takes no other steps. -/
theorem ReloaderStep.of_step {s s' : Reloader C P X}
    {a : ReloaderAction X} (h : Reloader.step x cfg a s = some s') :
    ReloaderStep x cfg s a s' := by
  cases a with
  | write path m c =>
      cases h
      exact .file .write
  | touch path m =>
      cases h
      exact .file .touch
  | remove path =>
      cases h
      exact .file .remove
  | new t order => exact .of_new h
  | call t r =>
      simp only [Reloader.step] at h
      split at h
      · obtain ⟨task, hbegin, rfl⟩ := Option.map_eq_some_iff.mp h
        exact .task (.call ‹_› ‹_› hbegin)
      · cases h
  | system t => exact .of_system h
  | inner t i =>
      simp only [Reloader.step] at h
      split at h
      · cases h
      · rename_i hcurrent
        split at h
        · obtain ⟨w, hw, rfl⟩ := Option.map_eq_some_iff.mp h
          exact .inner hcurrent ‹_› (callStep_of_inner hw)
        · cases h
  | collect t =>
      simp only [Reloader.step, Reloader.collect] at h
      split at h
      · cases h
      · rename_i hcurrent
        split at h
        · cases h
          exact .collect hcurrent ‹_›
        · cases h

section Worlds

variable {s s' : Reloader C P X}

/-- A loader after its own step. -/
theorem world_setWorld_self {k : Slot}
    {w : World GoString (Material C P) GoString}
    (hdisk : w.disk = (s.world cfg k).disk) :
    (s.setWorld k w).world cfg k = w := by
  simp only [Reloader.setWorld, Reloader.world, Function.update_self]
  rw [show (fun i => s.disk (cfg.file k i)) = w.disk from hdisk.symm]

/-- A loader after another's. -/
theorem world_setWorld_ne {k k' : Slot} (hne : k' ≠ k)
    (w : World GoString (Material C P) GoString) :
    (s.setWorld k w).world cfg k' = s.world cfg k' := by
  simp only [Reloader.setWorld, Reloader.world,
    Function.update_of_ne hne]

/-- A step of the system is a step of each loader. -/
theorem ReloaderStep.loader {a : ReloaderAction X}
    (h : ReloaderStep x cfg s a s') (k : Slot) :
    LoaderStep (cfg.loader x k) (cfg.maxStale k) (s.world cfg k)
      (s'.world cfg k) := by
  have hsame : LoaderStep (cfg.loader x k) (cfg.maxStale k)
      (s.world cfg k) (s.world cfg k) := .files
  cases h with
  | file hfile => exact .files
  | task htask => exact hsame
  | @inner t k' forced w hcurrent hfile hcall =>
      by_cases hk : k = k'
      · subst hk
        rw [world_setWorld_self hcall.disk_eq]
        exact .call hcall
      · rw [world_setWorld_ne hk]
        exact hsame
  | @collect t k' forced r hcurrent hcall =>
      show LoaderStep _ _ _ ((s.setWorld k'
        ((s.world cfg k').setCall t .idle)).world cfg k)
      by_cases hk : k = k'
      · subst hk
        rw [world_setWorld_self (w := (s.world cfg k).setCall t .idle) rfl]
        exact .collected
      · rw [world_setWorld_ne hk]
        exact hsame

end Worlds

-- ==== provenance

/-- The file at a path has had these contents: at the start, or since a
write of the run. -/
def Had (disk₀ : GoString → File GoString) (as : List (ReloaderAction X))
    (path raw : GoString) : Prop :=
  (disk₀ path).content = some raw ∨ ∃ m, .write path m raw ∈ as

/-- The roots that a handshake under this configuration may be checked
against. -/
def RootsOf (x : X509 C P X) (cfg : Config)
    (W : GoString → GoString → Prop) (poolName : GoString) (pool : P) :
    Prop :=
  cfg.pools.get poolName = some [] ∧ x.systemRoots = .ok pool
  ∨ ∃ path raw, cfg.pools.get poolName = some path ∧ path ≠ []
      ∧ W path raw ∧ certPoolFromPEM x raw = .ok pool

/-- The peer showed a chain for the name of the handshake. -/
def Vouched (x : X509 C P X) (cfg : Config)
    (W : GoString → GoString → Prop) (conf : PoolConfig)
    (cs : ConnectionState X) : Prop :=
  ∃ pool leaf intermediates, RootsOf x cfg W conf.poolName pool
    ∧ cs.peerCertificates = leaf :: intermediates
    ∧ (fallbackServerName conf.serverName cs).serverName ≠ []
    ∧ x.verify pool leaf intermediates
        (fallbackServerName conf.serverName cs).serverName = none

/-- The certificate is a pair of contents of the two files. -/
def PairOf (x : X509 C P X) (cfg : Config)
    (W : GoString → GoString → Prop) (value : Loaded C P) : Prop :=
  ∃ cert certPEM keyPEM, value.value = .pair cert
    ∧ W cfg.certPath certPEM ∧ W cfg.keyPath keyPEM
    ∧ x.keyPair certPEM keyPEM = .ok cert

/-- What a call knows, and what its answer says. -/
def Task.Proven (x : X509 C P X) (cfg : Config)
    (W : GoString → GoString → Prop) : Task C P X → Prop
  | .verify conf _ =>
      ∃ path, cfg.pools.get conf.poolName = some path ∧ path ≠ []
  | .done (.verified conf cs _ none) => Vouched x cfg W conf cs
  | .done (.cert value none) => PairOf x cfg W value
  | _ => True

/-- The contents in a loader have been in its files. -/
structure Provenance (x : X509 C P X) (cfg : Config)
    (W : GoString → GoString → Prop) (s : Reloader C P X) : Prop where
  disk : ∀ path c, (s.disk path).content = some c → W path c
  parsed : ∀ k, Parsed (cfg.loader x k) (s.world cfg k)
  tracked : ∀ k, Tracked (fun i b => W (cfg.file k i) b.content)
    (fun _ => True) (s.world cfg k)
  tasks : ∀ t, (s.tasks t).Proven x cfg W

section Provenance

variable {W : GoString → GoString → Prop}

theorem proven_of_plain {task : Task C P X} (h : task.plain = true) :
    task.Proven x cfg W := by
  cases task with
  | getClientCertificate | verify => cases h
  | idle | new | refresh | tick => trivial
  | done a =>
      cases a with
      | cert | verified => cases h
      | invalid | noSystemPool | notLoaded | built | refreshed | ticked =>
          trivial

/-- A chain that passes is a chain for the name, whatever the roots. -/
theorem vouched_of_verifyPeerChain {roots : Option P} {conf : PoolConfig}
    {cs : ConnectionState X}
    (hroots : ∀ pool, roots = some pool →
      RootsOf x cfg W conf.poolName pool)
    (h : verifyPeerChain x roots
      (fallbackServerName conf.serverName cs) = none) :
    Vouched x cfg W conf cs := by
  obtain ⟨pool, leaf, rest, hpool, hpeers, hname, hverify⟩ :=
    verifyPeerChain_eq_none h
  refine ⟨pool, leaf, rest, hroots pool hpool, ?_, hname, hverify⟩
  rw [← hpeers]
  unfold fallbackServerName
  split <;> rfl

theorem proven_beginVerify (conf : PoolConfig) (cs : ConnectionState X) :
    (cfg.beginVerify x conf cs).Proven x cfg W := by
  unfold Config.beginVerify
  split
  · trivial
  · rename_i hget
    cases hverify : verifyPeerChain x x.systemRoots.toOption
        (fallbackServerName conf.serverName cs) with
    | some err => trivial
    | none =>
        refine vouched_of_verifyPeerChain (fun pool hpool => ?_) hverify
        cases hsys : x.systemRoots with
        | error err =>
            rw [hsys] at hpool
            cases hpool
        | ok roots =>
            rw [hsys] at hpool
            cases hpool
            exact .inl ⟨hget, hsys⟩
  · rename_i path hne hget
    exact ⟨path, hget, hne⟩

/-- The roots of a pool are those of one reading of its file. -/
theorem Built.Of.pool {b : Loaded C P} {name : GoString}
    (h : b.Of (cfg.loader x (.pool name))) :
    ∃ src roots, b = ⟨.roots roots, [src]⟩
      ∧ certPoolFromPEM x src.content = .ok roots := by
  obtain ⟨value, sources⟩ := b
  obtain ⟨src, hsrc⟩ := List.length_eq_one_iff.mp h.length
  dsimp only at hsrc
  subst hsrc
  have hparse := h.parse
  simp only [Config.loader, List.map_cons, List.map_nil] at hparse
  cases hcert : certPoolFromPEM x src.content with
  | error err =>
      rw [hcert] at hparse
      cases hparse
  | ok roots =>
      rw [hcert] at hparse
      cases hparse
      exact ⟨src, roots, rfl, hcert⟩

/-- The pair is that of one reading of each of its files. -/
theorem Built.Of.pair {b : Loaded C P} (h : b.Of (cfg.loader x .pair)) :
    ∃ certSrc keySrc cert, b = ⟨.pair cert, [certSrc, keySrc]⟩
      ∧ x.keyPair certSrc.content keySrc.content = .ok cert := by
  obtain ⟨value, sources⟩ := b
  obtain ⟨certSrc, keySrc, hsrc⟩ := List.length_eq_two.mp h.length
  dsimp only at hsrc
  subst hsrc
  have hparse := h.parse
  simp only [Config.loader, List.map_cons, List.map_nil] at hparse
  cases hpair : x.keyPair certSrc.content keySrc.content with
  | error err =>
      rw [hpair] at hparse
      cases hparse
  | ok cert =>
      rw [hpair] at hparse
      cases hparse
      exact ⟨certSrc, keySrc, cert, rfl, hpair⟩

/-- The roots that a loader parsed have been in its file. -/
theorem rootsOf_loaded {name path : GoString} {b : Loaded C P}
    (hget : cfg.pools.get name = some path) (hpath : path ≠ [])
    (hof : b.Of (cfg.loader x (.pool name)))
    (hfrom : All (fun i b => W (cfg.file (.pool name) i) b.content)
      b.sources) :
    ∀ pool, b.value.pool = some pool → RootsOf x cfg W name pool := by
  intro pool hpool
  obtain ⟨src, roots, rfl, hcert⟩ := hof.pool
  have hW := hfrom 0 src rfl
  simp only [Config.file, hget, Option.getD_some] at hW
  cases hpool
  exact .inr ⟨path, src.content, hget, hpath, hW, hcert⟩

/-- The pair that a loader parsed has been in its files. -/
theorem pairOf_loaded {b : Loaded C P}
    (hof : b.Of (cfg.loader x .pair))
    (hfrom : All (fun i b => W (cfg.file .pair i) b.content) b.sources) :
    PairOf x cfg W b := by
  obtain ⟨certSrc, keySrc, cert, rfl, hpair⟩ := hof.pair
  exact ⟨cert, certSrc.content, keySrc.content, rfl,
    hfrom 0 certSrc rfl, hfrom 1 keySrc rfl, hpair⟩

/-- The caller goes on with what its loader returned. -/
theorem proven_after {task : Task C P X} {k : Slot} {forced : Bool}
    {r : LoadReturn C P} (hcurrent : task.current = some (k, forced))
    (hproven : task.Proven x cfg W)
    (hof : r.err = none → r.value.Of (cfg.loader x k))
    (hfrom : All (fun i b => W (cfg.file k i) b.content)
      r.value.sources) :
    (task.after x r).Proven x cfg W := by
  rcases after_cases (x := x) (r := r) hcurrent with
    hplain | ⟨rfl, -, hafter⟩ | ⟨conf, cs, rfl, -, htask, hafter⟩
  · exact proven_of_plain hplain
  · rw [hafter]
    cases herr : r.err with
    | some err => trivial
    | none => exact pairOf_loaded (hof herr) hfrom
  · rw [htask] at hproven
    obtain ⟨path, hget, hpath⟩ := hproven
    rw [hafter, verifyLoaded]
    cases herr : r.err with
    | some err => trivial
    | none =>
        cases hverify : verifyPeerChain x r.value.value.pool
            (fallbackServerName conf.serverName cs) with
        | some err => trivial
        | none =>
            exact vouched_of_verifyPeerChain
              (rootsOf_loaded hget hpath (hof herr) hfrom) hverify

/-- The contents after a change of one file. -/
theorem had_setFile {s : Reloader C P X} {path : GoString}
    {f : File GoString}
    (hdisk : ∀ path c, (s.disk path).content = some c → W path c)
    (hf : ∀ c, f.content = some c → W path c) :
    ∀ path' c, ((s.setFile path f).disk path').content = some c →
      W path' c := by
  intro path' c hc
  by_cases hpath : path' = path
  · subst hpath
    simp only [Reloader.setFile, Function.update_self] at hc
    exact hf c hc
  · simp only [Reloader.setFile, Function.update_of_ne hpath] at hc
    exact hdisk path' c hc

theorem Provenance.step {s s' : Reloader C P X} {a : ReloaderAction X}
    (hI : Provenance x cfg W s)
    (hwrite : ∀ path m c, a = .write path m c → W path c)
    (h : ReloaderStep x cfg s a s') : Provenance x cfg W s' := by
  have hparsed : ∀ k, Parsed (cfg.loader x k) (s'.world cfg k) :=
    fun k => (hI.parsed k).step (h.loader k)
  have htracked : ∀ k, Tracked (fun i b => W (cfg.file k i) b.content)
      (fun _ => True) (s'.world cfg k) :=
    fun k => (hI.tracked k).step (fun i c hc => hI.disk _ c hc) (h.loader k)
  refine ⟨?_, hparsed, htracked, ?_⟩
  · cases h with
    | file hfile =>
        refine had_setFile hI.disk fun c hc => ?_
        cases hfile with
        | write =>
            cases hc
            exact hwrite _ _ _ rfl
        | touch => exact hI.disk _ c hc
        | remove => cases hc
    | task | inner | collect => exact hI.disk
  · cases h with
    | file | inner => exact hI.tasks
    | task htask =>
        refine forall_setTask hI.tasks ?_
        cases htask with
        | invalid | new | noSystem => trivial
        | system htask hfile => exact proven_of_plain (plain_newFrom _)
        | call hstage hidle hbegin =>
            rcases begin_cases hbegin with
              ⟨hplain, -⟩ | rfl | ⟨conf, cs, rfl⟩
            · exact proven_of_plain hplain
            · trivial
            · exact proven_beginVerify conf cs
    | @collect t k forced r hcurrent hcall =>
        refine forall_setTask hI.tasks (proven_after hcurrent (hI.tasks t)
          (fun herr => ((hI.parsed k).returned t r hcall herr).1)
          ((hI.tracked k).returned t r trivial hcall))

theorem provenance_init {disk₀ : GoString → File GoString}
    (hdisk : ∀ path c, (disk₀ path).content = some c → W path c) :
    Provenance x cfg W (Reloader.init disk₀ : Reloader C P X) := by
  refine ⟨hdisk, fun k => ⟨?_, ?_, ?_⟩, fun k => ⟨All.nil, ?_, ?_⟩,
    fun t => trivial⟩
  · intro h
    cases h
  · intro t r h
    cases h
  · intro t h
    cases h
  · intro t forced seen got h
    cases h
  · intro t r _ h
    cases h

end Provenance

/-- What a run hands out has been in the files. -/
theorem provenance_run {disk₀ : GoString → File GoString}
    {as : List (ReloaderAction X)} {s : Reloader C P X}
    (hrun : Lib.run (Reloader.step x cfg) as (.init disk₀) = some s) :
    Provenance x cfg (Had disk₀ as) s := by
  refine Lib.run_invariant_along (P := fun a _ => a ∈ as)
    (fun a s s' ha hI h => hI.step (fun path m c hw => ?_) (.of_step h))
    as (Lib.along_of_forall (fun a ha _ => ha) _)
    (provenance_init fun path c hc => .inl hc) hrun
  subst hw
  exact .inr ⟨m, ha⟩

/-- In every run, a handshake that succeeded has checked a chain of the
peer, for a name that is not empty, against roots that are the system's,
if the configuration says so for the pool that it names, and otherwise
were parsed from contents which the file of that pool has had. -/
theorem handshake_provenance (x : X509 C P X) (cfg : Config)
    (disk₀ : GoString → File GoString) (as : List (ReloaderAction X))
    (s : Reloader C P X)
    (hrun : Lib.run (Reloader.step x cfg) as (.init disk₀) = some s)
    (t : Nat) (conf : PoolConfig) (cs : ConnectionState X)
    (trust : Option (Loaded C P))
    (hdone : s.tasks t = .done (.verified conf cs trust none)) :
    ∃ path pool leaf intermediates name,
      cfg.pools.get conf.poolName = some path
      ∧ (path = [] → x.systemRoots = .ok pool)
      ∧ (path ≠ [] → ∃ raw, certPoolFromPEM x raw = .ok pool
          ∧ ((disk₀ path).content = some raw
            ∨ ∃ m, ReloaderAction.write path m raw ∈ as))
      ∧ cs.peerCertificates = leaf :: intermediates
      ∧ name ≠ []
      ∧ name = (if cs.serverName = [] then conf.serverName
          else cs.serverName)
      ∧ x.verify pool leaf intermediates name = none := by
  have htask := (provenance_run hrun).tasks t
  rw [hdone] at htask
  obtain ⟨pool, leaf, rest, hroots, hpeers, hname, hverify⟩ := htask
  have hserver : (fallbackServerName conf.serverName cs).serverName
      = (if cs.serverName = [] then conf.serverName
          else cs.serverName) := by
    unfold fallbackServerName
    split <;> rfl
  rcases hroots with ⟨hget, hsys⟩ | ⟨path, raw, hget, hpath, hW, hcert⟩
  · exact ⟨[], pool, leaf, rest, _, hget, fun _ => hsys,
      fun h => absurd rfl h, hpeers, hname, hserver, hverify⟩
  · exact ⟨path, pool, leaf, rest, _, hget, fun h => absurd h hpath,
      fun _ => ⟨raw, hcert, hW⟩, hpeers, hname, hserver, hverify⟩

-- ==== a run

/-- A bundle that lists the leaves which it vouches for. -/
def sampleX509 : X509 GoString GoString UInt8 where
  keyPair cert key := if cert = key then .ok cert else .error []
  appendCerts raw := if raw = [] then none else some raw
  systemRoots := .error []
  verify roots leaf _ _ :=
    if leaf ∈ roots then none else some (ascii "unknown authority")

def sampleConfig : Config where
  certPath := ascii "crt"
  keyPath := ascii "key"
  pools := Lib.Table.empty.set (ascii "ca") (ascii "pem")
  pollCert := true
  caMaxStale := 0

def sampleInit : Reloader GoString GoString UInt8 :=
  .init fun _ => .missing

/-- Task `t` goes through a loader of `n` files, and reads them. -/
def sampleRead (t n : Nat) : List (ReloaderAction UInt8) :=
  .inner t .begin :: List.replicate (n + 1) (.inner t .stat)
    ++ [.inner t (.check 0), .inner t (.lock 0)]
    ++ List.replicate n (.inner t .read)
    ++ [.inner t (.parse 0 0), .collect t]

/-- Task `t` goes through a loader of `n` files whose mtimes it knows. -/
def sampleKeep (t n : Nat) : List (ReloaderAction UInt8) :=
  .inner t .begin :: List.replicate (n + 1) (.inner t .stat)
    ++ [.inner t (.check 0), .collect t]

/-- The files are written, and `New` loads them. -/
def sampleNew : List (ReloaderAction UInt8) :=
  [.write (ascii "crt") 1 [7], .write (ascii "key") 1 [7],
    .write (ascii "pem") 1 [5], .new 0 [ascii "ca"]]
    ++ sampleRead 0 2 ++ sampleRead 0 1

/-- Task `t`: a handshake with a peer that shows one certificate. -/
def sampleCall (t : Nat) (leaf : UInt8) : ReloaderAction UInt8 :=
  .call t (.handshake ⟨ascii "ca", ascii "db"⟩ ⟨[], [leaf]⟩)

def sampleHandshake : List (ReloaderAction UInt8) :=
  sampleNew ++ sampleCall 1 5 :: sampleKeep 1 1

theorem handshake_provenance_sample :
    ∃ s, Lib.run (Reloader.step sampleX509 sampleConfig) sampleHandshake
        sampleInit = some s
      ∧ ∃ path pool leaf intermediates name,
        sampleConfig.pools.get (ascii "ca") = some path
        ∧ (path = [] → sampleX509.systemRoots = .ok pool)
        ∧ (path ≠ [] → ∃ raw, certPoolFromPEM sampleX509 raw = .ok pool
            ∧ ((none : Option GoString) = some raw
              ∨ ∃ m, .write path m raw ∈ sampleHandshake))
        ∧ [5] = leaf :: intermediates
        ∧ name ≠ []
        ∧ name = ascii "db"
        ∧ sampleX509.verify pool leaf intermediates name = none := by
  obtain ⟨s, hs⟩ : ∃ s, Lib.run (Reloader.step sampleX509 sampleConfig)
      sampleHandshake sampleInit = some s :=
    Option.isSome_iff_exists.mp (by decide +kernel)
  have hmap : (Lib.run (Reloader.step sampleX509 sampleConfig)
      sampleHandshake sampleInit).map (fun s => s.tasks 1)
      = some (.done (.verified ⟨ascii "ca", ascii "db"⟩ ⟨[], [5]⟩
        (some ⟨.roots [5], [⟨[5], 1⟩]⟩) none)) := rfl
  rw [hs] at hmap
  exact ⟨s, hs, handshake_provenance _ _ _ _ s hs 1 _ _ _
    (Option.some.inj hmap)⟩

end Tokyo3Base.Tls
