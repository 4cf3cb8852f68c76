/-
`Reloader` (tls/reloader/reloader.go): a key pair and named pools of
roots over one disk, with `New`, `Refresh`, the tick of `RunPoll`,
`GetClientCertificate` and the handshakes of `TLSConfig`.

# The system

Every file-backed slot has a loader of its own, the machine of
`Tls/Concurrent.lean`: a `fileValue`, its lock and its calls. All of
them read one disk. A call of the reloader goes through one or more of
the loaders, one after the other, and between any two steps of it the
writers, and other calls, may take theirs. Nothing is assumed about the
writers: they may give new contents an old mtime, which is the case that
`Refresh` is there for.

# Map order

`New`, `Refresh` and a tick range over the map of the pools, in an order
that Go leaves open. The order is part of the call.

# Bookkeeping

A finished handshake keeps the value that it was verified against,
together with the contents that this was parsed from.
-/
import Tokyo3Base.Lib.Table
import Tokyo3Base.Tls.Concurrent
import Tokyo3Base.Tls.PeerChain

namespace Tokyo3Base.Tls

open Go

-- ==== configuration

/-- What a loader hands out; `nil` is the zero pointer. -/
inductive Material (C P : Type) where
  | nil
  | pair (cert : C)
  | roots (pool : P)

instance {C P : Type} : Inhabited (Material C P) := ⟨.nil⟩

/-- The loaders of a reloader: that of the pair, and one per pool. -/
inductive Slot where
  | pair
  | pool (name : GoString)
deriving DecidableEq

/-- `Config`, without the logger. -/
structure Config where
  certPath : GoString
  keyPath : GoString
  pools : Lib.Table GoString GoString
  pollCert : Bool
  caMaxStale : Int

variable {C P X : Type}

/-- The checks of `New` before it reads anything. -/
def Config.validate (cfg : Config) : Option GoString :=
  if cfg.certPath = [] ∨ cfg.keyPath = [] then
    some (ascii "reloader: CertPath and KeyPath are required")
  else if cfg.pools.size = 0 then
    some (ascii "reloader: at least one Pool is required")
  else if cfg.pools.keys.any (· = []) then
    some (ascii "reloader: pool name must be non-empty")
  else none

/-- The files of a loader. -/
def Config.file (cfg : Config) : Slot → Nat → GoString
  | .pair, 0 => cfg.certPath
  | .pair, _ => cfg.keyPath
  | .pool name, _ => (cfg.pools.get name).getD []

/-- A pool with an empty path is the system's. -/
def Config.fileBacked (cfg : Config) : Slot → Bool
  | .pair => true
  | .pool name => (cfg.pools.get name).any (· ≠ [])

/-- `CALoader.MaxStale`; a `CertLoader` has none. -/
def Config.maxStale (cfg : Config) : Slot → Option Int
  | .pair => none
  | .pool _ => some cfg.caMaxStale

/-- The `read` of a `CertLoader` and of a `CALoader`. -/
def Config.loader (x : X509 C P X) (cfg : Config) :
    Slot → Loader GoString (Material C P) GoString
  | .pair =>
      { files := 2
        parse := fun
          | [certPEM, keyPEM] =>
              ((x.keyPair certPEM keyPEM).map .pair).mapError
                (ascii "load cert pair: " ++ ·)
          | _ => .error [] }
  | .pool name =>
      { files := 1
        parse := fun
          | [raw] => ((certPoolFromPEM x raw).map .roots).mapError
              (cfg.file (.pool name) 0 ++ ascii ": " ++ ·)
          | _ => .error [] }

-- ==== the calls

/-- What `Reloader.TLSConfig` returns: the pool of its
`VerifyConnection`, and the name that `WithServerName` set. -/
structure PoolConfig where
  poolName : GoString
  serverName : GoString

/-- A loader's answer, with the sources of the value. -/
abbrev Loaded (C P : Type) := Built GoString (Material C P)

abbrev LoadReturn (C P : Type) :=
  Return GoString (Material C P) GoString

/-- Why a handshake fails. -/
inductive HandshakeError where
  /-- `reloader: pool %q not registered` -/
  | notRegistered (poolName : GoString)
  /-- `ca bundle: ` and the error of the loader -/
  | caBundle (err : GetError GoString)
  /-- the error of `VerifyPeerChain` -/
  | peer (err : GoString)
deriving DecidableEq

/-- What a call of the reloader came to. -/
inductive Answer (C P X : Type) where
  /-- `New` failed: its own check, the system's pool, or a loader -/
  | invalid (err : GoString)
  | noSystemPool (name err : GoString)
  | notLoaded (slot : Slot) (err : GetError GoString)
  /-- `New` returned the reloader -/
  | built
  /-- `Refresh` returned these errors, joined; nil if there is none -/
  | refreshed (errs : List (Slot × GetError GoString))
  | ticked
  | cert (value : Loaded C P) (err : Option (GetError GoString))
  /-- a handshake, with what a loader gave for it -/
  | verified (conf : PoolConfig) (cs : ConnectionState X)
      (trust : Option (Loaded C P)) (err : Option HandshakeError)

/-- Where a call of the reloader is; `todo` starts with the loader that
it is in. -/
inductive Task (C P X : Type) where
  | idle
  | new (todo : List Slot)
  | refresh (todo : List Slot) (errs : List (Slot × GetError GoString))
  | tick (todo : List Slot)
  | getClientCertificate
  | verify (conf : PoolConfig) (cs : ConnectionState X)
  | done (a : Answer C P X)

/-- The loader that the call is in, and whether it is forced. -/
def Task.current : Task C P X → Option (Slot × Bool)
  | .new (k :: _) => some (k, false)
  | .refresh (k :: _) _ => some (k, true)
  | .tick (k :: _) => some (k, false)
  | .getClientCertificate => some (.pair, false)
  | .verify conf _ => some (.pool conf.poolName, false)
  | _ => none

def Task.newFrom : List Slot → Task C P X
  | [] => .done .built
  | todo => .new todo

def Task.refreshFrom (errs : List (Slot × GetError GoString)) :
    List Slot → Task C P X
  | [] => .done (.refreshed errs)
  | todo => .refresh todo errs

def Task.tickFrom : List Slot → Task C P X
  | [] => .done .ticked
  | todo => .tick todo

/-- The pool that a loader handed out. -/
def Material.pool : Material C P → Option P
  | .roots pool => some pool
  | _ => none

/-- The handshake, once the loader has answered. -/
def verifyLoaded (x : X509 C P X) (conf : PoolConfig)
    (cs : ConnectionState X) (r : LoadReturn C P) : Answer C P X :=
  match r.err with
  | some err => .verified conf cs (some r.value) (some (.caBundle err))
  | none => .verified conf cs (some r.value)
      ((verifyPeerChain x r.value.value.pool
        (fallbackServerName conf.serverName cs)).map .peer)

/-- The call goes on with what the loader returned. -/
def Task.after (x : X509 C P X) (r : LoadReturn C P) :
    Task C P X → Task C P X
  | .new (k :: todo) =>
      match r.err with
      | some err => .done (.notLoaded k err)
      | none => .newFrom todo
  | .refresh (k :: todo) errs =>
      match r.err with
      | some err => .refreshFrom (errs ++ [(k, err)]) todo
      | none => .refreshFrom errs todo
  | .tick (_ :: todo) => .tickFrom todo
  | .getClientCertificate => .done (.cert r.value r.err)
  | .verify conf cs => .done (verifyLoaded x conf cs r)
  | task => task

/-- What a caller asks of a reloader. -/
inductive Request (X : Type) where
  | refresh (order : List GoString)
  | tick (order : List GoString)
  | getClientCertificate
  | handshake (conf : PoolConfig) (cs : ConnectionState X)

/-- The loaders of the pools, in the order in which the map is ranged
over; there is nothing to load for the system's. -/
def Config.poolSlots (cfg : Config) (order : List GoString) : List Slot :=
  (order.map Slot.pool).filter cfg.fileBacked

/-- A handshake: which pool is asked. -/
def Config.beginVerify (x : X509 C P X) (cfg : Config)
    (conf : PoolConfig) (cs : ConnectionState X) : Task C P X :=
  match cfg.pools.get conf.poolName with
  | none => .done (.verified conf cs none
      (some (.notRegistered conf.poolName)))
  | some [] => .done (.verified conf cs none
      ((verifyPeerChain x x.systemRoots.toOption
        (fallbackServerName conf.serverName cs)).map .peer))
  | some _ => .verify conf cs

/-- The start of a call. -/
def Config.begin (x : X509 C P X) (cfg : Config) :
    Request X → Option (Task C P X)
  | .refresh order =>
      if order.isPerm cfg.pools.keys then
        some (.refreshFrom [] (.pair :: cfg.poolSlots order))
      else none
  | .tick order =>
      if order.isPerm cfg.pools.keys then
        some (.tickFrom (if cfg.pollCert then
          .pair :: cfg.poolSlots order else cfg.poolSlots order))
      else none
  | .getClientCertificate => some .getClientCertificate
  | .handshake conf cs => some (cfg.beginVerify x conf cs)

-- ==== the machine

/-- A loader without its disk. -/
structure Cell (C P : Type) where
  shared : FileValue (Loaded C P) GoString
  calls : Nat → Phase GoString (Material C P) GoString
  writer : Option Nat

/-- How far `New` is: nobody else has the reloader before it returns. -/
inductive Stage where
  | unbuilt
  | building
  | built
deriving DecidableEq

structure Reloader (C P X : Type) where
  disk : GoString → File GoString
  cells : Slot → Cell C P
  tasks : Nat → Task C P X
  stage : Stage

def Reloader.init (disk : GoString → File GoString) : Reloader C P X where
  disk := disk
  cells := fun _ => ⟨.zero, fun _ => .idle, none⟩
  tasks := fun _ => .idle
  stage := .unbuilt

/-- The loader of a slot, with the files that it reads. -/
def Reloader.world (cfg : Config) (s : Reloader C P X) (k : Slot) :
    World GoString (Material C P) GoString where
  disk := fun i => s.disk (cfg.file k i)
  shared := (s.cells k).shared
  calls := (s.cells k).calls
  writer := (s.cells k).writer

/-- A loader after a step that left the disk alone. -/
def Reloader.setWorld (s : Reloader C P X) (k : Slot)
    (w : World GoString (Material C P) GoString) : Reloader C P X :=
  { s with
    cells := Function.update s.cells k
      ⟨w.shared, w.calls, w.writer⟩ }

def Reloader.setTask (s : Reloader C P X) (t : Nat) (task : Task C P X) :
    Reloader C P X :=
  { s with tasks := Function.update s.tasks t task }

def Reloader.setFile (s : Reloader C P X) (path : GoString)
    (f : File GoString) : Reloader C P X :=
  { s with disk := Function.update s.disk path f }

/-- A step inside a loader. -/
inductive Inner where
  | begin
  | stat
  | statError
  | check (now : Int)
  | lock (now : Int)
  | read
  | readError (err : GoString) (nowFail nowAfter : Int)
  | parse (nowFail nowAfter : Int)

/-- The same, as a step of the loader's machine. -/
def Inner.action (t : Nat) (forced : Bool) (maxStale : Option Int) :
    Inner → Action GoString GoString
  | .begin => .begin t forced
  | .stat => .stat t
  | .statError => .statError t
  | .check now => .check t maxStale now
  | .lock now => .lock t maxStale now
  | .read => .read t
  | .readError err nowFail nowAfter =>
      .readError t err maxStale nowFail nowAfter
  | .parse nowFail nowAfter => .parse t maxStale nowFail nowAfter

inductive ReloaderAction (X : Type) where
  /-- the writers -/
  | write (path : GoString) (m : Int) (c : GoString)
  | touch (path : GoString) (m : Int)
  | remove (path : GoString)
  /-- `New`, which ranges over the pools in this order -/
  | new (t : Nat) (order : List GoString)
  | call (t : Nat) (r : Request X)
  /-- `New` takes the system's pool -/
  | system (t : Nat)
  | inner (t : Nat) (i : Inner)
  /-- a loader has returned, and its caller goes on -/
  | collect (t : Nat)

/-- `New` comes to a pool of the system. -/
def Reloader.takeSystem (x : X509 C P X) (cfg : Config)
    (s : Reloader C P X) (t : Nat) : Option (Reloader C P X) :=
  match s.tasks t with
  | .new (k :: todo) =>
      if cfg.fileBacked k then none
      else
        match k, x.systemRoots with
        | .pool name, .error err =>
            some (s.setTask t (.done (.noSystemPool name err)))
        | _, _ => some (s.setTask t (.newFrom todo))
  | _ => none

/-- The stage, when a call has ended. -/
def Stage.after (stage : Stage) : Task C P X → Stage
  | .done .built => .built
  | _ => stage

/-- A loader's call has returned: its caller takes the value. -/
def Reloader.collect (x : X509 C P X) (s : Reloader C P X) (t : Nat) :
    Option (Reloader C P X) :=
  match (s.tasks t).current with
  | none => none
  | some (k, _) =>
      match (s.cells k).calls t with
      | .returned r =>
          let task := (s.tasks t).after x r
          some { s with
            cells := Function.update s.cells k { s.cells k with
              calls := Function.update (s.cells k).calls t .idle }
            tasks := Function.update s.tasks t task
            stage := s.stage.after task }
      | _ => none

/-- One step of a writer, of a caller, or of a loader for its caller. -/
def Reloader.step (x : X509 C P X) (cfg : Config) :
    ReloaderAction X → Reloader C P X → Option (Reloader C P X)
  | .write path m c, s => some (s.setFile path ((s.disk path).write m c))
  | .touch path m, s => some (s.setFile path ((s.disk path).touch m))
  | .remove path, s => some (s.setFile path (s.disk path).remove)
  | .new t order, s =>
      match s.stage, s.tasks t, order.isPerm cfg.pools.keys with
      | .unbuilt, .idle, true =>
          match cfg.validate with
          | some err => some (s.setTask t (.done (.invalid err)))
          | none => some { s.setTask t
              (.new (.pair :: order.map Slot.pool)) with
                stage := .building }
      | _, _, _ => none
  | .call t r, s =>
      match s.stage, s.tasks t with
      | .built, .idle => (cfg.begin x r).map fun task => s.setTask t task
      | _, _ => none
  | .system t, s =>
      (s.takeSystem x cfg t).map fun s' =>
        { s' with stage := s'.stage.after (s'.tasks t) }
  | .inner t i, s =>
      match (s.tasks t).current with
      | none => none
      | some (k, forced) =>
          if cfg.fileBacked k then
            (Tls.step (cfg.loader x k) (i.action t forced (cfg.maxStale k))
              (s.world cfg k)).map fun w => s.setWorld k w
          else none
  | .collect t, s => s.collect x t

end Tokyo3Base.Tls
