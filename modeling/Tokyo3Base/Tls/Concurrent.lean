/-
`fileValue.get` under concurrency: any number of callers, and writers
that change the backing files at any moment.

# The interleaving

A call stats the files one by one before it takes any lock, checks the
mtime gate under the read lock, checks it again under the write lock,
then reads the files one by one and does its bookkeeping while it still
holds that lock. Each of these is one step. What happens inside a
locked section without touching the disk is one step too: nobody else
can look in between. The parts themselves are those of
`Tls/FileValue.lean`.

# Versions

Each file counts its content changes. The count is not visible to the
code; it is what "at least as new" means. Wherever the code records an
mtime or bytes, the model records the version next to it: `Seen` next
to a stat, `Source` next to bytes read, and a loaded value carries the
sources it was parsed from.

# The writers

A write is enabled only with an mtime that the file never had. A
`touch` moves the mtime and not the contents; it may go to a new mtime,
or back to one that stood for the present contents. What neither can do
is give new contents the mtime of older ones.
-/
import Mathlib.Logic.Function.Basic
import Tokyo3Base.Tls.FileValue

namespace Tokyo3Base.Tls

-- ==== the files

/-- A backing file: its bytes (`none` while it is missing), its mtime,
the count of its content changes, and every mtime it ever had with the
version that it stood for. -/
structure File (κ : Type) where
  content : Option κ
  mtime : Int
  version : Nat
  used : List (Int × Nat)

variable {κ τ ε : Type}

def File.missing : File κ where
  content := none
  mtime := 0
  version := 0
  used := []

/-- No version of the file ever had this mtime. -/
def File.unused (f : File κ) (m : Int) : Bool :=
  f.used.all fun u => u.1 != m

/-- Only the present version ever had this mtime. -/
def File.own (f : File κ) (m : Int) : Bool :=
  f.used.all fun u => u.1 != m || u.2 == f.version

def File.write (f : File κ) (m : Int) (c : κ) : File κ where
  content := some c
  mtime := m
  version := f.version + 1
  used := (m, f.version + 1) :: f.used

def File.touch (f : File κ) (m : Int) : File κ :=
  { f with mtime := m, used := (m, f.version) :: f.used }

def File.remove (f : File κ) : File κ :=
  { f with content := none, version := f.version + 1 }

-- ==== the calls

/-- One stat'ed file: the mtime the code sees, and its version. -/
structure Seen where
  mtime : Int
  version : Nat
deriving DecidableEq

/-- One file read: the bytes the code sees, and their version. -/
structure Source (κ : Type) where
  content : κ
  version : Nat
deriving DecidableEq

/-- A value with the sources it was parsed from. -/
structure Built (κ τ : Type) where
  value : τ
  sources : List (Source κ)

instance [Inhabited τ] : Inhabited (Built κ τ) := ⟨⟨default, []⟩⟩

/-- The stamp of a stat. -/
def stampOf (seen : Option (List Seen)) : Option Stamp :=
  seen.map fun l => l.map Seen.mtime

/-- What a call returned: whether it read the files itself, what it had
stat'ed, and whether a failure run was open when it decided. -/
structure Return (κ τ ε : Type) where
  forced : Bool
  viaRead : Bool
  seen : Option (List Seen)
  value : Built κ τ
  err : Option (GetError ε)
  failing : Bool

/-- Where a call is. -/
inductive Phase (κ τ ε : Type) where
  | idle
  | stat (forced : Bool) (seen : List Seen)
  | check (forced : Bool) (seen : Option (List Seen))
  | lock (forced : Bool) (seen : Option (List Seen))
  | read (forced : Bool) (seen : Option (List Seen))
      (got : List (Source κ))
  | returned (r : Return κ τ ε)

def Phase.holds : Phase κ τ ε → Bool
  | .read .. => true
  | _ => false

/-- How many files there are, and how their bytes are parsed. -/
structure Loader (κ τ ε : Type) where
  files : Nat
  parse : List κ → Except ε τ

/-- The disk, the shared `fileValue`, the calls, and the holder of the
write lock. -/
structure World (κ τ ε : Type) where
  disk : Nat → File κ
  shared : FileValue (Built κ τ) ε
  calls : Nat → Phase κ τ ε
  writer : Option Nat

/-- A failure run is open: the last load attempt failed, and its error
is kept until a load succeeds. -/
def FileValue.failing (f : FileValue τ ε) : Bool := f.failErr.isSome

-- ==== the machine

inductive Action (κ ε : Type) where
  | write (i : Nat) (m : Int) (c : κ)
  | touch (i : Nat) (m : Int)
  | remove (i : Nat)
  | begin (t : Nat) (forced : Bool)
  | stat (t : Nat)
  | statError (t : Nat)
  | check (t : Nat) (maxStale : Option Int) (now : Int)
  | lock (t : Nat) (maxStale : Option Int) (now : Int)
  | read (t : Nat)
  | readError (t : Nat) (e : ε) (maxStale : Option Int)
      (nowFail nowAfter : Int)
  | parse (t : Nat) (maxStale : Option Int) (nowFail nowAfter : Int)

variable [Inhabited τ]

/-- Nothing written, nothing loaded, nobody calling. -/
def World.init : World κ τ ε where
  disk := fun _ => .missing
  shared := .zero
  calls := fun _ => .idle
  writer := none

def World.setFile (w : World κ τ ε) (i : Nat) (f : File κ) :
    World κ τ ε :=
  { w with disk := Function.update w.disk i f }

def World.setCall (w : World κ τ ε) (t : Nat) (p : Phase κ τ ε) :
    World κ τ ε :=
  { w with calls := Function.update w.calls t p }

/-- Return the kept value, without a read. -/
def World.keep (w : World κ τ ε) (t : Nat) (forced : Bool)
    (seen : Option (List Seen))
    (kept : Built κ τ × Option (GetError ε)) : World κ τ ε :=
  w.setCall t (.returned
    { forced := forced, viaRead := false, seen := seen, value := kept.1,
      err := kept.2, failing := w.shared.failing })

/-- The end of a reading call: bookkeeping, unlock, return. -/
def World.finish (w : World κ τ ε) (t : Nat) (forced : Bool)
    (seen : Option (List Seen)) (read : Except ε (Built κ τ))
    (maxStale : Option Int) (nowFail nowAfter : Int) : World κ τ ε :=
  let out := w.shared.afterRead maxStale forced (stampOf seen) read
    nowFail nowAfter
  { w with
    shared := out.2
    writer := none
    calls := Function.update w.calls t (.returned
      { forced := forced, viaRead := true, seen := seen,
        value := out.1.value, err := out.1.err,
        failing := out.2.failing }) }

/-- One step of a writer or of a caller. Stat and read may fail at any
file for any reason, and do when the file is missing. -/
def step (L : Loader κ τ ε) :
    Action κ ε → World κ τ ε → Option (World κ τ ε)
  | .write i m c, w =>
      if (w.disk i).unused m then
        some (w.setFile i ((w.disk i).write m c))
      else none
  | .touch i m, w =>
      if (w.disk i).own m then some (w.setFile i ((w.disk i).touch m))
      else none
  | .remove i, w => some (w.setFile i (w.disk i).remove)
  | .begin t forced, w =>
      match w.calls t with
      | .idle => some (w.setCall t (.stat forced []))
      | _ => none
  | .stat t, w =>
      match w.calls t with
      | .stat forced seen =>
          if seen.length = L.files then
            some (w.setCall t (.check forced (some seen)))
          else
            match (w.disk seen.length).content with
            | none => none
            | some _ =>
                some (w.setCall t (.stat forced
                  (seen ++ [⟨(w.disk seen.length).mtime,
                    (w.disk seen.length).version⟩])))
      | _ => none
  | .statError t, w =>
      match w.calls t with
      | .stat forced _ => some (w.setCall t (.check forced none))
      | _ => none
  | .check t maxStale now, w =>
      match w.calls t, w.writer with
      | .check forced seen, none =>
          match w.shared.fromKept maxStale forced (stampOf seen) now with
          | some kept => some (w.keep t forced seen kept)
          | none => some (w.setCall t (.lock forced seen))
      | _, _ => none
  | .lock t maxStale now, w =>
      match w.calls t, w.writer with
      | .lock forced seen, none =>
          match w.shared.fromKept maxStale forced (stampOf seen) now with
          | some kept => some (w.keep t forced seen kept)
          | none =>
              some { w.setCall t (.read forced seen []) with
                writer := some t }
      | _, _ => none
  | .read t, w =>
      match w.calls t with
      | .read forced seen got =>
          if got.length = L.files then none
          else
            match (w.disk got.length).content with
            | none => none
            | some c =>
                some (w.setCall t (.read forced seen
                  (got ++ [⟨c, (w.disk got.length).version⟩])))
      | _ => none
  | .readError t e maxStale nowFail nowAfter, w =>
      match w.calls t with
      | .read forced seen _ =>
          some (w.finish t forced seen (.error e) maxStale nowFail
            nowAfter)
      | _ => none
  | .parse t maxStale nowFail nowAfter, w =>
      match w.calls t with
      | .read forced seen got =>
          if got.length = L.files then
            some (w.finish t forced seen
              ((L.parse (got.map Source.content)).map fun v => ⟨v, got⟩)
              maxStale nowFail nowAfter)
          else none
      | _ => none

end Tokyo3Base.Tls
