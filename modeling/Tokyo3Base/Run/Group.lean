/-
`run.Group` (run/run.go): components that run side by side, the first of
which to return brings the others down.

# The interleaving

`Group` starts one goroutine per component and waits for all of them. A
goroutine runs its component, then cancels the shared context, then
sends the component's error to a channel that has room for every
component, and ends; when all have ended, `Group` closes the channel and
takes the first error out of it that is not nil and not
`context.Canceled`. Each of these is one step, in any order that the
program allows; a component may have returned before the last one was
started. A goroutine ends with its send: nobody can look in between.

A component returns when it wants and what it wants: `ret i err` is
enabled as soon as component `i` runs. What it makes of the context is
its own affair, so the context is a flag that no step reads; it is there
to say which errors came after the shutdown.

# The logs

`returns` and `sends` record who returned what and who sent what, in the
order of the events. The code has neither.
-/
import Mathlib.Logic.Function.Basic

namespace Tokyo3Base.Run

variable {ε : Type} {n : Nat}

-- ==== errors

/-- An error that counts: not nil, and not `context.Canceled` as
`errors.Is` sees it. -/
def fails (canceled : ε → Bool) : Option ε → Bool
  | none => false
  | some err => !canceled err

/-- The loop at the end of `Group`: one error out of the channel. -/
def keepFirst (canceled : ε → Bool) (first err : Option ε) : Option ε :=
  if first.isNone && fails canceled err then err else first

-- ==== the machine

/-- A goroutine, by what it has done. -/
inductive Goroutine (ε : Type) where
  | ready
  | running
  | returned (err : Option ε)
  | cancelled (err : Option ε)
  | done
deriving DecidableEq

/-- `Group` itself: in the loop that starts the components, with the
next one, or past it and waiting; taking errors out of the channel; or
back at its caller. -/
inductive Main (ε : Type) where
  | spawning (next : Nat)
  | draining (first : Option ε)
  | returned (first : Option ε)
deriving DecidableEq

structure State (n : Nat) (ε : Type) where
  main : Main ε
  goroutines : Fin n → Goroutine ε
  /-- the group's context is cancelled -/
  gctx : Bool
  errCh : List (Option ε)
  closed : Bool
  returns : List (Fin n × Option ε)
  sends : List (Fin n × Option ε)

/-- A call of `Group` with `n` components. -/
def State.init (n : Nat) (ε : Type) : State n ε where
  main := if n = 0 then .returned none else .spawning 0
  goroutines := fun _ => .ready
  gctx := false
  errCh := []
  closed := false
  returns := []
  sends := []

/-- What can happen. -/
inductive Event (n : Nat) (ε : Type) where
  | spawn
  | ret (i : Fin n) (err : Option ε)
  | cancel (i : Fin n)
  | send (i : Fin n)
  | wait
  | recv
  | finish
  /-- the caller's context is cancelled, and the group's with it -/
  | interrupt

/-- One event; `none` where it cannot happen. A send waits while the
channel is full, and would panic if it were closed. -/
def step (canceled : ε → Bool) (e : Event n ε) (s : State n ε) :
    Option (State n ε) :=
  match e with
  | .spawn =>
      match s.main with
      | .spawning k =>
          if h : k < n then
            some { s with
              main := .spawning (k + 1)
              goroutines :=
                Function.update s.goroutines ⟨k, h⟩ .running }
          else none
      | _ => none
  | .ret i err =>
      match s.goroutines i with
      | .running =>
          some { s with
            goroutines := Function.update s.goroutines i (.returned err)
            returns := s.returns ++ [(i, err)] }
      | _ => none
  | .cancel i =>
      match s.goroutines i with
      | .returned err =>
          some { s with
            goroutines := Function.update s.goroutines i (.cancelled err)
            gctx := true }
      | _ => none
  | .send i =>
      match s.goroutines i with
      | .cancelled err =>
          if s.closed = false ∧ s.errCh.length < n then
            some { s with
              goroutines := Function.update s.goroutines i .done
              errCh := s.errCh ++ [err]
              sends := s.sends ++ [(i, err)] }
          else none
      | _ => none
  | .wait =>
      match s.main with
      | .spawning k =>
          if k = n ∧ ∀ i, (s.goroutines i matches .done) = true then
            some { s with
              main := .draining none
              closed := true }
          else none
      | _ => none
  | .recv =>
      match s.main, s.errCh with
      | .draining first, err :: rest =>
          some { s with
            main := .draining (keepFirst canceled first err)
            errCh := rest }
      | _, _ => none
  | .finish =>
      match s.main, s.errCh with
      | .draining first, [] => some { s with main := .returned first }
      | _, _ => none
  | .interrupt =>
      if s.gctx = true then none else some { s with gctx := true }

-- ==== order

/-- Who failed first, in a log. -/
def firstFailure (canceled : ε → Bool) (log : List (Fin n × Option ε)) :
    Option (Fin n × Option ε) :=
  log.find? fun x => fails canceled x.2

/-- The error that a goroutine is about to send. -/
def Goroutine.unsent : Goroutine ε → Option (Option ε)
  | .cancelled err => some err
  | _ => none

/-- The first failure to be sent is the first that was returned. -/
def SendsFirst (canceled : ε → Bool) (e : Event n ε) (s : State n ε) :
    Prop :=
  match e with
  | .send i =>
      ∀ err ∈ (s.goroutines i).unsent,
        (firstFailure canceled s.sends).isNone = true →
        fails canceled err = true →
        (firstFailure canceled s.returns).map Prod.fst = some i
  | _ => True

instance (canceled : ε → Bool) (e : Event n ε) (s : State n ε) :
    Decidable (SendsFirst canceled e s) :=
  match e with
  | .send i => inferInstanceAs
      (Decidable (∀ err ∈ (s.goroutines i).unsent, _ → _ → _))
  | .spawn | .ret _ _ | .cancel _ | .wait | .recv | .finish
  | .interrupt => isTrue trivial

-- ==== HTTPServer

/-- How the wait of `HTTPServer` ends: the server stopped serving, or
the context was cancelled and `Shutdown` returned. -/
inductive Served (ε : Type) where
  | stopped (err : Option ε)
  | shutdown (err : Option ε)

/-- `HTTPServer`, as a component: what it returns. `isClosed` is
`errors.Is(err, http.ErrServerClosed)`. -/
def httpServer (isClosed : ε → Bool) : Served ε → Option ε
  | .stopped none => none
  | .stopped (some err) => if isClosed err then none else some err
  | .shutdown err => err

end Tokyo3Base.Run
