/-
What the goroutines of `Subscribe` guarantee, in every interleaving of
any number of subscriptions with the server, with the ends of their
contexts and with `Close`.

# Delivery

`source_delivers`: what a subscriber has received is an initial segment
of the readable messages that the server sent for it, in their order:
nothing twice, nothing out of order, no gap. As long as its context has
not ended and the source is open, everything that the reader took has
arrived or is on offer. No channel is closed twice or sent on after it
was closed.

# Consumers

`source_releases`: every consumer that a call was given, for a probe or
to stay, is deleted once, except while its call still needs it. A
consumer on the server is therefore in use, or the server refused to
delete it.

# Ends

`source_stops`: once the context has ended or the source is closed, the
two goroutines run to their end: they are never both blocked, and they
take a bounded number of steps. The measure prices a message in the
buffer at two (it is taken, and then offered), the reader at the steps
to its end from where it is, and the watcher likewise; the server raises
it by two with each message that it sends.
-/
import Tokyo3Base.Journal.Delivery
import Tokyo3Base.Lib.Run

namespace Tokyo3Base.Journal

open Go

-- ==== steps

/-- The steps of the goroutines, with what is known when they are
taken. -/
inductive GoStep (closing : Bool) (name : Nat) (s : Subscriber) :
    GoEvent → Subscriber → Option ConsumerRequest → Prop where
  | wake (hwatcher : s.watcher = .waiting)
      (hready : (s.ctxDone || closing || s.done) = true) :
      GoStep closing name s .wake { s with watcher := .stopIter } none
  | watcherStop (hwatcher : s.watcher = .stopIter) :
      GoStep closing name s .watcherStop
        { s with stopped := true, watcher := .exited } none
  | offer {m : RawMsg} {rest : List RawMsg} {out : Msg}
      (hreader : s.reader = .next) (hbuffer : s.buffer = m :: rest)
      (hdecode : decodeMsg m = some out) :
      GoStep closing name s .next
        { s with
          buffer := rest
          taken := s.taken ++ [m]
          reader := .offer out } none
  | drop {m : RawMsg} {rest : List RawMsg}
      (hreader : s.reader = .next) (hbuffer : s.buffer = m :: rest)
      (hdecode : decodeMsg m = none) :
      GoStep closing name s .next
        { s with
          buffer := rest
          taken := s.taken ++ [m]
          reader := .next } none
  | nextClosed (hreader : s.reader = .next) (hstopped : s.stopped = true) :
      GoStep closing name s .nextClosed { s with reader := .closeDone }
        none
  | nextError (hreader : s.reader = .next) :
      GoStep closing name s .nextError { s with reader := .closeDone }
        none
  | send {m : Msg} (hreader : s.reader = .offer m) :
      GoStep closing name s .send
        { s with
          received := s.received ++ [m]
          reader := .next
          panicked := s.panicked || s.closed } none
  | quit {m : Msg} (hreader : s.reader = .offer m)
      (hready : (s.ctxDone || closing) = true) :
      GoStep closing name s .quit { s with reader := .closeDone } none
  | closeDone (hreader : s.reader = .closeDone) :
      GoStep closing name s .closeDone
        { s with
          done := true
          reader := .closeCh
          panicked := s.panicked || s.done } none
  | closeCh (hreader : s.reader = .closeCh) :
      GoStep closing name s .closeCh
        { s with
          closed := true
          reader := .stopIter
          panicked := s.panicked || s.closed } none
  | readerStop (hreader : s.reader = .stopIter) :
      GoStep closing name s .readerStop
        { s with stopped := true, reader := .release } none
  | release {ok : Bool} (hreader : s.reader = .release) :
      GoStep closing name s (.release ok) { s with reader := .exited }
        (some (.delete name ok))

theorem GoStep.of_next {closing : Bool} {name : Nat} {s s' : Subscriber}
    (h : s.takeNext = some s') :
    GoStep closing name s .next s' none := by
  unfold Subscriber.takeNext at h
  split at h
  case h_2 => cases h
  case h_1 m rest hreader hbuffer =>
  cases h
  cases hdecode : decodeMsg m with
  | some out => exact .offer hreader hbuffer hdecode
  | none => exact .drop hreader hbuffer hdecode

/-- The goroutines take no other steps. -/
theorem GoStep.of_go {closing : Bool} {name : Nat} {s s' : Subscriber}
    {e : GoEvent} {r : Option ConsumerRequest}
    (h : s.go closing name e = some (s', r)) :
    GoStep closing name s e s' r := by
  unfold Subscriber.go at h
  split at h
  · obtain ⟨s₁, hwatch, heq⟩ := Option.map_eq_some_iff.mp h
    cases heq
    unfold Subscriber.watch at hwatch
    split at hwatch
    · split at hwatch
      · cases hwatch
        exact .wake ‹_› ‹_›
      · cases hwatch
    · cases hwatch
  · cases h
    exact .watcherStop ‹_›
  · obtain ⟨s₁, hnext, heq⟩ := Option.map_eq_some_iff.mp h
    cases heq
    exact .of_next hnext
  · split at h
    · cases h
      exact .nextClosed ‹_› ‹_›
    · cases h
  · cases h
    exact .nextError ‹_›
  · cases h
    exact .send ‹_›
  · split at h
    · cases h
      exact .quit ‹_› ‹_›
    · cases h
  · cases h
    exact .closeDone ‹_›
  · cases h
    exact .closeCh ‹_›
  · cases h
    exact .readerStop ‹_›
  · cases h
    exact .release ‹_›
  · cases h

-- ==== delivery

/-- What is on offer. -/
def Reader.offered : Reader → List Msg
  | .offer m => [m]
  | _ => []

/-- How many of its deferred calls the reader has made. -/
def Reader.passed : Reader → Nat
  | .closeCh => 1
  | .stopIter => 2
  | .release => 3
  | .exited => 4
  | _ => 0

/-- The reader is in its loop. -/
def Reader.reading : Reader → Bool
  | .next => true
  | .offer _ => true
  | _ => false

/-- Each channel is closed once, in the order of the deferred calls, and
an end of either goroutine stops the iterator. -/
structure Subscriber.Ordered (s : Subscriber) : Prop where
  done : s.done = decide (1 ≤ s.reader.passed)
  closed : s.closed = decide (2 ≤ s.reader.passed)
  calm : s.panicked = false
  stopped : 3 ≤ s.reader.passed ∨ s.watcher = .exited → s.stopped = true

/-- The subscriber has what was taken; only one that ends on its context
or on `Close` leaves a message behind. -/
structure Subscriber.Arrived (closing : Bool) (s : Subscriber) : Prop where
  split : s.sent = s.taken ++ s.buffer
  arrived : s.received <+: s.taken.filterMap decodeMsg
  exact : s.reader.reading = true ∨ (s.ctxDone = false ∧ closing = false) →
    s.taken.filterMap decodeMsg = s.received ++ s.reader.offered

section Subscriber

variable {closing : Bool} {name : Nat} {s s' : Subscriber} {e : GoEvent}
  {r : Option ConsumerRequest}

theorem Subscriber.Ordered.go (hI : s.Ordered)
    (h : GoStep closing name s e s' r) : s'.Ordered := by
  obtain ⟨hdone, hclosed, hcalm, hstopped⟩ := hI
  cases h <;> constructor <;> simp_all [Reader.passed]

theorem Subscriber.Arrived.go (hI : s.Arrived closing)
    (h : GoStep closing name s e s' r) : s'.Arrived closing := by
  -- in the loop, what was taken has arrived or is on offer
  have hloop : s.reader.reading = true →
      s.taken.filterMap decodeMsg = s.received ++ s.reader.offered :=
    fun h => hI.exact (.inl h)
  cases h with
  | wake | watcherStop => exact ⟨hI.split, hI.arrived, hI.exact⟩
  | @offer m rest out hreader hbuffer hdecode =>
      rw [hreader] at hloop
      have htaken : (s.taken ++ [m]).filterMap decodeMsg
          = s.received ++ [out] := by
        rw [List.filterMap_append, hloop rfl]
        simp [Reader.offered, hdecode]
      refine ⟨?_, ⟨[out], htaken.symm⟩, fun _ => htaken⟩
      rw [hI.split, hbuffer, List.append_assoc]
      rfl
  | @drop m rest hreader hbuffer hdecode =>
      rw [hreader] at hloop
      have htaken : (s.taken ++ [m]).filterMap decodeMsg
          = s.received ++ [] := by
        rw [List.filterMap_append, hloop rfl]
        simp [Reader.offered, hdecode]
      refine ⟨?_, ⟨[], htaken.symm⟩, fun _ => htaken⟩
      rw [hI.split, hbuffer, List.append_assoc]
      rfl
  | nextClosed hreader | nextError hreader =>
      rw [hreader] at hloop
      exact ⟨hI.split, hI.arrived, fun _ => hloop rfl⟩
  | @send m hreader =>
      rw [hreader] at hloop
      have htaken : s.taken.filterMap decodeMsg
          = (s.received ++ [m]) ++ [] := by
        rw [List.append_nil]
        exact hloop rfl
      exact ⟨hI.split, ⟨[], htaken.symm⟩, fun _ => htaken⟩
  | quit hreader hready =>
      refine ⟨hI.split, hI.arrived, fun h => ?_⟩
      rcases h with h | ⟨hctx, hclosing⟩
      · cases h
      · rw [show s.ctxDone = false from hctx, hclosing] at hready
        cases hready
  | closeDone hreader | closeCh hreader | readerStop hreader
  | release hreader =>
      refine ⟨hI.split, hI.arrived, fun h => ?_⟩
      rcases h with h | h
      · cases h
      · have hexact := hI.exact (.inr h)
        rw [hreader] at hexact
        exact hexact

end Subscriber

-- ==== the source

/-- The goroutines run after the call, and a reader that is over has
asked for the deletion of its consumer. -/
structure Subscriber.Placed (c : Consumers) (s : Subscriber) : Prop where
  unstarted : (∀ name, s.setup ≠ .running name) → s.reader = .next
  released : ∀ name, s.setup = .running name → s.reader = .exited →
    name ∈ c.asked

/-- What holds of every subscription. -/
structure Source.Ok (s : Source) : Prop where
  ordered : ∀ i, (s.subs i).Ordered
  arrived : ∀ i, (s.subs i).Arrived s.closing
  placed : ∀ i, (s.subs i).Placed s.consumers

theorem mem_asked_handle {c : Consumers} {n : Nat} (h : n ∈ c.asked)
    (r : Option ConsumerRequest) : n ∈ (c.handle r).asked := by
  rcases r with - | - | ⟨name, ok⟩
  · exact h
  · exact h
  · cases ok <;> exact List.mem_cons_of_mem _ h

theorem subs_setSub_self (s : Source) (i : Nat) (sub : Subscriber)
    (r : Option ConsumerRequest) : (s.setSub i sub r).subs i = sub :=
  Function.update_self _ _ _

theorem subs_setSub_ne (s : Source) {i j : Nat} (hne : j ≠ i)
    (sub : Subscriber) (r : Option ConsumerRequest) :
    (s.setSub i sub r).subs j = s.subs j :=
  Function.update_of_ne hne _ _

/-- A property of subscription `i`, when subscription `j` changes. -/
theorem of_setSub {s : Source} {F : Subscriber → Prop} {i j : Nat}
    {sub : Subscriber} {r : Option ConsumerRequest}
    (hkeep : F (s.subs i)) (hsub : i = j → F sub) :
    F ((s.setSub j sub r).subs i) := by
  by_cases hj : i = j
  · rw [hj, subs_setSub_self]
    exact hsub hj
  · rw [subs_setSub_ne s hj]
    exact hkeep

theorem Source.Ok.setSub {s : Source} (hI : s.Ok) {i : Nat}
    {sub : Subscriber} {r : Option ConsumerRequest}
    (hordered : sub.Ordered) (harrived : sub.Arrived s.closing)
    (hplaced : sub.Placed (s.consumers.handle r)) : (s.setSub i sub r).Ok :=
  ⟨fun j => of_setSub (hI.ordered j) fun _ => hordered,
    fun j => of_setSub (hI.arrived j) fun _ => harrived,
    fun j => of_setSub (F := Subscriber.Placed (s.consumers.handle r))
      ⟨(hI.placed j).unstarted, fun name hr ho =>
        mem_asked_handle ((hI.placed j).released name hr ho) r⟩
      fun _ => hplaced⟩

theorem Subscriber.call_frame {s s' : Subscriber} {fresh : Nat}
    {e : CallEvent} {r : Option ConsumerRequest}
    (h : s.call fresh e = some (s', r)) :
    (∃ setup, s' = { s with setup := setup })
      ∧ ∀ name, s.setup ≠ .running name := by
  unfold Subscriber.call at h
  split at h <;> cases h
  all_goals
    rename_i hsetup
    exact ⟨⟨_, rfl⟩, fun name h => by cases hsetup.symm.trans h⟩

/-- The steps of the machine. -/
inductive SourceStep (s : Source) : SourceAction → Source → Prop where
  | close : SourceStep s .close { s with closing := true }
  | reap {name : Nat} :
      SourceStep s (.reap name) { s with
        consumers := { s.consumers with
          live := s.consumers.live.filter (· ≠ name) } }
  | cancel {i : Nat} : SourceStep s (.cancel i)
      (s.setSub i { s.subs i with ctxDone := true } none)
  | deliver {i : Nat} {m : RawMsg} {name : Nat}
      (hrunning : (s.subs i).setup = .running name) :
      SourceStep s (.deliver i m) (s.setSub i { s.subs i with
        buffer := (s.subs i).buffer ++ [m]
        sent := (s.subs i).sent ++ [m] } none)
  | call {i : Nat} {e : CallEvent} {sub : Subscriber}
      {r : Option ConsumerRequest}
      (hcall : (s.subs i).call s.consumers.next e = some (sub, r)) :
      SourceStep s (.call i e) (s.setSub i sub r)
  | go {i : Nat} {e : GoEvent} {sub : Subscriber}
      {r : Option ConsumerRequest} {name : Nat}
      (hrunning : (s.subs i).setup = .running name)
      (hgo : GoStep s.closing name (s.subs i) e sub r) :
      SourceStep s (.go i e) (s.setSub i sub r)

theorem SourceStep.of_step {s s' : Source} {a : SourceAction}
    (h : Source.step a s = some s') : SourceStep s a s' := by
  cases a with
  | close =>
      cases h
      exact .close
  | reap name =>
      cases h
      exact .reap
  | cancel i =>
      cases h
      exact .cancel
  | deliver i m =>
      simp only [Source.step] at h
      split at h
      · cases h
        exact .deliver ‹_›
      · cases h
  | call i e =>
      obtain ⟨r, hcall, rfl⟩ := Option.map_eq_some_iff.mp h
      exact .call hcall
  | go i e =>
      simp only [Source.step] at h
      split at h
      · obtain ⟨r, hgo, rfl⟩ := Option.map_eq_some_iff.mp h
        exact .go ‹_› (.of_go hgo)
      · cases h

theorem GoStep.setup_eq {closing : Bool} {name : Nat} {s s' : Subscriber}
    {e : GoEvent} {r : Option ConsumerRequest}
    (h : GoStep closing name s e s' r) : s'.setup = s.setup := by
  cases h <;> rfl

theorem Subscriber.Placed.go {closing : Bool} {name : Nat}
    {s s' : Subscriber} {e : GoEvent} {r : Option ConsumerRequest}
    {c : Consumers} (hI : s.Placed c) (hrunning : s.setup = .running name)
    (h : GoStep closing name s e s' r) : s'.Placed (c.handle r) := by
  refine ⟨fun hnot => absurd (h.setup_eq.trans hrunning) (hnot name),
    fun name' hrunning' hover => ?_⟩
  have hname : s.setup = .running name' := h.setup_eq.symm.trans hrunning'
  cases h with
  | wake | watcherStop => exact hI.released name' hname hover
  | @release ok hreader =>
      cases hrunning.symm.trans hname
      cases ok <;> exact List.mem_cons_self
  | _ => cases hover

theorem Source.Ok.step {s s' : Source} {a : SourceAction} (hI : s.Ok)
    (h : SourceStep s a s') : s'.Ok := by
  cases h with
  | close =>
      refine ⟨hI.ordered, fun i => ⟨(hI.arrived i).split,
        (hI.arrived i).arrived, fun h => ?_⟩, hI.placed⟩
      rcases h with h | ⟨-, h⟩
      · exact (hI.arrived i).exact (.inl h)
      · cases h
  | reap =>
      exact ⟨hI.ordered, hI.arrived, fun i => ⟨(hI.placed i).unstarted,
        (hI.placed i).released⟩⟩
  | @cancel i =>
      have ho := hI.ordered i
      have ha := hI.arrived i
      refine hI.setSub ⟨ho.done, ho.closed, ho.calm, ho.stopped⟩
        ⟨ha.split, ha.arrived, fun h => ?_⟩
        ⟨(hI.placed i).unstarted, (hI.placed i).released⟩
      rcases h with h | ⟨h, -⟩
      · exact ha.exact (.inl h)
      · cases h
  | @deliver i m name hrunning =>
      have ho := hI.ordered i
      have ha := hI.arrived i
      refine hI.setSub ⟨ho.done, ho.closed, ho.calm, ho.stopped⟩
        ⟨?_, ha.arrived, ha.exact⟩
        ⟨(hI.placed i).unstarted, (hI.placed i).released⟩
      rw [ha.split, List.append_assoc]
  | @call i e sub r hcall =>
      obtain ⟨⟨setup, rfl⟩, hnot⟩ := Subscriber.call_frame hcall
      have ho := hI.ordered i
      have ha := hI.arrived i
      have hnext := (hI.placed i).unstarted hnot
      exact hI.setSub ⟨ho.done, ho.closed, ho.calm, ho.stopped⟩
        ⟨ha.split, ha.arrived, ha.exact⟩ ⟨fun _ => hnext,
          fun _ _ hover => by cases hnext.symm.trans hover⟩
  | @go i e sub r name hrunning hgo =>
      exact hI.setSub ((hI.ordered i).go hgo) ((hI.arrived i).go hgo)
        ((hI.placed i).go hrunning hgo)

theorem source_ok_init : Source.init.Ok :=
  ⟨fun _ => ⟨rfl, rfl, rfl, fun h => by rcases h with h | h <;> cases h⟩,
    fun _ => ⟨rfl, List.prefix_rfl, fun _ => rfl⟩,
    fun _ => ⟨fun _ => rfl, fun _ h => by cases h⟩⟩

theorem source_ok_run {as : List SourceAction} {s : Source}
    (hrun : Lib.run Source.step as Source.init = some s) : s.Ok :=
  Lib.run_invariant (fun _ _ _ hI h => hI.step (.of_step h)) as
    source_ok_init hrun

/-- In every run and for every subscription: what was received is an
initial segment of the readable messages that the server sent, in their
order; while neither the context has ended nor the source is closed,
everything that the reader took was received or is on offer; and no
channel is closed twice or sent on after it was closed. -/
theorem source_delivers (as : List SourceAction) (s : Source)
    (hrun : Lib.run Source.step as Source.init = some s) (i : Nat) :
    (s.subs i).received <+: (s.subs i).sent.filterMap decodeMsg
    ∧ ((s.subs i).ctxDone = false → s.closing = false →
      (s.subs i).taken.filterMap decodeMsg
        = (s.subs i).received ++ (s.subs i).reader.offered)
    ∧ (s.subs i).panicked = false := by
  have hI := source_ok_run hrun
  have ha := hI.arrived i
  refine ⟨?_, fun hctx hclosing => ha.exact (.inr ⟨hctx, hclosing⟩),
    (hI.ordered i).calm⟩
  rw [ha.split, List.filterMap_append]
  exact ha.arrived.trans (List.prefix_append _ _)

/-- One probe, then a message that cannot be read and one that can; the
second is received, and the next one waits. -/
def sampleSubscribe : List SourceAction :=
  [.call 0 .begin, .call 0 .probe, .call 0 (.releaseProbe true),
    .call 0 .create, .call 0 .messages, .deliver 0 ⟨none, []⟩,
    .deliver 0 ⟨some (7, 0), []⟩, .deliver 0 ⟨some (8, 0), []⟩,
    .go 0 .next, .go 0 .next, .go 0 .send]

theorem source_delivers_sample :
    ∃ s, Lib.run Source.step sampleSubscribe Source.init = some s
      ∧ (s.subs 0).received = [⟨7, 0, []⟩]
      ∧ (s.subs 0).received <+: (s.subs 0).sent.filterMap decodeMsg := by
  have hmap : (Lib.run Source.step sampleSubscribe Source.init).map
      (fun s => (s.subs 0).received) = some [⟨7, 0, []⟩] := rfl
  obtain ⟨s, hs, hreceived⟩ := Option.map_eq_some_iff.mp hmap
  exact ⟨s, hs, hreceived, (source_delivers _ s hs 0).1⟩

-- ==== consumers

/-- The consumer that a subscription still needs. -/
def Subscriber.holding (s : Subscriber) : Option Nat :=
  match s.setup with
  | .probing name => some name
  | .opening name => some name
  | .aborting name => some name
  | .running name => if s.reader = .exited then none else some name
  | _ => none

/-- What a step does with the consumer of a subscription. -/
inductive Handover (next : Nat) : Option Nat → Option Nat →
    Option ConsumerRequest → Prop where
  | same {h : Option Nat} : Handover next h h none
  | create : Handover next none (some next) (some .create)
  | delete {name : Nat} {ok : Bool} :
      Handover next (some name) none (some (.delete name ok))

theorem Subscriber.call_handover {s s' : Subscriber} {next : Nat}
    {e : CallEvent} {r : Option ConsumerRequest}
    (h : s.call next e = some (s', r)) (hreader : s.reader = .next) :
    Handover next s.holding s'.holding r := by
  unfold Subscriber.call at h
  split at h <;> cases h <;> rename_i hsetup <;>
    simp only [Subscriber.holding, hsetup, hreader]
  · exact .same
  · exact .same
  · exact .create
  · exact .delete
  · exact .create
  · exact .same
  · exact .same
  · exact .delete

theorem GoStep.handover {closing : Bool} {next name : Nat}
    {s s' : Subscriber} {e : GoEvent} {r : Option ConsumerRequest}
    (hrunning : s.setup = .running name)
    (h : GoStep closing name s e s' r) :
    Handover next s.holding s'.holding r := by
  cases h with
  | release hreader =>
      simp only [Subscriber.holding, hrunning, hreader]
      exact .delete
  | wake | watcherStop => exact .same
  | offer hreader | drop hreader | nextClosed hreader
  | nextError hreader | send hreader | quit hreader | closeDone hreader
  | closeCh hreader | readerStop hreader =>
      simp only [Subscriber.holding, hrunning, hreader]
      exact .same

/-- Every consumer ever created is needed by one subscription, or its
deletion was asked for; the two exclude each other. -/
structure Accounted (c : Consumers) (held : Nat → Option Nat) : Prop where
  owned : ∀ n, n < c.next → n ∈ c.asked ∨ ∃ i, held i = some n
  needed : ∀ i n, held i = some n → n < c.next ∧ n ∉ c.asked
  single : ∀ i j n, held i = some n → held j = some n → i = j
  old : ∀ n ∈ c.asked, n < c.next
  once : c.asked.Nodup
  live : ∀ n ∈ c.live, n < c.next ∧ (n ∈ c.asked → n ∈ c.refused)

section Accounted

variable {c : Consumers} {held : Nat → Option Nat} {i : Nat}

/-- Whose consumer it is, after subscription `i` has changed its own. -/
theorem held_update_cases {new : Option Nat} {j n : Nat}
    (h : Function.update held i new j = some n) :
    (j = i ∧ new = some n) ∨ (j ≠ i ∧ held j = some n) := by
  by_cases hj : j = i
  · subst hj
    rw [Function.update_self] at h
    exact .inl ⟨rfl, h⟩
  · rw [Function.update_of_ne hj] at h
    exact .inr ⟨hj, h⟩

theorem held_of_ne {new : Option Nat} {j n : Nat} (hj : j ≠ i)
    (h : held j = some n) : ∃ j, Function.update held i new j = some n :=
  ⟨j, by rw [Function.update_of_ne hj, h]⟩

theorem Accounted.create (hI : Accounted c held) (hi : held i = none) :
    Accounted (c.handle (some .create))
      (Function.update held i (some c.next)) := by
  have hold : ∀ n j, held j = some n → j ≠ i := by
    rintro n j h rfl
    cases hi.symm.trans h
  refine ⟨fun n hn => ?_, fun j n h => ?_, fun j j' n h h' => ?_,
    fun n hn => Nat.lt_succ_of_lt (hI.old n hn), hI.once,
    fun n hn => ?_⟩
  · rcases Nat.lt_succ_iff_lt_or_eq.mp hn with hn | rfl
    · rcases hI.owned n hn with ha | ⟨j, hj⟩
      · exact .inl ha
      · exact .inr (held_of_ne (hold n j hj) hj)
    · exact .inr ⟨i, Function.update_self _ _ _⟩
  · rcases held_update_cases h with ⟨-, heq⟩ | ⟨-, h⟩
    · cases heq
      exact ⟨Nat.lt_succ_self _, fun h => Nat.lt_irrefl _ (hI.old _ h)⟩
    · obtain ⟨hlt, ha⟩ := hI.needed j n h
      exact ⟨Nat.lt_succ_of_lt hlt, ha⟩
  · rcases held_update_cases h with ⟨hj, heq⟩ | ⟨-, hold⟩
    · rcases held_update_cases h' with ⟨hj', -⟩ | ⟨-, hold'⟩
      · exact hj.trans hj'.symm
      · cases heq
        exact absurd (hI.needed j' _ hold').1 (Nat.lt_irrefl _)
    · rcases held_update_cases h' with ⟨-, heq⟩ | ⟨-, hold'⟩
      · cases heq
        exact absurd (hI.needed j _ hold).1 (Nat.lt_irrefl _)
      · exact hI.single j j' n hold hold'
  · rcases List.mem_cons.mp hn with rfl | hn
    · exact ⟨Nat.lt_succ_self _,
        fun h => absurd (hI.old _ h) (Nat.lt_irrefl _)⟩
    · exact ⟨Nat.lt_succ_of_lt (hI.live n hn).1, (hI.live n hn).2⟩

theorem Accounted.delete (hI : Accounted c held) {name : Nat} {ok : Bool}
    (hi : held i = some name) :
    Accounted (c.handle (some (.delete name ok)))
      (Function.update held i none) := by
  obtain ⟨hlt, hnew⟩ := hI.needed i name hi
  have hnext : (c.handle (some (.delete name ok))).next = c.next := by
    cases ok <;> rfl
  have hasked : (c.handle (some (.delete name ok))).asked
      = name :: c.asked := by
    cases ok <;> rfl
  refine ⟨fun n hn => ?_, fun j n h => ?_, fun j j' n h h' => ?_,
    fun n hn => ?_, ?_, fun n hn => ?_⟩
  · rw [hnext] at hn
    rw [hasked]
    by_cases hname : n = name
    · exact .inl (hname ▸ List.mem_cons_self)
    · rcases hI.owned n hn with ha | ⟨j, hj⟩
      · exact .inl (List.mem_cons_of_mem _ ha)
      · refine .inr (held_of_ne ?_ hj)
        rintro rfl
        exact hname (Option.some.inj (hj.symm.trans hi))
  · rcases held_update_cases h with ⟨-, heq⟩ | ⟨hj, h⟩
    · cases heq
    · obtain ⟨hlt', ha⟩ := hI.needed j n h
      refine ⟨hnext ▸ hlt', fun hmem => ?_⟩
      rw [hasked] at hmem
      rcases List.mem_cons.mp hmem with rfl | hmem
      · exact hj (hI.single j i n h hi)
      · exact ha hmem
  · rcases held_update_cases h with ⟨-, heq⟩ | ⟨-, h⟩
    · cases heq
    · rcases held_update_cases h' with ⟨-, heq⟩ | ⟨-, h'⟩
      · cases heq
      · exact hI.single j j' n h h'
  · rw [hasked] at hn
    rw [hnext]
    rcases List.mem_cons.mp hn with rfl | hn
    · exact hlt
    · exact hI.old n hn
  · rw [hasked]
    exact List.nodup_cons.mpr ⟨hnew, hI.once⟩
  · cases ok with
    | true =>
        obtain ⟨hn, hne⟩ := List.mem_filter.mp hn
        refine ⟨(hI.live n hn).1, fun hmem => ?_⟩
        rcases List.mem_cons.mp hmem with heq | hmem
        · exact absurd heq (of_decide_eq_true hne)
        · exact (hI.live n hn).2 hmem
    | false =>
        refine ⟨(hI.live n hn).1, fun hmem => ?_⟩
        rcases List.mem_cons.mp hmem with rfl | hmem
        · exact List.mem_cons_self
        · exact List.mem_cons_of_mem _ ((hI.live n hn).2 hmem)

theorem Accounted.handover (hI : Accounted c held) {new : Option Nat}
    {r : Option ConsumerRequest} (h : Handover c.next (held i) new r) :
    Accounted (c.handle r) (Function.update held i new) := by
  generalize hheld : held i = old at h
  cases h with
  | same =>
      rw [← hheld, Function.update_eq_self]
      exact hI
  | create => exact hI.create hheld
  | delete => exact hI.delete hheld

end Accounted

/-- The consumers of a source. -/
def Source.Accounts (s : Source) : Prop :=
  Accounted s.consumers fun i => (s.subs i).holding

theorem Source.Accounts.setSub {s : Source} (hI : s.Accounts) {i : Nat}
    {sub : Subscriber} {r : Option ConsumerRequest}
    (h : Handover s.consumers.next (s.subs i).holding sub.holding r) :
    (s.setSub i sub r).Accounts := by
  have hheld : (fun j => ((s.setSub i sub r).subs j).holding)
      = Function.update (fun j => (s.subs j).holding) i sub.holding := by
    funext j
    by_cases hj : j = i
    · rw [hj, subs_setSub_self, Function.update_self]
    · rw [subs_setSub_ne s hj, Function.update_of_ne hj]
  unfold Source.Accounts
  rw [hheld]
  exact Accounted.handover hI h

theorem Source.Accounts.step {s s' : Source} {a : SourceAction}
    (hI : s.Accounts) (hok : s.Ok) (h : SourceStep s a s') :
    s'.Accounts := by
  cases h with
  | close => exact hI
  | reap =>
      exact ⟨hI.owned, hI.needed, hI.single, hI.old, hI.once,
        fun n hn => hI.live n (List.mem_filter.mp hn).1⟩
  | cancel => exact hI.setSub .same
  | deliver hrunning => exact hI.setSub .same
  | @call i e sub r hcall =>
      have hnot := (Subscriber.call_frame hcall).2
      exact hI.setSub
        (Subscriber.call_handover hcall ((hok.placed i).unstarted hnot))
  | go hrunning hgo => exact hI.setSub (hgo.handover hrunning)

/-- In every run: no consumer is deleted twice. A consumer that a call was
given, for a probe or for a subscription, is still needed by that call, or
its deletion was asked for; one of these that the server has is needed, or
the server refused to delete it. (A consumer whose creation failed on the
way back was given to nobody, and is not in `live`.) The consumer of a
subscription is deleted after its iterator was stopped and its channel
closed. -/
theorem source_releases (as : List SourceAction) (s : Source)
    (hrun : Lib.run Source.step as Source.init = some s) :
    s.consumers.asked.Nodup
    ∧ (∀ n, n < s.consumers.next →
      n ∈ s.consumers.asked ∨ ∃ i, (s.subs i).holding = some n)
    ∧ (∀ n ∈ s.consumers.live,
      n ∈ s.consumers.refused ∨ ∃ i, (s.subs i).holding = some n)
    ∧ ∀ i name, (s.subs i).setup = .running name →
      name ∈ s.consumers.asked →
      (s.subs i).stopped = true ∧ (s.subs i).closed = true := by
  obtain ⟨hok, hI⟩ : s.Ok ∧ s.Accounts := by
    refine Lib.run_invariant (I := fun s => s.Ok ∧ s.Accounts)
      (fun _ _ _ hI h => ⟨hI.1.step (.of_step h),
        hI.2.step hI.1 (.of_step h)⟩) as ⟨source_ok_init, ?_⟩ hrun
    refine ⟨fun n hn => (Nat.not_lt_zero n hn).elim, fun i n h => ?_,
      fun i j n h => ?_, fun n hn => ?_, List.nodup_nil, fun n hn => ?_⟩
    · cases h
    · cases h
    · cases hn
    · cases hn
  refine ⟨hI.once, hI.owned, fun n hn => ?_, fun i name hrunning ha => ?_⟩
  · obtain ⟨hlt, hrefused⟩ := hI.live n hn
    exact (hI.owned n hlt).imp_left hrefused
  · have hover : (s.subs i).reader = .exited := by
      by_contra hne
      refine (hI.needed i name ?_).2 ha
      simp only [Subscriber.holding, hrunning, if_neg hne]
    have ho := hok.ordered i
    rw [ho.closed, hover]
    exact ⟨ho.stopped (.inl (by rw [hover]; decide)), rfl⟩

/-- The context has ended, and both goroutines follow; the server refuses
to delete the consumer. -/
def sampleEnd : List SourceAction :=
  [.go 0 .wake, .go 0 .watcherStop, .go 0 .nextClosed, .go 0 .closeDone,
    .go 0 .closeCh, .go 0 .readerStop, .go 0 (.release false)]

theorem source_releases_refused :
    ∃ s, Lib.run Source.step (sampleSubscribe ++ .cancel 0 :: sampleEnd)
        Source.init = some s
      ∧ s.consumers.live = [1] ∧ s.consumers.refused = [1]
      ∧ s.consumers.asked.Nodup
      ∧ (s.subs 0).stopped = true ∧ (s.subs 0).closed = true := by
  have hmap : (Lib.run Source.step
      (sampleSubscribe ++ .cancel 0 :: sampleEnd) Source.init).map
      (fun s => (s.consumers.live, s.consumers.refused, s.consumers.asked,
        (s.subs 0).setup)) = some ([1], [1], [1, 0], .running 1) := rfl
  obtain ⟨s, hs, hobs⟩ := Option.map_eq_some_iff.mp hmap
  obtain ⟨hlive, hobs⟩ := Prod.mk.inj hobs
  obtain ⟨hrefused, hobs⟩ := Prod.mk.inj hobs
  obtain ⟨hasked, hrunning⟩ := Prod.mk.inj hobs
  obtain ⟨honce, -, -, hended⟩ := source_releases _ s hs
  exact ⟨s, hs, hlive, hrefused, honce,
    hended 0 1 hrunning (by rw [hasked]; decide)⟩

-- ==== ends

/-- The steps to the end of the reader, if no more messages come. -/
def Reader.weight : Reader → Nat
  | .next => 5
  | .offer _ => 6
  | .closeDone => 4
  | .closeCh => 3
  | .stopIter => 2
  | .release => 1
  | .exited => 0

def Watcher.weight : Watcher → Nat
  | .waiting => 2
  | .stopIter => 1
  | .exited => 0

/-- A bound on the steps of the two goroutines. -/
def Subscriber.measure (s : Subscriber) : Nat :=
  2 * s.buffer.length + s.reader.weight + s.watcher.weight

theorem GoStep.measure_lt {closing : Bool} {name : Nat}
    {s s' : Subscriber} {e : GoEvent} {r : Option ConsumerRequest}
    (h : GoStep closing name s e s' r) : s'.measure < s.measure := by
  cases h with
  | wake hwatcher | watcherStop hwatcher =>
      simp [Subscriber.measure, Watcher.weight, hwatcher]
  | offer hreader hbuffer | drop hreader hbuffer =>
      simp only [Subscriber.measure, Reader.weight, hreader, hbuffer,
        List.length_cons]
      omega
  | nextClosed hreader | nextError hreader | send hreader | quit hreader
  | closeDone hreader | closeCh hreader | readerStop hreader
  | release hreader =>
      simp [Subscriber.measure, Reader.weight, hreader]

/-- A step of the goroutines of subscription `i`. -/
def SourceAction.own (i : Nat) : SourceAction → Bool
  | .go j _ => i == j
  | _ => false

/-- A message of the server for subscription `i`. -/
def SourceAction.feeds (i : Nat) : SourceAction → Bool
  | .deliver j _ => i == j
  | _ => false

/-- Both goroutines are over. -/
def Subscriber.ended (s : Subscriber) : Bool :=
  decide (s.reader = .exited) && decide (s.watcher = .exited)

/-- Once it is told to stop, one of the goroutines can go on until both
are over: a watcher that is over has stopped the iterator, so that `Next`
returns. -/
theorem Subscriber.Ordered.can_go {closing : Bool} {s : Subscriber}
    (hI : s.Ordered) (name : Nat) (hstop : s.ctxDone = true ∨ closing = true)
    (hnot : s.ended = false) :
    ∃ e, (s.go closing name e).isSome = true := by
  have hready : (s.ctxDone || closing) = true := by
    rcases hstop with h | h <;> simp [h]
  cases hw : s.watcher with
  | waiting =>
      exact ⟨.wake, by simp [Subscriber.go, Subscriber.watch, hw, hready]⟩
  | stopIter => exact ⟨.watcherStop, by simp [Subscriber.go, hw]⟩
  | exited =>
      have hstopped := hI.stopped (.inr hw)
      cases hr : s.reader with
      | next =>
          exact ⟨.nextClosed, by simp [Subscriber.go, hr, hstopped]⟩
      | offer m => exact ⟨.quit, by simp [Subscriber.go, hr, hready]⟩
      | closeDone => exact ⟨.closeDone, by simp [Subscriber.go, hr]⟩
      | closeCh => exact ⟨.closeCh, by simp [Subscriber.go, hr]⟩
      | stopIter => exact ⟨.readerStop, by simp [Subscriber.go, hr]⟩
      | release => exact ⟨.release true, by simp [Subscriber.go, hr]⟩
      | exited => simp [Subscriber.ended, hr, hw] at hnot

/-- The measure of one subscription, over a step of the source. -/
theorem SourceStep.measure_le {s s' : Source} {a : SourceAction}
    (h : SourceStep s a s') (i : Nat) :
    (if a.own i then 1 else 0) + (s'.subs i).measure
      ≤ (s.subs i).measure + (if a.feeds i then 2 else 0) := by
  -- a step that is neither, and leaves the measure of its own subscription
  have hquiet : ∀ {j : Nat} {sub : Subscriber}
      {r : Option ConsumerRequest}, sub.measure = (s.subs j).measure →
      0 + ((s.setSub j sub r).subs i).measure
        ≤ (s.subs i).measure + 0 := by
    intro j sub r heq
    refine of_setSub (F := fun sub => 0 + sub.measure ≤ _) ?_ fun hj => ?_
    · omega
    · rw [heq, hj]
      omega
  cases h with
  | close | reap => exact Nat.le_of_eq (Nat.zero_add _)
  | cancel => exact hquiet rfl
  | call hcall =>
      obtain ⟨⟨setup, rfl⟩, -⟩ := Subscriber.call_frame hcall
      exact hquiet rfl
  | @deliver j m name hrunning =>
      by_cases hj : i = j
      · subst hj
        rw [subs_setSub_self]
        simp only [SourceAction.own, SourceAction.feeds,
          Subscriber.measure, List.length_append, List.length_singleton,
          beq_self_eq_true, Bool.false_eq_true, if_true, if_false]
        omega
      · rw [subs_setSub_ne s hj]
        simp [SourceAction.own]
  | @go j e sub r name hrunning hgo =>
      by_cases hj : i = j
      · subst hj
        have hlt := hgo.measure_lt
        rw [subs_setSub_self]
        simp only [SourceAction.own, SourceAction.feeds,
          beq_self_eq_true, Bool.false_eq_true, if_true, if_false]
        omega
      · rw [subs_setSub_ne s hj]
        simp [SourceAction.own, hj]

/-- A running subscription that is told to stop. -/
def Source.Told (i name : Nat) (s : Source) : Prop :=
  (s.subs i).setup = .running name
    ∧ ((s.subs i).ctxDone = true ∨ s.closing = true)

theorem Source.Told.step {s s' : Source} {a : SourceAction} {i name : Nat}
    (hI : s.Told i name) (h : SourceStep s a s') : s'.Told i name := by
  have hkeep : ∀ {j : Nat} {sub : Subscriber}
      {r : Option ConsumerRequest}, (i = j → sub.setup = .running name
        ∧ (sub.ctxDone = true ∨ s.closing = true)) →
      (s.setSub j sub r).Told i name :=
    of_setSub (F := fun sub => sub.setup = .running name
      ∧ (sub.ctxDone = true ∨ s.closing = true)) hI
  cases h with
  | close => exact ⟨hI.1, .inr rfl⟩
  | reap => exact hI
  | cancel => exact hkeep fun h => ⟨h ▸ hI.1, .inl rfl⟩
  | deliver hrunning => exact hkeep fun h => h ▸ hI
  | call hcall =>
      refine hkeep fun h => ?_
      subst h
      exact absurd hI.1 ((Subscriber.call_frame hcall).2 name)
  | @go j e sub r name' hrunning hgo =>
      refine hkeep fun h => ?_
      subst h
      have hctx : sub.ctxDone = (s.subs i).ctxDone := by
        cases hgo <;> rfl
      rw [hctx]
      exact ⟨hgo.setup_eq.trans hI.1, hI.2⟩

/-- From any state of any run in which the context of a running
subscription has ended, or the source is closed: its goroutines take a
bounded number of steps in any continuation, whatever else happens; and
as long as they are not both over, one of them has a step to take. When
they are, the channel is closed, the iterator stopped, and the deletion
of the consumer was asked for. -/
theorem source_stops (as₀ as : List SourceAction) (s s' : Source)
    (hrun : Lib.run Source.step as₀ Source.init = some s) (i name : Nat)
    (hrunning : (s.subs i).setup = .running name)
    (hstop : (s.subs i).ctxDone = true ∨ s.closing = true)
    (hcont : Lib.run Source.step as s = some s') :
    as.countP (SourceAction.own i)
      ≤ (s.subs i).measure + 2 * as.countP (SourceAction.feeds i)
    ∧ ((s'.subs i).ended = false →
      ∃ e, (Source.step (.go i e) s').isSome = true)
    ∧ ((s'.subs i).ended = true →
      (s'.subs i).closed = true ∧ (s'.subs i).stopped = true
        ∧ name ∈ s'.consumers.asked) := by
  have hcount := Lib.run_countP_le (I := fun _ => True)
    (μ := fun s => (s.subs i).measure)
    (fun a s s' _ h => ⟨trivial, (SourceStep.of_step h).measure_le i⟩)
    as trivial hcont
  obtain ⟨hok, htold⟩ : s'.Ok ∧ s'.Told i name :=
    Lib.run_invariant (I := fun s => s.Ok ∧ s.Told i name)
      (fun _ _ _ hI h => ⟨hI.1.step (.of_step h), hI.2.step (.of_step h)⟩)
      as ⟨source_ok_run hrun, hrunning, hstop⟩ hcont
  have ho := hok.ordered i
  refine ⟨Nat.le_trans (Nat.le_add_right _ _) hcount, fun hnot => ?_,
    fun hended => ?_⟩
  · obtain ⟨e, he⟩ := ho.can_go name htold.2 hnot
    refine ⟨e, ?_⟩
    simp only [Source.step, htold.1, Option.isSome_map]
    exact he
  · simp only [Subscriber.ended, Bool.and_eq_true, decide_eq_true_eq]
      at hended
    rw [ho.closed, hended.1]
    exact ⟨rfl, ho.stopped (.inr hended.2),
      (hok.placed i).released name htold.1 hended.1⟩

theorem source_stops_cancelled :
    ∃ s s', Lib.run Source.step (sampleSubscribe ++ [.cancel 0])
        Source.init = some s
      ∧ Lib.run Source.step sampleEnd s = some s'
      ∧ sampleEnd.countP (SourceAction.own 0) ≤ (s.subs 0).measure
      ∧ (s'.subs 0).closed = true ∧ 1 ∈ s'.consumers.asked := by
  have hmap : ((Lib.run Source.step (sampleSubscribe ++ [.cancel 0])
      Source.init).bind fun s => (Lib.run Source.step sampleEnd s).map
        fun s' => ((s.subs 0).setup, (s.subs 0).ctxDone,
          (s'.subs 0).ended)) = some (.running 1, true, true) := rfl
  obtain ⟨s, hs, hmap⟩ := Option.bind_eq_some_iff.mp hmap
  obtain ⟨s', hs', hobs⟩ := Option.map_eq_some_iff.mp hmap
  obtain ⟨hrunning, hobs⟩ := Prod.mk.inj hobs
  obtain ⟨hctx, hended⟩ := Prod.mk.inj hobs
  obtain ⟨hcount, -, hend⟩ :=
    source_stops _ sampleEnd s s' hs 0 1 hrunning (.inl hctx) hs'
  obtain ⟨hclosed, -, hasked⟩ := hend hended
  exact ⟨s, s', hs, hs', hcount, hclosed, hasked⟩

end Tokyo3Base.Journal
