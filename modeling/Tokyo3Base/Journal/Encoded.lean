/-
`EncodedSink` and `EncodedSource` (journal/encoded.go): a journal of bytes
read and written as values.

# What is modelled

`Append` over any inner sink, and `Subscribe`, whose goroutine is here the
decoder: it takes a message, decodes it, and offers the event to the
consumer, at each of its two `select`s ready to stop. A `select` takes any
case that is ready, so stopping is an action of its own, enabled by the
context, by `Close`, or by the end of the inner channel.

# The system

One inner journal, to which `EncodedSink` and other producers write, and
one subscription to it. The inner source starts at some position of the
journal, puts the records into its channel in order, and may close it; how
many records the channel holds is left open. The consumer's channel is
unbuffered: an event is received in the moment it is sent.

# Bookkeeping

A record says which value it was appended for, if by `EncodedSink`, and
`consumed` has the messages that the decoder has taken.
-/
import Tokyo3Base.Journal.Tracker

namespace Tokyo3Base.Journal

open Go

variable {τ σ : Type}

-- ==== the sink

/-- A wire format: the encoder of the sink and the decoder of the source. -/
structure Codec (τ : Type) where
  encode : τ → Except GoString GoString
  decode : GoString → Option τ

/-- What was encoded decodes to what it was. -/
def Codec.RoundTrips (c : Codec τ) : Prop :=
  ∀ v payload, c.encode v = .ok payload → c.decode payload = some v

/-- `EncodedSink.Append`, over an inner sink with a state of its own. -/
def Codec.append (c : Codec τ)
    (inner : GoString → σ → Except GoString Unit × σ) (v : τ) (s : σ) :
    Except GoString Unit × σ :=
  match c.encode v with
  | .error err => (.error (ascii "encode: " ++ err), s)
  | .ok payload => inner payload s

-- ==== the journal

/-- A record of the inner journal, and the value it was appended for. -/
structure Record (τ : Type) where
  msg : Msg
  appended : Option τ

/-- The inner sink: it writes a record with a sequence and a time of its
own, or fails. -/
def appendRecord (v : τ) (stamp : Except GoString (UInt64 × Int))
    (payload : GoString) (log : List (Record τ)) :
    Except GoString Unit × List (Record τ) :=
  match stamp with
  | .ok (seq, time) => (.ok (), log ++ [⟨⟨seq, time, payload⟩, some v⟩])
  | .error err => (.error err, log)

-- ==== the decoder

/-- `Event[T]`. -/
structure TypedEvent (τ : Type) where
  seq : UInt64
  time : Int
  value : τ
deriving DecidableEq

/-- The event for a message; a message that does not decode has none. -/
def Codec.event (c : Codec τ) (m : Msg) : Option (TypedEvent τ) :=
  (c.decode m.data).map fun v => ⟨m.seq, m.time, v⟩

/-- Where the decoder is. -/
inductive DecoderPhase (τ : Type) where
  | unsubscribed
  | receiving
  | sending (e : TypedEvent τ)
  | stopped

structure Subscription (τ : Type) where
  log : List (Record τ)
  start : Nat
  cursor : Nat
  raw : List Msg
  rawClosed : Bool
  ctxDone : Bool
  done : Bool
  phase : DecoderPhase τ
  received : List (TypedEvent τ)
  consumed : List Msg

def Subscription.init : Subscription τ where
  log := []
  start := 0
  cursor := 0
  raw := []
  rawClosed := false
  ctxDone := false
  done := false
  phase := .unsubscribed
  received := []
  consumed := []

inductive EncodedAction (τ : Type) where
  /-- `EncodedSink.Append` -/
  | append (v : τ) (stamp : Except GoString (UInt64 × Int))
  /-- another producer -/
  | write (m : Msg)
  /-- `EncodedSource.Subscribe`, from a position of the journal -/
  | subscribe (start : Nat)
  /-- the inner source: the next record, and the end -/
  | deliver
  | closeRaw
  /-- the context, and `EncodedSource.Close` -/
  | cancel
  | close
  /-- the decoder -/
  | receive
  | send
  | stop

/-- The decoder may stop. -/
def Subscription.mayStop (s : Subscription τ) : Bool :=
  match s.phase with
  | .receiving => s.ctxDone || s.done || (s.rawClosed && s.raw.isEmpty)
  | .sending _ => s.ctxDone || s.done
  | _ => false

/-- One action; `none` where it cannot happen. -/
def Codec.step (c : Codec τ) (a : EncodedAction τ) (s : Subscription τ) :
    Option (Subscription τ) :=
  match a with
  | .append v stamp =>
      some { s with log := (c.append (appendRecord v stamp) v s.log).2 }
  | .write m => some { s with log := s.log ++ [⟨m, none⟩] }
  | .subscribe start =>
      match s.phase with
      | .unsubscribed =>
          some { s with
            start := start
            cursor := start
            phase := .receiving }
      | _ => none
  | .deliver =>
      match s.phase with
      | .unsubscribed => none
      | _ =>
          if s.rawClosed then none
          else s.log[s.cursor]?.map fun r =>
            { s with
              raw := s.raw ++ [r.msg]
              cursor := s.cursor + 1 }
  | .closeRaw => some { s with rawClosed := true }
  | .cancel => some { s with ctxDone := true }
  | .close => some { s with done := true }
  | .receive =>
      match s.phase, s.raw with
      | .receiving, m :: rest =>
          some { s with
            raw := rest
            consumed := s.consumed ++ [m]
            phase :=
              match c.event m with
              | some e => .sending e
              | none => .receiving }
      | _, _ => none
  | .send =>
      match s.phase with
      | .sending e =>
          some { s with
            received := s.received ++ [e]
            phase := .receiving }
      | _ => none
  | .stop => if s.mayStop then some { s with phase := .stopped } else none

end Tokyo3Base.Journal
