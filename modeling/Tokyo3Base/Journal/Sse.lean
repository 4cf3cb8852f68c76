/-
`sse.Handler` (journal/sse/handler.go): a journal as a server-sent event
stream, and the client that reads it and reconnects.

# The machine

The journal is a JetStream stream that others publish to. A connection
holds what the handler has written and the client not yet received, byte
by byte; it may be cut at any moment, which loses those bytes and
whatever the client had not dispatched. The handler's loop writes one
event or one heartbeat at a time, so these are its two steps.

The client is `Lib.EventStream`. It sends the id of the last event it
dispatched, on whichever connection, as `Last-Event-ID`.

Left out: the handler's limits, deadlines and shutdown channel. They end
or refuse a connection, and a connection may end at any moment here. A
refused request is one that never becomes a connection.
-/
import Tokyo3Base.Lib.EventStream
import Tokyo3Base.Go.Path
import Tokyo3Base.Go.Strconv
import Tokyo3Base.Journal.Tracker
import Tokyo3Base.Journal.Subscribe

namespace Tokyo3Base.Journal.Sse

open Go Lib.EventStream

-- ==== the handler

def defaultReplay : Int64 := 100

/-- The field of `Handler` that decides what is sent. -/
structure Handler where
  replay : Int64

/-- The backfill window `ServeHTTP` asks for. -/
def Handler.replayOrDefault (h : Handler) : Int64 :=
  if h.replay = 0 then defaultReplay else h.replay

/-- The resume point `ServeHTTP` reads from `Last-Event-ID`; 0 stands for
none. -/
def startFromSeq (header : GoString) : UInt64 :=
  if header = [] then 0
  else
    match parseUint header with
    -- n+1 must not wrap to 0
    | some n => if n < UInt64.ofNat (UInt64.size - 1) then n + 1 else 0
    | none => 0

/-- `strings.ReplaceAll(data, "\r\n", "\n")`. -/
def replaceCRLF : GoString → GoString
  | [] => []
  | [b] => [b]
  | b :: c :: rest =>
      if b = cr ∧ c = lf then lf :: replaceCRLF rest
      else b :: replaceCRLF (c :: rest)

/-- The payload with every line end as LF. -/
def normalize (data : GoString) : GoString :=
  (replaceCRLF data).map fun b => if b = cr then lf else b

/-- `writeSSEEvent`: the bytes it writes. -/
def writeSSEEvent (m : Msg) : GoString :=
  ascii "id: " ++ formatUint m.seq.toNat ++ [lf]
    ++ ((split lf (normalize m.data)).flatMap fun line =>
      ascii "data: " ++ line ++ [lf])
    ++ [lf]

/-- The comment that keeps the connection warm. -/
def heartbeat : GoString := ascii ": ping\n\n"

/-- What `ServeHTTP`'s loop writes in one round. -/
inductive Output where
  | event (m : Msg)
  | heartbeat

def Output.bytes : Output → GoString
  | .event m => writeSSEEvent m
  | .heartbeat => Sse.heartbeat

def body (outputs : List Output) : GoString := outputs.flatMap Output.bytes

def records (outputs : List Output) : List Msg :=
  outputs.filterMap fun
    | .event m => some m
    | .heartbeat => none

-- ==== the machine

/-- An open connection: where the consumer has come to, what was written
and not yet received, and what the client made of the rest. -/
structure Connection where
  cursor : Nat
  wire : GoString
  parser : Parser

structure Viewing where
  stream : Stream
  conn : Option Connection
  /-- dispatched on connections that have ended -/
  earlier : List Event

def Viewing.init (stream : Stream) : Viewing := ⟨stream, none, []⟩

/-- Everything the client dispatched, over all connections. -/
def Viewing.events (s : Viewing) : List Event :=
  s.earlier ++ (s.conn.map fun c => c.parser.dispatched).getD []

/-- What the client sends on its next connection; empty means that it
sends no such header. -/
def Viewing.lastEventID (s : Viewing) : GoString :=
  (s.events.getLast?.map Event.id).getD []

inductive ViewEvent (ε : Type) where
  | publish (hit : Bool)
  | connect (agenda : List (Tick ε))
  | write (m : Msg)
  | heartbeat
  | receive
  | cut

variable {ε : Type}

/-- One event, for a journal whose record number `k` has the payload
`payload k`; `none` where it cannot happen. -/
def Handler.step (h : Handler) (payload : Nat → GoString)
    (e : ViewEvent ε) (s : Viewing) : Option Viewing :=
  match e, s.conn with
  | .publish hit, _ => some { s with stream := s.stream.publish hit }
  | .connect agenda, none =>
      match subscribe h.replayOrDefault (startFromSeq s.lastEventID)
          ⟨s.stream, agenda⟩ with
      | .error _ => none
      | .ok c =>
          some { s with
            stream := c.atCreate
            conn := some ⟨c.start, [], .init⟩ }
  | .write m, some c =>
      if s.stream.IsNext c.cursor m.seq.toNat
          ∧ m.data = payload m.seq.toNat then
        some { s with
          conn := some { c with
            cursor := m.seq.toNat + 1
            wire := c.wire ++ writeSSEEvent m } }
      else none
  | .heartbeat, some c =>
      some { s with
        conn := some { c with wire := c.wire ++ Sse.heartbeat } }
  | .receive, some c =>
      match c.wire with
      | [] => none
      | b :: rest =>
          some { s with
            conn := some { c with
              wire := rest
              parser := c.parser.step b } }
  | .cut, some c =>
      some { s with
        conn := none
        earlier := s.earlier ++ c.parser.dispatched }
  | _, _ => none

end Tokyo3Base.Journal.Sse
