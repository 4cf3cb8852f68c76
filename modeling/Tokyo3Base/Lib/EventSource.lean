/-
The whole of a client's reading of a server-sent event stream, from the
bytes of the response on: the text is decoded from UTF-8, cut into lines,
and the lines are interpreted with all four fields, `event` and `retry`
included.

`Lib/EventStream.lean` reads the same text byte by byte and keeps the
identifiers and the data only. The two are connected by
`buffers_interpret`:
of what is read here, it is the part that it keeps.
-/
import Tokyo3Base.Lib.EventStream
import Tokyo3Base.Lib.Utf8

namespace Tokyo3Base.Lib.EventSource

open EventStream

/-- The field `event`. -/
def eventField : List UInt8 := [101, 118, 101, 110, 116]

/-- The field `retry`. -/
def retryField : List UInt8 := [114, 101, 116, 114, 121]

/-- The type of an event that names none: `message`. -/
def messageType : List UInt8 := [109, 101, 115, 115, 97, 103, 101]

/-- An event as it is dispatched. -/
structure Message where
  type : List UInt8
  id : List UInt8
  data : List UInt8
deriving DecidableEq

/-- What the lines so far leave behind. -/
structure Listener where
  data : List UInt8
  type : List UInt8
  id : List UInt8
  /-- the reconnection time, once a `retry` field has set it -/
  retry : Option (List UInt8)
  dispatched : List Message
deriving DecidableEq

/-- A stream of which no line has been read. -/
def Listener.init : Listener := ⟨[], [], [], none, []⟩

/-- A blank line. Without data there is no event. -/
def Listener.dispatch (l : Listener) : Listener :=
  if l.data = [] then { l with type := [] }
  else
    { l with
      data := []
      type := []
      dispatched := l.dispatched ++ [
        { type := if l.type = [] then messageType else l.type
          id := l.id
          data := if l.data.getLast? = some lf then l.data.dropLast
            else l.data }] }

/-- The value of a `retry` field that counts: ASCII digits only. -/
def isReconnectionTime (value : List UInt8) : Bool :=
  value ≠ [] && value.all fun b => 48 ≤ b && b ≤ 57

/-- A complete line. -/
def Listener.process (l : Listener) (line : List UInt8) : Listener :=
  if line = [] then l.dispatch
  else if line.head? = some colon then l
  else if fieldName line = eventField then
    { l with type := fieldValue line }
  else if fieldName line = dataField then
    { l with data := l.data ++ fieldValue line ++ [lf] }
  else if fieldName line = idField then
    if 0 ∈ fieldValue line then l else { l with id := fieldValue line }
  else if fieldName line = retryField
      ∧ isReconnectionTime (fieldValue line) = true then
    { l with retry := some (fieldValue line) }
  else l

/-- The complete lines of a text, the first of which has begun; a line
ends in LF, CR or CRLF. -/
def linesFrom (line : List UInt8) (afterCR : Bool) :
    List UInt8 → List (List UInt8)
  | [] => []
  | b :: s =>
      if b = lf then
        if afterCR then linesFrom line false s
        else line :: linesFrom [] false s
      else if b = cr then line :: linesFrom [] true s
      else linesFrom (line ++ [b]) false s

/-- The complete lines of a text. -/
def lines (text : List UInt8) : List (List UInt8) :=
  linesFrom [] false text

/-- A text of which this much has been read. -/
def interpret (text : List UInt8) : Listener :=
  (lines text).foldl Listener.process .init

/-- A response of which these bytes have arrived. -/
def read (bytes : List UInt8) : Listener :=
  interpret (Utf8.decodeBOM bytes)

-- ==== the reader byte by byte

/-- The part of it that `EventStream` keeps. -/
def Listener.buffers (l : Listener) : Buffers :=
  ⟨l.data, l.id, l.dispatched.map fun m => ⟨m.id, m.data⟩⟩

theorem Listener.buffers_dispatch (l : Listener) :
    l.dispatch.buffers = l.buffers.dispatch := by
  unfold Listener.dispatch Buffers.dispatch
  by_cases hdata : l.data = []
  · rw [if_pos hdata, if_pos (show l.buffers.data = [] from hdata)]
    rfl
  · rw [if_neg hdata, if_neg (show ¬ l.buffers.data = [] from hdata)]
    simp only [Listener.buffers, List.map_append, List.map_cons,
      List.map_nil]
    rfl

/-- A line does the same to both. -/
theorem Listener.buffers_process (l : Listener) (line : List UInt8) :
    (l.process line).buffers = l.buffers.process line := by
  unfold Listener.process Buffers.process
  by_cases hblank : line = []
  · rw [if_pos hblank, if_pos hblank]
    exact l.buffers_dispatch
  rw [if_neg hblank, if_neg hblank]
  by_cases hcomment : line.head? = some colon
  · rw [if_pos hcomment, if_pos hcomment]
  rw [if_neg hcomment, if_neg hcomment]
  by_cases hevent : fieldName line = eventField
  · rw [if_pos hevent, hevent, if_neg (by decide), if_neg (by decide)]
    rfl
  rw [if_neg hevent]
  by_cases hdata : fieldName line = dataField
  · rw [if_pos hdata, if_pos hdata]
    rfl
  rw [if_neg hdata, if_neg hdata]
  by_cases hid : fieldName line = idField
  · rw [if_pos hid, if_pos hid]
    split <;> rfl
  rw [if_neg hid, if_neg hid]
  split <;> rfl

theorem Listener.buffers_foldl (l : Listener)
    (ls : List (List UInt8)) :
    (ls.foldl Listener.process l).buffers
      = ls.foldl Buffers.process l.buffers := by
  induction ls generalizing l with
  | nil => rfl
  | cons line ls ih =>
      rw [List.foldl_cons, List.foldl_cons, ih, l.buffers_process]

theorem feed_linesFrom (line : List UInt8) (afterCR : Bool) (b : Buffers)
    (text : List UInt8) :
    (Parser.feed ⟨line, afterCR, b⟩ text).buffers
      = (linesFrom line afterCR text).foldl Buffers.process b := by
  induction text generalizing line afterCR b with
  | nil => rfl
  | cons c text ih =>
      show (Parser.feed (Parser.step ⟨line, afterCR, b⟩ c) text).buffers = _
      unfold Parser.step linesFrom
      by_cases hlf : c = lf
      · rw [if_pos hlf, if_pos hlf]
        cases afterCR with
        | true => exact ih line false b
        | false => exact ih [] false (b.process line)
      rw [if_neg hlf, if_neg hlf]
      by_cases hcr : c = cr
      · rw [if_pos hcr, if_pos hcr]
        exact ih [] true (b.process line)
      · rw [if_neg hcr, if_neg hcr]
        exact ih (line ++ [c]) false b

/-- The two readers agree. -/
theorem buffers_interpret (text : List UInt8) :
    (interpret text).buffers = (Parser.init.feed text).buffers := by
  rw [interpret, Listener.buffers_foldl]
  exact (feed_linesFrom [] false _ _).symm

-- ==== lines one by one

theorem linesFrom_open {body : List UInt8} (hlf : lf ∉ body)
    (hcr : cr ∉ body) (line rest : List UInt8) :
    linesFrom line false (body ++ lf :: rest)
      = (line ++ body) :: lines rest := by
  induction body generalizing line with
  | nil =>
      rw [List.nil_append, linesFrom, if_pos rfl, List.append_nil]
      rfl
  | cons c body ih =>
      rw [List.mem_cons, not_or] at hlf hcr
      rw [List.cons_append, linesFrom, if_neg (Ne.symm hlf.1),
        if_neg (Ne.symm hcr.1), ih hlf.2 hcr.2, List.append_assoc,
        List.singleton_append]

theorem lines_cons {body : List UInt8} (hlf : lf ∉ body)
    (hcr : cr ∉ body) (rest : List UInt8) :
    lines (body ++ lf :: rest) = body :: lines rest :=
  linesFrom_open hlf hcr [] rest

-- ==== plain events

/-- A line that neither names the next event nor sets the reconnection
time. -/
def PlainLine (line : List UInt8) : Prop :=
  fieldName line ≠ eventField ∧ fieldName line ≠ retryField

/-- Every event so far has the type `message`, and so will the next
one. -/
structure Listener.Plain (l : Listener) : Prop where
  type : l.type = []
  retry : l.retry = none
  dispatched : ∀ m ∈ l.dispatched, m.type = messageType

/-- Plain events are known from what `EventStream` keeps of them. -/
theorem Listener.Plain.dispatched_eq {l : Listener} (h : l.Plain) :
    l.dispatched = l.buffers.dispatched.map fun e =>
      ⟨messageType, e.id, e.data⟩ := by
  have hself : ∀ m ∈ l.dispatched,
      (⟨messageType, m.id, m.data⟩ : Message) = m := fun m hm => by
    rw [← h.dispatched m hm]
  show l.dispatched = (l.dispatched.map _).map _
  rw [List.map_map]
  exact ((List.map_congr_left hself).trans (List.map_id _)).symm

theorem Listener.Plain.dispatch {l : Listener} (h : l.Plain) :
    l.dispatch.Plain := by
  unfold Listener.dispatch
  split
  · exact ⟨rfl, h.retry, h.dispatched⟩
  · refine ⟨rfl, h.retry, fun m hm => ?_⟩
    rcases List.mem_append.mp hm with hm | hm
    · exact h.dispatched m hm
    · rw [List.mem_singleton.mp hm]
      exact if_pos h.type

theorem Listener.Plain.process {l : Listener} (h : l.Plain)
    {line : List UInt8} (hline : PlainLine line) :
    (l.process line).Plain := by
  unfold Listener.process
  rw [if_neg hline.1]
  split
  · exact h.dispatch
  split
  · exact h
  split
  · exact ⟨h.type, h.retry, h.dispatched⟩
  split
  · split
    · exact h
    · exact ⟨h.type, h.retry, h.dispatched⟩
  split
  · rename_i hretry
    exact absurd hretry.1 hline.2
  · exact h

theorem plain_foldl {ls : List (List UInt8)}
    (hls : ∀ line ∈ ls, PlainLine line) {l : Listener} (h : l.Plain) :
    (ls.foldl Listener.process l).Plain := by
  induction ls generalizing l with
  | nil => exact h
  | cons line ls ih =>
      exact ih (fun x hx => hls x (List.mem_cons_of_mem _ hx))
        (h.process (hls line List.mem_cons_self))

/-- Plain lines make plain events. -/
theorem plain_interpret {text : List UInt8}
    (h : ∀ line ∈ lines text, PlainLine line) : (interpret text).Plain :=
  plain_foldl h ⟨rfl, rfl, fun _ hm => (List.not_mem_nil hm).elim⟩

end Tokyo3Base.Lib.EventSource
