/-
The client's side of a server-sent event stream, on bytes: lines end in
LF, CR or CRLF, a line is a field or a comment, and a blank line
dispatches the event collected so far.

What is not dispatched when the stream ends is lost, the unfinished line
included: nothing is said about the end, because a client that stops
after any byte has done exactly what `Parser.feed` says. The decoding of
the text from UTF-8 is left out. It neither makes nor hides an ASCII
byte, so it does not move a line end.
-/

namespace Tokyo3Base.Lib.EventStream

def lf : UInt8 := 10

def cr : UInt8 := 13

def colon : UInt8 := 58

def space : UInt8 := 32

/-- The field `data`. -/
def dataField : List UInt8 := [100, 97, 116, 97]

/-- The field `id`. -/
def idField : List UInt8 := [105, 100]

/-- What a listener gets. -/
structure Event where
  id : List UInt8
  data : List UInt8
deriving DecidableEq

/-- What complete lines leave behind: the two buffers of the event being
collected, and what was dispatched so far. -/
structure Buffers where
  data : List UInt8
  id : List UInt8
  dispatched : List Event
deriving DecidableEq

/-- A blank line. Without data there is no event. -/
def Buffers.dispatch (b : Buffers) : Buffers :=
  if b.data = [] then b
  else
    { b with
      data := []
      dispatched := b.dispatched ++ [⟨b.id,
        if b.data.getLast? = some lf then b.data.dropLast else b.data⟩] }

/-- The text before the first colon. -/
def fieldName (line : List UInt8) : List UInt8 :=
  line.takeWhile (· != colon)

/-- The text after the first colon, without one leading space. -/
def fieldValue (line : List UInt8) : List UInt8 :=
  match line.dropWhile (· != colon) with
  | [] => []
  | _ :: value => if value.head? = some space then value.tail else value

/-- A complete line. Fields other than `data` and `id` change neither of
the two. -/
def Buffers.process (b : Buffers) (line : List UInt8) : Buffers :=
  if line = [] then b.dispatch
  else if line.head? = some colon then b
  else if fieldName line = dataField then
    { b with data := b.data ++ fieldValue line ++ [lf] }
  else if fieldName line = idField then
    if 0 ∈ fieldValue line then b else { b with id := fieldValue line }
  else b

/-- A stream being read: the unfinished line, and whether the last byte
was a CR. -/
structure Parser where
  line : List UInt8
  afterCR : Bool
  buffers : Buffers
deriving DecidableEq

/-- A stream of which nothing has been read. -/
def Parser.init : Parser := ⟨[], false, [], [], []⟩

/-- One byte. The LF of a CRLF belongs to the line end before it. -/
def Parser.step (p : Parser) (b : UInt8) : Parser :=
  if b = lf then
    if p.afterCR then { p with afterCR := false }
    else ⟨[], false, p.buffers.process p.line⟩
  else if b = cr then ⟨[], true, p.buffers.process p.line⟩
  else ⟨p.line ++ [b], false, p.buffers⟩

def Parser.feed (p : Parser) (bytes : List UInt8) : Parser :=
  bytes.foldl Parser.step p

def Parser.dispatched (p : Parser) : List Event := p.buffers.dispatched

-- ==== whole streams

theorem Parser.feed_append (p : Parser) (a b : List UInt8) :
    p.feed (a ++ b) = (p.feed a).feed b :=
  List.foldl_append

theorem Buffers.dispatched_process (b : Buffers) (line : List UInt8) :
    b.dispatched <+: (b.process line).dispatched := by
  unfold Buffers.process Buffers.dispatch
  repeat' split
  all_goals first
    | exact List.prefix_append _ _
    | exact List.prefix_refl _

/-- What is dispatched is never taken back. -/
theorem Parser.dispatched_feed (p : Parser) (bytes : List UInt8) :
    p.dispatched <+: (p.feed bytes).dispatched := by
  induction bytes generalizing p with
  | nil => exact List.prefix_refl _
  | cons b bytes ih =>
      refine List.IsPrefix.trans ?_ (ih (p.step b))
      unfold Parser.step
      repeat' split
      · exact List.prefix_refl _
      · exact p.buffers.dispatched_process p.line
      · exact p.buffers.dispatched_process p.line
      · exact List.prefix_refl _

-- ==== one line

/-- Bytes without a line end extend the unfinished line. -/
theorem Parser.feed_open {body : List UInt8} (hlf : lf ∉ body)
    (hcr : cr ∉ body) (line : List UInt8) (b : Buffers) :
    Parser.feed ⟨line, false, b⟩ body = ⟨line ++ body, false, b⟩ := by
  induction body generalizing line with
  | nil => simp [Parser.feed]
  | cons c body ih =>
      rw [List.mem_cons, not_or] at hlf hcr
      obtain ⟨hc, hlf⟩ := hlf
      obtain ⟨hc', hcr⟩ := hcr
      have hstep : Parser.step ⟨line, false, b⟩ c
          = ⟨line ++ [c], false, b⟩ := by
        unfold Parser.step
        rw [if_neg (Ne.symm hc), if_neg (Ne.symm hc')]
      show Parser.feed (Parser.step ⟨line, false, b⟩ c) body = _
      rw [hstep, ih hlf hcr, List.append_assoc, List.singleton_append]

/-- Between two lines. -/
def Buffers.atLineStart (b : Buffers) : Parser := ⟨[], false, b⟩

/-- A line that ends in LF. -/
theorem Buffers.feed_line (b : Buffers) {body : List UInt8}
    (hlf : lf ∉ body) (hcr : cr ∉ body) :
    b.atLineStart.feed (body ++ [lf]) = (b.process body).atLineStart := by
  rw [Parser.feed_append]
  unfold Buffers.atLineStart
  rw [Parser.feed_open hlf hcr]
  rfl

end Tokyo3Base.Lib.EventStream
