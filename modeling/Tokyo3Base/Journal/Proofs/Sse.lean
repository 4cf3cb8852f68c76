/-
A client that reads a journal through `sse.Handler` and reconnects after
every cut dispatches a gap-free run of the matching records.

# The argument

On one connection, what the handler has written dispatches exactly the
records the consumer has come past (`feed_writeSSEEvent`,
`feed_heartbeat`), and a client that stops at any byte has dispatched a
beginning of that (`Parser.dispatched_feed`). A beginning of a window of
the matching records is a window (`Got.upTo`).

Between connections the last id dispatched carries everything: it reads
back as the sequence it was written from, its successor is a resume
point the stream can honour because the record is still there, and the
next connection's window begins exactly where the last one ended
(`subscribe_resume`).
-/
import Tokyo3Base.Lib.Run
import Tokyo3Base.Lib.Window
import Tokyo3Base.Go.Proofs.Path
import Tokyo3Base.Journal.Sse
import Tokyo3Base.Journal.Proofs.Replay

namespace Tokyo3Base.Journal.Sse

open Go Lib Lib.EventStream

variable {ε : Type}

-- ==== the wire

theorem isDigit_ne {c : UInt8} (hc : isDigit c = true) :
    c ≠ lf ∧ c ≠ cr ∧ c ≠ 0 := by
  refine ⟨?_, ?_, ?_⟩ <;> rintro rfl <;> exact absurd hc (by decide)

theorem process_id (b : Buffers) (n : Nat) :
    b.process (ascii "id: " ++ formatUint n)
      = { b with id := formatUint n } := by
  have hzero : (0 : UInt8) ∉ formatUint n := fun h =>
    (isDigit_ne (isDigit_of_mem_formatUint h)).2.2 rfl
  have hname : fieldName (ascii "id: " ++ formatUint n) = idField := rfl
  have hvalue : fieldValue (ascii "id: " ++ formatUint n)
      = formatUint n := rfl
  have hhead : (ascii "id: " ++ formatUint n).head? = some 105 := rfl
  unfold Buffers.process
  rw [hname, hvalue, hhead, if_neg (by simp [ascii]),
    if_neg (by decide), if_neg (by decide), if_pos rfl, if_neg hzero]

theorem process_data (b : Buffers) (line : GoString) :
    b.process (ascii "data: " ++ line)
      = { b with data := b.data ++ line ++ [lf] } := by
  have hname : fieldName (ascii "data: " ++ line) = dataField := rfl
  have hvalue : fieldValue (ascii "data: " ++ line) = line := rfl
  have hhead : (ascii "data: " ++ line).head? = some 100 := rfl
  unfold Buffers.process
  rw [hname, hvalue, hhead, if_neg (by simp [ascii]),
    if_neg (by decide), if_pos rfl]

theorem feed_data (lines : List GoString)
    (h : ∀ line ∈ lines, lf ∉ line ∧ cr ∉ line) (b : Buffers) :
    b.atLineStart.feed
        (lines.flatMap fun line => ascii "data: " ++ line ++ [lf])
      = Buffers.atLineStart
          { b with data := b.data ++ lines.flatMap (· ++ [lf]) } := by
  induction lines generalizing b with
  | nil => simp [Parser.feed]
  | cons line lines ih =>
      obtain ⟨hlf, hcr⟩ := h line List.mem_cons_self
      have hlf' : lf ∉ ascii "data: " ++ line := by
        rw [List.mem_append, not_or]
        exact ⟨by decide, hlf⟩
      have hcr' : cr ∉ ascii "data: " ++ line := by
        rw [List.mem_append, not_or]
        exact ⟨by decide, hcr⟩
      rw [List.flatMap_cons, Parser.feed_append, b.feed_line hlf' hcr',
        process_data, ih fun l hl => h l (List.mem_cons_of_mem _ hl)]
      simp

/-- The lines of a text, each with its end, are the text and one more
line end. -/
theorem flatMap_split (sep : UInt8) (u : GoString) :
    (split sep u).flatMap (· ++ [sep]) = u ++ [sep] := by
  induction u with
  | nil => rfl
  | cons c cs ih =>
      by_cases hc : c = sep
      · subst hc
        rw [split_cons_sep, List.flatMap_cons, ih]
        rfl
      · obtain ⟨w, ws, hw, hcw⟩ := split_cons_of_ne hc cs
        rw [hw, List.flatMap_cons] at ih
        rw [hcw, List.flatMap_cons, List.cons_append, List.cons_append,
          ih]
        rfl

theorem not_mem_normalize (data : GoString) : cr ∉ normalize data := by
  intro h
  obtain ⟨b, -, hb⟩ := List.mem_map.mp h
  split at hb
  · exact absurd hb (by decide)
  · exact absurd hb ‹_›

/-- What a record becomes in the client. -/
def eventOf (payload : Nat → GoString) (k : Nat) : Event :=
  ⟨formatUint k, normalize (payload k)⟩

theorem not_mem_idLine (m : Msg) {c : UInt8} (hc : c = lf ∨ c = cr) :
    c ∉ ascii "id: " ++ formatUint m.seq.toNat := by
  intro hmem
  rcases List.mem_append.mp hmem with h | h
  · rcases hc with rfl | rfl <;> exact absurd h (by decide)
  · obtain ⟨hlf, hcr, -⟩ := isDigit_ne (isDigit_of_mem_formatUint h)
    exact hc.elim hlf hcr

/-- Nor inside a line of the payload. -/
theorem dataLines_ends (m : Msg) :
    ∀ line ∈ split lf (normalize m.data), lf ∉ line ∧ cr ∉ line :=
  fun _ hline =>
    ⟨fun h => (mem_of_mem_split hline h).2 rfl,
      fun h => not_mem_normalize m.data (mem_of_mem_split hline h).1⟩

/-- One event, read between two lines with nothing collected. -/
theorem feed_writeSSEEvent {b : Buffers} (hb : b.data = []) (m : Msg) :
    b.atLineStart.feed (writeSSEEvent m)
      = Buffers.atLineStart ⟨[], formatUint m.seq.toNat,
          b.dispatched
            ++ [⟨formatUint m.seq.toNat, normalize m.data⟩]⟩ := by
  unfold writeSSEEvent
  rw [Parser.feed_append, Parser.feed_append,
    b.feed_line (not_mem_idLine m (.inl rfl))
      (not_mem_idLine m (.inr rfl)), process_id,
    feed_data _ (dataLines_ends m), flatMap_split]
  have hblank := Buffers.feed_line
    { b with
      id := formatUint m.seq.toNat
      data := b.data ++ (normalize m.data ++ [lf]) }
    (List.not_mem_nil : lf ∉ ([] : List UInt8)) List.not_mem_nil
  rw [List.nil_append] at hblank
  rw [hblank]
  simp [Buffers.process, Buffers.dispatch, hb]

theorem feed_heartbeat {b : Buffers} (hb : b.data = []) :
    b.atLineStart.feed heartbeat = b.atLineStart := by
  have hsplit : heartbeat = (ascii ": ping" ++ [lf]) ++ ([] ++ [lf]) := by
    decide
  have hcomment : b.process (ascii ": ping") = b := by
    unfold Buffers.process
    rw [if_neg (by decide), if_pos (by decide)]
  rw [hsplit, Parser.feed_append, b.feed_line (by decide) (by decide),
    hcomment, b.feed_line List.not_mem_nil List.not_mem_nil]
  simp [Buffers.process, Buffers.dispatch, hb]

-- ==== the windows

/-- `ks` are the matching records from `lo` up to `hi`, and no record
published from now on will be one of them. -/
structure Got (s : Stream) (lo hi : Nat) (ks : List Nat) : Prop where
  window : IsWindow s.matching lo hi ks
  le : lo ≤ hi
  settled : lo = hi ∨ hi ≤ s.lastSeq + 1

variable {st st' : Stream} {lo mid hi k : Nat} {ks ls : List Nat}

theorem Got.empty (st : Stream) (lo : Nat) : Got st lo lo [] :=
  ⟨IsWindow.empty _ _, Nat.le_refl _, .inl rfl⟩

theorem Got.grows (h : Got st lo hi ks) (hg : st.Grows st') :
    Got st' lo hi ks := by
  refine ⟨h.window.grow fun j hlo hhi => ⟨fun hj => ?_, fun hj =>
    hg.subset hj⟩, h.le, ?_⟩
  · rcases h.settled with heq | hle
    · omega
    · exact hg.fresh j hj (by omega)
  · have := hg.last_le
    rcases h.settled with heq | hle
    · exact .inl heq
    · exact .inr (by omega)

theorem Got.append (h : Got st lo mid ks) (h' : Got st mid hi ls) :
    Got st lo hi (ks ++ ls) := by
  refine ⟨h.window.append h'.window h.le h'.le,
    Nat.le_trans h.le h'.le, ?_⟩
  rcases h'.settled with heq | hle
  · exact heq ▸ h.settled
  · exact .inr hle

theorem Got.next (h : Got st lo hi ks) (hk : st.IsNext hi k) :
    Got st lo (k + 1) (ks ++ [k]) := by
  obtain ⟨hmem, hle, hleast⟩ := hk
  have := (st.bounds k hmem).2.2
  exact ⟨h.window.snoc hmem h.le hle hleast,
    Nat.le_succ_of_le (Nat.le_trans h.le hle), .inr (by omega)⟩

theorem Got.upTo (h : Got st lo hi (ks ++ [k] ++ ls)) :
    Got st lo (k + 1) (ks ++ [k]) := by
  obtain ⟨hmem, hlo, -⟩ := (h.window.mem_iff k).mp (by simp)
  have := (st.bounds k hmem).2.2
  exact ⟨h.window.take, Nat.le_succ_of_le hlo, .inr (by omega)⟩

theorem Got.initial (h : Got st lo hi ls) (hpre : ks <+: ls) :
    ∃ hi', Got st lo hi' ks := by
  obtain ⟨rest, rfl⟩ := hpre
  rcases List.eq_nil_or_concat ks with rfl | ⟨init, last, rfl⟩
  · exact ⟨lo, Got.empty st lo⟩
  · rw [List.concat_eq_append] at h ⊢
    exact ⟨last + 1, h.upTo⟩

-- ==== reconnecting

/-- The id of a record reads back as its successor's sequence. -/
theorem startFromSeq_formatUint (hk : k < 2 ^ 64 - 1) :
    startFromSeq (formatUint k) = UInt64.ofNat (k + 1) := by
  have hlt : UInt64.ofNat k < UInt64.ofNat (UInt64.size - 1) := by
    rw [UInt64.lt_iff_toNat_lt, toNat_ofNat_of_bounded hk]
    exact hk
  unfold startFromSeq
  rw [if_neg (formatUint_ne_nil k), parseUint_formatUint (by omega)]
  dsimp only
  rw [if_pos hlt]
  apply UInt64.toNat_inj.mp
  rw [UInt64.toNat_add, toNat_ofNat_of_bounded hk, UInt64.toNat_ofNat',
    show (1 : UInt64).toNat = 1 from rfl]

/-- A resume point that the stream has reached is where the consumer
starts. -/
theorem subscribe_resume {replay : Int64} {w : World ε} {c : Consumer}
    (hk : k ≤ w.stream.lastSeq) (hlast : c.atCreate.lastSeq < 2 ^ 64 - 1)
    (h : subscribe replay (UInt64.ofNat (k + 1)) w = .ok c) :
    c.start = k + 1 := by
  obtain ⟨w₁, d, w₂, w₃, h₁, hd, h₂, rfl⟩ := subscribe_ok h
  have hinfo := (World.advance_ok h₁).1.last_le
  have hcreate := (pickDeliverPolicy_grows hd).last_le.trans
    (World.advance_ok h₂).1.last_le
  dsimp only at hlast
  have hnext : (UInt64.ofNat (k + 1)).toNat = k + 1 := by
    rw [UInt64.toNat_ofNat']
    omega
  have hofNat : (UInt64.ofNat w₁.stream.lastSeq).toNat
      = w₁.stream.lastSeq := toNat_ofNat_of_bounded (by omega)
  have hres : UInt64.ofNat (k + 1) > 0
      ∧ UInt64.ofNat (k + 1) ≤ UInt64.ofNat w₁.stream.lastSeq + 1 := by
    rw [resumes_iff (by omega), hofNat, hnext]
    omega
  unfold pickDeliverPolicy at hd
  rw [if_pos hres] at hd
  cases hd
  exact hnext

section Steps

variable (payload : Nat → GoString)

/-- An open connection: `sent` are the records written on it, and what is
on the wire completes the client's reading of them. -/
structure Streaming (st : Stream) (base : Nat) (c : Connection)
    (sent : List Nat) (b : Buffers) : Prop where
  got : Got st base c.cursor sent
  whole : c.parser.feed c.wire = b.atLineStart
  idle : b.data = []
  dispatched : b.dispatched = sent.map (eventOf payload)

/-- What is known of the client and the journal, at any moment. -/
structure ViewInv (s : Viewing) : Prop where
  shut : s.conn = none → ∃ lo hi ks, Got s.stream lo hi ks
    ∧ s.earlier = ks.map (eventOf payload)
  streaming : ∀ c, s.conn = some c → ∃ lo base ks sent b,
    Got s.stream lo base ks ∧ s.earlier = ks.map (eventOf payload)
    ∧ Streaming payload s.stream base c sent b

variable {payload} {h : Handler} {s s' : Viewing}

theorem prefix_map {α β : Type} {f : α → β} {as : List α} {bs : List β}
    (hpre : bs <+: as.map f) : ∃ as', as' <+: as ∧ bs = as'.map f := by
  refine ⟨as.take bs.length, List.take_prefix _ _, ?_⟩
  rw [List.map_take]
  exact List.prefix_iff_eq_take.mp hpre

/-- What has been dispatched on the connection. -/
theorem Streaming.prefix_sent {st : Stream} {base : Nat}
    {c : Connection} {sent : List Nat} {b : Buffers}
    (hc : Streaming payload st base c sent b) : ∃ ks, ks <+: sent
      ∧ c.parser.dispatched = ks.map (eventOf payload) := by
  apply prefix_map
  have hpre := c.parser.dispatched_feed c.wire
  rw [hc.whole] at hpre
  rw [← hc.dispatched]
  exact hpre

/-- In every state, what the client dispatched is a window. -/
theorem ViewInv.events (hs : ViewInv payload s) : ∃ lo hi ks,
    Got s.stream lo hi ks ∧ s.events = ks.map (eventOf payload) := by
  unfold Viewing.events
  cases hc : s.conn with
  | none =>
      obtain ⟨lo, hi, ks, hgot, hks⟩ := hs.shut hc
      refine ⟨lo, hi, ks, hgot, ?_⟩
      rw [hks]
      exact List.append_nil _
  | some c =>
      obtain ⟨lo, base, ks, sent, b, hgot, hks, hstr⟩ :=
        hs.streaming c hc
      obtain ⟨ls, hls, hdisp⟩ := hstr.prefix_sent
      obtain ⟨hi, hwin⟩ := (hgot.append hstr.got).initial
        ((List.prefix_append_right_inj ks).mpr hls)
      refine ⟨lo, hi, ks ++ ls, hwin, ?_⟩
      rw [hks, List.map_append, ← hdisp]
      rfl

theorem viewInv_init (stream : Stream) :
    ViewInv payload (.init stream) :=
  ⟨fun _ => ⟨0, 0, [], Got.empty stream 0, rfl⟩, nofun⟩

theorem ViewInv.publish (hs : ViewInv payload s) (hit : Bool) :
    ViewInv payload { s with stream := s.stream.publish hit } := by
  have hgrows := s.stream.grows_publish hit
  refine ⟨fun hc => ?_, fun c hc => ?_⟩
  · obtain ⟨lo, hi, ks, hgot, hks⟩ := hs.shut hc
    exact ⟨lo, hi, ks, hgot.grows hgrows, hks⟩
  · obtain ⟨lo, base, ks, sent, b, hgot, hks, hstr⟩ := hs.streaming c hc
    exact ⟨lo, base, ks, sent, b, hgot.grows hgrows, hks,
      { hstr with got := hstr.got.grows hgrows }⟩

/-- A new connection continues after the last event dispatched, if there
is one. -/
theorem ViewInv.connect (hs : ViewInv payload s) (hconn : s.conn = none)
    {agenda : List (Tick ε)} {replay : Int64} {c : Consumer}
    (hlast : c.atCreate.lastSeq < 2 ^ 64 - 1)
    (hsub : subscribe replay (startFromSeq s.lastEventID)
      ⟨s.stream, agenda⟩ = .ok c) :
    ViewInv payload { s with
      stream := c.atCreate
      conn := some ⟨c.start, [], .init⟩ } := by
  have hearlier : s.events = s.earlier := by
    unfold Viewing.events
    rw [hconn]
    exact List.append_nil _
  obtain ⟨lo, hi, ks, hgot, hks⟩ := hs.events
  have hgrows := subscribe_grows hsub
  refine ⟨nofun, fun c' hc' => ?_⟩
  cases hc'
  -- the window so far ends where the consumer starts
  have hbase : ∃ lo, Got c.atCreate lo c.start ks := by
    rcases List.eq_nil_or_concat ks with rfl | ⟨init, k, rfl⟩
    · exact ⟨c.start, Got.empty _ _⟩
    · rw [List.concat_eq_append] at hgot hks ⊢
      have hmem := (hgot.window.mem_iff k).mp (by simp)
      have hk := (s.stream.bounds k hmem.1).2.2
      have hid : s.lastEventID = formatUint k := by
        unfold Viewing.lastEventID
        rw [hks]
        simp [eventOf]
      have hle : s.stream.lastSeq ≤ c.atCreate.lastSeq := hgrows.last_le
      rw [hid, startFromSeq_formatUint (by omega)] at hsub
      have hgot' : Got s.stream lo hi (init ++ [k] ++ []) := by
        rwa [List.append_nil]
      rw [subscribe_resume hk hlast hsub]
      exact ⟨lo, hgot'.upTo.grows hgrows⟩
  obtain ⟨lo, hgot⟩ := hbase
  exact ⟨lo, c.start, ks, [], ⟨[], [], []⟩, hgot,
    hearlier.symm.trans hks, ⟨Got.empty _ _, rfl, rfl, rfl⟩⟩

theorem Streaming.write {st : Stream} {base : Nat} {c : Connection}
    {sent : List Nat} {b : Buffers}
    (hc : Streaming payload st base c sent b) {m : Msg}
    (hnext : st.IsNext c.cursor m.seq.toNat)
    (hdata : m.data = payload m.seq.toNat) :
    ∃ b', Streaming payload st base
      { c with
        cursor := m.seq.toNat + 1
        wire := c.wire ++ writeSSEEvent m }
      (sent ++ [m.seq.toNat]) b' := by
  refine ⟨⟨[], formatUint m.seq.toNat, b.dispatched
      ++ [⟨formatUint m.seq.toNat, normalize m.data⟩]⟩,
    hc.got.next hnext, ?_, rfl, ?_⟩
  · show c.parser.feed (c.wire ++ writeSSEEvent m) = _
    rw [Parser.feed_append, hc.whole, feed_writeSSEEvent hc.idle]
  · show b.dispatched ++ _ = _
    rw [hc.dispatched, List.map_append, hdata]
    rfl

theorem Streaming.heartbeat {st : Stream} {base : Nat} {c : Connection}
    {sent : List Nat} {b : Buffers}
    (hc : Streaming payload st base c sent b) :
    Streaming payload st base
      { c with wire := c.wire ++ Sse.heartbeat } sent b := by
  refine ⟨hc.got, ?_, hc.idle, hc.dispatched⟩
  show c.parser.feed (c.wire ++ Sse.heartbeat) = _
  rw [Parser.feed_append, hc.whole, feed_heartbeat hc.idle]

/-- A step of the open connection that leaves the rest alone. -/
theorem ViewInv.stream_on (hs : ViewInv payload s) {c c' : Connection}
    (hconn : s.conn = some c)
    (hstep : ∀ base sent b, Streaming payload s.stream base c sent b →
      ∃ sent' b', Streaming payload s.stream base c' sent' b') :
    ViewInv payload { s with conn := some c' } := by
  obtain ⟨lo, base, ks, sent, b, hgot, hks, hstr⟩ :=
    hs.streaming c hconn
  refine ⟨nofun, fun c'' hc'' => ?_⟩
  cases hc''
  obtain ⟨sent', b', hstr'⟩ := hstep base sent b hstr
  exact ⟨lo, base, ks, sent', b', hgot, hks, hstr'⟩

/-- The connection is gone; what was dispatched stays. -/
theorem ViewInv.cut (hs : ViewInv payload s) {c : Connection}
    (hconn : s.conn = some c) :
    ViewInv payload { s with
      conn := none
      earlier := s.earlier ++ c.parser.dispatched } := by
  obtain ⟨lo, hi, ks, hgot, hks⟩ := hs.events
  refine ⟨fun _ => ⟨lo, hi, ks, hgot, ?_⟩, nofun⟩
  rw [← hks]
  unfold Viewing.events
  rw [hconn]
  rfl

/-- One event. The bound is on the stream afterwards; it was lower
before. -/
theorem ViewInv.step {e : ViewEvent ε}
    (hs : s.stream.lastSeq < 2 ^ 64 - 1 → ViewInv payload s)
    (hstep : h.step payload e s = some s')
    (hlast : s'.stream.lastSeq < 2 ^ 64 - 1) : ViewInv payload s' := by
  unfold Handler.step at hstep
  split at hstep
  · rename_i hit
    cases hstep
    have hle := (s.stream.grows_publish hit).last_le
    exact (hs (Nat.lt_of_le_of_lt hle hlast)).publish hit
  · rename_i agenda hconn
    split at hstep
    · cases hstep
    · rename_i c hsub
      cases hstep
      have hle := (subscribe_grows hsub).last_le
      exact (hs (Nat.lt_of_le_of_lt hle hlast)).connect hconn hlast hsub
  · rename_i m c hconn
    split at hstep
    · rename_i hguard
      cases hstep
      refine (hs hlast).stream_on hconn fun base sent b hc => ?_
      exact ⟨_, hc.write hguard.1 hguard.2⟩
    · cases hstep
  · rename_i c hconn
    cases hstep
    exact (hs hlast).stream_on hconn fun base sent b hc =>
      ⟨sent, b, hc.heartbeat⟩
  · rename_i c hconn
    split at hstep
    · cases hstep
    · rename_i byte rest hwire
      cases hstep
      refine (hs hlast).stream_on hconn fun base sent b hc => ?_
      refine ⟨sent, b, hc.got, ?_, hc.idle, hc.dispatched⟩
      rw [← hc.whole, hwire]
      rfl
  · rename_i c hconn
    cases hstep
    exact (hs hlast).cut hconn
  · cases hstep

end Steps

-- ==== the statement

/-- However often and at whatever byte the connections are cut, and
wherever the heartbeats fall: the events dispatched over all connections
are the matching records of one window of the journal, each once and in
order, each with its sequence as id and its payload as data. -/
theorem sse_reconnect_window (h : Handler) (payload : Nat → GoString)
    (stream : Stream) (es : List (ViewEvent ε)) (s : Viewing)
    (hrun : run (h.step payload) es (.init stream) = some s)
    (hlast : s.stream.lastSeq < 2 ^ 64 - 1) :
    ∃ lo hi ks, IsWindow s.stream.matching lo hi ks
      ∧ s.events = ks.map fun k => ⟨formatUint k, normalize (payload k)⟩ := by
  have hinv : s.stream.lastSeq < 2 ^ 64 - 1 → ViewInv payload s :=
    run_invariant
      (I := fun s => s.stream.lastSeq < 2 ^ 64 - 1 → ViewInv payload s)
      (fun _ _ _ hs hstep => ViewInv.step hs hstep) es
      (fun _ => viewInv_init stream) hrun
  obtain ⟨lo, hi, ks, hgot, hks⟩ := (hinv hlast).events
  exact ⟨lo, hi, ks, hgot.window, hks⟩

/-- A payload of two lines that the first connection delivers only a part
of: it is cut within the second event's id line, and the client gets that
event, after a heartbeat, on the next one. -/
theorem sse_reconnect_mid_event :
    let payload : Nat → GoString := fun _ => ascii "a\r\nb"
    let first : Msg := ⟨1, 0, ascii "a\r\nb"⟩
    let second : Msg := ⟨3, 0, ascii "a\r\nb"⟩
    let es : List (ViewEvent Unit) :=
      [.connect [], .write first, .write second]
        ++ List.replicate ((writeSSEEvent first).length + 4) .receive
        ++ [.cut, .connect [], .heartbeat, .write second]
        ++ List.replicate
          (heartbeat.length + (writeSSEEvent second).length) .receive
    ∃ s, run (Handler.step ⟨0⟩ payload) es
        (.init (Stream.fresh.publishAll [true, false, true])) = some s
      ∧ s.events = [⟨ascii "1", ascii "a\nb"⟩, ⟨ascii "3", ascii "a\nb"⟩]
      ∧ ∃ lo hi ks, IsWindow s.stream.matching lo hi ks
        ∧ s.events
          = ks.map fun k => ⟨formatUint k, normalize (payload k)⟩ := by
  intro payload first second es
  have hfacts : (run (Handler.step ⟨0⟩ payload) es
      (.init (Stream.fresh.publishAll [true, false, true]))).map
        (fun s => (s.events, s.stream.lastSeq))
      = some ([⟨ascii "1", ascii "a\nb"⟩, ⟨ascii "3", ascii "a\nb"⟩],
          3) := by
    decide
  obtain ⟨s, hs, hval⟩ := Option.map_eq_some_iff.mp hfacts
  rw [Prod.mk.injEq] at hval
  refine ⟨s, hs, hval.1, sse_reconnect_window ⟨0⟩ payload _ es s hs ?_⟩
  rw [hval.2]
  decide

end Tokyo3Base.Journal.Sse
