/-
What a client makes of a response of `sse.Handler`, whatever the records
hold: one event per record, and nothing else.

# The argument

Decoding first or framing first comes to the same: what `writeSSEEvent`
looks at in a payload are its line ends, and what it adds is ASCII, so
the text of a response is the response for the decoded payloads
(`decode_body`). From there on two facts are needed. Which identifiers
and data are dispatched is known from the reader of `EventStream`
(`feed_writeSSEEvent`). And no line of a response names an event or sets
the reconnection time (`plain_body`): every line begins with `id: `,
`data: ` or a colon, or is blank.
-/
import Tokyo3Base.Lib.EventSource
import Tokyo3Base.Go.Proofs.JSON
import Tokyo3Base.Journal.Proofs.Sse

namespace Tokyo3Base.Journal.Sse

open Go Lib Lib.EventStream Lib.EventSource Lib.Utf8

-- ==== valid text

/-- A lead byte, as `unicode/utf8` and as the decoder knows it. -/
theorem lead_of_leadWidth {b : UInt8} {w : Nat}
    (h : leadWidth b = w + 2) : ∃ p, lead b = some p ∧ p.read = [b]
      ∧ p.more = w ∧ ∀ c, p.takes c ↔ isSecond b c = true := by
  have hrange : 0xc2 ≤ b ∧ b ≤ 0xf4 :=
    forall_byte (P := fun b => ∀ w ∈ List.range 3,
      leadWidth b = w + 2 → 0xc2 ≤ b ∧ b ≤ 0xf4) (by decide +kernel) b w
      (by
        have hle : leadWidth b ≤ 4 :=
          forall_byte (P := fun b => leadWidth b ≤ 4) (by decide +kernel) b
        exact List.mem_range.mpr (by omega)) h
  refine ⟨_, dif_pos hrange, rfl, ?_, fun c => ?_⟩
  · have hmore := forall_byte (P := fun b => 0xc2 ≤ b ∧ b ≤ 0xf4 →
      (if b ≤ 0xdf then 0 else if b ≤ 0xef then 1 else 2) + 2
        = leadWidth b) (by decide +kernel) b hrange
    dsimp only
    omega
  · show lowerAfter b ≤ c ∧ c ≤ upperAfter b ↔ _
    unfold lowerAfter upperAfter isSecond isTail
    by_cases h₁ : b = 0xe0
    · subst h₁
      simp
    by_cases h₂ : b = 0xed
    · subst h₂
      simp
    by_cases h₃ : b = 0xf0
    · subst h₃
      simp
    by_cases h₄ : b = 0xf4
    · subst h₄
      simp
    simp [h₁, h₂, h₃, h₄]

/-- The rest of a character, once the decoder is inside it. -/
theorem decodeFrom_tails {p : Pending} {c : UInt8} {tails : GoString}
    (hlen : tails.length = p.more) (htakes : p.takes c)
    (htails : ∀ d ∈ tails, isTail d = true) (s : GoString) :
    decodeFrom (some p) (c :: (tails ++ s))
      = p.read ++ c :: (tails ++ decode s) := by
  induction tails generalizing p c with
  | nil =>
      have hstep : step (some p) c = (p.read ++ [c], none) := by
        unfold step
        dsimp only
        rw [dif_pos htakes]
        split
        · rfl
        · rename_i more hmore
          exact absurd (hlen.trans hmore) (by simp)
      rw [List.nil_append, decodeFrom, hstep]
      simp [decode]
  | cons d tails ih =>
      obtain ⟨more, hmore⟩ : ∃ more, p.more = more + 1 :=
        ⟨tails.length, hlen.symm⟩
      have hstep : step (some p) c = ([], some (p.push c more htakes)) := by
        unfold step
        dsimp only
        rw [dif_pos htakes]
        split
        · rename_i hzero
          exact absurd (hmore.symm.trans hzero) (by simp)
        · rename_i more' hmore'
          cases Nat.succ.inj (hmore.symm.trans hmore')
          rfl
      have hd := htails d List.mem_cons_self
      rw [isTail, Bool.and_eq_true, decide_eq_true_eq,
        decide_eq_true_eq] at hd
      have hrest := ih (p := p.push c more htakes) (c := d)
        (Nat.succ.inj (hlen.trans hmore)) hd
        fun e he => htails e (List.mem_cons_of_mem _ he)
      rw [decodeFrom, hstep, List.nil_append, List.cons_append, hrest]
      simp [Pending.push]

theorem decode_rune {p : GoString} (hp : IsRune p) (s : GoString) :
    decode (p ++ s) = p ++ decode s := by
  obtain ⟨b, tails, rfl⟩ := List.exists_cons_of_ne_nil hp.ne_nil
  obtain ⟨hlead, -, htails⟩ := runeWidth_succ.mp hp.width
  rw [List.take_length] at htails
  cases tails with
  | nil =>
      have hascii := forall_byte (P := fun b => leadWidth b = 1 →
        b < 0x80) (by decide +kernel) b hlead
      exact decode_ascii (fun c hc => List.mem_singleton.mp hc ▸ hascii) s
  | cons c tails =>
      obtain ⟨p, hp, hread, hmore, htakes⟩ := lead_of_leadWidth hlead
      rw [areTails, Bool.and_eq_true, List.all_eq_true] at htails
      have hhigh : ¬ b < 0x80 := fun hb => by
        have := p.read_high b (hread ▸ List.mem_singleton_self b)
        exact UInt8.not_le.mpr hb this
      have hstart : step none b = ([], some p) := by
        show start b = _
        unfold start
        rw [if_neg hhigh, hp]
      show decodeFrom none (b :: (c :: tails ++ s)) = _
      rw [decodeFrom, hstart, List.nil_append, List.cons_append,
        decodeFrom_tails hmore.symm ((htakes c).mpr htails.1) htails.2,
        hread]
      rfl

theorem decode_of_valid {s : GoString} (h : isValidUTF8 s = true) :
    decode s = s := by
  have hs := flatten_pieces 0 s h
  rw [List.drop_zero] at hs
  have hrune : ∀ p ∈ piecesFrom 0 s, IsRune (p.getD Go.replacement) := by
    intro p hp
    cases p with
    | none => exact isRune_replacement
    | some p => exact isRune_of_mem_piecesFrom hp
  rw [← hs]
  generalize piecesFrom 0 s = ps at hrune
  induction ps with
  | nil => rfl
  | cons p ps ih =>
      rw [List.flatMap_cons, decode_rune (hrune p List.mem_cons_self),
        ih fun q hq => hrune q (List.mem_cons_of_mem _ hq)]

-- ==== decoding and line ends

theorem finish_high {st : Option Pending} {b : UInt8}
    (h : b ∈ finish st) : 0x80 ≤ b := by
  cases st with
  | none => cases h
  | some p => exact replacement_high b h

theorem cr_not_mem_finish (st : Option Pending) : cr ∉ finish st :=
  fun h => absurd (finish_high h) (by decide)

/-- One byte decodes to no ASCII byte but itself. -/
theorem not_mem_step {st : Option Pending} {b c : UInt8} (hc : c < 0x80)
    (hb : b ≠ c) : c ∉ (step st b).1 :=
  fun h => hb (mem_step_ascii hc h).symm

theorem not_mem_decodeFrom {s : GoString} {c : UInt8} (hc : c < 0x80)
    (h : c ∉ s) (st : Option Pending) : c ∉ decodeFrom st s := by
  induction s generalizing st with
  | nil => exact fun hmem => not_high hc (finish_high hmem)
  | cons b s ih =>
      rw [List.mem_cons, not_or] at h
      rw [decodeFrom, List.mem_append, not_or]
      exact ⟨not_mem_step hc (Ne.symm h.1), ih h.2 _⟩

/-- Text without CR has no CRLF to replace. -/
theorem replaceCRLF_append {x : GoString} (hx : cr ∉ x) (y : GoString) :
    replaceCRLF (x ++ y) = x ++ replaceCRLF y := by
  induction x with
  | nil => rfl
  | cons b x ih =>
      rw [List.mem_cons, not_or] at hx
      rw [List.cons_append, List.cons_append, ← ih hx.2]
      cases h : x ++ y with
      | nil => rfl
      | cons c rest =>
          rw [replaceCRLF, if_neg fun hb => hx.1 hb.1.symm]

theorem replaceCRLF_self {x : GoString} (hx : cr ∉ x) :
    replaceCRLF x = x := by
  have h := replaceCRLF_append hx []
  rw [List.append_nil, replaceCRLF, List.append_nil] at h
  exact h

theorem replaceCRLF_cr {y : GoString} (hy : y.head? ≠ some lf) :
    replaceCRLF (cr :: y) = cr :: replaceCRLF y := by
  cases y with
  | nil => rfl
  | cons c y =>
      rw [replaceCRLF, if_neg fun h => hy (congrArg some h.2)]

/-- Decoding and the replacement of CRLF commute. -/
theorem decodeFrom_replaceCRLF (st : Option Pending) (s : GoString) :
    decodeFrom st (replaceCRLF s) = replaceCRLF (decodeFrom st s) := by
  induction s using replaceCRLF.induct generalizing st with
  | case1 => exact (replaceCRLF_self (cr_not_mem_finish st)).symm
  | case2 b =>
      by_cases hb : b = cr
      · subst hb
        rw [replaceCRLF, decodeFrom_cons_ascii (by decide),
          replaceCRLF_append (cr_not_mem_finish st)]
        rfl
      · have hcr : cr ∉ [b] := fun h => hb (List.mem_singleton.mp h).symm
        rw [replaceCRLF, replaceCRLF_self
          (not_mem_decodeFrom (by decide) hcr st)]
  | case3 b c rest h ih =>
      obtain ⟨rfl, rfl⟩ := h
      rw [replaceCRLF, if_pos ⟨rfl, rfl⟩,
        decodeFrom_cons_ascii (by decide),
        decodeFrom_cons_ascii (by decide), decode, decode,
        decodeFrom_cons_ascii (by decide),
        replaceCRLF_append (cr_not_mem_finish st), ih]
      rfl
  | case4 b c rest h ih =>
      rw [replaceCRLF, if_neg h]
      by_cases hb : b = cr
      · subst hb
        -- the decoded rest begins with LF only if the rest does
        have hhead : (decode (c :: rest)).head? ≠ some lf := fun hlf =>
          h ⟨rfl, head_decode (by decide) hlf⟩
        rw [decodeFrom_cons_ascii (by decide),
          decodeFrom_cons_ascii (by decide),
          replaceCRLF_append (cr_not_mem_finish st),
          replaceCRLF_cr hhead, decode, ih]
        rfl
      · have hout : ∀ u, decodeFrom st (b :: u)
            = (step st b).1 ++ decodeFrom (step st b).2 u := fun _ => rfl
        rw [hout, hout, ih,
          replaceCRLF_append (not_mem_step (by decide) hb)]

theorem map_eq_self {x : GoString} (hx : cr ∉ x) :
    (x.map fun b => if b = cr then lf else b) = x := by
  have hself : ∀ b ∈ x, (if b = cr then lf else b) = b := fun b hb =>
    if_neg fun (h : b = cr) => hx (h ▸ hb)
  exact (List.map_congr_left hself).trans (List.map_id _)

theorem decodeFrom_map (st : Option Pending) (s : GoString) :
    decodeFrom st (s.map fun b => if b = cr then lf else b)
      = (decodeFrom st s).map fun b => if b = cr then lf else b := by
  induction s generalizing st with
  | nil => exact (map_eq_self (cr_not_mem_finish st)).symm
  | cons b s ih =>
      rw [List.map_cons]
      by_cases hb : b = cr
      · subst hb
        rw [if_pos rfl, decodeFrom_cons_ascii (by decide),
          decodeFrom_cons_ascii (by decide), List.map_append,
          map_eq_self (cr_not_mem_finish st), decode, ih]
        rfl
      · rw [if_neg hb, decodeFrom, decodeFrom, ih, List.map_append,
          map_eq_self (not_mem_step (by decide) hb)]

/-- Line ends may be normalised before or after decoding. -/
theorem decode_normalize (data : GoString) :
    decode (normalize data) = normalize (decode data) := by
  unfold normalize decode
  rw [decodeFrom_map, decodeFrom_replaceCRLF]

theorem decode_join (ws : List GoString) :
    decode (join lf ws) = join lf (ws.map decode) := by
  induction ws with
  | nil => rfl
  | cons w ws ih =>
      cases ws with
      | nil => rfl
      | cons v vs =>
          rw [join, decode_append_ascii (by decide), ih]
          · rfl
          · simp

/-- Lines may be cut before or after decoding. -/
theorem split_decode (u : GoString) :
    split lf (decode u) = (split lf u).map decode := by
  have hne : (split lf u).map decode ≠ [] :=
    fun h => split_ne_nil lf u (List.map_eq_nil_iff.mp h)
  have hlf : ∀ v ∈ (split lf u).map decode, lf ∉ v := by
    intro v hv
    obtain ⟨w, hw, rfl⟩ := List.mem_map.mp hv
    exact not_mem_decodeFrom (by decide)
      (fun h => (mem_of_mem_split hw h).2 rfl) none
  calc split lf (decode u)
      = split lf (decode (join lf (split lf u))) := by rw [join_split]
    _ = split lf (join lf ((split lf u).map decode)) := by
        rw [decode_join]
    _ = (split lf u).map decode := split_join hne hlf

-- ==== the response

/-- The record whose payload is this one's, decoded. -/
def decoded (m : Msg) : Msg := { m with data := decode m.data }

theorem formatUint_ascii {n : Nat} {b : UInt8} (h : b ∈ formatUint n) :
    b < 0x80 :=
  forall_byte (P := fun b => isDigit b = true → b < 0x80)
    (by decide +kernel) b (isDigit_of_mem_formatUint h)

theorem decode_dataLine (line rest : GoString) :
    decode (ascii "data: " ++ line ++ [lf] ++ rest)
      = ascii "data: " ++ decode line ++ [lf] ++ decode rest := by
  simp only [List.append_assoc]
  rw [decode_ascii (by decide +kernel)]
  exact congrArg _ (decode_append_ascii (by decide) line rest)

theorem decode_data (lines : List GoString) (rest : GoString) :
    decode ((lines.flatMap fun line => ascii "data: " ++ line ++ [lf])
        ++ rest)
      = ((lines.map decode).flatMap fun line =>
          ascii "data: " ++ line ++ [lf]) ++ decode rest := by
  induction lines with
  | nil => rfl
  | cons line lines ih =>
      rw [List.flatMap_cons, List.append_assoc, decode_dataLine, ih,
        List.map_cons, List.flatMap_cons, List.append_assoc _ _
          (decode rest)]

/-- An event decodes to the event of the decoded payload. -/
theorem decode_writeSSEEvent (m : Msg) (rest : GoString) :
    decode (writeSSEEvent m ++ rest)
      = writeSSEEvent (decoded m) ++ decode rest := by
  have hid : ∀ b ∈ ascii "id: " ++ formatUint m.seq.toNat ++ [lf],
      b < 0x80 := by
    intro b hb
    rw [List.append_assoc] at hb
    rcases List.mem_append.mp hb with hb | hb
    · exact (by decide +kernel : ∀ b ∈ ascii "id: ", b < 0x80) b hb
    · rcases List.mem_append.mp hb with hb | hb
      · exact formatUint_ascii hb
      · rw [List.mem_singleton.mp hb]
        decide
  unfold writeSSEEvent
  rw [List.append_assoc _ [lf], List.append_assoc _ _ ([lf] ++ rest),
    decode_ascii hid, decode_data, decode_ascii (by decide +kernel),
    ← split_decode, decode_normalize]
  simp only [decoded, List.append_assoc]

def decodedOutput : Output → Output
  | .event m => .event (decoded m)
  | .heartbeat => .heartbeat

/-- A response decodes to the response for the decoded payloads. -/
theorem decode_body (outputs : List Output) :
    decode (body outputs) = body (outputs.map decodedOutput) := by
  induction outputs with
  | nil => rfl
  | cons o outputs ih =>
      show decode (o.bytes ++ body outputs) = _
      cases o with
      | event m =>
          rw [Output.bytes, decode_writeSSEEvent, ih]
          rfl
      | heartbeat =>
          rw [Output.bytes, decode_ascii (by decide +kernel), ih]
          rfl

/-- No response starts with a byte order mark. -/
theorem head_body (outputs : List Output) :
    (body outputs).head? ≠ some 0xef := by
  cases outputs with
  | nil => decide
  | cons o outputs =>
      cases o with
      | event m =>
          show some (105 : UInt8) ≠ _
          decide
      | heartbeat =>
          show some (58 : UInt8) ≠ _
          decide

-- ==== its events

theorem records_decoded (outputs : List Output) :
    records (outputs.map decodedOutput) = (records outputs).map decoded := by
  induction outputs with
  | nil => rfl
  | cons o outputs ih =>
      cases o with
      | event m => exact congrArg (decoded m :: ·) ih
      | heartbeat => exact ih

theorem feed_body {b : Buffers} (hb : b.data = [])
    (outputs : List Output) :
    (b.atLineStart.feed (body outputs)).buffers.dispatched
      = b.dispatched ++ (records outputs).map fun m =>
          ⟨formatUint m.seq.toNat, normalize m.data⟩ := by
  induction outputs generalizing b with
  | nil => exact (List.append_nil _).symm
  | cons o outputs ih =>
      show (b.atLineStart.feed (o.bytes ++ body outputs)).buffers.dispatched
        = _
      rw [Parser.feed_append]
      cases o with
      | event m =>
          rw [Output.bytes, feed_writeSSEEvent hb, ih rfl,
            List.append_assoc]
          rfl
      | heartbeat =>
          rw [Output.bytes, feed_heartbeat hb, ih hb]
          rfl

theorem plain_cons {line rest : GoString} (hline : PlainLine line)
    (hlf : lf ∉ line) (hcr : cr ∉ line)
    (hrest : ∀ l ∈ lines rest, PlainLine l) :
    ∀ l ∈ lines (line ++ [lf] ++ rest), PlainLine l := by
  intro l hl
  rw [List.append_assoc, List.singleton_append,
    lines_cons hlf hcr] at hl
  rcases List.mem_cons.mp hl with rfl | hl
  · exact hline
  · exact hrest l hl

theorem plain_data {ls : List GoString}
    (h : ∀ line ∈ ls, lf ∉ line ∧ cr ∉ line) {rest : GoString}
    (hrest : ∀ l ∈ lines rest, PlainLine l) :
    ∀ l ∈ lines ((ls.flatMap fun line => ascii "data: " ++ line ++ [lf])
      ++ rest), PlainLine l := by
  induction ls with
  | nil => exact hrest
  | cons line ls ih =>
      obtain ⟨hlf, hcr⟩ := h line List.mem_cons_self
      have hname : fieldName (ascii "data: " ++ line) = dataField := rfl
      have hplain : PlainLine (ascii "data: " ++ line) := by
        unfold PlainLine
        rw [hname]
        decide
      rw [List.flatMap_cons, List.append_assoc]
      refine plain_cons hplain ?_ ?_
        (ih fun l hl => h l (List.mem_cons_of_mem _ hl))
      · rw [List.mem_append, not_or]
        exact ⟨by decide, hlf⟩
      · rw [List.mem_append, not_or]
        exact ⟨by decide, hcr⟩

theorem plain_writeSSEEvent (m : Msg) {rest : GoString}
    (hrest : ∀ l ∈ lines rest, PlainLine l) :
    ∀ l ∈ lines (writeSSEEvent m ++ rest), PlainLine l := by
  have hname : fieldName (ascii "id: " ++ formatUint m.seq.toNat)
      = idField := rfl
  have hplain : PlainLine (ascii "id: " ++ formatUint m.seq.toNat) := by
    unfold PlainLine
    rw [hname]
    decide
  have hblank : ∀ l ∈ lines ([] ++ [lf] ++ rest), PlainLine l :=
    plain_cons (by unfold PlainLine; decide) List.not_mem_nil
      List.not_mem_nil hrest
  unfold writeSSEEvent
  rw [List.append_assoc _ [lf] rest, List.append_assoc _ _ ([lf] ++ rest)]
  exact plain_cons hplain (not_mem_idLine m (.inl rfl))
    (not_mem_idLine m (.inr rfl)) (plain_data (dataLines_ends m) hblank)

/-- No line of a response names an event or sets the reconnection time. -/
theorem plain_body (outputs : List Output) :
    ∀ line ∈ lines (body outputs), PlainLine line := by
  induction outputs with
  | nil => exact fun _ h => (List.not_mem_nil h).elim
  | cons o outputs ih =>
      show ∀ line ∈ lines (o.bytes ++ body outputs), PlainLine line
      cases o with
      | event m => exact plain_writeSSEEvent m ih
      | heartbeat =>
          have hsplit : ascii ": ping\n\n"
              = ascii ": ping" ++ [lf] ++ ([] ++ [lf]) := by decide
          rw [Output.bytes, heartbeat, hsplit, List.append_assoc]
          exact plain_cons (by unfold PlainLine; decide) (by decide)
            (by decide) (plain_cons (by unfold PlainLine; decide)
              List.not_mem_nil List.not_mem_nil ih)

/-- The events of a text that is a response. -/
theorem interpret_body (outputs : List Output) :
    (interpret (body outputs)).retry = none
      ∧ (interpret (body outputs)).dispatched
        = (records outputs).map fun m =>
          ⟨messageType, formatUint m.seq.toNat, normalize m.data⟩ := by
  have hplain := plain_interpret (plain_body outputs)
  have hfeed : (Parser.init.feed (body outputs)).buffers.dispatched
      = (records outputs).map fun m =>
        ⟨formatUint m.seq.toNat, normalize m.data⟩ :=
    feed_body rfl outputs
  refine ⟨hplain.retry, ?_⟩
  rw [hplain.dispatched_eq, buffers_interpret, hfeed, List.map_map]
  rfl

/-- A response makes one event per record, in order, of no type of its
own, with the record's sequence number and its payload with every line
end as LF. As the client decodes before it reads, what it has of a
payload is the UTF-8 decoding, which is all of it where the payload is
valid. Nothing sets the reconnection time. -/
theorem read_body (outputs : List Output) :
    (EventSource.read (body outputs)).retry = none
      ∧ (EventSource.read (body outputs)).dispatched
        = ((records outputs).map fun m =>
          ⟨messageType, formatUint m.seq.toNat,
            decode (normalize m.data)⟩)
      ∧ (interpret (body outputs)).dispatched
        = ((records outputs).map fun m =>
          ⟨messageType, formatUint m.seq.toNat, normalize m.data⟩)
      ∧ ∀ m ∈ records outputs, isValidUTF8 m.data = true →
          decode (normalize m.data) = normalize m.data := by
  have hread : EventSource.read (body outputs)
      = interpret (body (outputs.map decodedOutput)) := by
    rw [EventSource.read, decodeBOM_eq (head_body outputs), decode_body]
  obtain ⟨hretry, hdispatched⟩ :=
    interpret_body (outputs.map decodedOutput)
  rw [hread]
  refine ⟨hretry, ?_, (interpret_body outputs).2, fun m _ hm => ?_⟩
  · rw [hdispatched, records_decoded, List.map_map]
    exact List.map_congr_left fun m _ => by
      rw [decode_normalize]
      rfl
  · rw [decode_normalize, decode_of_valid hm]

/-- A payload that is not UTF-8 arrives changed. -/
theorem read_body_invalid :
    (EventSource.read (body [.event ⟨1, 0, [0xff]⟩])).dispatched
        = [⟨messageType, ascii "1", [0xef, 0xbf, 0xbd]⟩]
      ∧ normalize [0xff] = [0xff] := by
  decide +kernel

end Tokyo3Base.Journal.Sse
