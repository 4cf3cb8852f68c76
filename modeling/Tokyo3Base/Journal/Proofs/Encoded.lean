/-
What a consumer of `EncodedSource` receives: a beginning of the decodable
records from where it subscribed, in order and without a gap.

# The argument

The messages that the decoder has taken and those in the inner channel are
the first records from the start on (`taken`). What the consumer has
received, with the event that is on offer, is what the taken messages
decode to. Stopping gives up the event on offer, and nothing is sent after
it; at no other place is an event given up.

# Values

A record that `EncodedSink` wrote has the encoding of its value, so it
decodes to it (`Record.event_eq`).
-/
import Mathlib.Data.List.Basic
import Tokyo3Base.Lib.Run
import Tokyo3Base.Journal.Encoded

namespace Tokyo3Base.Journal

open Go Lib

variable {τ σ : Type} {c : Codec τ} {s s' : Subscription τ}

-- ==== the events

/-- The event that a consumer should see for a record: that of the value
that was appended, or what the record of another producer decodes to. -/
def Record.event (c : Codec τ) (r : Record τ) : Option (TypedEvent τ) :=
  match r.appended with
  | some v => some ⟨r.msg.seq, r.msg.time, v⟩
  | none => c.event r.msg

/-- A record of `EncodedSink` has the encoding of its value. -/
def Record.Written (c : Codec τ) (r : Record τ) : Prop :=
  ∀ v, r.appended = some v → c.encode v = .ok r.msg.data

theorem Record.event_eq (hc : c.RoundTrips) {r : Record τ}
    (h : r.Written c) : c.event r.msg = r.event c := by
  obtain ⟨msg, _ | v⟩ := r
  · rfl
  · show (c.decode msg.data).map _ = _
    rw [hc v msg.data (h v rfl)]
    rfl

/-- An encoding that fails writes nothing, whatever the inner sink. -/
theorem Codec.append_of_error {v : τ} {err : GoString}
    (h : c.encode v = .error err)
    (inner : GoString → σ → Except GoString Unit × σ) (t : σ) :
    c.append inner v t = (.error (ascii "encode: " ++ err), t) := by
  rw [Codec.append, h]

theorem Codec.append_cases (c : Codec τ) (v : τ)
    (stamp : Except GoString (UInt64 × Int)) (log : List (Record τ)) :
    (c.append (appendRecord v stamp) v log).2 = log
      ∨ ∃ r, r.Written c
        ∧ (c.append (appendRecord v stamp) v log).2 = log ++ [r] := by
  unfold Codec.append
  cases hencode : c.encode v with
  | error err => exact .inl rfl
  | ok payload =>
      rcases stamp with err | ⟨seq, time⟩
      · exact .inl rfl
      · refine .inr ⟨⟨⟨seq, time, payload⟩, some v⟩, ?_, rfl⟩
        rintro _ ⟨⟩
        exact hencode

-- ==== the invariant

/-- What was received, and what is on offer, by the decoder's phase. -/
def Subscription.Relayed (c : Codec τ) (s : Subscription τ) : Prop :=
  match s.phase with
  | .unsubscribed => s.received = [] ∧ s.consumed = [] ∧ s.raw = []
  | .receiving => s.received = s.consumed.filterMap c.event
  | .sending e => s.received ++ [e] = s.consumed.filterMap c.event
  | .stopped => s.received <+: s.consumed.filterMap c.event

structure SubscriptionInv (c : Codec τ) (s : Subscription τ) : Prop where
  written : ∀ r ∈ s.log, r.Written c
  taken : s.consumed ++ s.raw <+: (s.log.drop s.start).map Record.msg
  cursor : s.phase ≠ .unsubscribed →
    s.cursor = s.start + (s.consumed ++ s.raw).length
  relayed : s.Relayed c

theorem subscriptionInv_init (c : Codec τ) : SubscriptionInv c .init where
  written := nofun
  taken := List.nil_prefix
  cursor := fun h => absurd rfl h
  relayed := ⟨rfl, rfl, rfl⟩

-- ==== the actions

theorem SubscriptionInv.grow (hs : SubscriptionInv c s) {r : Record τ}
    (hr : r.Written c) :
    SubscriptionInv c { s with log := s.log ++ [r] } where
  written := fun r' hr' => by
    rcases List.mem_append.mp hr' with hr' | hr'
    · exact hs.written r' hr'
    · rw [List.mem_singleton.mp hr']
      exact hr
  taken := by
    refine hs.taken.trans ?_
    show _ <+: ((s.log ++ [r]).drop s.start).map Record.msg
    rw [List.drop_append, List.map_append]
    exact List.prefix_append _ _
  cursor := hs.cursor
  relayed := hs.relayed

theorem SubscriptionInv.subscribe (hs : SubscriptionInv c s)
    (hphase : s.phase = .unsubscribed) (start : Nat) :
    SubscriptionInv c
      { s with start := start, cursor := start, phase := .receiving } := by
  have hrelayed := hs.relayed
  rw [Subscription.Relayed, hphase] at hrelayed
  obtain ⟨hreceived, hconsumed, hraw⟩ := hrelayed
  have hnone : s.consumed ++ s.raw = [] := by
    rw [hconsumed, hraw]
    rfl
  refine ⟨hs.written, ?_, fun _ => ?_, ?_⟩
  · show s.consumed ++ s.raw <+: _
    rw [hnone]
    exact List.nil_prefix
  · show start = start + (s.consumed ++ s.raw).length
    rw [hnone]
    rfl
  · show s.received = s.consumed.filterMap c.event
    rw [hreceived, hconsumed]
    rfl

theorem snoc_isPrefix {α : Type} {l whole : List α} {x : α}
    (h : l <+: whole) (hx : whole[l.length]? = some x) :
    l ++ [x] <+: whole := by
  obtain ⟨rest, rfl⟩ := h
  rw [List.getElem?_append_right (Nat.le_refl _), Nat.sub_self] at hx
  cases rest with
  | nil => cases hx
  | cons y rest =>
      cases hx
      exact ⟨rest, List.append_assoc _ _ _⟩

theorem SubscriptionInv.deliver (hs : SubscriptionInv c s)
    (hphase : s.phase ≠ .unsubscribed) {r : Record τ}
    (hr : s.log[s.cursor]? = some r) :
    SubscriptionInv c
      { s with raw := s.raw ++ [r.msg], cursor := s.cursor + 1 } := by
  refine ⟨hs.written, ?_, fun _ => ?_, ?_⟩
  · show s.consumed ++ (s.raw ++ [r.msg]) <+: _
    rw [← List.append_assoc]
    refine snoc_isPrefix hs.taken ?_
    rw [List.getElem?_map, List.getElem?_drop, ← hs.cursor hphase, hr]
    rfl
  · show s.cursor + 1 = s.start + (s.consumed ++ (s.raw ++ [r.msg])).length
    simp only [hs.cursor hphase, List.length_append, List.length_singleton]
    omega
  · have hrelayed := hs.relayed
    unfold Subscription.Relayed at hrelayed ⊢
    cases hp : s.phase with
    | unsubscribed => exact absurd hp hphase
    | _ =>
        rw [hp] at hrelayed
        exact hrelayed

theorem SubscriptionInv.receive (hs : SubscriptionInv c s)
    (hphase : s.phase = .receiving) {m : Msg} {rest : List Msg}
    (hraw : s.raw = m :: rest) :
    SubscriptionInv c
      { s with
        raw := rest
        consumed := s.consumed ++ [m]
        phase :=
          match c.event m with
          | some e => .sending e
          | none => .receiving } := by
  have htaken := hs.taken
  have hcursor := hs.cursor (by rw [hphase]; nofun)
  have hrelayed := hs.relayed
  rw [hraw, List.append_cons] at htaken hcursor
  rw [Subscription.Relayed, hphase] at hrelayed
  refine ⟨hs.written, htaken, fun _ => hcursor, ?_⟩
  have hmore : (s.consumed ++ [m]).filterMap c.event
      = s.received ++ (c.event m).toList := by
    rw [List.filterMap_append, ← hrelayed]
    cases hm : c.event m with
    | none => rw [List.filterMap_cons_none hm]; rfl
    | some e => rw [List.filterMap_cons_some hm]; rfl
  unfold Subscription.Relayed
  dsimp only
  cases hm : c.event m with
  | none =>
      rw [hm] at hmore
      exact (hmore.trans (List.append_nil _)).symm
  | some e =>
      rw [hm] at hmore
      exact hmore.symm

theorem SubscriptionInv.send (hs : SubscriptionInv c s)
    {e : TypedEvent τ} (hphase : s.phase = .sending e) :
    SubscriptionInv c
      { s with received := s.received ++ [e], phase := .receiving } := by
  have hrelayed := hs.relayed
  rw [Subscription.Relayed, hphase] at hrelayed
  exact ⟨hs.written, hs.taken,
    fun _ => hs.cursor (by rw [hphase]; nofun), hrelayed⟩

/-- In every phase, what was received is a beginning of what was taken. -/
theorem SubscriptionInv.received (hs : SubscriptionInv c s) :
    s.received <+: s.consumed.filterMap c.event := by
  have hrelayed := hs.relayed
  unfold Subscription.Relayed at hrelayed
  cases hp : s.phase with
  | unsubscribed =>
      rw [hp] at hrelayed
      rw [hrelayed.1]
      exact List.nil_prefix
  | receiving =>
      rw [hp] at hrelayed
      exact ⟨[], (List.append_nil _).trans hrelayed⟩
  | sending e =>
      rw [hp] at hrelayed
      exact ⟨[e], hrelayed⟩
  | stopped =>
      rw [hp] at hrelayed
      exact hrelayed

theorem SubscriptionInv.stop (hs : SubscriptionInv c s)
    (hstop : s.mayStop = true) :
    SubscriptionInv c { s with phase := .stopped } := by
  refine ⟨hs.written, hs.taken, fun _ => hs.cursor fun hp => ?_,
    hs.received⟩
  rw [Subscription.mayStop, hp] at hstop
  cases hstop

theorem SubscriptionInv.step (hs : SubscriptionInv c s)
    {a : EncodedAction τ} (h : c.step a s = some s') :
    SubscriptionInv c s' := by
  cases a with
  | append v stamp =>
      cases h
      rcases c.append_cases v stamp s.log with hsame | ⟨r, hr, hlog⟩
      · rw [hsame]
        exact hs
      · rw [hlog]
        exact hs.grow hr
  | write m =>
      cases h
      exact hs.grow nofun
  | subscribe start =>
      simp only [Codec.step] at h
      split at h
      · rename_i hphase
        cases h
        exact hs.subscribe hphase start
      · cases h
  | deliver =>
      simp only [Codec.step] at h
      split at h
      · cases h
      · rename_i hphase
        split at h
        · cases h
        · obtain ⟨r, hr, rfl⟩ := Option.map_eq_some_iff.mp h
          exact hs.deliver hphase hr
  | closeRaw =>
      cases h
      exact ⟨hs.written, hs.taken, hs.cursor, hs.relayed⟩
  | cancel =>
      cases h
      exact ⟨hs.written, hs.taken, hs.cursor, hs.relayed⟩
  | close =>
      cases h
      exact ⟨hs.written, hs.taken, hs.cursor, hs.relayed⟩
  | receive =>
      simp only [Codec.step] at h
      split at h
      · rename_i m rest hphase hraw
        cases h
        exact hs.receive hphase hraw
      · cases h
  | send =>
      simp only [Codec.step] at h
      split at h
      · rename_i e hphase
        cases h
        exact hs.send hphase
      · cases h
  | stop =>
      simp only [Codec.step] at h
      split at h
      · rename_i hstop
        cases h
        exact hs.stop hstop
      · cases h

-- ==== the result

/-- What a consumer has received is a beginning of the events of the
records from the start on, and an append whose encoding fails leaves any
inner sink as it was. -/
theorem encoded_received (c : Codec τ) (hc : c.RoundTrips)
    (actions : List (EncodedAction τ)) (s : Subscription τ)
    (hrun : run c.step actions .init = some s) :
    s.received <+: (s.log.drop s.start).filterMap (Record.event c)
      ∧ ∀ (σ : Type) (inner : GoString → σ → Except GoString Unit × σ)
        (v : τ) (err : GoString) (t : σ), c.encode v = .error err →
        c.append inner v t = (.error (ascii "encode: " ++ err), t) := by
  have hs : SubscriptionInv c s := run_invariant
    (fun _ _ _ hs h => hs.step h) actions (subscriptionInv_init c) hrun
  refine ⟨?_, fun _ inner v err t h => c.append_of_error h inner t⟩
  have hevents : ((s.log.drop s.start).map Record.msg).filterMap c.event
      = (s.log.drop s.start).filterMap (Record.event c) := by
    rw [List.filterMap_map]
    refine List.filterMap_congr fun r hr => ?_
    exact Record.event_eq hc (hs.written r (List.mem_of_mem_drop hr))
  rw [← hevents]
  exact hs.received.trans
    (((List.prefix_append _ _).trans hs.taken).filterMap c.event)

/-- Bytes as they are, but not the empty string. -/
def nonEmptyCodec : Codec GoString where
  encode v := if v = [] then .error (ascii "empty") else .ok v
  decode b := if b = [] then none else some b

theorem nonEmptyCodec_roundTrips : nonEmptyCodec.RoundTrips := by
  intro v payload h
  rw [nonEmptyCodec] at h ⊢
  dsimp only at h ⊢
  split at h
  · cases h
  · rename_i hne
    cases h
    rw [if_neg hne]

/-- A value, a record that does not decode, and another value; the
subscription is canceled while the second event is on offer. -/
def canceledActions : List (EncodedAction GoString) :=
  [.append [97] (.ok (1, 0)), .write ⟨2, 0, []⟩, .subscribe 0,
    .append [98] (.ok (3, 0)), .deliver, .deliver, .receive, .deliver, .send,
    .receive, .receive, .cancel, .stop]

theorem encoded_received_canceled :
    ∃ s, run nonEmptyCodec.step canceledActions .init = some s
      ∧ s.received = [⟨1, 0, [97]⟩]
      ∧ s.received
        <+: (s.log.drop s.start).filterMap (Record.event nonEmptyCodec) := by
  have hreceived : (run nonEmptyCodec.step canceledActions .init).map
      Subscription.received = some [⟨1, 0, [97]⟩] := rfl
  obtain ⟨s, hrun, hs⟩ := Option.map_eq_some_iff.mp hreceived
  exact ⟨s, hrun, hs,
    (encoded_received _ nonEmptyCodec_roundTrips _ s hrun).1⟩

end Tokyo3Base.Journal
