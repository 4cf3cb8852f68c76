/-
What a tracker does with the ring when its stream has been recreated.

# What the code detects

`ingest` drops the ring when a sequence goes backwards. The first record
that arrives from the new stream need not have a smaller sequence than
the last one from the old: records of other subjects take sequences too,
and a new stream that holds no matching record at the resubscribe gives
the tracker nothing until one is published, at whatever sequence the
stream has come to by then. `tracker_reset_iff` says exactly when the
ring is clean after that first record (`Tracker.Supersedes`), and
`tracker_reset_missed` is the shortest run in which it is not.
-/
import Tokyo3Base.Lib.Run
import Tokyo3Base.Journal.Recreated
import Tokyo3Base.Journal.Proofs.Replay

namespace Tokyo3Base.Journal

open Lib

variable {τ ε : Type} {t : Tracker τ}

-- ==== the ring

theorem Tracker.cap_pos (t : Tracker τ) : 0 < t.cap := by
  have h := Int64.lt_iff_toInt_lt.mp t.max_pos
  rw [show (0 : Int64).toInt = 0 from rfl] at h
  unfold Tracker.cap
  omega

theorem Tracker.mem_insert {ring : List τ} {v x : τ}
    (h : x ∈ t.insert ring v) : x = v ∨ x ∈ ring := by
  have h := List.mem_of_mem_take h
  cases hless : t.less with
  | none =>
      rw [hless] at h
      exact List.mem_cons.mp h
  | some less =>
      rw [hless] at h
      rcases List.mem_append.mp (List.mem_mergeSort.mp h) with h | h
      · exact .inr h
      · exact .inl (List.mem_singleton.mp h)

theorem Tracker.length_insert (t : Tracker τ) (ring : List τ) (v : τ) :
    (t.insert ring v).length = min t.cap (ring.length + 1) := by
  unfold Tracker.insert
  cases t.less <;> simp

/-- The ring never outgrows its bound. -/
theorem Tracker.length_ingest (t : Tracker τ) {s : TrackerState τ}
    (h : s.ring.length ≤ t.cap) (m : Msg) :
    (t.ingest s m).ring.length ≤ t.cap := by
  have hring : (if m.seq < s.lastSeq then [] else s.ring).length
      ≤ t.cap := by
    split
    · exact Nat.zero_le _
    · exact h
  unfold Tracker.ingest
  dsimp only
  split
  · rw [t.length_insert]
    exact Nat.min_le_left _ _
  · exact hring

theorem Tracker.mem_ingest {s : TrackerState τ} {m : Msg} {x : τ}
    (h : x ∈ (t.ingest s m).ring) : t.decode m = some x ∨ x ∈ s.ring := by
  have hring : x ∈ (if m.seq < s.lastSeq then [] else s.ring) →
      x ∈ s.ring := by
    split
    · exact fun hx => absurd hx List.not_mem_nil
    · exact id
  unfold Tracker.ingest at h
  dsimp only at h
  cases hd : t.decode m with
  | none =>
      rw [hd] at h
      exact .inr (hring h)
  | some v =>
      rw [hd] at h
      rcases Tracker.mem_insert h with rfl | hx
      · exact .inl rfl
      · exact .inr (hring hx)

/-- How many records with a property an insert can leave in the ring. -/
theorem Tracker.countP_insert (t : Tracker τ) (p : τ → Bool)
    (ring : List τ) (v : τ) :
    (t.insert ring v).countP p ≤ ring.countP p + 1 := by
  have hone : [v].countP p ≤ 1 := List.countP_le_length
  have hall : ∀ l : List τ, (l.take t.cap).countP p ≤ l.countP p :=
    fun l => (List.take_sublist _ _).countP_le
  unfold Tracker.insert
  cases t.less with
  | none =>
      refine (hall _).trans ?_
      rw [List.countP_cons]
      split <;> omega
  | some less =>
      refine (hall _).trans ?_
      rw [(List.mergeSort_perm _ _).countP_eq, List.countP_append]
      omega

section Stamps

variable (t) (epoch : Nat)

@[simp] theorem Tracker.stamped_cap : (t.stamped epoch).cap = t.cap := rfl

theorem Tracker.stamped_decode (m : Msg) : (t.stamped epoch).decode m
    = (t.decode m).map fun v => (epoch, v) := rfl

theorem stamped_decode_fst {m : Msg} {r : Nat × τ}
    (h : (t.stamped epoch).decode m = some r) : r.1 = epoch := by
  rw [t.stamped_decode, Option.map_eq_some_iff] at h
  obtain ⟨v, -, rfl⟩ := h
  rfl

theorem Tracker.stamped_less : (t.stamped epoch).less
    = t.less.map fun less a b => less a.2 b.2 := rfl

end Stamps

/-- The code's ring is the ring without the stamps. -/
theorem Tracker.plain_insert (t : Tracker τ) (epoch : Nat)
    (ring : List (Nat × τ)) (v : τ) :
    ((t.stamped epoch).insert ring (epoch, v)).map Prod.snd
      = t.insert (ring.map Prod.snd) v := by
  unfold Tracker.insert
  rw [List.map_take, t.stamped_cap, t.stamped_less]
  cases hless : t.less with
  | none => rfl
  | some less =>
      dsimp only [Option.map_some]
      rw [List.map_mergeSort (s := fun a b => !less b a)
        (fun _ _ _ _ => rfl), List.map_append]
      rfl

/-- The stamped tracker refines the code's: without the stamps it does
what `ingest` does. -/
theorem Tracker.plain_ingest (t : Tracker τ) (epoch : Nat)
    (s : TrackerState (Nat × τ)) (m : Msg) :
    ((t.stamped epoch).ingest s m).plain = t.ingest s.plain m := by
  have hring : (if m.seq < s.lastSeq then [] else s.ring).map Prod.snd
      = if m.seq < s.plain.lastSeq then [] else s.plain.ring := by
    unfold TrackerState.plain
    split <;> rfl
  unfold Tracker.ingest
  dsimp only
  rw [← hring]
  rw [t.stamped_decode]
  cases t.decode m with
  | none => rfl
  | some v => simp only [Option.map_some, TrackerState.plain,
      t.plain_insert]

-- ==== the condition

/-- What the first record of a new stream has to be like to leave
nothing of the old one: its sequence goes backwards, or the ring is
empty, or the ring has room for one record and the new one takes it. -/
def Tracker.Supersedes (t : Tracker τ) (s : TrackerState τ) (m : Msg) :
    Prop :=
  m.seq < s.lastSeq ∨ s.ring = [] ∨ (t.cap = 1 ∧ ∃ v, t.decode m = some v
    ∧ ∀ less, t.less = some less → ∀ o ∈ s.ring, less v o = true)

/-- Two records and room for one: the new one stays exactly when it is
newer. -/
theorem insert_single {less : τ → τ → Bool} (hless : t.less = some less)
    (hcap : t.cap = 1) (o v : τ) :
    t.insert [o] v = if less v o then [v] else [o] := by
  unfold Tracker.insert
  rw [hless, hcap]
  cases h : less v o <;> simp [List.mergeSort, h]

/-- Every record of the ring comes from this incarnation. -/
def OnlyFrom (epoch : Nat) (s : TrackerState (Nat × τ)) : Prop :=
  ∀ r ∈ s.ring, r.1 = epoch

/-- A record of the ring's own incarnation keeps it clean. -/
theorem OnlyFrom.ingest {epoch : Nat} {s : TrackerState (Nat × τ)}
    (hs : OnlyFrom epoch s) (m : Msg) :
    OnlyFrom epoch ((t.stamped epoch).ingest s m) := by
  intro r hr
  rcases Tracker.mem_ingest hr with hd | hr
  · exact stamped_decode_fst t epoch hd
  · exact hs r hr

/-- An insert beside a record of an older stream leaves only the new one
exactly when the ring has room for one and the new one takes it. -/
theorem insert_onlyFrom_iff {epoch : Nat} {ring : List (Nat × τ)} {v : τ}
    (hlen : ring.length ≤ t.cap) (hne : ring ≠ [])
    (hold : ∀ r ∈ ring, r.1 ≠ epoch) :
    (∀ r ∈ (t.stamped epoch).insert ring (epoch, v), r.1 = epoch)
      ↔ t.cap = 1 ∧ ∀ less, t.less = some less →
          ∀ o ∈ ring.map Prod.snd, less v o = true := by
  have hpos : 0 < ring.length := List.length_pos_of_ne_nil hne
  by_cases hone : t.cap = 1
  · obtain ⟨o, rfl⟩ : ∃ o, ring = [o] :=
      List.length_eq_one_iff.mp (by omega)
    have ho : o.1 ≠ epoch := hold o List.mem_cons_self
    cases hless : t.less with
    | none =>
        have hst : (t.stamped epoch).insert [o] (epoch, v)
            = [(epoch, v)] := by
          unfold Tracker.insert
          rw [t.stamped_less, hless, t.stamped_cap, hone]
          rfl
        simp [hst, hone]
    | some less =>
        have hst : (t.stamped epoch).less = some fun a b => less a.2 b.2 := by
          rw [t.stamped_less, hless]
          rfl
        rw [insert_single hst hone]
        cases h : less v o.2 <;> simp [h, hone, ho]
  · -- at least two records stay, and only one of all is new
    have hcount := (t.stamped epoch).countP_insert
      (fun r => decide (r.1 = epoch)) ring (epoch, v)
    have hzero : ring.countP (fun r => decide (r.1 = epoch)) = 0 := by
      rw [List.countP_eq_zero]
      intro r hr
      simpa using hold r hr
    have hlength := (t.stamped epoch).length_insert ring (epoch, v)
    rw [t.stamped_cap] at hlength
    have hcappos := t.cap_pos
    refine ⟨fun hall => ?_, fun h => absurd h.1 hone⟩
    have hfull : ((t.stamped epoch).insert ring (epoch, v)).countP
          (fun r => decide (r.1 = epoch))
        = ((t.stamped epoch).insert ring (epoch, v)).length := by
      rw [List.countP_eq_length]
      intro r hr
      simpa using hall r hr
    omega

/-- The first record of a new stream, with only older records in the
ring. -/
theorem ingest_onlyFrom_iff {epoch : Nat} {s : TrackerState (Nat × τ)}
    (hlen : s.ring.length ≤ t.cap) (hold : ∀ r ∈ s.ring, r.1 ≠ epoch)
    (m : Msg) :
    OnlyFrom epoch ((t.stamped epoch).ingest s m)
      ↔ t.Supersedes s.plain m := by
  by_cases hclean : m.seq < s.lastSeq ∨ s.ring = []
  · have hempty : (if m.seq < s.lastSeq then [] else s.ring) = [] := by
      rcases hclean with h | h
      · rw [if_pos h]
      · rw [h, ite_self]
    have hfrom : OnlyFrom epoch ((t.stamped epoch).ingest s m) := by
      have heq : (t.stamped epoch).ingest s m
          = (t.stamped epoch).ingest ⟨[], s.lastSeq⟩ m := by
        unfold Tracker.ingest
        dsimp only
        rw [hempty, ite_self]
      rw [heq]
      exact OnlyFrom.ingest (fun r hr => absurd hr List.not_mem_nil) m
    refine ⟨fun _ => ?_, fun _ => hfrom⟩
    rcases hclean with h | h
    · exact .inl h
    · refine .inr (.inl ?_)
      simp [TrackerState.plain, h]
  · obtain ⟨hseq, hne⟩ := not_or.mp hclean
    have hplain : s.plain.ring ≠ [] := by
      simpa [TrackerState.plain] using hne
    have hsup : t.Supersedes s.plain m ↔ t.cap = 1 ∧ ∃ v,
        t.decode m = some v ∧ ∀ less, t.less = some less →
          ∀ o ∈ s.ring.map Prod.snd, less v o = true := by
      unfold Tracker.Supersedes
      rw [or_iff_right (show ¬ m.seq < s.plain.lastSeq from hseq),
        or_iff_right hplain]
      rfl
    rw [hsup]
    unfold Tracker.ingest OnlyFrom
    dsimp only
    rw [if_neg hseq, t.stamped_decode]
    cases t.decode m with
    | none =>
        obtain ⟨r, hr⟩ := List.exists_mem_of_ne_nil _ hne
        refine ⟨fun h => absurd (h r hr) (hold r hr), ?_⟩
        rintro ⟨-, v, hv, -⟩
        cases hv
    | some v =>
        refine (insert_onlyFrom_iff hlen hne hold).trans ?_
        simp

-- ==== the invariant

/-- What is known of a tracker and its stream, at any moment. -/
structure TrackInv (t : Tracker τ) (s : Tracking τ) : Prop where
  length_le : s.run.tracker.ring.length ≤ t.cap
  stamps : ∀ r ∈ s.run.tracker.ring, r.1 ≤ s.seen
  seen_le : s.seen ≤ s.epoch
  cursor : s.run.phase = .ingesting → s.seen ≠ s.epoch →
    ∃ c, s.consumer = some c ∧ s.cursor = c.start

theorem trackInv_init (t : Tracker τ) (stream : Stream) :
    TrackInv t (.init stream) :=
  ⟨Nat.zero_le _, fun _ h => absurd h List.not_mem_nil, Nat.le_refl _,
    nofun⟩

section Steps

variable {s s' : Tracking τ}

/-- Every event of `Run` but a message leaves the ring alone, and only a
subscribe opens a subscription. -/
theorem Tracker.step_quiet {α : Type} {t : Tracker α} {e : RunEvent}
    {s s' : RunState α} (he : ∀ m, e ≠ .message m)
    (h : t.step e s = some s') :
    s'.tracker = s.tracker
      ∧ (s'.phase = .ingesting → e = .subscribed) := by
  obtain ⟨phase, ts⟩ := s
  unfold Tracker.step at h
  split at h
  · cases h
    exact ⟨rfl, fun _ => rfl⟩
  · split at h <;> cases h <;> exact ⟨rfl, nofun⟩
  · exact absurd rfl (he _)
  · split at h <;> cases h <;> exact ⟨rfl, nofun⟩
  · cases h
    exact ⟨rfl, nofun⟩
  · cases h
    exact ⟨rfl, nofun⟩
  · cases h
    exact ⟨rfl, nofun⟩
  · cases h

theorem track_message {m : Msg}
    (h : t.track (ε := ε) (.tracker (.message m)) s = some s') :
    s.stream.IsNext s.cursor m.seq.toNat ∧ s.run.phase = .ingesting
      ∧ s' = { s with
          run := ⟨.ingesting, (t.stamped s.epoch).ingest s.run.tracker m⟩
          cursor := m.seq.toNat + 1
          seen := s.epoch } := by
  unfold Tracker.track at h
  dsimp only at h
  split at h
  · rename_i hnext
    obtain ⟨⟨phase, ts⟩, stream, epoch, consumer, cursor, seen⟩ := s
    cases phase <;> cases h
    exact ⟨hnext, rfl, rfl⟩
  · cases h

theorem track_quiet {e : StreamEvent ε}
    (he : ∀ m, e ≠ .tracker (.message m))
    (h : t.track e s = some s') :
    s'.run.tracker = s.run.tracker ∧ s'.seen = s.seen
      ∧ (s'.epoch = s.epoch
        ∨ e = .recreate ∧ s'.epoch = s.epoch + 1
          ∧ s'.run.phase ≠ .ingesting)
      ∧ (s'.run.phase = .ingesting →
          (∃ c, s'.consumer = some c ∧ s'.cursor = c.start)
          ∨ s.run.phase = .ingesting ∧ s'.consumer = s.consumer
            ∧ s'.cursor = s.cursor) := by
  cases e with
  | publish hit =>
      cases h
      exact ⟨rfl, rfl, .inl rfl, fun hp => .inr ⟨hp, rfl, rfl⟩⟩
  | expire upTo =>
      cases h
      exact ⟨rfl, rfl, .inl rfl, fun hp => .inr ⟨hp, rfl, rfl⟩⟩
  | recreate =>
      unfold Tracker.track at h
      dsimp only at h
      split at h
      · cases h
      · rename_i hp
        cases h
        exact ⟨rfl, rfl, .inr ⟨rfl, rfl, hp⟩, fun h => absurd h hp⟩
  | subscribe agenda =>
      unfold Tracker.track at h
      dsimp only at h
      split at h
      · cases h
      · rename_i c hc
        obtain ⟨run, hrun, rfl⟩ := Option.map_eq_some_iff.mp h
        exact ⟨(Tracker.step_quiet (e := .subscribed) (fun _ => nofun) hrun).1, rfl, .inl rfl,
          fun _ => .inl ⟨c, rfl, rfl⟩⟩
  | tracker e =>
      have hquiet : e ≠ .subscribed ∧ ∃ run,
          (t.stamped s.epoch).step e s.run = some run
            ∧ s' = { s with run := run } := by
        cases e with
        | subscribed => cases h
        | message m => exact absurd rfl (he m)
        | _ =>
            obtain ⟨run, hrun, rfl⟩ := Option.map_eq_some_iff.mp h
            exact ⟨nofun, run, hrun, rfl⟩
      obtain ⟨hne, run, hrun, rfl⟩ := hquiet
      obtain ⟨htracker, hphase⟩ := Tracker.step_quiet
        (fun m hm => he m (congrArg StreamEvent.tracker hm)) hrun
      exact ⟨htracker, rfl, .inl rfl, fun hp => absurd (hphase hp) hne⟩

theorem TrackInv.step {e : StreamEvent ε} (hs : TrackInv t s)
    (h : t.track e s = some s') : TrackInv t s' := by
  by_cases he : ∃ m, e = .tracker (.message m)
  · obtain ⟨m, rfl⟩ := he
    obtain ⟨-, hphase, rfl⟩ := track_message h
    refine ⟨(t.stamped s.epoch).length_ingest hs.length_le m,
      fun r hr => ?_, Nat.le_refl _, fun _ hne => absurd rfl hne⟩
    rcases Tracker.mem_ingest hr with hd | hr
    · exact Nat.le_of_eq (stamped_decode_fst t s.epoch hd)
    · exact Nat.le_trans (hs.stamps r hr) hs.seen_le
  · obtain ⟨htracker, hseen, hepoch, hsub⟩ :=
      track_quiet (fun m hm => he ⟨m, hm⟩) h
    refine ⟨htracker ▸ hs.length_le, htracker ▸ hseen ▸ hs.stamps, ?_,
      fun hphase hne => ?_⟩
    · have := hs.seen_le
      rcases hepoch with h | ⟨-, h, -⟩ <;> omega
    · rcases hsub hphase with hnew | ⟨hp, hc, hcur⟩
      · exact hnew
      · rcases hepoch with h | ⟨-, -, h⟩
        · rw [hseen, h] at hne
          rw [hc, hcur]
          exact hs.cursor hp hne
        · exact absurd hphase h

/-- A clean ring stays clean as long as the stream is the same. -/
theorem onlyFrom_step {e : StreamEvent ε} (he : e ≠ .recreate)
    (hs : OnlyFrom s.epoch s.run.tracker) (h : t.track e s = some s') :
    OnlyFrom s'.epoch s'.run.tracker := by
  by_cases hm : ∃ m, e = .tracker (.message m)
  · obtain ⟨m, rfl⟩ := hm
    obtain ⟨-, -, rfl⟩ := track_message h
    exact hs.ingest m
  · obtain ⟨htracker, -, hepoch, -⟩ :=
      track_quiet (fun m h => hm ⟨m, h⟩) h
    rcases hepoch with hepoch | ⟨hrec, -⟩
    · rw [htracker, hepoch]
      exact hs
    · exact absurd hrec he

/-- What the policy selects is at or after the consumer's start. -/
theorem Consumer.start_le {c : Consumer} {k : Nat}
    (h : k ∈ c.delivered) : c.start ≤ k := by
  obtain ⟨-, hsel⟩ := Finset.mem_filter.mp h
  unfold selects at hsel
  unfold Consumer.start
  cases hp : c.policy.1 with
  | all => exact Nat.zero_le _
  | new =>
      rw [hp] at hsel
      cases hsel
  | byStartSequence =>
      rw [hp] at hsel
      exact of_decide_eq_true hsel

end Steps

-- ==== the statement

/-- In every run, at the first record `m` that is ingested from a
recreated stream: the ring holds records of the new stream only exactly
when `m` supersedes what the tracker held, and then it does so until the
stream is recreated once more. If the consumer was created to deliver a
record already stored, which is still there, and the stream's sequences
were all below the tracker's then, `m` does. -/
theorem tracker_reset_iff (t : Tracker τ) (stream : Stream)
    (es : List (StreamEvent ε)) (s s' : Tracking τ) (m : Msg)
    (hrun : run t.track es (.init stream) = some s)
    (hstep : t.track (ε := ε) (.tracker (.message m)) s = some s')
    (hfirst : s.seen ≠ s.epoch) :
    (OnlyFrom s'.epoch s'.run.tracker
      ↔ t.Supersedes s.run.tracker.plain m)
    ∧ (t.Supersedes s.run.tracker.plain m →
        ∀ (later : List (StreamEvent ε)) (s'' : Tracking τ),
          .recreate ∉ later → run t.track later s' = some s'' →
          OnlyFrom s''.epoch s''.run.tracker)
    ∧ (∀ c, s.consumer = some c →
        c.atCreate.lastSeq < s.run.tracker.lastSeq.toNat →
        (∃ k ∈ c.delivered, k ∈ s.stream.matching) →
        t.Supersedes s.run.tracker.plain m) := by
  have hinv : TrackInv t s :=
    run_invariant (fun _ _ _ hs h => hs.step h) es
      (trackInv_init t stream) hrun
  obtain ⟨hnext, hphase, rfl⟩ := track_message hstep
  have hold : ∀ r ∈ s.run.tracker.ring, r.1 ≠ s.epoch := fun r hr => by
    have := hinv.stamps r hr
    have := hinv.seen_le
    omega
  have hiff := ingest_onlyFrom_iff hinv.length_le hold m
  refine ⟨hiff, fun hsup later s'' hlater hrun' => ?_,
    fun c hc hlast => ?_⟩
  · exact run_invariant_along (P := fun e _ => e ≠ .recreate)
      (I := fun x => OnlyFrom x.epoch x.run.tracker)
      (fun _ _ _ he hs h => onlyFrom_step he hs h) later
      (along_of_forall
        (fun _ he _ => ne_of_mem_of_not_mem he hlater) _)
      (hiff.mpr hsup) hrun'
  · rintro ⟨k, hk, hstored⟩
    obtain ⟨c', hc', hcursor⟩ := hinv.cursor hphase hfirst
    obtain rfl : c' = c := Option.some.inj (hc'.symm.trans hc)
    have hle := hnext.2.2 k hstored (hcursor ▸ Consumer.start_le hk)
    have hbound :=
      (c'.atCreate.bounds k (Finset.mem_filter.mp hk).1).2.2
    refine .inl (UInt64.lt_iff_toNat_lt.mpr ?_)
    show m.seq.toNat < s.run.tracker.lastSeq.toNat
    omega

section Examples

/-- A tracker that keeps every record, as its sequence. -/
def sequences : Tracker UInt64 where
  decode m := some m.seq
  less := none
  max := 7
  retry := 1
  max_pos := by decide

/-- Two records are ingested and the stream is recreated; `between` is
what happens then, up to the first record of the new stream. -/
def recreatedRun (between : List (StreamEvent Unit)) :
    List (StreamEvent Unit) :=
  [.subscribe [], .tracker (.message ⟨1, 0, []⟩),
    .tracker (.message ⟨2, 0, []⟩), .tracker .closed, .recreate,
    .tracker .elapsed] ++ between

/-- The ring after a run and one more message. -/
def ringAfter (es : List (StreamEvent Unit)) (m : Msg) :
    Option (List (Nat × UInt64)) :=
  ((run sequences.track es
      (.init (Stream.fresh.publishAll [true, true]))).bind
    (sequences.track (ε := Unit) (.tracker (.message m)))).map
      fun s => s.run.tracker.ring

/-- The new stream holds its first record at the resubscribe. -/
theorem tracker_reset_detected :
    ringAfter (recreatedRun [.publish true, .subscribe []]) ⟨1, 0, []⟩
      = some [(1, 1)]
    ∧ ∀ s s', run sequences.track
          (recreatedRun [.publish true, .subscribe []])
          (.init (Stream.fresh.publishAll [true, true])) = some s →
        sequences.track (ε := Unit) (.tracker (.message ⟨1, 0, []⟩)) s
          = some s' →
        OnlyFrom s'.epoch s'.run.tracker := by
  refine ⟨by decide, fun s s' hs hs' => ?_⟩
  have hfacts : (run sequences.track
      (recreatedRun [.publish true, .subscribe []])
      (.init (Stream.fresh.publishAll [true, true]))).map
        (fun s => (s.seen, s.epoch, s.run.tracker.lastSeq))
      = some (0, 1, 2) := by decide
  rw [hs] at hfacts
  simp only [Option.map_some, Option.some.injEq, Prod.mk.injEq] at hfacts
  obtain ⟨hseen, hepoch, hlast⟩ := hfacts
  refine (tracker_reset_iff sequences _ _ s s' _ hs hs' ?_).1.mpr ?_
  · rw [hseen, hepoch]
    decide
  · refine .inl ?_
    show (1 : UInt64) < s.run.tracker.lastSeq
    rw [hlast]
    decide

/-- The new stream is empty at the resubscribe; a record of another
subject takes sequence 1, so the tracker's first has the sequence 2 that
the old stream had come to, and the old records stay. -/
theorem tracker_reset_missed :
    ∃ s s', run sequences.track
        (recreatedRun [.subscribe [], .publish false, .publish true])
        (.init (Stream.fresh.publishAll [true, true])) = some s
      ∧ sequences.track (ε := Unit) (.tracker (.message ⟨2, 0, []⟩)) s
        = some s'
      ∧ (s.consumer.map fun c => c.atCreate.lastSeq) = some 0
      ∧ s.run.tracker.lastSeq = 2
      ∧ s'.run.tracker.ring = [(1, 2), (0, 2), (0, 1)]
      ∧ ¬ OnlyFrom s'.epoch s'.run.tracker := by
  refine ⟨_, _, rfl, rfl, rfl, rfl, rfl, fun h => ?_⟩
  have hold : (0 : Nat) = 1 := h (0, 2) (by decide)
  cases hold

end Examples

end Tokyo3Base.Journal
