/-
A tracker over a journal without resets: however its subscriptions are
cut, it has ingested what one uninterrupted subscription would have.

# The argument

The ring and the resume point are a fold over the records ingested, so
it is enough to follow that list. While a subscription is open, what
was ingested and what is still to come make up the whole delivery
(`FollowInv.streaming`). A resubscribe asks for everything after the last
sequence, and in a list with increasing sequences that is exactly what
is left (`filter_after`).

# The record with sequence 0

`Run` keeps "nothing ingested yet" as the sequence 0. A journal may
hold a record with that sequence, and a cut right after it resumes from
the beginning (`tracker_resume_seq_zero`). So the cuts have to come
after a record with a positive sequence.
-/
import Tokyo3Base.Lib.Run
import Tokyo3Base.Journal.Tracker

namespace Tokyo3Base.Journal

variable {τ : Type} {t : Tracker τ}

-- ==== sorted deliveries

/-- Sequences increase along the list. -/
def Increasing (msgs : List Msg) : Prop :=
  msgs.Pairwise fun a b => a.seq < b.seq

/-- What comes after the last record of a prefix, by its sequence. -/
theorem filter_after {before rest : List Msg} {m : Msg}
    (h : Increasing (before ++ [m] ++ rest)) :
    (before ++ [m] ++ rest).filter (fun x => decide (m.seq < x.seq))
      = rest := by
  obtain ⟨hleft, -, hcross⟩ := List.pairwise_append.mp h
  obtain ⟨-, -, hlast⟩ := List.pairwise_append.mp hleft
  rw [List.filter_append]
  have hdrop : (before ++ [m]).filter (fun x => decide (m.seq < x.seq))
      = [] := by
    rw [List.filter_eq_nil_iff]
    intro x hx
    rw [decide_eq_true_eq, UInt64.not_lt]
    rcases List.mem_append.mp hx with hx | hx
    · exact UInt64.le_of_lt (hlast x hx m List.mem_cons_self)
    · rw [List.mem_singleton.mp hx]
      exact UInt64.le_refl _
  have hkeep : rest.filter (fun x => decide (m.seq < x.seq)) = rest := by
    rw [List.filter_eq_self]
    intro x hx
    rw [decide_eq_true_eq]
    exact hcross m (List.mem_append_right _ List.mem_cons_self) x hx
  rw [hdrop, hkeep, List.nil_append]

/-- `from` without wrapping: the records after `m`. -/
theorem succ_le_iff {a b : UInt64} (ha : a.toNat < UInt64.size - 1) :
    a + 1 ≤ b ↔ a < b := by
  rw [UInt64.le_iff_toNat_le, UInt64.lt_iff_toNat_lt, UInt64.toNat_add,
    show (1 : UInt64).toNat = 1 from rfl]
  have hsize : UInt64.size = 18446744073709551616 := rfl
  omega

/-- A resubscribe after `m` delivers the rest of the window. -/
theorem sourceFrom_after {journal before rest : List Msg} {m : Msg}
    {start : UInt64} (hinc : Increasing journal)
    (hm : m.seq.toNat < UInt64.size - 1)
    (hwin : sourceFrom journal start 0 = before ++ [m] ++ rest) :
    sourceFrom journal start (m.seq + 1) = rest := by
  have hwin' : journal.filter (fun x => decide (start ≤ x.seq))
      = before ++ [m] ++ rest := hwin
  have hstart : start ≤ m.seq := by
    have hmem : m ∈ journal.filter (fun x => decide (start ≤ x.seq)) := by
      rw [hwin']
      simp
    simpa using (List.mem_filter.mp hmem).2
  have hpos : m.seq + 1 > 0 := by
    rw [gt_iff_lt, UInt64.lt_iff_toNat_lt, UInt64.toNat_add,
      show (1 : UInt64).toNat = 1 from rfl,
      show (0 : UInt64).toNat = 0 from rfl]
    have hsize : UInt64.size = 18446744073709551616 := rfl
    omega
  have hinc' : Increasing (before ++ [m] ++ rest) := by
    rw [← hwin']
    exact List.Pairwise.sublist List.filter_sublist hinc
  -- the window's start is below `m`, so it filters nothing after it
  have hboth : (before ++ [m] ++ rest).filter
        (fun x => decide (m.seq < x.seq))
      = journal.filter (fun x => decide (m.seq < x.seq)) := by
    rw [← hwin', List.filter_filter]
    congr 1
    funext x
    by_cases hx : m.seq < x.seq
    · have hle : start ≤ x.seq :=
        UInt64.le_trans hstart (UInt64.le_of_lt hx)
      simp [hx, hle]
    · simp [hx]
  have hsrc : sourceFrom journal start (m.seq + 1)
      = journal.filter (fun x => decide (m.seq < x.seq)) := by
    unfold sourceFrom
    simp only [if_pos hpos, succ_le_iff hm]
  rw [hsrc, ← hboth, filter_after hinc']

-- ==== the tracker

theorem Tracker.ingest_lastSeq (t : Tracker τ) (s : TrackerState τ)
    (m : Msg) : (t.ingest s m).lastSeq = m.seq := by
  unfold Tracker.ingest
  dsimp only
  split <;> rfl

theorem Tracker.uninterrupted_snoc (t : Tracker τ) (msgs : List Msg)
    (m : Msg) : t.uninterrupted (msgs ++ [m])
      = t.ingest (t.uninterrupted msgs) m := by
  simp [Tracker.uninterrupted]

/-- The resume point is after the last record ingested. -/
theorem Tracker.uninterrupted_lastSeq (t : Tracker τ) (msgs : List Msg)
    (m : Msg) : (t.uninterrupted (msgs ++ [m])).lastSeq = m.seq := by
  rw [t.uninterrupted_snoc, t.ingest_lastSeq]

-- ==== the invariant

/-- What is known of `Run` over the journal, at any moment. -/
structure FollowInv (t : Tracker τ) (journal : List Msg) (start : UInt64)
    (s : Following τ) : Prop where
  state : s.run.tracker = t.uninterrupted s.ingested
  window : s.ingested <+: sourceFrom journal start 0
  streaming : s.run.phase = .ingesting →
    s.ingested ++ s.remaining = sourceFrom journal start 0
  between : s.run.phase = .subscribing ∨ s.run.phase = .waiting →
    s.ingested = [] ∨ 0 < s.run.tracker.lastSeq

/-- The cuts in question: a subscription ends after a record with a
positive sequence. -/
def CutLate (e : RunEvent) (s : Following τ) : Prop :=
  e = .closed → ∃ m ∈ s.ingested, 0 < m.seq

instance (e : RunEvent) (s : Following τ) : Decidable (CutLate e s) :=
  inferInstanceAs (Decidable (_ → _))

theorem followInv_init (t : Tracker τ) (journal : List Msg)
    (start : UInt64) : FollowInv t journal start .init := by
  refine ⟨rfl, List.nil_prefix, fun h => ?_, fun _ => .inl rfl⟩
  cases h

section Steps

variable {journal : List Msg} {start : UInt64} {s : Following τ}

/-- Sequences increase, so one positive sequence among the records makes
the last one positive. -/
theorem lastSeq_pos (hs : FollowInv t journal start s)
    (hinc : Increasing journal) {m : Msg} (hm : m ∈ s.ingested)
    (hpos : 0 < m.seq) : 0 < s.run.tracker.lastSeq := by
  have hsub : Increasing s.ingested :=
    List.Pairwise.sublist
      (hs.window.sublist.trans List.filter_sublist) hinc
  rw [hs.state]
  rcases List.eq_nil_or_concat s.ingested with hnil | ⟨before, last, heq⟩
  · rw [hnil] at hm
    cases hm
  · rw [heq, List.concat_eq_append] at hm hsub ⊢
    rw [t.uninterrupted_lastSeq]
    rcases List.mem_append.mp hm with hm | hm
    · exact UInt64.lt_trans hpos
        ((List.pairwise_append.mp hsub).2.2 m hm last
          List.mem_cons_self)
    · rw [← List.mem_singleton.mp hm]
      exact hpos

/-- What a resubscribe asks for is what has not been ingested. -/
theorem FollowInv.resubscribe (hs : FollowInv t journal start s)
    (hinc : Increasing journal)
    (hmax : ∀ m ∈ journal, m.seq.toNat < UInt64.size - 1)
    (hphase : s.run.phase = .subscribing) :
    s.ingested ++ sourceFrom journal start s.run.tracker.from
      = sourceFrom journal start 0 := by
  rcases List.eq_nil_or_concat s.ingested with hnil | ⟨before, m, heq⟩
  · have hfrom : s.run.tracker.from = 0 := by
      rw [hs.state, hnil]
      rfl
    rw [hnil, hfrom, List.nil_append]
  · rw [List.concat_eq_append] at heq
    obtain ⟨rest, hrest⟩ := hs.window
    rw [heq] at hrest
    have hseq : s.run.tracker.lastSeq = m.seq := by
      rw [hs.state, heq, t.uninterrupted_lastSeq]
    have hpos : 0 < s.run.tracker.lastSeq := by
      rcases hs.between (.inl hphase) with hnil | hpos
      · rw [heq] at hnil
        simp at hnil
      · exact hpos
    have hfrom : s.run.tracker.from = m.seq + 1 := by
      unfold TrackerState.from
      rw [if_pos hpos, hseq]
    have hmem : m ∈ journal := by
      have hm : m ∈ sourceFrom journal start 0 := by
        rw [← hrest]
        simp
      exact (List.mem_filter.mp hm).1
    rw [hfrom, heq, sourceFrom_after hinc (hmax m hmem) hrest.symm, hrest]

/-- The end of the subscription, and a failed attempt at the next one:
nothing is ingested, and `Run` leaves with a positive resume point. -/
theorem FollowInv.pause (hs : FollowInv t journal start s)
    (phase : RunPhase) (hphase : phase ≠ .ingesting)
    (hcut : phase = .subscribing ∨ phase = .waiting →
      s.ingested = [] ∨ 0 < s.run.tracker.lastSeq) :
    FollowInv t journal start
      { s with run := { s.run with phase := phase } } :=
  ⟨hs.state, hs.window, fun h => absurd h hphase, hcut⟩

theorem FollowInv.message (hs : FollowInv t journal start s) {m : Msg}
    {rest : List Msg} (hphase : s.run.phase = .ingesting)
    (hrem : s.remaining = m :: rest) :
    FollowInv t journal start
      ⟨{ s.run with tracker := t.ingest s.run.tracker m }, rest,
        s.ingested ++ [m]⟩ := by
  have hwhole : (s.ingested ++ [m]) ++ rest = sourceFrom journal start 0 := by
    rw [← hs.streaming hphase, hrem, List.append_assoc]
    rfl
  refine ⟨?_, ⟨rest, hwhole⟩, fun _ => hwhole, fun h => ?_⟩
  · rw [t.uninterrupted_snoc, ← hs.state]
  · rcases h with h | h
    · cases hphase.symm.trans h
    · cases hphase.symm.trans h

theorem FollowInv.step (hinc : Increasing journal)
    (hmax : ∀ m ∈ journal, m.seq.toNat < UInt64.size - 1)
    {e : RunEvent} {s' : Following τ} (hcut : CutLate e s)
    (hs : FollowInv t journal start s)
    (h : t.follow journal start e s = some s') :
    FollowInv t journal start s' := by
  obtain ⟨⟨phase, ts⟩, rem, seen⟩ := s
  cases e with
  | subscribed =>
      cases phase <;> cases h
      have hwhole := hs.resubscribe hinc hmax rfl
      refine ⟨hs.state, hs.window, fun _ => hwhole, fun h => ?_⟩
      rcases h with h | h <;> cases h
  | subscribeFailed ctxErr =>
      cases phase <;> try cases h
      simp only [Tracker.follow, Tracker.step] at h
      split at h <;> cases h
      · refine hs.pause (.returned .refused) nofun fun h => ?_
        rcases h with h | h <;> cases h
      · exact hs.pause .waiting nofun
          fun _ => hs.between (.inl rfl)
  | message m =>
      cases rem with
      | nil => cases h
      | cons next rest =>
          simp only [Tracker.follow] at h
          split at h
          · rename_i hnext
            subst hnext
            cases phase <;> cases h
            exact hs.message rfl rfl
          · cases h
  | closed =>
      cases phase <;> try cases h
      obtain ⟨m, hm, hpos⟩ := hcut rfl
      simp only [Tracker.follow, Tracker.step] at h
      split at h <;> cases h
      · refine hs.pause (.returned .closed) nofun fun h => ?_
        rcases h with h | h <;> cases h
      · exact hs.pause .waiting nofun
          fun _ => .inr (lastSeq_pos hs hinc hm hpos)
  | ctxDone =>
      cases phase <;> cases h <;>
        refine hs.pause (.returned .canceled) nofun fun h => ?_
      all_goals rcases h with h | h <;> cases h
  | elapsed =>
      cases phase <;> cases h
      exact hs.pause .subscribing nofun
        fun _ => hs.between (.inr rfl)

end Steps

-- ==== the statement

/-- Over a journal without resets, with every subscription that ends
ending after a record with a positive sequence: the ring and the resume
point are those of one uninterrupted subscription that delivered the
same records, these are a prefix of what that subscription delivers, and
while a subscription is open the rest is exactly what it has still to
deliver. -/
theorem tracker_resume (t : Tracker τ) (journal : List Msg)
    (start : UInt64) (hinc : Increasing journal)
    (hmax : ∀ m ∈ journal, m.seq.toNat < UInt64.size - 1)
    (es : List RunEvent) (s : Following τ)
    (hcut : Lib.Along CutLate (t.follow journal start) es .init)
    (hrun : Lib.run (t.follow journal start) es .init = some s) :
    s.run.tracker = t.uninterrupted s.ingested
    ∧ s.ingested <+: sourceFrom journal start 0
    ∧ (s.run.phase = .ingesting →
        s.ingested ++ s.remaining = sourceFrom journal start 0) := by
  have hinv : FollowInv t journal start s :=
    Lib.run_invariant_along (I := FollowInv t journal start)
      (P := CutLate)
      (fun _ _ _ hP hs h => hs.step hinc hmax hP h) es hcut
      (followInv_init t journal start) hrun
  exact ⟨hinv.state, hinv.window, hinv.streaming⟩

section Examples

/-- A tracker that keeps the records with a payload, newest first. -/
def payloads (retry : Int) : Tracker UInt64 where
  decode m := if m.data = [] then none else some m.seq
  less := none
  max := 2
  retry := retry
  max_pos := by decide

/-- A cut after a record that `Decode` filtered out, and two attempts at
the next subscription. -/
theorem tracker_resume_after_filtered :
    let journal : List Msg := [⟨3, 0, [1]⟩, ⟨5, 0, []⟩, ⟨9, 0, [1]⟩]
    let es : List RunEvent :=
      [.subscribed, .message ⟨3, 0, [1]⟩, .message ⟨5, 0, []⟩, .closed,
        .elapsed, .subscribeFailed false, .elapsed, .subscribed,
        .message ⟨9, 0, [1]⟩]
    Lib.run ((payloads 1).follow journal 0) es .init
        = some ⟨⟨.ingesting, ⟨[9, 3], 9⟩⟩, [], journal⟩
      ∧ (payloads 1).uninterrupted journal = ⟨[9, 3], 9⟩ := by
  intro journal es
  have hrun : Lib.run ((payloads 1).follow journal 0) es .init
      = some ⟨⟨.ingesting, ⟨[9, 3], 9⟩⟩, [], journal⟩ := by decide
  refine ⟨hrun, (tracker_resume (payloads 1) journal 0 ?_ ?_ es _
    (by decide +kernel) hrun).1.symm⟩
  · simp [Increasing, journal]
  · simp [journal]

/-- The record with sequence 0 is delivered again after a cut, so the
ring holds it twice. -/
theorem tracker_resume_seq_zero :
    let journal : List Msg := [⟨0, 0, [1]⟩]
    ((Lib.run ((payloads 1).follow journal 0)
        [.subscribed, .message ⟨0, 0, [1]⟩, .closed, .elapsed,
          .subscribed, .message ⟨0, 0, [1]⟩] .init).map
      fun s => s.run.tracker) = some ⟨[0, 0], 0⟩
    ∧ (payloads 1).uninterrupted journal = ⟨[0], 0⟩ := by
  decide

end Examples

end Tokyo3Base.Journal
