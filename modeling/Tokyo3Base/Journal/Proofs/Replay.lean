/-
What a subscription is owed on a stream that moves under it.

# The argument

Every decision of `pickDeliverPolicy` mixes two moments: the info
snapshot, and the later moment of each probe. The search contract
(`Sound`) separates them. "Too few" verdicts are transported BACK to
the snapshot (a later stream has at least as many records, so a later
count below `n` was below `n` then), and they bound what is delivered
from above; "enough" verdicts are transported FORWARD to the moment the
consumer is created, and they bound it from below. The five branches of
the policy then all give the full window, except one.

# The branch that does not

A stream with `lastSeq = 0` at the snapshot gets `DeliverNew`, which
skips everything stored before the consumer exists, also what was
published after the snapshot. `subscribe_replayWindow_iff` says that
this is the only way to lose a record, and that it loses one exactly
when a matching record lands in that gap.
-/
import Tokyo3Base.Journal.Proofs.Window

namespace Tokyo3Base.Journal

open Lib

-- ==== growth

/-- `s'` is `s` after some publishes: nothing is lost, and what is new
lies above the old end. -/
structure Stream.Grows (s s' : Stream) : Prop where
  subset : s.matching ⊆ s'.matching
  last_le : s.lastSeq ≤ s'.lastSeq
  fresh : ∀ m ∈ s'.matching, m ≤ s.lastSeq → m ∈ s.matching

theorem Stream.Grows.refl (s : Stream) : s.Grows s :=
  ⟨Finset.Subset.refl _, Nat.le_refl _, fun _ hm _ => hm⟩

theorem Stream.Grows.trans {s₁ s₂ s₃ : Stream} (h₁ : s₁.Grows s₂)
    (h₂ : s₂.Grows s₃) : s₁.Grows s₃ where
  subset := h₁.subset.trans h₂.subset
  last_le := Nat.le_trans h₁.last_le h₂.last_le
  fresh := fun m hm hle =>
    h₁.fresh m (h₂.fresh m hm (Nat.le_trans hle h₁.last_le)) hle

theorem Stream.grows_publish (s : Stream) (hit : Bool) :
    s.Grows (s.publish hit) := by
  refine ⟨?_, Nat.le_succ _, ?_⟩
  · cases hit with
    | false => exact Finset.Subset.refl _
    | true => exact Finset.subset_insert _ _
  · intro m hm hle
    cases hit with
    | false => exact hm
    | true =>
        rcases Finset.mem_insert.mp hm with rfl | hm
        · omega
        · exact hm

theorem Stream.grows_publishAll (hits : List Bool) :
    ∀ s : Stream, s.Grows (s.publishAll hits) := by
  induction hits with
  | nil => exact Stream.Grows.refl
  | cons hit hits ih =>
      intro s
      exact (s.grows_publish hit).trans (ih (s.publish hit))

theorem Stream.lastSeq_publishAll (hits : List Bool) :
    ∀ s : Stream, (s.publishAll hits).lastSeq = s.lastSeq + hits.length := by
  induction hits with
  | nil => intro s; rfl
  | cons hit hits ih =>
      intro s
      have h := ih (s.publish hit)
      rw [List.length_cons]
      simp only [Stream.publishAll, List.foldl_cons] at h ⊢
      rw [h]
      show s.lastSeq + 1 + hits.length = _
      omega

variable {ε : Type} {w w' : World ε}

/-- One server call: the stream grows, and the bound on the run is
kept. -/
theorem World.advance_ok (h : w.advance = .ok w') :
    w.stream.Grows w'.stream
      ∧ w'.stream.lastSeq + w'.upcoming = w.stream.lastSeq + w.upcoming := by
  obtain ⟨stream, agenda⟩ := w
  cases agenda with
  | nil =>
      injection h with h
      subst h
      exact ⟨Stream.Grows.refl _, rfl⟩
  | cons t rest =>
      simp only [World.advance] at h
      cases hf : t.failed with
      | some e => rw [hf] at h; cases h
      | none =>
          rw [hf] at h
          injection h with h
          subst h
          refine ⟨Stream.grows_publishAll _ _, ?_⟩
          simp only [World.upcoming, List.flatMap_cons, List.length_append,
            Stream.lastSeq_publishAll]
          omega

theorem World.Bounded.advance (hb : w.Bounded) (h : w.advance = .ok w') :
    w'.Bounded := by
  have := (World.advance_ok h).2
  unfold World.Bounded at hb ⊢
  omega

/-- Within the bound a sequence survives the trip through `uint64`. -/
theorem toNat_ofNat_of_bounded {x : Nat} (h : x < 2 ^ 64 - 1) :
    (UInt64.ofNat x).toNat = x := by
  rw [UInt64.toNat_ofNat']
  exact Nat.mod_eq_of_lt (by omega)

theorem World.Bounded.last_lt (hb : w.Bounded) :
    w.stream.lastSeq < 2 ^ 64 - 1 := by
  unfold World.Bounded at hb
  omega

-- ==== the moving oracle

/-- A successful probe is one server call followed by a count. -/
theorem pendingFrom_ok {q c : UInt64} (h : pendingFrom q w = .ok (c, w')) :
    w.advance = .ok w'
      ∧ c = UInt64.ofNat (tailCard w'.stream.matching q.toNat) := by
  unfold pendingFrom at h
  cases ha : w.advance with
  | error e => rw [ha] at h; cases h
  | ok w₁ =>
      rw [ha] at h
      injection h with h
      injection h with hc hw
      subst hw
      exact ⟨rfl, hc.symm⟩

/-- The probe of a growing stream is a sound oracle, with "too few" read
at the snapshot `s` and "enough" read at the current stream. -/
theorem sound_pendingFrom (s : Stream) (n : UInt64) :
    Sound (pendingFrom (ε := ε)) n
      (fun w => s.Grows w.stream ∧ w.Bounded)
      (fun q => tailCard s.matching q < n.toNat)
      (fun w q => n.toNat ≤ tailCard w.stream.matching q) where
  ok := by
    intro q w c w' hok hp
    obtain ⟨ha, -⟩ := pendingFrom_ok hp
    exact ⟨hok.1.trans (World.advance_ok ha).1, hok.2.advance ha⟩
  few := by
    intro q w c w' hok hp hlt
    obtain ⟨ha, hc⟩ := pendingFrom_ok hp
    have hcount := ofNat_tailCard
      (fun m hm => (w'.stream.bounds m hm).2.2)
      (hok.2.advance ha).last_lt q.toNat
    rw [hc, UInt64.lt_iff_toNat_lt, hcount] at hlt
    exact Nat.lt_of_le_of_lt
      (tailCard_mono (hok.1.trans (World.advance_ok ha).1).subset) hlt
  many := by
    intro q w c w' hok hp hle
    obtain ⟨ha, hc⟩ := pendingFrom_ok hp
    have hcount := ofNat_tailCard
      (fun m hm => (w'.stream.bounds m hm).2.2)
      (hok.2.advance ha).last_lt q.toNat
    rw [hc, UInt64.le_iff_toNat_le, hcount] at hle
    exact hle
  stays := by
    intro q w c w' m hok hp hm
    obtain ⟨ha, -⟩ := pendingFrom_ok hp
    exact Nat.le_trans hm (tailCard_mono (World.advance_ok ha).1.subset)

-- ==== the verdicts

variable {s s' : Stream} {n : Nat}

/-- `DeliverAll` gives the window when the snapshot holds no more than
`n` records: what is beyond those was published since. -/
theorem replayWindow_all (hg : s.Grows s') (h : s.matching.card ≤ n)
    (q : UInt64) :
    ReplayWindow n
      { policy := (.all, q), atInfo := s, atCreate := s' } := by
  have hdel : Consumer.delivered
      { policy := (.all, q), atInfo := s, atCreate := s' }
      = s'.matching := selected_all _ _
  have hall : ∀ {M : Finset Nat}, tailCard M 0 = M.card := fun {M} => by
    rw [tailCard, tail_eq_self fun m _ => Nat.zero_le m]
  refine ⟨?_, ?_, ?_⟩
  · rw [hdel]
    rcases Nat.le_total n s'.matching.card with hle | hle
    · rw [← hall] at hle
      obtain ⟨S, hS, hnew⟩ := exists_isNewest_subset_tail
        (fun m hm => (s'.bounds m hm).2.2) hle
      exact ⟨S, hS.trans tail_subset, hnew⟩
    · exact ⟨_, Finset.Subset.refl _, isNewest_self hle⟩
  · intro m hm _
    rw [hdel]
    exact hm
  · rw [hdel, ← hall]
    have := tailCard_le_add (q := 0) hg.fresh
    rw [hall (M := s.matching)] at this
    exact Nat.le_trans this (Nat.add_le_add_right h _)

/-- `ByStartSequence` gives the window when the cut held at most `n` at
the snapshot, holds at least `n` at creation, and lies no higher than
just past the snapshot's end. -/
theorem replayWindow_byStartSequence (hg : s.Grows s') {q : UInt64}
    (hfew : tailCard s.matching q.toNat ≤ n)
    (hmany : n ≤ tailCard s'.matching q.toNat)
    (hend : q.toNat ≤ s.lastSeq + 1) :
    ReplayWindow n
      { policy := (.byStartSequence, q), atInfo := s, atCreate := s' } := by
  have hdel : Consumer.delivered
      { policy := (.byStartSequence, q), atInfo := s, atCreate := s' }
      = tail s'.matching q.toNat := selected_byStartSequence _ _
  refine ⟨?_, ?_, ?_⟩
  · rw [hdel]
    exact exists_isNewest_subset_tail
      (fun m hm => (s'.bounds m hm).2.2) hmany
  · intro m hm hlt
    have hlt : s.lastSeq < m := hlt
    rw [hdel, mem_tail]
    exact ⟨hm, by omega⟩
  · rw [hdel]
    exact Nat.le_trans (tailCard_le_add hg.fresh)
      (Nat.add_le_add_right hfew _)

/-- `DeliverNew` gives the window only when there was nothing to
deliver. -/
theorem replayWindow_new_iff (hn : 0 < n) (q : UInt64) :
    ReplayWindow n { policy := (.new, q), atInfo := s, atCreate := s' }
      ↔ s'.matching = ∅ := by
  have hdel : Consumer.delivered
      { policy := (.new, q), atInfo := s, atCreate := s' } = ∅ :=
    selected_new _ _
  constructor
  · rintro ⟨⟨S, hS, hnew⟩, -, -⟩
    rw [hdel, Finset.subset_empty] at hS
    have hcard : S.card = min n s'.matching.card := hnew.card
    rw [hS, Finset.card_empty] at hcard
    exact Finset.card_eq_zero.mp (by omega)
  · intro hempty
    refine ⟨⟨∅, Finset.empty_subset _, ?_⟩, ?_, ?_⟩
    · show IsNewest n s'.matching ∅
      rw [hempty]
      exact isNewest_self (Nat.zero_le _)
    · intro m hm
      have hm : m ∈ s'.matching := hm
      rw [hempty] at hm
      exact absurd hm (Finset.notMem_empty _)
    · rw [hdel, Finset.card_empty]
      exact Nat.zero_le _

-- ==== the decision

/-- What the policy decision amounts to on a moving stream, with a
backfill and no resume point: a never-written stream gets `DeliverNew`
without a single probe; any other gets a policy that gives the window,
however the stream grows from there on. -/
def DecisionPost (n : Nat) (w : World ε) :
    Except (Fault ε) ((DeliverPolicy × UInt64) × World ε) → Prop
  | .error .fuel => False
  | .error (.probe _) => True
  | .ok (d, w') =>
      (w.stream.lastSeq = 0 ∧ d = (.new, 0) ∧ w' = w)
        ∨ (w.stream.lastSeq ≠ 0 ∧ ∀ s', w'.stream.Grows s' →
            ReplayWindow n
              { policy := d, atInfo := w.stream, atCreate := s' })

/-- Records of a stream, counted: no more than its last sequence. -/
theorem Stream.card_le (s : Stream) : s.matching.card ≤ s.lastSeq :=
  card_le_of_bounds (fun m hm => (s.bounds m hm).1)
    fun m hm => (s.bounds m hm).2.2

theorem pickDeliverPolicy_moving {replay : Int64} (hpos : 0 < replay)
    (hb : w.Bounded) :
    DecisionPost replay.toInt.toNat w
      (pickDeliverPolicy replay 0 (UInt64.ofNat w.stream.firstSeq)
        (UInt64.ofNat w.stream.lastSeq) pendingFrom w) := by
  have hpos' : ¬ replay ≤ 0 := Int64.not_le.mpr hpos
  obtain ⟨htoNat, hgt⟩ := toNat_replay hpos'
  have hlast := hb.last_lt
  have hfirst := w.stream.first_le
  have hL := toNat_ofNat_of_bounded hlast
  have hF : (UInt64.ofNat w.stream.firstSeq).toNat = w.stream.firstSeq := by
    rw [UInt64.toNat_ofNat']
    exact Nat.mod_eq_of_lt (by omega)
  unfold pickDeliverPolicy
  rw [if_neg (fun h => absurd h.1 (by decide))]
  by_cases hz : w.stream.lastSeq = 0
  · rw [if_pos (Or.inr (by rw [hz]; rfl))]
    exact Or.inl ⟨hz, rfl, rfl⟩
  · have hz' : ¬ UInt64.ofNat w.stream.lastSeq = 0 := by
      intro h
      rw [h] at hL
      exact hz hL.symm
    rw [if_neg (fun h => h.elim hpos' hz')]
    by_cases hall : replay.toUInt64 ≥ UInt64.ofNat w.stream.lastSeq
    · rw [if_pos hall]
      rw [ge_iff_le, UInt64.le_iff_toNat_le, hL, htoNat] at hall
      exact Or.inr ⟨hz, fun s' hg => replayWindow_all hg
        (Nat.le_trans w.stream.card_le hall) 0⟩
    · rw [if_neg hall]
      rw [ge_iff_le, UInt64.le_iff_toNat_le, hL, htoNat] at hall
      have hn : 0 < replay.toUInt64.toNat := by omega
      have hpost := replayStart_spec
        (sound_pendingFrom (ε := ε) w.stream replay.toUInt64)
        (UInt64.ofNat w.stream.firstSeq) hn (by rw [hL]; exact hlast)
        ⟨Stream.Grows.refl _, hb⟩
      match hr : replayStart replay.toUInt64
          (UInt64.ofNat w.stream.firstSeq)
          (UInt64.ofNat w.stream.lastSeq) pendingFrom w, hpost with
      | .error (.probe e), _ => trivial
      | .ok (none, w₂), ⟨⟨hg, _⟩, hfew⟩ =>
          -- fewer than `n` already at the snapshot: everything is due
          have hfew : tailCard w.stream.matching
              (UInt64.ofNat w.stream.firstSeq).toNat
              < replay.toUInt64.toNat := hfew
          rw [hF, htoNat, tailCard,
            tail_eq_self fun m hm => (w.stream.bounds m hm).2.1] at hfew
          exact Or.inr ⟨hz, fun s' hg' => replayWindow_all (hg.trans hg')
            (Nat.le_of_lt hfew) 0⟩
      | .ok (some start, w₂), ⟨⟨hg, _⟩, hmany, _, hhigh, hsharp⟩ =>
          rw [replayHigh_toNat _ _ hn, hL, hF] at hhigh
          refine Or.inr ⟨hz, fun s' hg' => replayWindow_byStartSequence
            (hg.trans hg') ?_ ?_ (by omega)⟩
          · rw [← htoNat]
            rcases hsharp with hhi | hnext
            · rw [hhi]
              exact tailCard_replayHigh _ hn (by
                rw [hL]
                exact fun m hm => (w.stream.bounds m hm).2.2)
            · exact Nat.le_trans tailCard_le_succ hnext
          · rw [← htoNat]
            exact Nat.le_trans hmany (tailCard_mono hg'.subset)

-- ==== the subscription

/-- The stream as Subscribe's info call sees it. -/
def World.infoStream (w : World ε) : Stream :=
  match w.agenda with
  | [] => w.stream
  | t :: _ => w.stream.publishAll t.published

/-- No matching record is published between the info call and the server
call that follows it. -/
def World.quietAfterInfo (w : World ε) : Bool :=
  match w.agenda with
  | _ :: t :: _ => !t.published.contains true
  | _ => true

theorem World.stream_of_advance (h : w.advance = .ok w') :
    w'.stream = w.infoStream := by
  obtain ⟨stream, agenda⟩ := w
  cases agenda with
  | nil =>
      injection h with h
      rw [← h]
      rfl
  | cons t rest =>
      simp only [World.advance] at h
      cases hf : t.failed with
      | some e => rw [hf] at h; cases h
      | none =>
          rw [hf] at h
          injection h with h
          rw [← h]
          rfl

/-- Publishing into a stream without matching records leaves it without
exactly when no publish matched. -/
theorem Stream.publishAll_matching_eq_empty (hits : List Bool) :
    ∀ s : Stream, (s.publishAll hits).matching = ∅
      ↔ s.matching = ∅ ∧ hits.contains true = false := by
  induction hits with
  | nil => intro s; simp [Stream.publishAll]
  | cons hit hits ih =>
      intro s
      have h := ih (s.publish hit)
      simp only [Stream.publishAll, List.foldl_cons] at h ⊢
      rw [h]
      cases hit with
      | false => simp [Stream.publish]
      | true => simp [Stream.publish]

/-- Two server calls in a row on a never-written stream: still no
matching record exactly when the second found the gap quiet. -/
theorem World.quietAfterInfo_iff {w₁ w₂ : World ε}
    (h₁ : w.advance = .ok w₁) (h₂ : w₁.advance = .ok w₂)
    (hz : w₁.stream.lastSeq = 0) :
    w₂.stream.matching = ∅ ↔ w.quietAfterInfo = true := by
  have hempty : w₁.stream.matching = ∅ := by
    rw [← Finset.card_eq_zero]
    have := w₁.stream.card_le
    omega
  rw [World.stream_of_advance h₂]
  obtain ⟨stream, agenda⟩ := w
  cases agenda with
  | nil =>
      injection h₁ with h₁
      subst h₁
      simpa [World.infoStream, World.quietAfterInfo] using hempty
  | cons t rest =>
      simp only [World.advance] at h₁
      cases hf : t.failed with
      | some e => rw [hf] at h₁; cases h₁
      | none =>
          rw [hf] at h₁
          injection h₁ with h₁
          subst h₁
          cases rest with
          | nil =>
              simpa [World.infoStream, World.quietAfterInfo] using hempty
          | cons t' rest =>
              simp only [World.infoStream, World.quietAfterInfo]
              have hempty : (stream.publishAll t.published).matching = ∅ :=
                hempty
              rw [Stream.publishAll_matching_eq_empty]
              simp [hempty]

/-- The decision only lets time pass. -/
theorem pickDeliverPolicy_grows {replay : Int64}
    {startFromSeq firstSeq lastSeq : UInt64}
    {d : DeliverPolicy × UInt64}
    (h : pickDeliverPolicy replay startFromSeq firstSeq lastSeq pendingFrom
      w = .ok (d, w')) : w.stream.Grows w'.stream := by
  apply pickDeliverPolicy_keeps (Q := fun x => w.stream.Grows x.stream)
    ?_ (Stream.Grows.refl _) h
  intro q w₁ c w₂ hp hgrows
  exact hgrows.trans (World.advance_ok (pendingFrom_ok hp).1).1

/-- The calls of a `Subscribe` that succeeds. -/
theorem subscribe_ok {replay : Int64} {startFromSeq : UInt64}
    {c : Consumer} (h : subscribe replay startFromSeq w = .ok c) :
    ∃ w₁ d w₂ w₃, w.advance = .ok w₁
      ∧ pickDeliverPolicy replay startFromSeq
          (UInt64.ofNat w₁.stream.firstSeq)
          (UInt64.ofNat w₁.stream.lastSeq) pendingFrom w₁ = .ok (d, w₂)
      ∧ w₂.advance = .ok w₃
      ∧ c = { policy := d, atInfo := w₁.stream,
              atCreate := w₃.stream } := by
  unfold subscribe at h
  cases h₁ : w.advance with
  | error e => rw [h₁] at h; cases h
  | ok w₁ =>
      rw [h₁] at h
      dsimp only at h
      cases hd : pickDeliverPolicy replay startFromSeq
          (UInt64.ofNat w₁.stream.firstSeq)
          (UInt64.ofNat w₁.stream.lastSeq) pendingFrom w₁ with
      | error f => rw [hd] at h; cases f <;> cases h
      | ok r =>
          rw [hd] at h
          dsimp only at h
          cases h₂ : r.2.advance with
          | error e => rw [h₂] at h; cases h
          | ok w₃ =>
              rw [h₂] at h
              injection h with h
              exact ⟨w₁, r.1, r.2, w₃, rfl, hd, h₂, h.symm⟩

/-- A consumer is created on a stream that has only grown. -/
theorem subscribe_grows {replay : Int64} {startFromSeq : UInt64}
    {c : Consumer} (h : subscribe replay startFromSeq w = .ok c) :
    w.stream.Grows c.atCreate := by
  obtain ⟨w₁, d, w₂, w₃, h₁, hd, h₂, rfl⟩ := subscribe_ok h
  exact ((World.advance_ok h₁).1.trans (pickDeliverPolicy_grows hd)).trans
    (World.advance_ok h₂).1

/-- A subscriber with a backfill and no resume point gets its replay
window on every schedule of publishes and failures, except for one
kind: the stream had never been written when the info was read and a
matching record is published before the consumer is created. Subscribe
itself never diverges. -/
theorem subscribe_replayWindow_iff (replay : Int64) (hpos : 0 < replay)
    (w : World ε) (hb : w.Bounded) :
    subscribe replay 0 w ≠ .error .fuel
      ∧ ∀ c, subscribe replay 0 w = .ok c →
        (ReplayWindow replay.toInt.toNat c
          ↔ w.infoStream.lastSeq ≠ 0 ∨ w.quietAfterInfo = true) := by
  unfold subscribe
  cases h₁ : w.advance with
  | error e => exact ⟨nofun, nofun⟩
  | ok w₁ =>
      have hdec := pickDeliverPolicy_moving hpos (hb.advance h₁)
      dsimp only
      match hp : pickDeliverPolicy replay 0
          (UInt64.ofNat w₁.stream.firstSeq)
          (UInt64.ofNat w₁.stream.lastSeq) pendingFrom w₁, hdec with
      | .error (.probe e), _ => exact ⟨nofun, nofun⟩
      | .ok (d, w₂), hdec =>
          dsimp only
          cases h₂ : w₂.advance with
          | error e => exact ⟨nofun, nofun⟩
          | ok w₃ =>
              refine ⟨nofun, fun c hc => ?_⟩
              injection hc with hc
              subst hc
              rw [← World.stream_of_advance h₁]
              rcases hdec with ⟨hz, hd, hw⟩ | ⟨hz, hwin⟩
              · subst hw
                have hn := (toNat_replay (Int64.not_le.mpr hpos)).2
                rw [hd, replayWindow_new_iff hn,
                  World.quietAfterInfo_iff h₁ h₂ hz]
                exact ⟨Or.inr, fun h => h.resolve_left (fun h => h hz)⟩
              · exact ⟨fun _ => Or.inl hz, fun _ =>
                  hwin w₃.stream (World.advance_ok h₂).1⟩

/-- Five records of which three match; one more match is published
between the snapshot and the consumer. -/
def growing : World Unit where
  stream := Stream.fresh.publishAll [true, false, true, false, true]
  agenda := [⟨[], none⟩, ⟨[true], none⟩]

/-- A backfill of two on `growing` goes through the search, and the
window holds. -/
theorem subscribe_replayWindow_growing :
    ∃ c, subscribe 2 0 growing = .ok c ∧ ReplayWindow 2 c := by
  obtain ⟨-, h⟩ := subscribe_replayWindow_iff 2 (by decide) growing
    (by unfold World.Bounded; decide)
  have hsome : (subscribe 2 0 growing).toOption.isSome = true := by decide
  cases hc : subscribe 2 0 growing with
  | error e => rw [hc] at hsome; cases hsome
  | ok c => exact ⟨c, rfl, (h c hc).mpr (Or.inl (by decide))⟩

/-- The window is lost on a never-written stream when one matching record
lands between the snapshot and the consumer: `DeliverNew` skips it. -/
theorem subscribe_not_replayWindow :
    ∃ c, subscribe 5 0
        ({ stream := Stream.fresh,
           agenda := [⟨[], none⟩, ⟨[true], none⟩] } : World Unit) = .ok c
      ∧ c.atCreate.matching = {1} ∧ c.delivered = ∅
      ∧ ¬ ReplayWindow 5 c := by
  refine ⟨_, rfl, by decide, by decide, ?_⟩
  rw [replayWindow_new_iff (by decide)]
  decide

end Tokyo3Base.Journal
