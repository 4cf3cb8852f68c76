/-
One result, of the first who decides: what holds of a `LoopbackCallback`
after any interleaving of its calls.

# Lock order

The lock is held from the check of `done` to the send, so the turns come
one after the other: some that leave the callback open, at most one that
decides, and only refusals after it (`Decided`). `decision` is what the
turns so far come to.

# The channel

A result is sent by the call that decided, before it gives the lock back.
While nobody has the lock, what was sent is the decision (`Settled`); while
a call is about to send, nothing was sent yet, so the channel is empty and
the send does not block.

# The code flow

With the handler of `RunCodeFlow`, a turn leaves the callback open exactly
if its state is not the flow's. So the decision is that of the first
request with the flow's state, unless the server failed before.
-/
import Tokyo3Base.OidcClient.Loopback

namespace Tokyo3Base.OidcClient

open Go Lib

variable {ρ ε : Type} {handle : ρ → Handled ε}

-- ==== the decision

/-- The result that a turn sends. -/
def Turn.decision (handle : ρ → Handled ε) :
    Turn ρ ε → Option (LoopbackResult ε)
  | .handled r =>
      match (handle r).outcome with
      | .result res => some res
      | .ignored => none
      | .panicked => none
  | .failed err => some ⟨[], some err⟩
  | .refused _ => none

/-- The handler ran, and ignored the request or panicked. -/
def Turn.LeavesOpen (handle : ρ → Handled ε) (t : Turn ρ ε) : Prop :=
  ∃ r, t = .handled r
    ∧ ((handle r).outcome = .ignored ∨ (handle r).outcome = .panicked)

/-- What the turns so far come to. -/
def LoopbackCallback.decision (handle : ρ → Handled ε)
    (lc : LoopbackCallback ρ ε) : Option (LoopbackResult ε) :=
  lc.turns.findSome? (Turn.decision handle)

/-- The turns around a decision. -/
def Decided (handle : ρ → Handled ε) (turns : List (Turn ρ ε)) :
    Option (LoopbackResult ε) → Prop
  | none => ∀ t ∈ turns, t.LeavesOpen handle
  | some res => ∃ before t after, turns = before ++ t :: after
      ∧ (∀ u ∈ before, u.LeavesOpen handle)
      ∧ t.decision handle = some res
      ∧ ∀ u ∈ after, ∃ task, u = .refused task

theorem Turn.LeavesOpen.decision {t : Turn ρ ε}
    (h : t.LeavesOpen handle) : t.decision handle = none := by
  obtain ⟨r, rfl, h | h⟩ := h
  · rw [Turn.decision, h]
  · rw [Turn.decision, h]

theorem LoopbackCallback.decision_turn (lc : LoopbackCallback ρ ε)
    (t : Turn ρ ε) : (lc.turn t).decision handle
      = (lc.decision handle).or (t.decision handle) := by
  rw [LoopbackCallback.decision, LoopbackCallback.turn,
    List.findSome?_append, List.findSome?_singleton]
  rfl

-- ==== the facts

/-- What was decided is sent. -/
def Settled (handle : ρ → Handled ε) (lc : LoopbackCallback ρ ε) : Prop :=
  lc.sent = (lc.decision handle).toList

structure LoopbackInv (handle : ρ → Handled ε)
    (lc : LoopbackCallback ρ ε) : Prop where
  decided : Decided handle lc.turns (lc.decision handle)
  done : lc.done = (lc.decision handle).isSome
  sent : lc.sent = [] ∨ Settled handle lc
  channel : ∃ received, lc.sent = received ++ lc.resultCh

/-- What is known of a call. -/
def LoopbackPhase.Knows (handle : ρ → Handled ε) (_ : Nat)
    (lc : LoopbackCallback ρ ε) : LoopbackPhase ρ ε → Prop
  | .check _ => Settled handle lc
  | .handling _ => Settled handle lc ∧ lc.done = false
  | .sending res _ => lc.decision handle = some res ∧ lc.sent = []
  | .waited (.result res) => lc.decision handle = some res
  | _ => True

/-- What a call without the lock knows, it knows as long as a decision
stays. -/
theorem LoopbackPhase.Knows.mono {q : Nat} {lc lc' : LoopbackCallback ρ ε}
    {ph : LoopbackPhase ρ ε} (h : ph.Knows handle q lc)
    (hout : ph.holds = false)
    (hkeep : ∀ res, lc.decision handle = some res →
      lc'.decision handle = some res) : ph.Knows handle q lc' := by
  cases ph with
  | waited r =>
      cases r with
      | result res => exact hkeep res h
      | timedOut => trivial
      | canceled => trivial
  | check task => cases hout
  | handling r => cases hout
  | sending res next => cases hout
  | _ => trivial

theorem LoopbackPhase.knows_of_out {q : Nat} {lc : LoopbackCallback ρ ε}
    {ph : LoopbackPhase ρ ε} (hout : ph.holds = false)
    (hwaited : ∀ res, ph ≠ .waited (.result res)) :
    ph.Knows handle q lc := by
  cases ph with
  | waited r =>
      cases r with
      | result res => exact absurd rfl (hwaited res)
      | timedOut => trivial
      | canceled => trivial
  | check task => cases hout
  | handling r => cases hout
  | sending res next => cases hout
  | _ => trivial

-- ==== what a step can do

theorem LoopbackCallback.act_cases {p : Nat} {e : LoopbackEvent ρ ε}
    {lc lc' : LoopbackCallback ρ ε} {ph ph' : LoopbackPhase ρ ε}
    (h : lc.act handle p e ph = some (lc', ph')) :
    (lc' = lc ∧ ph.holds = false
        ∧ ((∃ task, ph' = .check task)
          ∨ ph'.holds = false ∧ ∀ res, ph' ≠ .waited (.result res)))
      ∨ (∃ task, ph = .check task ∧ lc.done = true
        ∧ lc' = lc.turn (.refused task) ∧ ph' = .returned task.refusal)
      ∨ (∃ r, ph = .check (.serve r) ∧ lc.done = false ∧ lc' = lc
        ∧ ph' = .handling r)
      ∨ (∃ err, ph = .check (.finish err) ∧ lc.done = false
        ∧ lc' = { lc.turn (.failed err) with done := true }
        ∧ ph' = .sending ⟨[], some err⟩ (.finished true))
      ∨ (∃ r next, ph = .handling r ∧ (Turn.handled r).LeavesOpen handle
        ∧ lc' = lc.turn (.handled r) ∧ ph' = .returned next)
      ∨ (∃ r res next, ph = .handling r
        ∧ (handle r).outcome = .result res
        ∧ lc' = { lc.turn (.handled r) with done := true }
        ∧ ph' = .sending res next)
      ∨ (∃ res next, ph = .sending res next
        ∧ lc' = { lc with
          resultCh := lc.resultCh ++ [res]
          sent := lc.sent ++ [res] }
        ∧ ph' = .returned next)
      ∨ ∃ res rest, ph = .waiting ∧ lc.resultCh = res :: rest
        ∧ lc' = { lc with resultCh := rest }
        ∧ ph' = .waited (.result res) := by
  cases ph with
  | idle =>
      cases e with
      | request r => cases h; exact .inl ⟨rfl, rfl, .inr ⟨rfl, nofun⟩⟩
      | serverFailed err => cases h; exact .inl ⟨rfl, rfl, .inr ⟨rfl, nofun⟩⟩
      | wait => cases h; exact .inl ⟨rfl, rfl, .inr ⟨rfl, nofun⟩⟩
      | _ => cases h
  | acquire task =>
      cases e with
      | lock => cases h; exact .inl ⟨rfl, rfl, .inl ⟨task, rfl⟩⟩
      | _ => cases h
  | check task =>
      cases e with
      | check =>
          simp only [LoopbackCallback.act] at h
          cases hdone : lc.done with
          | true =>
              rw [if_pos hdone] at h
              cases h
              exact .inr (.inl ⟨task, rfl, rfl, rfl, rfl⟩)
          | false =>
              rw [hdone, if_neg Bool.false_ne_true] at h
              cases task with
              | serve r =>
                  cases h
                  exact .inr (.inr (.inl ⟨r, rfl, rfl, rfl, rfl⟩))
              | finish err =>
                  cases h
                  exact .inr (.inr (.inr (.inl ⟨err, rfl, rfl, rfl, rfl⟩)))
      | _ => cases h
  | handling r =>
      cases e with
      | handle =>
          simp only [LoopbackCallback.act] at h
          cases hout : (handle r).outcome with
          | ignored =>
              rw [hout] at h
              cases h
              exact .inr (.inr (.inr (.inr (.inl
                ⟨r, _, rfl, ⟨r, rfl, .inl hout⟩, rfl, rfl⟩))))
          | panicked =>
              rw [hout] at h
              cases h
              exact .inr (.inr (.inr (.inr (.inl
                ⟨r, _, rfl, ⟨r, rfl, .inr hout⟩, rfl, rfl⟩))))
          | result res =>
              rw [hout] at h
              cases h
              exact .inr (.inr (.inr (.inr (.inr (.inl
                ⟨r, res, _, rfl, hout, rfl, rfl⟩)))))
      | _ => cases h
  | sending res next =>
      cases e with
      | send =>
          simp only [LoopbackCallback.act] at h
          split at h
          · cases h
            exact .inr (.inr (.inr (.inr (.inr (.inr (.inl
              ⟨res, next, rfl, rfl, rfl⟩))))))
          · cases h
      | _ => cases h
  | waiting =>
      cases e with
      | receive =>
          simp only [LoopbackCallback.act] at h
          cases hch : lc.resultCh with
          | nil =>
              rw [hch] at h
              cases h
          | cons res rest =>
              rw [hch] at h
              cases h
              exact .inr (.inr (.inr (.inr (.inr (.inr (.inr
                ⟨res, rest, rfl, rfl, rfl, rfl⟩))))))
      | timeout => cases h; exact .inl ⟨rfl, rfl, .inr ⟨rfl, nofun⟩⟩
      | ctxDone => cases h; exact .inl ⟨rfl, rfl, .inr ⟨rfl, nofun⟩⟩
      | _ => cases h
  | returned r => cases h
  | waited r => cases h

-- ==== the turns

variable {lc : LoopbackCallback ρ ε}

theorem LoopbackInv.open_of_not_done (hinv : LoopbackInv handle lc)
    (h : lc.done = false) : lc.decision handle = none :=
  Option.not_isSome_iff_eq_none.mp
    (by rw [← hinv.done, h]; exact Bool.false_ne_true)

/-- A turn without a decision of its own. -/
theorem LoopbackCallback.decision_turn_none {t : Turn ρ ε}
    (h : t.decision handle = none) :
    (lc.turn t).decision handle = lc.decision handle := by
  rw [lc.decision_turn, h, Option.or_none]

theorem LoopbackInv.refuse (hinv : LoopbackInv handle lc)
    (hdone : lc.done = true) (task : LoopbackTask ρ ε) :
    LoopbackInv handle (lc.turn (.refused task)) := by
  have hsame : (lc.turn (.refused task)).decision handle
      = lc.decision handle := lc.decision_turn_none rfl
  refine ⟨?_, hsame ▸ hinv.done, ?_, hinv.channel⟩
  · obtain ⟨res, hres⟩ := Option.isSome_iff_exists.mp
      (hinv.done.symm.trans hdone)
    have hdecided := hinv.decided
    rw [hres] at hdecided
    obtain ⟨before, t, after, hturns, hbefore, ht, hafter⟩ := hdecided
    rw [hsame, hres]
    refine ⟨before, t, after ++ [.refused task], ?_, hbefore, ht,
      fun u hu => ?_⟩
    · show lc.turns ++ [_] = _
      rw [hturns, List.append_assoc, List.cons_append]
    · rcases List.mem_append.mp hu with hu | hu
      · exact hafter u hu
      · exact ⟨task, List.mem_singleton.mp hu⟩
  · rw [Settled, hsame]
    exact hinv.sent

theorem LoopbackInv.stay (hinv : LoopbackInv handle lc)
    (hdone : lc.done = false) {t : Turn ρ ε} (ht : t.LeavesOpen handle) :
    LoopbackInv handle (lc.turn t) := by
  have hsame : (lc.turn t).decision handle = lc.decision handle :=
    lc.decision_turn_none ht.decision
  refine ⟨?_, hsame ▸ hinv.done, ?_, hinv.channel⟩
  · have hdecided := hinv.decided
    rw [hinv.open_of_not_done hdone] at hdecided
    rw [hsame, hinv.open_of_not_done hdone]
    intro u hu
    rcases List.mem_append.mp hu with hu | hu
    · exact hdecided u hu
    · rw [List.mem_singleton.mp hu]
      exact ht
  · rw [Settled, hsame]
    exact hinv.sent

theorem LoopbackInv.decision_decide (hinv : LoopbackInv handle lc)
    (hdone : lc.done = false) {t : Turn ρ ε} {res : LoopbackResult ε}
    (ht : t.decision handle = some res) :
    (lc.turn t).decision handle = some res := by
  rw [lc.decision_turn, hinv.open_of_not_done hdone, ht, Option.none_or]

theorem LoopbackInv.sent_nil (hinv : LoopbackInv handle lc)
    (hdone : lc.done = false) : lc.sent = [] := by
  rcases hinv.sent with h | h
  · exact h
  · rw [Settled, hinv.open_of_not_done hdone] at h
    exact h

theorem LoopbackInv.decide (hinv : LoopbackInv handle lc)
    (hdone : lc.done = false) {t : Turn ρ ε} {res : LoopbackResult ε}
    (ht : t.decision handle = some res) :
    LoopbackInv handle { lc.turn t with done := true } := by
  have hnew : LoopbackCallback.decision handle
      { lc.turn t with done := true } = some res :=
    hinv.decision_decide hdone ht
  refine ⟨?_, ?_, .inl (hinv.sent_nil hdone), hinv.channel⟩
  · have hdecided := hinv.decided
    rw [hinv.open_of_not_done hdone] at hdecided
    rw [hnew]
    exact ⟨lc.turns, t, [], rfl, hdecided, ht, nofun⟩
  · rw [hnew]
    rfl

-- ==== the rule

/-- A step of the lock's holder: the others know only of decisions. -/
theorem knows_of_holder {q : Nat} {lc lc' : LoopbackCallback ρ ε}
    {ph ph' other : LoopbackPhase ρ ε} (hph : ph.holds = true)
    (hkeep : ∀ res, lc.decision handle = some res →
      lc'.decision handle = some res)
    (hother : other.holds = true → ph.holds = false ∧ ph'.holds = false)
    (hok : other.Knows handle q lc) : other.Knows handle q lc' := by
  refine hok.mono ?_ hkeep
  cases h : other.holds with
  | false => rfl
  | true => exact absurd (hph.symm.trans (hother h).1) nofun

theorem LoopbackInv.kept_decide (hinv : LoopbackInv handle lc) (p : Nat)
    (hdone : lc.done = false) {t : Turn ρ ε} {res : LoopbackResult ε}
    (ht : t.decision handle = some res) {ph : LoopbackPhase ρ ε}
    (hph : ph.holds = true) (next : CallEnd) :
    Kept LoopbackPhase.holds (LoopbackInv handle) (Settled handle)
      (LoopbackPhase.Knows handle) p lc ph
      { lc.turn t with done := true } (.sending res next) where
  inv := hinv.decide hdone ht
  own := ⟨hinv.decision_decide hdone ht, hinv.sent_nil hdone⟩
  free := nofun
  others := fun q _ other hother hok => by
    refine knows_of_holder hph (fun r hr => ?_) hother hok
    rw [hinv.open_of_not_done hdone] at hr
    cases hr

/-- The events with which the holder gives the lock back. -/
theorem LoopbackInv.kept_return {lc' : LoopbackCallback ρ ε}
    (hinv : LoopbackInv handle lc') (p : Nat) {ph : LoopbackPhase ρ ε}
    (hph : ph.holds = true)
    (hsame : lc'.decision handle = lc.decision handle)
    (hsettled : Settled handle lc') (next : CallEnd) :
    Kept LoopbackPhase.holds (LoopbackInv handle) (Settled handle)
      (LoopbackPhase.Knows handle) p lc ph lc' (.returned next) where
  inv := hinv
  own := trivial
  free := fun _ _ => hsettled
  others := fun _ _ _ hother hok =>
    knows_of_holder hph (fun _ hr => hsame.trans hr) hother hok

/-- What was received was the decision. -/
theorem LoopbackInv.received (hinv : LoopbackInv handle lc)
    {res : LoopbackResult ε} {rest : List (LoopbackResult ε)}
    (h : lc.resultCh = res :: rest) : lc.decision handle = some res := by
  obtain ⟨received, hsent⟩ := hinv.channel
  rw [h] at hsent
  have hmem : res ∈ lc.sent := by
    rw [hsent]
    exact List.mem_append_right _ List.mem_cons_self
  rcases hinv.sent with hnil | hsettled
  · rw [hnil] at hmem
    cases hmem
  · rw [hsettled] at hmem
    exact Option.mem_toList.mp hmem

theorem LoopbackInv.kept_receive (hinv : LoopbackInv handle lc) (p : Nat)
    {res : LoopbackResult ε} {rest : List (LoopbackResult ε)}
    (h : lc.resultCh = res :: rest) :
    Kept LoopbackPhase.holds (LoopbackInv handle) (Settled handle)
      (LoopbackPhase.Knows handle) p lc .waiting
      { lc with resultCh := rest } (.waited (.result res)) where
  inv := by
    obtain ⟨received, hsent⟩ := hinv.channel
    refine ⟨hinv.decided, hinv.done, hinv.sent, received ++ [res], ?_⟩
    show lc.sent = _
    rw [hsent, h, List.append_assoc]
    rfl
  own := hinv.received h
  free := fun _ hsettled => hsettled rfl
  others := fun _ _ other _ hok => by
    -- nothing that is known of a call is about the channel itself
    cases other with
    | waited r =>
        cases r with
        | result res' => exact hok
        | timedOut => trivial
        | canceled => trivial
    | _ => exact hok

theorem LoopbackInv.kept_send (hinv : LoopbackInv handle lc) (p : Nat)
    {res : LoopbackResult ε} {next : CallEnd} {lc' : LoopbackCallback ρ ε}
    (hlc' : lc' = { lc with
      resultCh := lc.resultCh ++ [res]
      sent := lc.sent ++ [res] })
    (hok : lc.decision handle = some res ∧ lc.sent = []) :
    Kept LoopbackPhase.holds (LoopbackInv handle) (Settled handle)
      (LoopbackPhase.Knows handle) p lc (.sending res next) lc'
      (.returned next) := by
  obtain ⟨hdecision, hsent⟩ := hok
  obtain ⟨received, hreceived⟩ := hinv.channel
  have hsame : lc'.decision handle = lc.decision handle := by
    rw [hlc']
    rfl
  have hsettled : Settled handle lc' := by
    rw [Settled, hsame, hdecision, hlc', hsent]
    rfl
  have hinv' : LoopbackInv handle lc' := by
    refine ⟨?_, ?_, .inr hsettled, received, ?_⟩
    · rw [hsame, hlc']
      exact hinv.decided
    · rw [hsame, hlc']
      exact hinv.done
    · rw [hlc', hreceived, List.append_assoc]
  exact hinv'.kept_return p rfl hsame hsettled next

theorem loopback_kept (p : Nat) (e : LoopbackEvent ρ ε)
    (lc : LoopbackCallback ρ ε) (ph : LoopbackPhase ρ ε)
    (lc' : LoopbackCallback ρ ε) (ph' : LoopbackPhase ρ ε)
    (h : lc.act handle p e ph = some (lc', ph'))
    (hinv : LoopbackInv handle lc) (hok : ph.Knows handle p lc)
    (hfree : ph.holds = false → ph'.holds = true → Settled handle lc) :
    Kept LoopbackPhase.holds (LoopbackInv handle) (Settled handle)
      (LoopbackPhase.Knows handle) p lc ph lc' ph' := by
  rcases LoopbackCallback.act_cases h with ⟨rfl, hout, hph'⟩
    | ⟨task, rfl, hdone, rfl, rfl⟩ | ⟨r, rfl, hdone, rfl, rfl⟩
    | ⟨err, rfl, hdone, rfl, rfl⟩ | ⟨r, next, rfl, hleaves, rfl, rfl⟩
    | ⟨r, res, next, rfl, hres, rfl, rfl⟩ | ⟨res, next, rfl, rfl, rfl⟩
    | ⟨res, rest, rfl, hch, rfl, rfl⟩
  · refine Kept.same hinv ?_ fun hin => absurd (hout.symm.trans hin) nofun
    rcases hph' with ⟨task, rfl⟩ | ⟨hout', hwaited⟩
    · exact hfree hout rfl
    · exact LoopbackPhase.knows_of_out hout' hwaited
  · have hsame := lc.decision_turn_none
      (show (Turn.refused task : Turn ρ ε).decision handle = none from rfl)
    exact (hinv.refuse hdone task).kept_return p rfl hsame
      (hok.trans (congrArg Option.toList hsame.symm)) _
  · exact Kept.same hinv ⟨hok, hdone⟩ nofun
  · exact hinv.kept_decide p hdone rfl rfl _
  · have hsame := lc.decision_turn_none hleaves.decision
    exact (hinv.stay hok.2 hleaves).kept_return p rfl hsame
      (hok.1.trans (congrArg Option.toList hsame.symm)) _
  · exact hinv.kept_decide p hok.2 (by rw [Turn.decision, hres]) rfl _
  · exact hinv.kept_send p rfl hok
  · exact hinv.kept_receive p hch

-- ==== the runs

/-- What holds of a callback and its calls at any moment. -/
structure LoopbackOk (handle : ρ → Handled ε)
    (w : Pool (LoopbackCallback ρ ε) (LoopbackPhase ρ ε)) : Prop where
  /-- at most one result is ever sent, the decision -/
  once : w.shared.sent.length ≤ 1
  sent : ∀ res ∈ w.shared.sent, w.shared.decision handle = some res
  /-- it is sent before the lock is given back -/
  settled : w.lock = none →
    w.shared.sent = (w.shared.decision handle).toList
  /-- who is about to send does not have to wait -/
  room : ∀ p res next, w.calls p = .sending res next →
    w.shared.resultCh.length < resultChCap
  /-- the turns: open, the decision, refusals -/
  decided : Decided handle w.shared.turns (w.shared.decision handle)
  /-- the handler does not run after the decision -/
  handling : ∀ p r, w.calls p = .handling r →
    w.shared.decision handle = none
  /-- what `Wait` returned was the decision -/
  waited : ∀ p res, w.calls p = .waited (.result res) →
    w.shared.decision handle = some res

theorem loopback_inv {es : List (Nat × LoopbackEvent ρ ε)}
    {w : Pool (LoopbackCallback ρ ε) (LoopbackPhase ρ ε)}
    (hrun : run (loopbackStep handle) es startLoopbackCallback = some w) :
    w.Inv LoopbackPhase.holds (LoopbackInv handle) (Settled handle)
      (LoopbackPhase.Knows handle) := by
  refine Pool.invariant (P := fun _ _ _ _ => True)
    (fun p e sh ph sh' ph' hact _ hinv hok hfree =>
      loopback_kept p e sh ph sh' ph' hact hinv hok hfree)
    (along_of_forall (fun _ _ _ => trivial) _) ?_ hrun
  refine ⟨fun p => ⟨nofun, nofun⟩, ?_, fun _ => rfl, fun _ => trivial⟩
  exact ⟨nofun, rfl, .inl rfl, [], rfl⟩

theorem loopbackOk_run {es : List (Nat × LoopbackEvent ρ ε)}
    {w : Pool (LoopbackCallback ρ ε) (LoopbackPhase ρ ε)}
    (hrun : run (loopbackStep handle) es startLoopbackCallback = some w) :
    LoopbackOk handle w := by
  have hw := loopback_inv hrun
  have hinv := hw.inv
  refine ⟨?_, fun res hres => ?_, hw.free, fun p res next hp => ?_,
    hinv.decided, fun p r hp => ?_, fun p res hp => ?_⟩
  · rcases hinv.sent with h | h
    · rw [h]
      exact Nat.zero_le 1
    · rw [h]
      exact Option.length_toList_le
  · rcases hinv.sent with h | h
    · rw [h] at hres
      cases hres
    · rw [h] at hres
      exact Option.mem_toList.mp hres
  · have hknows := hw.calls p
    rw [hp] at hknows
    obtain ⟨received, hsent⟩ := hinv.channel
    rw [hknows.2] at hsent
    rw [(List.append_eq_nil_iff.mp hsent.symm).2]
    exact Nat.one_pos
  · have hknows := hw.calls p
    rw [hp] at hknows
    exact hinv.open_of_not_done hknows.2
  · have hknows := hw.calls p
    rw [hp] at hknows
    exact hknows

-- ==== the code flow

/-- A request with the flow's state decides; with its code, if it has
one and no error. -/
theorem CodeFlow.callback_of_state (f : CodeFlow) {query : GoString}
    (h : NetURL.queryGet (ascii "state") query = f.state) :
    ∃ res, (f.callback query).outcome = .result res
      ∧ (res.err = none →
        res.value = NetURL.queryGet (ascii "code") query) := by
  unfold CodeFlow.callback
  rw [if_neg (not_not_intro h)]
  dsimp only
  split
  · exact ⟨_, rfl, nofun⟩
  · split
    · exact ⟨_, rfl, nofun⟩
    · exact ⟨_, rfl, fun _ => rfl⟩

theorem CodeFlow.callback_of_ne (f : CodeFlow) {query : GoString}
    (h : NetURL.queryGet (ascii "state") query ≠ f.state) :
    (f.callback query).outcome = .ignored := by
  unfold CodeFlow.callback
  rw [if_pos h]

/-- A request that the flow's callback ignores has another state. -/
theorem CodeFlow.callback_leavesOpen {f : CodeFlow}
    {t : Turn GoString GoString} (h : t.LeavesOpen f.callback) :
    ∃ query, t = .handled query
      ∧ NetURL.queryGet (ascii "state") query ≠ f.state := by
  obtain ⟨query, rfl, h⟩ := h
  refine ⟨query, rfl, fun hstate => ?_⟩
  obtain ⟨res, hres, -⟩ := f.callback_of_state hstate
  rcases h with h | h
  · cases hres.symm.trans h
  · cases hres.symm.trans h

/-- A code comes from a request with the flow's state. -/
theorem CodeFlow.decision_callback {f : CodeFlow}
    {t : Turn GoString GoString} {code : GoString}
    (h : t.decision f.callback = some ⟨code, none⟩) :
    ∃ query, t = .handled query
      ∧ NetURL.queryGet (ascii "state") query = f.state
      ∧ code = NetURL.queryGet (ascii "code") query := by
  cases t with
  | handled query =>
      rw [Turn.decision] at h
      by_cases hstate : NetURL.queryGet (ascii "state") query = f.state
      · obtain ⟨res, hres, hcode⟩ := f.callback_of_state hstate
        rw [hres] at h
        cases h
        exact ⟨query, rfl, hstate, hcode rfl⟩
      · rw [f.callback_of_ne hstate] at h
        cases h
  | failed err => cases h
  | refused task => cases h

/-- What was exchanged was a code that `Wait` returned. -/
theorem CodeFlow.exchange_eq_some {f : CodeFlow} {r : WaitEnd GoString}
    {form : ExchangeForm} (h : f.exchange r = some form) :
    r = .result ⟨form.code, none⟩ ∧ form.codeVerifier = f.verifier := by
  rcases r with ⟨code, _ | err⟩ | _ | _
  · cases h
    exact ⟨rfl, rfl⟩
  · cases h
  · cases h
  · cases h

/-- The first request with the flow's own state, in lock order: only
requests with other states came before it. -/
def CodeFlow.FirstOwn (f : CodeFlow) (turns : List (Turn GoString GoString))
    (query : GoString) : Prop :=
  ∃ before after, turns = before ++ .handled query :: after
    ∧ NetURL.queryGet (ascii "state") query = f.state
    ∧ ∀ t ∈ before, ∃ forged, t = .handled forged
      ∧ NetURL.queryGet (ascii "state") forged ≠ f.state

theorem CodeFlow.exchange_firstOwn {f : CodeFlow}
    {w : Pool (LoopbackCallback GoString GoString)
      (LoopbackPhase GoString GoString)}
    (hw : LoopbackOk f.callback w) {p : Nat} {r : WaitEnd GoString}
    (hp : w.calls p = .waited r) {form : ExchangeForm}
    (hform : f.exchange r = some form) :
    form.codeVerifier = f.verifier
      ∧ ∃ query, f.FirstOwn w.shared.turns query
        ∧ form.code = NetURL.queryGet (ascii "code") query := by
  obtain ⟨rfl, hverifier⟩ := f.exchange_eq_some hform
  have hdecided := hw.decided
  rw [hw.waited p _ hp] at hdecided
  obtain ⟨before, t, after, hturns, hbefore, ht, -⟩ := hdecided
  obtain ⟨query, rfl, hstate, hcode⟩ := f.decision_callback ht
  exact ⟨hverifier, query, ⟨before, after, hturns, hstate,
    fun u hu => f.callback_leavesOpen (hbefore u hu)⟩, hcode⟩

-- ==== the theorem

/-- Whatever the calls and their order: one result, of the first who
decides, and refusals after it. And with the handler of `RunCodeFlow`, the
code that is exchanged is that of the first request with the flow's own
state. -/
theorem loopback_first_decision :
    (∀ (ρ ε : Type) (handle : ρ → Handled ε)
        (es : List (Nat × LoopbackEvent ρ ε))
        (w : Pool (LoopbackCallback ρ ε) (LoopbackPhase ρ ε)),
        run (loopbackStep handle) es startLoopbackCallback = some w →
        LoopbackOk handle w)
      ∧ ∀ (f : CodeFlow) (es : List (Nat × LoopbackEvent GoString GoString))
        (w : Pool (LoopbackCallback GoString GoString)
          (LoopbackPhase GoString GoString)),
        run (loopbackStep f.callback) es startLoopbackCallback = some w →
        ∀ p r form, w.calls p = .waited r → f.exchange r = some form →
          form.codeVerifier = f.verifier
            ∧ ∃ query, f.FirstOwn w.shared.turns query
              ∧ form.code = NetURL.queryGet (ascii "code") query :=
  ⟨fun _ _ _ _ _ hrun => loopbackOk_run hrun,
    fun _ _ _ hrun _ _ _ hp hform =>
      CodeFlow.exchange_firstOwn (loopbackOk_run hrun) hp hform⟩

/-- A flow whose secrets are short. -/
def sampleFlow : CodeFlow :=
  ⟨ascii "cli", ascii "http://127.0.0.1:1/callback", ascii "s", ascii "v"⟩

/-- A forged code, the genuine one, another genuine one, and `Wait`. -/
def sampleCalls : List (Nat × LoopbackEvent GoString GoString) :=
  [(0, .request (ascii "code=forged&state=x")), (0, .lock), (0, .check),
    (1, .request (ascii "code=c&state=s")), (0, .handle), (1, .lock),
    (1, .check), (2, .request (ascii "code=d&state=s")), (1, .handle),
    (3, .wait), (1, .send), (2, .lock), (2, .check), (3, .receive)]

theorem loopback_first_decision_sample :
    ∃ w, run (loopbackStep sampleFlow.callback) sampleCalls
        startLoopbackCallback = some w
      ∧ LoopbackOk sampleFlow.callback w
      ∧ ∃ r form, w.calls 3 = .waited r
        ∧ sampleFlow.exchange r = some form ∧ form.code = ascii "c"
        ∧ form.codeVerifier = sampleFlow.verifier
        ∧ ∃ query, sampleFlow.FirstOwn w.shared.turns query
          ∧ form.code = NetURL.queryGet (ascii "code") query := by
  have hwait : ((run (loopbackStep sampleFlow.callback) sampleCalls
      startLoopbackCallback).map fun w => w.calls 3)
      = some (.waited (.result ⟨ascii "c", none⟩)) := by decide +kernel
  obtain ⟨w, hrun, hwaited⟩ := Option.map_eq_some_iff.mp hwait
  exact ⟨w, hrun, loopback_first_decision.1 _ _ _ _ _ hrun, _, _, hwaited,
    rfl, rfl, loopback_first_decision.2 _ _ _ hrun 3 _ _ hwaited rfl⟩

end Tokyo3Base.OidcClient
