/-
The flow cookie of a browser that makes its requests one at a time.

# Size

A flow that comes back from its JSON is not written longer than it was
(`length_marshal_coerced`), and a part of a set of flows is not longer
than the set. So whatever part of the flows of a cookie is sealed again
fits, because the cookie did (`fits_of_sublist`), and `consumeFlow` never
reaches its fallback.

# Contents

Flows that were read from a cookie are their own coercion, so sealing
them again changes nothing (`coerced_of_mem_pending`).
-/
import Mathlib.Data.List.Induction
import Tokyo3Base.Lib.Run
import Tokyo3Base.Go.Proofs.JSON
import Tokyo3Base.Go.Proofs.Path
import Tokyo3Base.Oidc.Browser

namespace Tokyo3Base.Oidc

open Go

-- ==== the size

theorem length_marshal_coerced (f : OidcFlow) :
    f.coerced.marshal.length ≤ f.marshal.length := by
  have hstate := length_quote_toValidUTF8 f.state
  have hnonce := length_quote_toValidUTF8 f.nonce
  have hverifier := length_quote_toValidUTF8 f.verifier
  have hreturn := length_quote_toValidUTF8 f.returnTo
  have hextra : (if f.coerced.extra = [] then []
        else ascii ",\"extra\":" ++ quote f.coerced.extra).length
      ≤ (if f.extra = [] then []
        else ascii ",\"extra\":" ++ quote f.extra).length := by
    by_cases h : f.extra = []
    · have h' : f.coerced.extra = [] := by
        show toValidUTF8 f.extra = []
        rw [h]
        rfl
      rw [if_pos h, if_pos h']
    · rw [if_neg h]
      split
      · exact Nat.zero_le _
      · have := length_quote_toValidUTF8 f.extra
        simp only [List.length_append]
        exact Nat.add_le_add_left this _
  unfold OidcFlow.marshal
  simp only [List.length_append] at hextra ⊢
  simp only [OidcFlow.coerced] at hextra ⊢
  omega

/-- The length of the JSON, with one separator for each flow. -/
theorem length_marshalFlows {flows : List OidcFlow} (h : flows ≠ []) :
    (marshalFlows flows).length = cost (flows.map OidcFlow.marshal)
      + 11 := by
  have hne : flows.map OidcFlow.marshal ≠ [] := by simpa using h
  have hjoin := length_join 0x2c hne
  have hopen : (ascii "\x7b\"flows\":[").length = 10 := by decide
  have hclose : (ascii "]\x7d").length = 2 := by decide
  unfold marshalFlows
  rw [List.length_append, List.length_append, hopen, hclose]
  omega

theorem cost_marshal_coerced (flows : List OidcFlow) :
    cost ((flows.map OidcFlow.coerced).map OidcFlow.marshal)
      ≤ cost (flows.map OidcFlow.marshal) := by
  induction flows with
  | nil => exact Nat.le_refl _
  | cons f flows ih =>
      have := length_marshal_coerced f
      simp only [cost, List.map_cons, List.foldr_cons] at ih ⊢
      omega

/-- Flows that cost no more fit if the others do. -/
theorem fits_of_cost {flows flows' : List OidcFlow} (hfits : fits flows)
    (hne : flows ≠ []) (hne' : flows' ≠ [])
    (h : cost (flows'.map OidcFlow.marshal)
      ≤ cost (flows.map OidcFlow.marshal)) : fits flows' := by
  unfold fits sealedLen at hfits ⊢
  rw [length_marshalFlows hne] at hfits
  rw [length_marshalFlows hne']
  exact Nat.le_trans (encodedLen_mono (by omega)) hfits

/-- A part of what fits fits. -/
theorem fits_of_sublist {flows flows' : List OidcFlow}
    (hfits : fits flows) (hne : flows' ≠ [])
    (h : flows'.Sublist flows) : fits flows' :=
  fits_of_cost hfits (fun h' => hne (List.eq_nil_of_sublist_nil (h' ▸ h)))
    hne (cost_sublist (h.map _))

/-- A part of what a cookie opens to fits into a cookie. -/
theorem fits_of_sublist_flows {c : SealedFlows} {flows : List OidcFlow}
    (hfits : fits c.payload) (hne : flows ≠ [])
    (h : flows.Sublist c.flows) : fits flows := by
  have hpayload : c.flows ≠ [] := fun h' =>
    hne (List.eq_nil_of_sublist_nil (h' ▸ h))
  have hopened : fits c.flows := by
    refine fits_of_cost hfits ?_ hpayload (cost_marshal_coerced _)
    intro h'
    exact hpayload (by rw [SealedFlows.flows, h']; rfl)
  exact fits_of_sublist hopened hne h

-- ==== the contents

theorem coerced_coerced (f : OidcFlow) : f.coerced.coerced = f.coerced := by
  simp [OidcFlow.coerced, toValidUTF8_idem]

theorem pendingFlows_sublist (cookie : Option SealedFlows) (now : Int) :
    (pendingFlows cookie now).Sublist (carried cookie) := by
  cases cookie with
  | none => exact List.Sublist.slnil
  | some c => exact List.filter_sublist

/-- What is read from a cookie is sealed again as it is. -/
theorem coerced_of_mem_carried {cookie : Option SealedFlows}
    {f : OidcFlow} (h : f ∈ carried cookie) : f.coerced = f := by
  cases cookie with
  | none => cases h
  | some c =>
      obtain ⟨g, -, rfl⟩ := List.mem_map.mp h
      exact coerced_coerced g

theorem map_coerced_of_sublist {cookie : Option SealedFlows}
    {flows : List OidcFlow} (h : flows.Sublist (carried cookie)) :
    flows.map OidcFlow.coerced = flows := by
  conv => rhs; rw [← List.map_id flows]
  exact List.map_congr_left fun f hf =>
    coerced_of_mem_carried (h.subset hf)

-- ==== the functions

theorem matchFlow_snoc (flows : List OidcFlow) (f : OidcFlow)
    (state : GoString) : matchFlow (flows ++ [f]) state
      = if f.state ≠ [] ∧ state = f.state then some flows.length
        else matchFlow flows state := by
  unfold matchFlow
  rw [List.zipIdx_append, List.foldl_append]
  simp

/-- `matchFlow` names a flow that is there and has the state. -/
theorem matchFlow_some {flows : List OidcFlow} {state : GoString}
    {idx : Nat} (h : matchFlow flows state = some idx) :
    ∃ f, flows[idx]? = some f ∧ f.state = state ∧ state ≠ [] := by
  induction flows using List.reverseRecOn with
  | nil => cases h
  | append_singleton flows f ih =>
      rw [matchFlow_snoc] at h
      split at h
      · rename_i hmatch
        cases h
        refine ⟨f, ?_, hmatch.2.symm, hmatch.2 ▸ hmatch.1⟩
        simp
      · obtain ⟨g, hg, hstate⟩ := ih h
        refine ⟨g, ?_, hstate⟩
        rw [List.getElem?_append_left]
        · exact hg
        · exact (List.getElem?_eq_some_iff.mp hg).1

/-- It finds a flow with the state if there is one. -/
theorem matchFlow_isSome {flows : List OidcFlow} {f : OidcFlow}
    (hf : f ∈ flows) (hne : f.state ≠ []) :
    (matchFlow flows f.state).isSome = true := by
  induction flows using List.reverseRecOn with
  | nil => cases hf
  | append_singleton flows g ih =>
      rw [matchFlow_snoc]
      split
      · rfl
      · rename_i hno
        rcases List.mem_append.mp hf with hf | hf
        · exact ih hf
        · rw [List.mem_singleton] at hf
          subst hf
          exact absurd ⟨hne, rfl⟩ hno

/-- Taking one flow out of a cookie that was written by `Set`: the others
are left, as they were. -/
theorem carried_consumeFlow {c : SealedFlows} (hfits : fits c.payload)
    {flows : List OidcFlow} (hsub : flows.Sublist c.flows) (idx : Nat) :
    carried (keepCookie (some c) (some (consumeFlow flows idx)))
      = flows.eraseIdx idx := by
  have hrest : (flows.eraseIdx idx).Sublist c.flows :=
    (List.eraseIdx_sublist _ _).trans hsub
  unfold consumeFlow
  dsimp only
  by_cases hnil : flows.eraseIdx idx = []
  · rw [if_pos hnil, hnil]
    rfl
  · rw [if_neg hnil, setFlows,
      if_pos (fits_of_sublist_flows hfits hnil hrest)]
    have hcarried : (flows.eraseIdx idx).Sublist (carried (some c)) :=
      hrest
    exact map_coerced_of_sublist hcarried

/-- The flows `Begin` tries to keep end with its own. -/
theorem newest_snoc (live : List OidcFlow) (f : OidcFlow) :
    newest (live ++ [f])
      = live.drop (live.length + 1 - maxPendingFlows) ++ [f] := by
  unfold newest maxPendingFlows
  rw [List.length_append, List.length_singleton]
  split
  · rw [List.drop_append_of_le_length (by omega)]
  · rename_i hle
    have hzero : live.length + 1 - 3 = 0 := by omega
    rw [hzero]
    rfl

/-- What `Begin` writes: the newest flows, or its own alone. -/
theorem begin_write (a : Authenticator) (cookie : Option SealedFlows)
    (b : BeginCall) : (a.begin cookie b).1
      = (setFlows (newest (pendingFlows cookie b.pendingNow
          ++ [a.newFlow b]))).or (setFlows [a.newFlow b]) := by
  unfold Authenticator.begin
  dsimp only
  rw [newest_snoc]
  generalize (pendingFlows cookie b.pendingNow).drop _ = older
  cases hset : setFlows (older ++ [a.newFlow b]) with
  | some w => rfl
  | none =>
      dsimp only [Option.none_or]
      split
      · rename_i hone
        obtain rfl : older = [] := by simpa using hone
        exact hset.symm
      · cases setFlows [a.newFlow b] <;> rfl

/-- `Begin` without a URL, when its flow does not fit alone. -/
theorem begin_fails {a : Authenticator} {b : BeginCall}
    (hno : ¬ fits [a.newFlow b]) (cookie : Option SealedFlows) :
    a.begin cookie b = (none, false) := by
  have hset : ∀ older, setFlows (older ++ [a.newFlow b]) = none := by
    intro older
    refine if_neg fun hfits => hno ?_
    exact fits_of_sublist hfits (List.cons_ne_nil _ _)
      (List.sublist_append_right _ _)
  have halone : setFlows [a.newFlow b] = none := if_neg hno
  unfold Authenticator.begin
  dsimp only
  rw [newest_snoc, hset, halone]
  exact ite_self _

theorem carried_set (cookie : Option SealedFlows)
    (older : List OidcFlow) (f : OidcFlow)
    (h : older.Sublist (carried cookie)) :
    carried (keepCookie cookie (some (.set ⟨older ++ [f]⟩)))
      = older ++ [f.coerced] := by
  show (older ++ [f]).map OidcFlow.coerced = _
  rw [List.map_append, map_coerced_of_sublist h]
  rfl

-- ==== the invariant

/-- What is known of the browser's cookie, at any moment: it was written
by `Set`, and its flows are in the order in which they were started. -/
structure BrowserInv (s : Browser) : Prop where
  written : ∀ c, s.cookie = some c → fits c.payload
  count : (carried s.cookie).length ≤ maxPendingFlows
  order : (carried s.cookie).Sublist (s.started.map OidcFlow.coerced)

theorem browserInv_init : BrowserInv .init :=
  ⟨nofun, Nat.zero_le _, List.Sublist.slnil⟩

section Steps

variable {a : Authenticator} {s s' : Browser}

/-- A response that writes no cookie, or takes flows away. -/
theorem BrowserInv.shrink (hs : BrowserInv s) {cookie : Option SealedFlows}
    (hfits : ∀ c, cookie = some c → fits c.payload)
    (hsub : (carried cookie).Sublist (carried s.cookie)) :
    BrowserInv { s with cookie := cookie } :=
  ⟨hfits, Nat.le_trans hsub.length_le hs.count, hsub.trans hs.order⟩

/-- `Set` only writes what fits. -/
theorem setFlows_some {flows : List OidcFlow} {w : FlowWrite}
    (h : setFlows flows = some w) : w = .set ⟨flows⟩ ∧ fits flows := by
  unfold setFlows at h
  split at h
  · rename_i hfits
    cases h
    exact ⟨rfl, hfits⟩
  · cases h

/-- What `consumeFlow` seals are the other flows. -/
theorem consumeFlow_set {flows : List OidcFlow} {idx : Nat}
    {c : SealedFlows} (h : consumeFlow flows idx = .set c) :
    c.payload = flows.eraseIdx idx ∧ fits c.payload := by
  unfold consumeFlow at h
  dsimp only at h
  split at h
  · cases h
  · cases hset : setFlows (flows.eraseIdx idx) with
    | none => rw [hset] at h; cases h
    | some w =>
        obtain ⟨rfl, hfits⟩ := setFlows_some hset
        rw [hset] at h
        cases h
        exact ⟨rfl, hfits⟩

/-- A cookie with live flows is one that was sealed. -/
theorem exists_cookie_of_pending {cookie : Option SealedFlows} {now : Int}
    (h : pendingFlows cookie now ≠ []) : ∃ c, cookie = some c
      ∧ (pendingFlows cookie now).Sublist c.flows := by
  cases cookie with
  | none => exact absurd rfl h
  | some c => exact ⟨c, rfl, List.filter_sublist⟩

/-- A callback that matches a flow takes it out. -/
theorem callback_match {a : Authenticator} {cookie : Option SealedFlows}
    {now : Int} {q : CallbackQuery} {idx : Nat}
    (h : matchFlow (pendingFlows cookie now) q.state = some idx)
    (w : CallbackWorld) : (a.callback cookie now q w).1
      = some (consumeFlow (pendingFlows cookie now) idx) := by
  obtain ⟨f, hf, -, -⟩ := matchFlow_some h
  have hne : pendingFlows cookie now ≠ [] := by
    intro hnil
    rw [hnil] at hf
    cases hf
  unfold Authenticator.callback
  dsimp only
  rw [if_neg hne, h]
  dsimp only
  rw [hf]

/-- A callback that matches none, while a flow is live, writes nothing. -/
theorem callback_mismatch {a : Authenticator}
    {cookie : Option SealedFlows} {now : Int} {q : CallbackQuery}
    (hlive : pendingFlows cookie now ≠ [])
    (h : matchFlow (pendingFlows cookie now) q.state = none)
    (w : CallbackWorld) : (a.callback cookie now q w).1 = none := by
  unfold Authenticator.callback
  dsimp only
  rw [if_neg hlive, h]

theorem callback_expired {a : Authenticator}
    {cookie : Option SealedFlows} {now : Int} {q : CallbackQuery}
    (h : pendingFlows cookie now = []) (w : CallbackWorld) :
    a.callback cookie now q w = (some .clear, .expired) :=
  if_pos h

/-- What a callback that matches leaves in the cookie. -/
theorem BrowserInv.carried_callback (hs : BrowserInv s) {now : Int}
    {q : CallbackQuery} {idx : Nat}
    (h : matchFlow (pendingFlows s.cookie now) q.state = some idx)
    (w : CallbackWorld) :
    carried (keepCookie s.cookie (a.callback s.cookie now q w).1)
      = (pendingFlows s.cookie now).eraseIdx idx := by
  have hne : pendingFlows s.cookie now ≠ [] := by
    intro hnil
    rw [hnil] at h
    cases h
  obtain ⟨c, hc, hsub⟩ := exists_cookie_of_pending hne
  rw [callback_match h]
  rw [hc] at hsub ⊢
  exact carried_consumeFlow (hs.written c hc) hsub idx

theorem BrowserInv.callback (hs : BrowserInv s) (now : Int)
    (q : CallbackQuery) (w : CallbackWorld) :
    BrowserInv { s with
      cookie := keepCookie s.cookie (a.callback s.cookie now q w).1 } := by
  by_cases hlive : pendingFlows s.cookie now = []
  · rw [callback_expired hlive]
    exact hs.shrink nofun (List.nil_sublist _)
  · cases hm : matchFlow (pendingFlows s.cookie now) q.state with
    | none =>
        rw [callback_mismatch hlive hm]
        exact hs
    | some idx =>
        refine hs.shrink (fun c hc => ?_) ?_
        · rw [callback_match hm] at hc
          cases hw : consumeFlow (pendingFlows s.cookie now) idx with
          | set c' =>
              rw [hw] at hc
              cases hc
              exact (consumeFlow_set hw).2
          | clear =>
              rw [hw] at hc
              cases hc
        · rw [hs.carried_callback hm]
          exact (List.eraseIdx_sublist _ _).trans
            (pendingFlows_sublist _ _)

/-- What `Begin` leaves in the cookie, if the newest flows fit. -/
theorem carried_begin {cookie : Option SealedFlows} {b : BeginCall}
    (h : fits (newest (pendingFlows cookie b.pendingNow
      ++ [a.newFlow b]))) :
    carried (keepCookie cookie (a.begin cookie b).1)
      = (pendingFlows cookie b.pendingNow).drop
          ((pendingFlows cookie b.pendingNow).length + 1
            - maxPendingFlows) ++ [(a.newFlow b).coerced] := by
  rw [begin_write]
  rw [newest_snoc] at h ⊢
  rw [setFlows, if_pos h]
  exact carried_set cookie _ _
    ((List.drop_sublist _ _).trans (pendingFlows_sublist _ _))

/-- What it leaves otherwise, if its own flow fits. -/
theorem carried_begin_alone {cookie : Option SealedFlows} {b : BeginCall}
    (hno : ¬ fits (newest (pendingFlows cookie b.pendingNow
      ++ [a.newFlow b]))) (h : fits [a.newFlow b]) :
    carried (keepCookie cookie (a.begin cookie b).1)
      = [(a.newFlow b).coerced] := by
  rw [begin_write, setFlows, if_neg hno, Option.none_or, setFlows,
    if_pos h]
  rfl

theorem BrowserInv.begin (hs : BrowserInv s) (b : BeginCall) :
    BrowserInv { cookie := keepCookie s.cookie (a.begin s.cookie b).1
                 started := s.started ++ [a.newFlow b] } := by
  have hlive := pendingFlows_sublist s.cookie b.pendingNow
  have horder : ∀ older : List OidcFlow,
      older.Sublist (carried s.cookie) →
      (older ++ [(a.newFlow b).coerced]).Sublist
        ((s.started ++ [a.newFlow b]).map OidcFlow.coerced) := by
    intro older hsub
    rw [List.map_append]
    exact (hsub.trans hs.order).append (List.Sublist.refl _)
  by_cases hnew : fits (newest (pendingFlows s.cookie b.pendingNow
      ++ [a.newFlow b]))
  · have hcarried := carried_begin hnew
    refine ⟨fun c hc => ?_, ?_, ?_⟩
    · rw [begin_write, setFlows, if_pos hnew] at hc
      cases hc
      exact hnew
    · dsimp only
      rw [hcarried, List.length_append, List.length_drop,
        List.length_singleton]
      unfold maxPendingFlows
      omega
    · dsimp only
      rw [hcarried]
      exact horder _ ((List.drop_sublist _ _).trans hlive)
  · by_cases hone : fits [a.newFlow b]
    · have hcarried := carried_begin_alone hnew hone
      refine ⟨fun c hc => ?_, ?_, ?_⟩
      · rw [begin_write, setFlows, if_neg hnew, Option.none_or, setFlows,
          if_pos hone] at hc
        cases hc
        exact hone
      · dsimp only
        rw [hcarried]
        exact Nat.le_add_left 1 2
      · dsimp only
        rw [hcarried]
        exact horder [] (List.nil_sublist _)
    · rw [begin_fails hone]
      refine ⟨hs.written, hs.count, hs.order.trans ?_⟩
      rw [List.map_append]
      exact List.sublist_append_left _ _

theorem BrowserInv.step (hs : BrowserInv s) {e : BrowserEvent}
    (h : a.browse e s = some s') : BrowserInv s' := by
  cases e with
  | begin b =>
      cases h
      exact hs.begin b
  | callback now q w =>
      cases h
      exact hs.callback now q w

end Steps

-- ==== the statement

/-- The flow cookie after any calls made one at a time, and what the next
call does to it. It carries at most three flows, in the order in which
they were started. A callback that matches no live flow, while there is
one, writes nothing; one that matches takes that flow out and leaves the
others as they were. `Begin` fails without a write if its own flow does
not fit, and otherwise leaves it in the cookie, with every live flow
before it unless they are too many or do not fit. -/
theorem flow_cookie_sequential (a : Authenticator)
    (es : List BrowserEvent) (s : Browser)
    (hrun : Lib.run a.browse es .init = some s) :
    (carried s.cookie).length ≤ maxPendingFlows
    ∧ (carried s.cookie).Sublist (s.started.map OidcFlow.coerced)
    ∧ (∀ now q w, pendingFlows s.cookie now ≠ [] →
        matchFlow (pendingFlows s.cookie now) q.state = none →
        (a.callback s.cookie now q w).1 = none)
    ∧ (∀ now q w idx,
        matchFlow (pendingFlows s.cookie now) q.state = some idx →
        (∃ f, (pendingFlows s.cookie now)[idx]? = some f
          ∧ f.state = q.state)
        ∧ carried (keepCookie s.cookie (a.callback s.cookie now q w).1)
          = (pendingFlows s.cookie now).eraseIdx idx)
    ∧ (∀ b, let live := pendingFlows s.cookie b.pendingNow
        let own := a.newFlow b
        let after := carried (keepCookie s.cookie (a.begin s.cookie b).1)
        (¬ fits [own] → a.begin s.cookie b = (none, false))
        ∧ (fits [own] → own.coerced ∈ after)
        ∧ (fits (newest (live ++ [own])) →
            after = live.drop (live.length + 1 - maxPendingFlows)
              ++ [own.coerced])
        ∧ (live.length + 1 ≤ maxPendingFlows → fits (live ++ [own]) →
            after = live ++ [own.coerced])) := by
  have hs : BrowserInv s :=
    Lib.run_invariant (fun _ _ _ hs h => hs.step h) es browserInv_init
      hrun
  refine ⟨hs.count, hs.order, fun now q w hlive hm => ?_,
    fun now q w idx hm => ⟨?_, ?_⟩, fun b => ?_⟩
  · exact callback_mismatch hlive hm w
  · obtain ⟨f, hf, hstate, -⟩ := matchFlow_some hm
    exact ⟨f, hf, hstate⟩
  · exact hs.carried_callback hm w
  · intro live own after
    refine ⟨fun hno => begin_fails hno _, fun hone => ?_, carried_begin,
      fun hfew hfit => ?_⟩
    · by_cases hnew : fits (newest (live ++ [own]))
      · rw [show after = _ from carried_begin hnew]
        exact List.mem_append_right _ List.mem_cons_self
      · rw [show after = _ from carried_begin_alone hnew hone]
        exact List.mem_cons_self
    · have hzero : live.length + 1 - maxPendingFlows = 0 := by omega
      have hnew : newest (live ++ [own]) = live ++ [own] := by
        rw [newest_snoc, hzero]
        rfl
      rw [show after = _ from carried_begin (by
        rw [show pendingFlows s.cookie b.pendingNow = live from rfl]
        exact hnew.symm ▸ hfit)]
      rw [show pendingFlows s.cookie b.pendingNow = live from rfl, hzero]
      rfl

section Examples

/-- An authenticator that sanitises nothing. -/
def plainAuthenticator : Authenticator := ⟨id, false, true⟩

/-- A login at time 0 with distinct random bytes for distinct `n`. -/
def loginOf (n : UInt8) (extra : GoString) : BeginCall where
  entropy :=
    { state := List.replicate 24 n
      nonce := List.replicate 24 n
      verifier := List.replicate 32 n
      state_length := List.length_replicate
      nonce_length := List.length_replicate
      verifier_length := List.length_replicate }
  returnTo := ascii "/"
  extra := extra
  now := 0
  pendingNow := 0
  endpoint := true

/-- A callback with the state of the `n`-th login. -/
def returnOf (n : UInt8) : CallbackQuery :=
  ⟨rawURLEncode (List.replicate 24 n), [], ascii "code"⟩

/-- A token endpoint and a verifier that accept the `n`-th login. -/
def worldOf (n : UInt8) : CallbackWorld where
  endpoint := true
  exchange _ _ := some []
  verify _ := some ⟨ascii "sub", rawURLEncode (List.replicate 24 n), true⟩
  newSession := true
  enrichSession := true

/-- Two logins are pending; the callback of the first leaves the
second. -/
theorem flow_cookie_sequential_two :
    ∃ s, Lib.run plainAuthenticator.browse
        [.begin (loginOf 1 []), .begin (loginOf 2 [])] .init = some s
      ∧ carried (keepCookie s.cookie (plainAuthenticator.callback
          s.cookie 0 (returnOf 1) (worldOf 1)).1)
        = [plainAuthenticator.newFlow (loginOf 2 [])] := by
  refine ⟨_, rfl, ?_⟩
  rw [((flow_cookie_sequential plainAuthenticator
    [.begin (loginOf 1 []), .begin (loginOf 2 [])] _ rfl).2.2.2.1
    0 (returnOf 1) (worldOf 1) 0 (by decide +kernel)).2]
  decide +kernel

end Examples

end Tokyo3Base.Oidc
