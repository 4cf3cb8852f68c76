/-
Three tabs of one browser that log in at the same time.

# The browser's cookie

The tabs share one flow cookie. A request carries the cookie that the
browser holds when it is sent, the handler computes its response from
that cookie, and the response's `Set-Cookie` replaces what the browser
holds when it arrives, whatever happened in between. These are three
events of a tab, and the tabs take them in any order.

# The statements' own bookkeeping

`arrivedSince i` lists the tabs whose `Begin` response reached the
browser after the request that tab `i` has under way was sent. The
handlers do not see it.
-/
import Mathlib.Logic.Function.Basic
import Tokyo3Base.Oidc.Browser

namespace Tokyo3Base.Oidc

open Go

/-- What a tab's login is made of, apart from the time. -/
structure TabLogin where
  entropy : Entropy
  returnTo : GoString
  extra : GoString

/-- The `Begin` of a tab, processed at this time. -/
def TabLogin.call (l : TabLogin) (now pendingNow : Int) : BeginCall :=
  ⟨l.entropy, l.returnTo, l.extra, now, pendingNow, true⟩

/-- How far a tab has come. -/
inductive Tab where
  | idle
  /-- the request for `Begin` is under way -/
  | beginSent (brought : Option SealedFlows)
  /-- its response is under way -/
  | beginDone (b : BeginCall) (write : Option FlowWrite)
  /-- the user is at the IdP -/
  | waiting (b : BeginCall)
  /-- the callback is under way -/
  | callbackSent (b : BeginCall) (brought : Option SealedFlows)
  /-- its response is under way; `found` says whether it had found the
  tab's own flow -/
  | callbackDone (b : BeginCall) (found : Bool)
      (write : Option FlowWrite)
  | returned (b : BeginCall) (found : Bool)

/-- The tabs, the browser's cookie, and the clock. -/
structure Tabs where
  tab : Fin 3 → Tab
  cookie : Option SealedFlows
  clock : Int
  arrivedSince : Fin 3 → List (Fin 3)

def Tabs.init (clock : Int) : Tabs :=
  ⟨fun _ => .idle, none, clock, fun _ => []⟩

/-- What can happen: a tab sends its next request, its request is
processed, its response arrives. -/
inductive TabsEvent where
  | send (i : Fin 3)
  | process (i : Fin 3) (now pendingNow : Int) (error code : GoString)
      (w : CallbackWorld)
  | arrive (i : Fin 3)

/-- The flow that the callback of this cookie and state finds. -/
def foundFlow (cookie : Option SealedFlows) (now : Int)
    (state : GoString) : Option OidcFlow :=
  (matchFlow (pendingFlows cookie now) state).bind fun idx =>
    (pendingFlows cookie now)[idx]?

/-- Tab `i` is now here. -/
def Tabs.set (s : Tabs) (i : Fin 3) (t : Tab) : Tabs :=
  { s with tab := Function.update s.tab i t }

/-- One event; `none` where it cannot happen. -/
def Authenticator.tabs (a : Authenticator) (login : Fin 3 → TabLogin)
    (e : TabsEvent) (s : Tabs) : Option Tabs :=
  match e with
  | .send i =>
      let sent := { s with
        arrivedSince := Function.update s.arrivedSince i [] }
      match s.tab i with
      | .idle => some (sent.set i (.beginSent s.cookie))
      | .waiting b => some (sent.set i (.callbackSent b s.cookie))
      | _ => none
  | .process i now pendingNow error code w =>
      if s.clock ≤ now ∧ now ≤ pendingNow then
        let later := { s with clock := pendingNow }
        match s.tab i with
        | .beginSent brought =>
            let b := (login i).call now pendingNow
            some (later.set i (.beginDone b (a.begin brought b).1))
        | .callbackSent b brought =>
            let state := (a.newFlow b).state
            some (later.set i (.callbackDone b
              (decide (foundFlow brought pendingNow state
                = some (a.newFlow b).coerced))
              (a.callback brought pendingNow ⟨state, error, code⟩ w).1))
        | _ => none
      else none
  | .arrive i =>
      match s.tab i with
      | .beginDone b write =>
          some ({ s with
            cookie := keepCookie s.cookie write
            arrivedSince := fun j => s.arrivedSince j ++ [i] }.set i
              (.waiting b))
      | .callbackDone b found write =>
          some ({ s with cookie := keepCookie s.cookie write }.set i
            (.returned b found))
      | _ => none

-- ==== the conditions

/-- The login of a tab that has not been taken up by its callback. -/
def Tab.pending : Tab → Option BeginCall
  | .beginDone b _ => some b
  | .waiting b => some b
  | .callbackSent b _ => some b
  | _ => none

/-- Every pending login is still within its ten minutes, by the whole
seconds the code counts in. -/
def InTime (a : Authenticator) (s : Tabs) (now : Int) : Prop :=
  ∀ k b, (s.tab k).pending = some b → unix now < (a.newFlow b).exp

/-- No other tab's `Begin` response came between the request of tab `i`
and its response, or that tab has sent its callback since. -/
def NoOverlap (s : Tabs) (i : Fin 3) : Prop :=
  ∀ k ∈ s.arrivedSince i, ∀ b, s.tab k ≠ .waiting b

/-- What is asked of a step: requests are processed in time, `Begin` finds
room for all pending flows, and a response does not overlap. -/
def TabsCondition (a : Authenticator) (login : Fin 3 → TabLogin)
    (e : TabsEvent) (s : Tabs) : Prop :=
  match e with
  | .send _ => True
  | .process i now pendingNow _ _ _ =>
      InTime a s pendingNow ∧ ∀ brought, s.tab i = .beginSent brought →
        fits (pendingFlows brought pendingNow
          ++ [a.newFlow ((login i).call now pendingNow)])
  | .arrive i => NoOverlap s i

-- The conditions can be computed.

instance (a : Authenticator) (s : Tabs) (now : Int) :
    Decidable (InTime a s now) :=
  decidable_of_iff
    (∀ k, ∀ b ∈ (s.tab k).pending, unix now < (a.newFlow b).exp)
    ⟨fun h k b hb => h k b hb, fun h k b hb => h k b hb⟩

/-- The user of this tab is at the IdP. -/
def Tab.isWaiting : Tab → Bool
  | .waiting _ => true
  | _ => false

theorem noOverlap_iff (s : Tabs) (i : Fin 3) : NoOverlap s i
    ↔ ∀ k ∈ s.arrivedSince i, (s.tab k).isWaiting = false := by
  refine forall₂_congr fun k _ => ⟨fun h => ?_, fun h b hb => ?_⟩
  · cases ht : s.tab k with
    | waiting b => exact absurd ht (h b)
    | _ => rfl
  · rw [hb] at h
    cases h

instance (s : Tabs) (i : Fin 3) : Decidable (NoOverlap s i) :=
  decidable_of_iff' _ (noOverlap_iff s i)

/-- What a tab's request for `Begin` brought. -/
def Tab.beginning : Tab → Option (Option SealedFlows)
  | .beginSent brought => some brought
  | _ => none

theorem Tab.beginning_iff {t : Tab} {brought : Option SealedFlows} :
    brought ∈ t.beginning ↔ t = .beginSent brought := by
  refine ⟨fun h => ?_, fun h => h ▸ rfl⟩
  cases t with
  | beginSent brought' =>
      cases h
      rfl
  | _ => cases h

instance (a : Authenticator) (login : Fin 3 → TabLogin) (e : TabsEvent)
    (s : Tabs) : Decidable (TabsCondition a login e s) :=
  match e with
  | .send _ => isTrue trivial
  | .process i now pendingNow _ _ _ =>
      decidable_of_iff
        (InTime a s pendingNow ∧ ∀ brought ∈ (s.tab i).beginning,
          fits (pendingFlows brought pendingNow
            ++ [a.newFlow ((login i).call now pendingNow)]))
        (and_congr_right fun _ => forall_congr' fun _ =>
          imp_congr_left Tab.beginning_iff)
  | .arrive i => inferInstanceAs (Decidable (NoOverlap s i))

end Tokyo3Base.Oidc
