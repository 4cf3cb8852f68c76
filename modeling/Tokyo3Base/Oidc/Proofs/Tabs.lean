/-
Three tabs of one browser: when every callback finds its own flow.

# The argument

A response replaces the browser's cookie by what its request had brought,
with one flow added or taken away. Of the flows of the other waiting tabs
it lacks exactly those whose `Begin` response reached the browser after
the request was sent (`TabsInv.covers`). So a response keeps every
waiting tab's flow in the cookie if and only if none of those tabs is
still waiting (`NoOverlap`), and while all responses are like that, every
callback is sent with its flow.

The rest of the invariant is what makes the handlers do that: a cookie's
flows belong to different tabs, so that there is room for three, and they
have not expired, so that none is filtered out.
-/
import Mathlib.Data.Fintype.Card
import Tokyo3Base.Oidc.Tabs
import Tokyo3Base.Oidc.Proofs.Binding

namespace Tokyo3Base.Oidc

open Go

-- ==== the tabs

/-- The login of a tab whose `Begin` has been processed. -/
def Tab.begun : Tab → Option BeginCall
  | .idle => none
  | .beginSent _ => none
  | .beginDone b _ => some b
  | .waiting b => some b
  | .callbackSent b _ => some b
  | .callbackDone b _ _ => some b
  | .returned b _ => some b

/-- The login of a tab whose `Begin` response has arrived. -/
def Tab.arrived : Tab → Option BeginCall
  | .beginDone _ _ => none
  | t => t.begun

/-- The cookie that comes of a request under way: what it brought, or
what its response makes of that. -/
def Tab.carries : Tab → Option (Option SealedFlows)
  | .beginSent brought => some brought
  | .beginDone _ write => some (keepCookie none write)
  | .callbackSent _ brought => some brought
  | .callbackDone _ _ write => some (keepCookie none write)
  | _ => none

/-- A tab's flow, as a cookie carries it. -/
def own (a : Authenticator) (b : BeginCall) : OidcFlow :=
  (a.newFlow b).coerced

theorem own_state (a : Authenticator) (b : BeginCall) :
    (own a b).state = (a.newFlow b).state := by
  unfold own
  rw [newFlow_coerced]

@[simp] theorem Tabs.set_self (s : Tabs) (i : Fin 3) (t : Tab) :
    (s.set i t).tab i = t := Function.update_self _ _ _

theorem Tabs.set_of_ne (s : Tabs) {i k : Fin 3} (h : k ≠ i) (t : Tab) :
    (s.set i t).tab k = s.tab k := Function.update_of_ne h _ _

-- ==== the invariant

/-- A cookie of the three tabs: it was written by `Set`, and its flows
are those of different tabs whose `Begin` response has arrived, or of the
tab `j` whose response it comes with. -/
structure GoodCookie (a : Authenticator) (s : Tabs) (j : Option (Fin 3))
    (c : Option SealedFlows) : Prop where
  written : ∀ c', c = some c' → fits c'.payload
  nodup : (carried c).Nodup
  owned : ∀ f ∈ carried c, ∃ k b, f = own a b
    ∧ ((s.tab k).arrived = some b
      ∨ some k = j ∧ (s.tab k).begun = some b)

/-- What is known of one tab. -/
def Tab.Facts (a : Authenticator) : Tab → Prop
  | .beginDone b write =>
      ∃ c, write = some (.set c) ∧ own a b ∈ carried (some c)
  | .callbackSent b brought => own a b ∈ carried brought
  | .callbackDone _ found write => found = true ∧ write.isSome = true
  | .returned _ found => found = true
  | _ => True

/-- What is known of the tabs, at any moment. -/
structure TabsInv (a : Authenticator) (login : Fin 3 → TabLogin)
    (s : Tabs) : Prop where
  entropy : ∀ k b, (s.tab k).begun = some b →
    b.entropy = (login k).entropy
  cookie : GoodCookie a s none s.cookie
  present : ∀ k b, s.tab k = .waiting b → own a b ∈ carried s.cookie
  carries : ∀ j c, (s.tab j).carries = some c → GoodCookie a s (some j) c
  covers : ∀ j c, (s.tab j).carries = some c →
    ∀ k b, k ≠ j → s.tab k = .waiting b →
      (own a b ∈ carried c ↔ k ∉ s.arrivedSince j)
  facts : ∀ k, (s.tab k).Facts a

theorem tabsInv_init (a : Authenticator) (login : Fin 3 → TabLogin)
    (clock : Int) : TabsInv a login (.init clock) := by
  refine ⟨nofun, ⟨nofun, List.nodup_nil, fun f hf => ?_⟩, nofun, nofun,
    nofun, fun _ => trivial⟩
  exact absurd hf List.not_mem_nil

section Facts

variable {a : Authenticator} {login : Fin 3 → TabLogin} {s s' : Tabs}

/-- Tabs only get further. -/
structure Extends (s s' : Tabs) : Prop where
  begun : ∀ k b, (s.tab k).begun = some b → (s'.tab k).begun = some b
  arrived : ∀ k b, (s.tab k).arrived = some b →
    (s'.tab k).arrived = some b

theorem GoodCookie.mono {j : Option (Fin 3)} {c : Option SealedFlows}
    (hc : GoodCookie a s j c) (h : Extends s s') :
    GoodCookie a s' j c := by
  refine ⟨hc.written, hc.nodup, fun f hf => ?_⟩
  obtain ⟨k, b, hown, harr | ⟨hk, hbegun⟩⟩ := hc.owned f hf
  · exact ⟨k, b, hown, .inl (h.arrived k b harr)⟩
  · exact ⟨k, b, hown, .inr ⟨hk, h.begun k b hbegun⟩⟩

theorem Tab.begun_of_arrived {t : Tab} {b : BeginCall}
    (h : t.arrived = some b) : t.begun = some b := by
  cases t with
  | beginDone => cases h
  | _ => exact h

/-- Whoever owns a flow of the cookie has begun. -/
theorem GoodCookie.begun {j : Option (Fin 3)} {c : Option SealedFlows}
    (hc : GoodCookie a s j c) {f : OidcFlow} (hf : f ∈ carried c) :
    ∃ k b, f = own a b ∧ (s.tab k).begun = some b := by
  obtain ⟨k, b, hown, harr | ⟨-, hbegun⟩⟩ := hc.owned f hf
  · exact ⟨k, b, hown, Tab.begun_of_arrived harr⟩
  · exact ⟨k, b, hown, hbegun⟩

theorem GoodCookie.part {j : Option (Fin 3)} {c c' : Option SealedFlows}
    (hc : GoodCookie a s j c)
    (hwritten : ∀ d, c' = some d → fits d.payload)
    (hsub : (carried c').Sublist (carried c)) : GoodCookie a s j c' :=
  ⟨hwritten, hc.nodup.sublist hsub,
    fun f hf => hc.owned f (hsub.subset hf)⟩

/-- No two of the logins have one state. -/
def DistinctStates (login : Fin 3 → TabLogin) : Prop :=
  Function.Injective fun k => rawURLEncode (login k).entropy.state

/-- Different tabs have different flows. -/
theorem TabsInv.own_inj (hs : TabsInv a login s)
    (hinj : DistinctStates login)
    {k k' : Fin 3} {b b' : BeginCall} (hb : (s.tab k).begun = some b)
    (hb' : (s.tab k').begun = some b')
    (h : (own a b).state = (own a b').state) : k = k' := by
  rw [own_state, own_state] at h
  apply hinj
  show rawURLEncode (login k).entropy.state
    = rawURLEncode (login k').entropy.state
  rw [← hs.entropy k b hb, ← hs.entropy k' b' hb']
  exact h

/-- A flow of a cookie that has the state of tab `k` is its flow. -/
theorem TabsInv.eq_own (hs : TabsInv a login s)
    (hinj : DistinctStates login)
    {j : Option (Fin 3)} {c : Option SealedFlows}
    (hc : GoodCookie a s j c) {f : OidcFlow} (hf : f ∈ carried c)
    {k : Fin 3} {b : BeginCall} (hb : (s.tab k).begun = some b)
    (hstate : f.state = (own a b).state) : f = own a b := by
  obtain ⟨k', b', rfl, hb'⟩ := hc.begun hf
  obtain rfl := hs.own_inj hinj hb' hb hstate
  rw [Option.some.inj (hb'.symm.trans hb)]

/-- The flows that a tab which has not begun brings are those of the
other two. -/
theorem TabsInv.length_le_two {j : Option (Fin 3)}
    {c : Option SealedFlows} (hc : GoodCookie a s j c) {i : Fin 3}
    (hi : (s.tab i).begun = none) : (carried c).length ≤ 2 := by
  have hsub : (carried c).toFinset.image some
      ⊆ (Finset.univ.erase i).image
          fun k => (s.tab k).begun.map (own a) := by
    intro x hx
    obtain ⟨f, hf, rfl⟩ := Finset.mem_image.mp hx
    obtain ⟨k, b, rfl, hb⟩ := hc.begun (List.mem_toFinset.mp hf)
    refine Finset.mem_image.mpr ⟨k, Finset.mem_erase.mpr ⟨?_,
      Finset.mem_univ k⟩, ?_⟩
    · rintro rfl
      rw [hi] at hb
      cases hb
    · rw [hb]
      rfl
  have hcard := (Finset.card_le_card hsub).trans Finset.card_image_le
  rw [Finset.card_image_of_injective _ (Option.some_injective _),
    List.toFinset_card_of_nodup hc.nodup,
    Finset.card_erase_of_mem (Finset.mem_univ i)] at hcard
  exact hcard

/-- While nothing has expired, a request's pending flows are all it
brought. -/
theorem TabsInv.pending_iff {brought : Option SealedFlows} {now : Int}
    {f : OidcFlow} (hlive : unix now < f.exp) :
    f ∈ pendingFlows brought now ↔ f ∈ carried brought := by
  cases brought with
  | none => exact Iff.rfl
  | some c =>
      refine List.mem_filter.trans ⟨fun h => h.1, fun h => ⟨h, ?_⟩⟩
      exact decide_eq_true hlive

theorem GoodCookie.anyone {c : Option SealedFlows}
    (hc : GoodCookie a s none c) (j : Option (Fin 3)) :
    GoodCookie a s j c := by
  refine ⟨hc.written, hc.nodup, fun f hf => ?_⟩
  obtain ⟨k, b, hown, harr | ⟨hk, -⟩⟩ := hc.owned f hf
  · exact ⟨k, b, hown, .inl harr⟩
  · cases hk

theorem extends_of_update {i : Fin 3} {t : Tab}
    (htab : s'.tab = Function.update s.tab i t)
    (hbegun : ∀ b, (s.tab i).begun = some b → t.begun = some b)
    (harrived : ∀ b, (s.tab i).arrived = some b → t.arrived = some b) :
    Extends s s' := by
  have hcases : ∀ k, k = i ∧ s'.tab k = t ∨ s'.tab k = s.tab k := by
    intro k
    rw [htab]
    by_cases hk : k = i
    · exact .inl ⟨hk, hk ▸ Function.update_self _ _ _⟩
    · exact .inr (Function.update_of_ne hk _ _)
  refine ⟨fun k b hb => ?_, fun k b hb => ?_⟩
  · rcases hcases k with ⟨rfl, ht⟩ | ht
    · rw [ht]
      exact hbegun b hb
    · rw [ht]
      exact hb
  · rcases hcases k with ⟨rfl, ht⟩ | ht
    · rw [ht]
      exact harrived b hb
    · rw [ht]
      exact hb

/-- What has to be shown of a step that moves tab `i` to `t`. -/
theorem TabsInv.replace (hs : TabsInv a login s) {i : Fin 3} {t : Tab}
    (htab : s'.tab = Function.update s.tab i t) (hext : Extends s s')
    (hentropy : ∀ b, t.begun = some b → b.entropy = (login i).entropy)
    (hcookie : GoodCookie a s' none s'.cookie)
    (hpresent : ∀ k b, k ≠ i → s.tab k = .waiting b →
      own a b ∈ carried s'.cookie)
    (hpresent' : ∀ b, t = .waiting b → own a b ∈ carried s'.cookie)
    (hcarries : ∀ c, t.carries = some c → GoodCookie a s' (some i) c)
    (hcovers : ∀ c, t.carries = some c → ∀ k b, k ≠ i →
      s.tab k = .waiting b →
      (own a b ∈ carried c ↔ k ∉ s'.arrivedSince i))
    (hother : ∀ j c, j ≠ i → (s.tab j).carries = some c →
      (∀ k, k ≠ i → (k ∉ s'.arrivedSince j ↔ k ∉ s.arrivedSince j))
      ∧ ∀ b, t = .waiting b →
        (own a b ∈ carried c ↔ i ∉ s'.arrivedSince j))
    (hfacts : t.Facts a) : TabsInv a login s' := by
  have hself : s'.tab i = t := htab ▸ Function.update_self _ _ _
  have hne : ∀ k, k ≠ i → s'.tab k = s.tab k := fun k hk =>
    htab ▸ Function.update_of_ne hk _ _
  refine ⟨fun k b hb => ?_, hcookie, fun k b hb => ?_, fun j c hc => ?_,
    fun j c hc k b hkj hb => ?_, fun k => ?_⟩
  · by_cases hk : k = i
    · subst hk
      exact hentropy b (hself ▸ hb)
    · exact hs.entropy k b (hne k hk ▸ hb)
  · by_cases hk : k = i
    · subst hk
      exact hpresent' b (hself ▸ hb)
    · exact hpresent k b hk (hne k hk ▸ hb)
  · by_cases hj : j = i
    · subst hj
      exact hcarries c (hself ▸ hc)
    · exact (hs.carries j c (hne j hj ▸ hc)).mono hext
  · by_cases hj : j = i
    · subst hj
      exact hcovers c (hself ▸ hc) k b hkj (hne k hkj ▸ hb)
    · rw [hne j hj] at hc
      obtain ⟨hsince, hnew⟩ := hother j c hj hc
      by_cases hk : k = i
      · subst hk
        exact hnew b (hself ▸ hb)
      · rw [hsince k hk]
        exact hs.covers j c hc k b hkj (hne k hk ▸ hb)
  · by_cases hk : k = i
    · subst hk
      exact hself ▸ hfacts
    · rw [hne k hk]
      exact hs.facts k

end Facts

section Steps

variable {a : Authenticator} {login : Fin 3 → TabLogin} {s : Tabs}
  {i : Fin 3}

/-- The request under way carries the browser's cookie. -/
theorem TabsInv.send (hs : TabsInv a login s) {t : Tab}
    (hcarries : t.carries = some s.cookie)
    (hbegun : t.begun = (s.tab i).begun)
    (harrived : t.arrived = (s.tab i).arrived) (hfacts : t.Facts a) :
    TabsInv a login ({ s with
      arrivedSince := Function.update s.arrivedSince i [] }.set i t) := by
  have hext : Extends s ({ s with
      arrivedSince := Function.update s.arrivedSince i [] }.set i t) :=
    extends_of_update rfl (fun b hb => hbegun.trans hb)
      fun b hb => harrived.trans hb
  have hwaiting : ∀ b, t ≠ .waiting b := by
    rintro b rfl
    cases hcarries
  refine hs.replace rfl hext
    (fun b hb => hs.entropy i b (hbegun ▸ hb)) (hs.cookie.mono hext)
    (fun k b _ hb => hs.present k b hb)
    (fun b hb => absurd hb (hwaiting b)) (fun c hc => ?_)
    (fun c hc k b _ hb => ?_)
    (fun j c hj _ => ⟨fun k _ => ?_, fun b hb => absurd hb (hwaiting b)⟩)
    hfacts
  · rw [hcarries] at hc
    cases hc
    exact (hs.cookie.anyone _).mono hext
  · rw [hcarries] at hc
    cases hc
    refine ⟨fun _ => ?_, fun _ => hs.present k b hb⟩
    show k ∉ Function.update s.arrivedSince i [] i
    rw [Function.update_self]
    exact List.not_mem_nil
  · show k ∉ Function.update s.arrivedSince i [] j ↔ _
    rw [Function.update_of_ne hj]

/-- Without an overlap a response keeps the flow of every tab that
waits. -/
theorem TabsInv.keeps (hs : TabsInv a login s) {c : Option SealedFlows}
    (hcarries : (s.tab i).carries = some c) (hno : NoOverlap s i)
    {k : Fin 3} {b : BeginCall} (hk : k ≠ i) (hb : s.tab k = .waiting b) :
    own a b ∈ carried c :=
  (hs.covers i c hcarries k b hk hb).mpr fun hmem => hno k hmem b hb

/-- The cookie of a response, once it has arrived. -/
theorem GoodCookie.settle {c : Option SealedFlows} {s' : Tabs}
    (hc : GoodCookie a s (some i) c) (hext : Extends s s')
    (hi : ∀ b, (s.tab i).begun = some b → (s'.tab i).arrived = some b) :
    GoodCookie a s' none c := by
  refine ⟨hc.written, hc.nodup, fun f hf => ?_⟩
  obtain ⟨k, b, hown, harr | ⟨hk, hbegun⟩⟩ := hc.owned f hf
  · exact ⟨k, b, hown, .inl (hext.arrived k b harr)⟩
  · cases hk
    exact ⟨i, b, hown, .inl (hi b hbegun)⟩

theorem TabsInv.arrive_callback (hs : TabsInv a login s) {b : BeginCall}
    {found : Bool} {write : Option FlowWrite}
    (hi : s.tab i = .callbackDone b found write) (hno : NoOverlap s i) :
    TabsInv a login ({ s with
      cookie := keepCookie s.cookie write }.set i (.returned b found)) := by
  obtain ⟨hfound, hsome⟩ : found = true ∧ write.isSome = true := by
    have := hs.facts i
    rwa [hi] at this
  obtain ⟨w, rfl⟩ := Option.isSome_iff_exists.mp hsome
  have hkeep : keepCookie s.cookie (some w) = keepCookie none (some w) := by
    cases w <;> rfl
  have hcarries : (s.tab i).carries = some (keepCookie none (some w)) := by
    rw [hi]
    rfl
  rw [hkeep]
  have hext : Extends s ({ s with
      cookie := keepCookie none (some w) }.set i (.returned b found)) := by
    refine extends_of_update rfl (fun b' hb' => ?_) fun b' hb' => ?_
    · rw [hi] at hb'
      exact hb'
    · rw [hi] at hb'
      exact hb'
  refine hs.replace rfl hext (fun b' hb' => ?_) ?_
    (fun k b' hk hb' => hs.keeps hcarries hno hk hb') nofun nofun nofun
    (fun j c _ _ => ⟨fun _ _ => Iff.rfl, nofun⟩) hfound
  · exact hs.entropy i b' (by rw [hi]; exact hb')
  · refine (hs.carries i _ hcarries).settle hext fun b' hb' => ?_
    rw [hi] at hb'
    rw [Tabs.set_self]
    exact hb'

/-- A flow whose `Begin` response is under way is in no other request. -/
theorem TabsInv.own_fresh (hs : TabsInv a login s)
    (hinj : DistinctStates login) {b : BeginCall} {write : Option FlowWrite}
    (hi : s.tab i = .beginDone b write) {j : Option (Fin 3)}
    {c : Option SealedFlows} (hc : GoodCookie a s j c) (hj : j ≠ some i) :
    own a b ∉ carried c := by
  intro hmem
  have hbegun : (s.tab i).begun = some b := by
    rw [hi]
    rfl
  obtain ⟨k, b', hown, hk⟩ := hc.owned _ hmem
  have hb' : (s.tab k).begun = some b' := by
    rcases hk with harr | ⟨-, hb'⟩
    · exact Tab.begun_of_arrived harr
    · exact hb'
  obtain rfl := hs.own_inj hinj hbegun hb' (congrArg OidcFlow.state hown)
  rcases hk with harr | ⟨hk, -⟩
  · rw [hi] at harr
    cases harr
  · exact hj hk.symm

theorem TabsInv.arrive_begin (hs : TabsInv a login s)
    (hinj : DistinctStates login) {b : BeginCall} {write : Option FlowWrite}
    (hi : s.tab i = .beginDone b write) (hno : NoOverlap s i) :
    TabsInv a login ({ s with
      cookie := keepCookie s.cookie write
      arrivedSince := fun j => s.arrivedSince j ++ [i] }.set i
        (.waiting b)) := by
  obtain ⟨c, rfl, hown⟩ : ∃ c, write = some (.set c)
      ∧ own a b ∈ carried (some c) := by
    have := hs.facts i
    rwa [hi] at this
  have hcarries : (s.tab i).carries = some (some c) := by
    rw [hi]
    rfl
  have hext : Extends s ({ s with
      cookie := some c
      arrivedSince := fun j => s.arrivedSince j ++ [i] }.set i
        (.waiting b)) := by
    refine extends_of_update rfl (fun b' hb' => ?_) fun b' hb' => ?_
    · rw [hi] at hb'
      exact hb'
    · rw [hi] at hb'
      cases hb'
  refine hs.replace rfl hext (fun b' hb' => ?_) ?_
    (fun k b' hk hb' => hs.keeps hcarries hno hk hb') (fun b' hb' => ?_)
    nofun nofun (fun j c' hj hc' => ⟨fun k hk => ?_, fun b' hb' => ?_⟩)
    trivial
  · exact hs.entropy i b' (by rw [hi]; exact hb')
  · refine (hs.carries i _ hcarries).settle hext fun b' hb' => ?_
    rw [hi] at hb'
    rw [Tabs.set_self]
    exact hb'
  · cases hb'
    exact hown
  · show k ∉ s.arrivedSince j ++ [i] ↔ _
    rw [List.mem_append, List.mem_singleton, or_iff_left hk]
  · cases hb'
    refine ⟨fun hmem => ?_, fun hnot => ?_⟩
    · refine absurd hmem (hs.own_fresh hinj hi (hs.carries j c' hc') ?_)
      exact fun h => hj (Option.some.inj h)
    · refine absurd ?_ hnot
      show i ∈ s.arrivedSince j ++ [i]
      exact List.mem_append_right _ List.mem_cons_self

/-- With two flows at most in the cookie that it was brought, `Begin`
drops none. -/
theorem begin_keeps {brought : Option SealedFlows} {b : BeginCall}
    (hlen : (carried brought).length ≤ 2)
    (hfits : fits (pendingFlows brought b.pendingNow
      ++ [a.newFlow b])) :
    (a.begin brought b).1 = some (.set
      ⟨pendingFlows brought b.pendingNow ++ [a.newFlow b]⟩) := by
  have hle := (pendingFlows_sublist brought b.pendingNow).length_le
  have hdrop : (pendingFlows brought b.pendingNow).length + 1
      - maxPendingFlows = 0 := by
    unfold maxPendingFlows
    omega
  have hnewest : newest (pendingFlows brought b.pendingNow
      ++ [a.newFlow b])
        = pendingFlows brought b.pendingNow ++ [a.newFlow b] := by
    rw [newest_snoc, hdrop]
    rfl
  rw [begin_write, hnewest, setFlows, if_pos hfits]
  rfl

/-- A new login's flow is none of those that were begun. -/
theorem TabsInv.own_ne_new (hs : TabsInv a login s)
    (hinj : DistinctStates login)
    (hnone : (s.tab i).begun = none) {b : BeginCall}
    (hentropy : b.entropy = (login i).entropy) {k : Fin 3}
    {b' : BeginCall} (hb' : (s.tab k).begun = some b') :
    own a b' ≠ own a b := by
  intro heq
  have hstate : rawURLEncode (login k).entropy.state
      = rawURLEncode (login i).entropy.state := by
    rw [← hs.entropy k b' hb', ← hentropy]
    exact (own_state a b').symm.trans
      ((congrArg OidcFlow.state heq).trans (own_state a b))
  rw [hinj hstate, hnone] at hb'
  cases hb'

/-- `Begin` of a tab, with every other pending flow in time and room for
all of them. -/
theorem TabsInv.process_begin (hs : TabsInv a login s)
    (hinj : DistinctStates login)
    {brought : Option SealedFlows} {now pendingNow : Int}
    (hi : s.tab i = .beginSent brought) (htime : InTime a s pendingNow)
    (hfits : fits (pendingFlows brought pendingNow
      ++ [a.newFlow ((login i).call now pendingNow)])) :
    TabsInv a login ({ s with clock := pendingNow }.set i
      (.beginDone ((login i).call now pendingNow)
        (a.begin brought ((login i).call now pendingNow)).1)) := by
  have hcarries : (s.tab i).carries = some brought := by
    rw [hi]
    rfl
  have hgood := hs.carries i brought hcarries
  have hnone : (s.tab i).begun = none := by
    rw [hi]
    rfl
  have hlen := TabsInv.length_le_two hgood hnone
  have hsub := pendingFlows_sublist brought pendingNow
  generalize hb : (login i).call now pendingNow = b at hfits ⊢
  have hentropy : b.entropy = (login i).entropy := by rw [← hb]; rfl
  have hpending : b.pendingNow = pendingNow := by rw [← hb]; rfl
  have hwrite : (a.begin brought b).1 = some (.set
      ⟨pendingFlows brought pendingNow ++ [a.newFlow b]⟩) :=
    hpending ▸ begin_keeps hlen (hpending.symm ▸ hfits)
  have hcarried : carried (keepCookie none (some (.set
      ⟨pendingFlows brought pendingNow ++ [a.newFlow b]⟩)))
        = pendingFlows brought pendingNow ++ [own a b] :=
    carried_set brought _ _ hsub
  have hown : ∀ k b', (s.tab k).begun = some b' →
      own a b' ≠ own a b :=
    fun k b' hb' => hs.own_ne_new hinj hnone hentropy hb'
  rw [hwrite]
  have hext : Extends s ({ s with clock := pendingNow }.set i
      (.beginDone b (some (.set
        ⟨pendingFlows brought pendingNow ++ [a.newFlow b]⟩)))) := by
    refine extends_of_update rfl (fun b' hb' => ?_) fun b' hb' => ?_
    · rw [hnone] at hb'
      cases hb'
    · rw [hi] at hb'
      cases hb'
  refine hs.replace rfl hext (fun b' hb' => ?_) (hs.cookie.mono hext)
    (fun k b' _ hb' => hs.present k b' hb')
    (fun _ hw => Tab.noConfusion hw) (fun c hc => ?_)
    (fun c hc k b' hk hb' => ?_)
    (fun j c _ _ => ⟨fun _ _ => Iff.rfl, fun _ hw => Tab.noConfusion hw⟩)
    ⟨_, rfl, ?_⟩
  · cases hb'
    exact hentropy
  · cases hc
    refine ⟨fun c' hc' => ?_, ?_, fun f hf => ?_⟩
    · cases hc'
      exact hfits
    · rw [hcarried]
      refine List.Nodup.append (hgood.nodup.sublist hsub)
        (List.nodup_singleton _) ?_
      intro f hf hf'
      obtain ⟨k, b', rfl, hb'⟩ := hgood.begun (hsub.subset hf)
      exact hown k b' hb' (List.mem_singleton.mp hf')
    · rw [hcarried] at hf
      rcases List.mem_append.mp hf with hf | hf
      · obtain ⟨k, b', heq, harr | ⟨hk, hb'⟩⟩ :=
          hgood.owned f (hsub.subset hf)
        · exact ⟨k, b', heq, .inl (hext.arrived k b' harr)⟩
        · cases hk
          rw [hnone] at hb'
          cases hb'
      · refine ⟨i, b, List.mem_singleton.mp hf, .inr ⟨rfl, ?_⟩⟩
        rw [Tabs.set_self]
        rfl
  · cases hc
    have hbegun : (s.tab k).begun = some b' := by
      rw [hb']
      rfl
    have hlive : unix pendingNow < (own a b').exp :=
      htime k b' (by rw [hb']; rfl)
    rw [hcarried, List.mem_append, List.mem_singleton,
      or_iff_left (hown k b' hbegun), TabsInv.pending_iff hlive]
    exact hs.covers i brought hcarries k b' hk hb'
  · show own a b ∈ carried (keepCookie none (some (.set _)))
    rw [hcarried]
    exact List.mem_append_right _ List.mem_cons_self

/-- A state is not empty. -/
theorem newFlow_state_ne_nil (a : Authenticator) (b : BeginCall) :
    (a.newFlow b).state ≠ [] := by
  intro h
  have hlen := length_rawURLEncode b.entropy.state
  rw [b.entropy.state_length,
    show rawURLEncode b.entropy.state = [] from h] at hlen
  cases hlen

/-- The cookie after a callback that found its flow: the pending flows
without this one. -/
theorem carried_consumed {j : Option (Fin 3)}
    {brought : Option SealedFlows} (hgood : GoodCookie a s j brought)
    {now : Int} {idx : Nat} {f : OidcFlow}
    (hflow : (pendingFlows brought now)[idx]? = some f) :
    carried (keepCookie none
        (some (consumeFlow (pendingFlows brought now) idx)))
      = (pendingFlows brought now).eraseIdx idx := by
  have hpending : pendingFlows brought now ≠ [] := by
    intro hnil
    rw [hnil] at hflow
    cases hflow
  obtain ⟨c, rfl, hsub⟩ := exists_cookie_of_pending hpending
  have hcarried := carried_consumeFlow (hgood.written c rfl) hsub idx
  rw [← hcarried]
  cases consumeFlow (pendingFlows (some c) now) idx <;> rfl

/-- The callback of a tab that brings its flow finds it, and takes it
out. -/
theorem TabsInv.callback_own (hs : TabsInv a login s)
    (hinj : DistinctStates login)
    {b : BeginCall} {brought : Option SealedFlows} {now : Int}
    (hi : s.tab i = .callbackSent b brought)
    (hlive : unix now < (own a b).exp) :
    ∃ idx, matchFlow (pendingFlows brought now) (a.newFlow b).state
        = some idx ∧ (pendingFlows brought now)[idx]? = some (own a b) := by
  have hbegun : (s.tab i).begun = some b := by
    rw [hi]
    rfl
  have hgood := hs.carries i brought (by rw [hi]; rfl)
  have hbrought : own a b ∈ carried brought := by
    have := hs.facts i
    rwa [hi] at this
  have hmem := (TabsInv.pending_iff hlive).mpr hbrought
  have hsome := matchFlow_isSome hmem
    (by rw [own_state]; exact newFlow_state_ne_nil a b)
  obtain ⟨idx, hidx⟩ := Option.isSome_iff_exists.mp hsome
  obtain ⟨f, hf, hstate, -⟩ := matchFlow_some hidx
  have hfmem : f ∈ carried brought :=
    (pendingFlows_sublist _ _).subset (List.mem_of_getElem? hf)
  rw [hs.eq_own hinj hgood hfmem hbegun hstate] at hf
  rw [own_state] at hidx
  exact ⟨idx, hidx, hf⟩

theorem TabsInv.process_callback (hs : TabsInv a login s)
    (hinj : DistinctStates login)
    {b : BeginCall} {brought : Option SealedFlows} {now : Int}
    (hi : s.tab i = .callbackSent b brought) (htime : InTime a s now)
    (error code : GoString) (w : CallbackWorld) :
    TabsInv a login ({ s with clock := now }.set i (.callbackDone b
      (decide (foundFlow brought now (a.newFlow b).state
        = some (a.newFlow b).coerced))
      (a.callback brought now ⟨(a.newFlow b).state, error, code⟩ w).1)) := by
  have hcarries : (s.tab i).carries = some brought := by
    rw [hi]
    rfl
  have hbegun : (s.tab i).begun = some b := by
    rw [hi]
    rfl
  have hgood := hs.carries i brought hcarries
  obtain ⟨idx, hidx, hflow⟩ := hs.callback_own hinj hi
    (htime i b (by rw [hi]; rfl))
  have hfound : decide (foundFlow brought now (a.newFlow b).state
      = some (a.newFlow b).coerced) = true := by
    rw [decide_eq_true_eq, foundFlow, hidx]
    exact hflow
  rw [hfound, callback_match hidx]
  have hrest := carried_consumed hgood hflow
  have hext : Extends s ({ s with clock := now }.set i
      (.callbackDone b true
        (some (consumeFlow (pendingFlows brought now) idx)))) := by
    refine extends_of_update rfl (fun b' hb' => ?_) fun b' hb' => ?_
    · rw [hbegun] at hb'
      exact hb'
    · rw [hi] at hb'
      exact hb'
  refine hs.replace rfl hext (fun b' hb' => ?_) (hs.cookie.mono hext)
    (fun k b' _ hb' => hs.present k b' hb') nofun (fun c hc => ?_)
    (fun c hc k b' hk hb' => ?_)
    (fun j c _ _ => ⟨fun _ _ => Iff.rfl, nofun⟩) ⟨rfl, rfl⟩
  · cases hb'
    exact hs.entropy i b hbegun
  · cases hc
    refine (hgood.part (fun d hd => ?_) ?_).mono hext
    · cases hw : consumeFlow (pendingFlows brought now) idx with
      | set c' =>
          rw [hw] at hd
          cases hd
          exact (consumeFlow_set hw).2
      | clear =>
          rw [hw] at hd
          cases hd
    · rw [hrest]
      exact (List.eraseIdx_sublist _ _).trans (pendingFlows_sublist _ _)
  · cases hc
    have hlive : unix now < (own a b').exp :=
      htime k b' (by rw [hb']; rfl)
    have hne : own a b' ≠ own a b := by
      intro heq
      refine hk (hs.own_inj hinj ?_ hbegun (congrArg OidcFlow.state heq))
      rw [hb']
      rfl
    rw [hrest]
    refine Iff.trans ?_ (hs.covers i brought hcarries k b' hk hb')
    rw [← TabsInv.pending_iff hlive]
    refine ⟨fun h => (List.eraseIdx_sublist _ _).subset h, fun h => ?_⟩
    obtain ⟨n, hn⟩ := List.mem_iff_getElem?.mp h
    refine List.mem_eraseIdx_iff_getElem?.mpr ⟨n, ?_, hn⟩
    rintro rfl
    exact hne (Option.some.inj (hn.symm.trans hflow))

theorem TabsInv.step {s' : Tabs} (hs : TabsInv a login s)
    (hinj : DistinctStates login)
    {e : TabsEvent} (hcond : TabsCondition a login e s)
    (h : a.tabs login e s = some s') : TabsInv a login s' := by
  cases e with
  | send i =>
      unfold Authenticator.tabs at h
      dsimp only at h
      split at h
      · rename_i hi
        cases h
        exact hs.send rfl (by rw [hi]; rfl) (by rw [hi]; rfl) trivial
      · rename_i b hi
        cases h
        exact hs.send rfl (by rw [hi]; rfl) (by rw [hi]; rfl)
          (hs.present i b hi)
      · cases h
  | process i now pendingNow error code w =>
      unfold Authenticator.tabs at h
      dsimp only at h
      split at h
      · split at h
        · rename_i brought hi
          cases h
          exact hs.process_begin hinj hi hcond.1 (hcond.2 brought hi)
        · rename_i b brought hi
          cases h
          exact hs.process_callback hinj hi hcond.1 error code w
        · cases h
      · cases h
  | arrive i =>
      unfold Authenticator.tabs at h
      dsimp only at h
      split at h
      · rename_i b write hi
        cases h
        exact hs.arrive_begin hinj hi hcond
      · rename_i b found write hi
        cases h
        exact hs.arrive_callback hi hcond
      · cases h

/-- What an arrival leaves in the browser: the cookie of the response, and
the other tabs as they were. -/
theorem TabsInv.arrive_cases {s' : Tabs} (hs : TabsInv a login s)
    (h : a.tabs login (.arrive i) s = some s') :
    (s.tab i).carries = some s'.cookie ∧ (∀ b, s.tab i ≠ .waiting b)
      ∧ ∀ k, k ≠ i → s'.tab k = s.tab k := by
  have hfacts := hs.facts i
  have hkeep : ∀ w, keepCookie s.cookie (some w)
      = keepCookie none (some w) := by
    intro w
    cases w <;> rfl
  unfold Authenticator.tabs at h
  dsimp only at h
  split at h
  · rename_i b write hi
    rw [hi] at hfacts
    obtain ⟨c, rfl, -⟩ := hfacts
    cases h
    rw [hi]
    exact ⟨rfl, nofun, fun k hk => Tabs.set_of_ne _ hk _⟩
  · rename_i b found write hi
    rw [hi] at hfacts
    obtain ⟨w, rfl⟩ := Option.isSome_iff_exists.mp hfacts.2
    cases h
    rw [hi]
    refine ⟨?_, nofun, fun k hk => Tabs.set_of_ne _ hk _⟩
    show some (keepCookie none (some w)) = some (keepCookie s.cookie _)
    rw [hkeep]
  · cases h

end Steps

-- ==== the statement

/-- Three tabs with different states. In every run whose steps meet the
condition, every callback that has been processed found its own flow. And
the condition on responses is exact: after a response arrives, the
browser's cookie holds the flow of every tab that waits for its callback
if and only if no other tab's `Begin` response came between that response
and its request, save for tabs that have sent their callback since. -/
theorem tabs_find_their_flow (a : Authenticator)
    (login : Fin 3 → TabLogin)
    (hinj : Function.Injective fun k =>
      rawURLEncode (login k).entropy.state)
    (clock : Int) (es : List TabsEvent) (s : Tabs)
    (hrun : Lib.run (a.tabs login) es (.init clock) = some s)
    (hcond : Lib.Along (TabsCondition a login) (a.tabs login) es
      (.init clock)) :
    (∀ k b found write, s.tab k = .callbackDone b found write →
      found = true)
    ∧ (∀ k b found, s.tab k = .returned b found → found = true)
    ∧ ∀ i s', a.tabs login (.arrive i) s = some s' →
        ((∀ k b, s'.tab k = .waiting b →
            (a.newFlow b).coerced ∈ carried s'.cookie)
          ↔ NoOverlap s i) := by
  have hs : TabsInv a login s :=
    Lib.run_invariant_along (P := TabsCondition a login)
      (fun _ _ _ hP hs h => hs.step hinj hP h) es hcond
      (tabsInv_init a login clock) hrun
  refine ⟨fun k b found write hk => ?_, fun k b found hk => ?_,
    fun i s' hstep => ⟨fun hpresent k hk b hb => ?_, fun hno => ?_⟩⟩
  · have hfacts := hs.facts k
    rw [hk] at hfacts
    exact hfacts.1
  · have hfacts := hs.facts k
    rwa [hk] at hfacts
  · obtain ⟨hcarries, hnot, hsame⟩ := hs.arrive_cases hstep
    have hki : k ≠ i := by
      rintro rfl
      exact hnot b hb
    exact (hs.covers i _ hcarries k b hki hb).mp
      (hpresent k b ((hsame k hki).trans hb)) hk
  · exact (hs.step hinj (e := .arrive i) hno hstep).present

section Examples

/-- Three logins with distinct random bytes. -/
def threeLogins (k : Fin 3) : TabLogin :=
  ⟨(loginOf (UInt8.ofNat k.val) []).entropy, ascii "/", []⟩

/-- A request of tab `i` is processed at time 0. -/
def processed (i : Fin 3) : TabsEvent :=
  .process i 0 0 [] (ascii "code") (worldOf 0)

/-- What tab `k` has found, once it has returned. -/
def Tabs.outcome (s : Tabs) (k : Fin 3) : Option Bool :=
  match s.tab k with
  | .returned _ found => some found
  | _ => none

/-- Two tabs log in one after the other, and return in the other
order. -/
theorem tabs_find_their_flow_nested :
    let es : List TabsEvent :=
      [.send 0, processed 0, .arrive 0, .send 1, processed 1, .arrive 1,
        .send 1, processed 1, .arrive 1, .send 0, processed 0, .arrive 0]
    ∃ s, Lib.run (plainAuthenticator.tabs threeLogins) es (.init 0)
        = some s
      ∧ s.outcome 0 = some true ∧ s.outcome 1 = some true := by
  intro es
  have hfacts : (Lib.run (plainAuthenticator.tabs threeLogins) es
      (.init 0)).map (fun s =>
        ((s.outcome 0).isSome, (s.outcome 1).isSome))
      = some (true, true) := by
    decide +kernel
  obtain ⟨s, hs, hval⟩ := Option.map_eq_some_iff.mp hfacts
  obtain ⟨-, hfound, -⟩ := tabs_find_their_flow plainAuthenticator
    threeLogins (by decide +kernel) 0 es s hs (by decide +kernel)
  have hout : ∀ k, (s.outcome k).isSome = true →
      s.outcome k = some true := by
    intro k hk
    unfold Tabs.outcome at hk ⊢
    split at hk
    · rename_i b found hret
      rw [hfound k b found hret]
    · cases hk
  rw [Prod.mk.injEq] at hval
  exact ⟨s, hs, hout 0 hval.1, hout 1 hval.2⟩

/-- Two tabs send their requests before either response arrives: the
second response's cookie has only its own flow, and the first tab's
login is lost. -/
theorem tabs_lose_a_flow :
    (Lib.run (plainAuthenticator.tabs threeLogins)
        [.send 0, .send 1, processed 0, processed 1, .arrive 0, .arrive 1,
          .send 0, processed 0, .arrive 0] (.init 0)).map
      (fun s => s.outcome 0) = some (some false) := by
  decide +kernel

end Examples

end Tokyo3Base.Oidc
