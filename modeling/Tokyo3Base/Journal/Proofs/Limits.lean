/-
The counters of a `Limits` count: after any interleaving of acquires and
of invocations of release functions they say how many slots are held.

# Slots

A slot is held from the acquire that was granted it until the body of its
release function has run; both are read off the run (`Limits.granted`,
`released`). The `Once` lets the body run once, so each slot is counted
once up and at most once down, whoever releases it and how often
(`LimitsOk`), and its `Once` is done if and only if the body is among the
actions (`slots_run`).

# Entries

A client without held slots has no entry: the body deletes what it would
leave at zero, and an acquire after that starts from nothing again.
-/
import Tokyo3Base.Lib.Run
import Tokyo3Base.Journal.Limits

namespace Tokyo3Base.Journal

open Go Lib

variable {ρ : Type}

-- ==== counting

/-- Acquired and not yet released. -/
def Slot.held (slot : Slot) : Bool := decide (slot.once ≠ .done)

/-- Held by a client. -/
def Slot.heldBy (key : GoString) (slot : Slot) : Bool :=
  decide (slot.key = key) && slot.held

theorem Slot.heldBy_fresh (key k : GoString) :
    Slot.heldBy k ⟨key, .fresh⟩ = decide (key = k) := Bool.and_true _

theorem Slot.heldBy_running (key k : GoString) :
    Slot.heldBy k ⟨key, .running⟩ = decide (key = k) := Bool.and_true _

theorem Slot.heldBy_done (key k : GoString) :
    Slot.heldBy k ⟨key, .done⟩ = false := Bool.and_false _

/-- A slot in place of another moves a count by the difference. -/
theorem countP_slots_set (p : Slot → Bool) {slot : Slot} (new : Slot) :
    ∀ {slots : List Slot} {i : Nat}, slots[i]? = some slot →
      ((slots.set i new).countP p : Int)
        = slots.countP p - (p slot).toNat + (p new).toNat
  | [], _, h => by cases h
  | first :: slots, 0, h => by
      cases h
      rw [List.set_cons_zero, List.countP_cons, List.countP_cons]
      cases p slot <;> cases p new <;> simp
  | first :: slots, i + 1, h => by
      have ih := countP_slots_set p new (show slots[i]? = some slot from h)
      rw [List.set_cons_succ, List.countP_cons, List.countP_cons]
      push_cast
      rw [ih]
      omega

theorem countP_slots_snoc (p : Slot → Bool) (slots : List Slot)
    (new : Slot) : ((slots ++ [new]).countP p : Int)
      = slots.countP p + (p new).toNat := by
  rw [List.countP_append, List.countP_singleton]
  cases p new <;> simp

-- ==== the invariant

/-- The counters say what is held, and no cap is exceeded. -/
structure LimitsOk (l : Limits ρ) (s : LimitsState) : Prop where
  total : s.total = s.slots.countP Slot.held
  client : 0 < l.maxPerClient → ∀ key,
    s.client key = s.slots.countP (Slot.heldBy key)
  entries : ∀ key count, s.perClient.get key = some count → 0 < count
  streams : 0 < l.maxStreams → s.total ≤ l.maxStreams
  perClient : 0 < l.maxPerClient → ∀ key, s.client key ≤ l.maxPerClient

theorem limitsOk_init (l : Limits ρ) : LimitsOk l .init where
  total := rfl
  client := fun _ _ => rfl
  entries := nofun
  streams := Int.le_of_lt
  perClient := fun h _ => Int.le_of_lt h

-- ==== the actions

/-- The cap of a scope is reached for a request. -/
def Limits.CapReached (l : Limits ρ) (s : LimitsState) (r : ρ) :
    LimitScope → Prop
  | .global => 0 < l.maxStreams ∧ s.total = l.maxStreams
  | .client => 0 < l.maxPerClient ∧ s.client (l.key r) = l.maxPerClient

/-- An acquire is refused where a cap is hit, and else takes a slot. -/
theorem Limits.acquire_cases (l : Limits ρ) (r : ρ) (s : LimitsState) :
    (0 < l.maxStreams ∧ l.maxStreams ≤ s.total
        ∧ l.acquire r s = (.error .global, s))
      ∨ (0 < l.maxPerClient ∧ l.maxPerClient ≤ s.client (l.key r)
        ∧ l.acquire r s = (.error .client, s))
      ∨ ((0 < l.maxStreams → s.total < l.maxStreams)
        ∧ (0 < l.maxPerClient → s.client (l.key r) < l.maxPerClient)
        ∧ l.acquire r s = (.ok s.slots.length,
          { total := s.total + 1
            perClient :=
              if 0 < l.maxPerClient then
                s.perClient.set (l.key r) (s.client (l.key r) + 1)
              else s.perClient
            slots := s.slots ++ [⟨l.key r, .fresh⟩] })) := by
  unfold Limits.acquire
  dsimp only
  split
  · rename_i h
    exact .inl ⟨h.1, h.2, rfl⟩
  · rename_i hstreams
    split
    · rename_i h
      exact .inr (.inl ⟨h.1, h.2, rfl⟩)
    · rename_i hclient
      exact .inr (.inr ⟨fun h => by omega, fun h => by omega, rfl⟩)

theorem Limits.step_cases {l : Limits ρ} {a : LimitsAction ρ}
    {s s' : LimitsState} (h : l.step a s = some s') :
    (∃ i, a = .release i ∧ s' = s)
      ∨ (∃ r, a = .acquire r ∧ s' = (l.acquire r s).2)
      ∨ (∃ i key, a = .release i ∧ s.slots[i]? = some ⟨key, .fresh⟩
        ∧ s' = { s with slots := s.slots.set i ⟨key, .running⟩ })
      ∨ ∃ i key, a = .body i ∧ s.slots[i]? = some ⟨key, .running⟩
        ∧ s' = l.releaseBody i key s := by
  cases a with
  | acquire r => exact .inr (.inl ⟨r, rfl, (Option.some.inj h).symm⟩)
  | release i =>
      obtain ⟨⟨key, once⟩, hslot, rfl⟩ := Option.map_eq_some_iff.mp h
      cases once with
      | fresh => exact .inr (.inr (.inl ⟨i, key, rfl, hslot, rfl⟩))
      | running => exact .inl ⟨i, rfl, rfl⟩
      | done => exact .inl ⟨i, rfl, rfl⟩
  | body i =>
      obtain ⟨⟨key, once⟩, hslot, hs⟩ := Option.bind_eq_some_iff.mp h
      cases once with
      | fresh => cases hs
      | running =>
          exact .inr (.inr (.inr
            ⟨i, key, rfl, hslot, (Option.some.inj hs).symm⟩))
      | done => cases hs

/-- A release function that is entered still holds its slot. -/
theorem LimitsOk.enter {l : Limits ρ} {s : LimitsState}
    (hs : LimitsOk l s) {i : Nat} {key : GoString}
    (hslot : s.slots[i]? = some ⟨key, .fresh⟩) :
    LimitsOk l { s with slots := s.slots.set i ⟨key, .running⟩ } where
  total := by
    have hcount := countP_slots_set Slot.held ⟨key, .running⟩ hslot
    rw [hcount, hs.total]
    exact (Int.sub_add_cancel _ _).symm
  client := fun hpos k => by
    have hcount := countP_slots_set (Slot.heldBy k) ⟨key, .running⟩ hslot
    rw [hcount]
    refine (hs.client hpos k).trans (Int.sub_add_cancel _ _).symm
  entries := hs.entries
  streams := hs.streams
  perClient := hs.perClient

theorem LimitsOk.client_nonneg {l : Limits ρ} {s : LimitsState}
    (hs : LimitsOk l s) (key : GoString) : 0 ≤ s.client key := by
  unfold LimitsState.client
  cases hget : s.perClient.get key with
  | none => exact Int.le_refl 0
  | some count => exact Int.le_of_lt (hs.entries key count hget)

theorem LimitsState.get_incremented (s : LimitsState) (key k : GoString) :
    (s.perClient.set key (s.client key + 1)).get k
      = if key = k then some (s.client k + 1) else s.perClient.get k := by
  split
  · rename_i hk
    rw [hk, Table.get_set_self]
  · rename_i hk
    rw [Table.get_set_ne _ fun h => hk h.symm]

theorem LimitsState.client_incremented (s : LimitsState)
    (key k : GoString) (total : Int) (slots : List Slot) :
    LimitsState.client
        ⟨total, s.perClient.set key (s.client key + 1), slots⟩ k
      = s.client k + (decide (key = k)).toNat := by
  rw [LimitsState.client, s.get_incremented]
  by_cases hk : key = k
  · rw [if_pos hk, decide_eq_true hk]
    rfl
  · rw [if_neg hk, decide_eq_false hk]
    exact (Int.add_zero _).symm

theorem LimitsOk.acquire {l : Limits ρ} {s : LimitsState}
    (hs : LimitsOk l s) (r : ρ) : LimitsOk l (l.acquire r s).2 := by
  rcases l.acquire_cases r s with ⟨-, -, h⟩ | ⟨-, -, h⟩ | ⟨hroom, hroom', h⟩
  · rw [h]
    exact hs
  · rw [h]
    exact hs
  · rw [h]
    refine ⟨?_, fun hpos k => ?_, fun k count => ?_, hroom, fun hpos k => ?_⟩
    · rw [countP_slots_snoc, hs.total]
      rfl
    · simp only [if_pos hpos]
      rw [s.client_incremented, countP_slots_snoc, hs.client hpos,
        Slot.heldBy_fresh]
    · dsimp only
      split
      · rw [s.get_incremented]
        split
        · rintro ⟨⟩
          have := hs.client_nonneg k
          omega
        · exact hs.entries k count
      · exact hs.entries k count
    · simp only [if_pos hpos]
      rw [s.client_incremented]
      by_cases hk : l.key r = k
      · rw [decide_eq_true hk, ← hk]
        exact hroom' hpos
      · rw [decide_eq_false hk]
        exact (Int.add_zero _).symm ▸ hs.perClient hpos k

/-- The map after a release: an entry is one less, or gone. -/
theorem LimitsState.get_decremented (s : LimitsState) (key k : GoString) :
    (s.decremented key).get k
      = if key = k then
          if s.client k - 1 ≤ 0 then none else some (s.client k - 1)
        else s.perClient.get k := by
  unfold LimitsState.decremented
  dsimp only
  rw [Table.get_set_self, Option.getD_some]
  by_cases hk : key = k
  · rw [if_pos hk, hk]
    split
    · rw [Table.get_retain, Table.get_set_self]
      exact Option.filter_some_neg (by simp)
    · exact Table.get_set_self _ _ _
  · have hk' : k ≠ key := fun h => hk h.symm
    rw [if_neg hk]
    split
    · rw [Table.get_retain, Table.get_set_ne _ hk', decide_eq_true hk']
      cases s.perClient.get k with
      | none => rfl
      | some _ => rfl
    · exact Table.get_set_ne _ hk' _

theorem LimitsState.client_decremented {s : LimitsState} {key : GoString}
    (hpos : 0 < s.client key) (k : GoString) (total : Int)
    (slots : List Slot) :
    LimitsState.client ⟨total, s.decremented key, slots⟩ k
      = s.client k - (decide (key = k)).toNat := by
  rw [LimitsState.client, s.get_decremented]
  by_cases hk : key = k
  · subst hk
    rw [if_pos rfl, decide_eq_true rfl]
    split
    · show (0 : Int) = s.client key - 1
      omega
    · rfl
  · rw [if_neg hk, decide_eq_false hk]
    exact (Int.sub_zero _).symm

/-- The body of a release function gives its slot back. -/
theorem LimitsOk.body {l : Limits ρ} {s : LimitsState}
    (hs : LimitsOk l s) {i : Nat} {key : GoString}
    (hslot : s.slots[i]? = some ⟨key, .running⟩) :
    LimitsOk l (l.releaseBody i key s) := by
  have hheld : 0 < l.maxPerClient → 0 < s.client key := fun hpos => by
    rw [hs.client hpos key]
    refine Int.natCast_pos.mpr (List.countP_pos_iff.mpr
      ⟨_, List.mem_of_getElem? hslot, ?_⟩)
    rw [Slot.heldBy_running, decide_eq_true rfl]
  have hclient : 0 < l.maxPerClient → ∀ k, (l.releaseBody i key s).client k
      = s.client k - (decide (key = k)).toNat := fun hpos k => by
    simp only [Limits.releaseBody, if_pos hpos]
    exact LimitsState.client_decremented (hheld hpos) k _ _
  refine ⟨?_, fun hpos k => ?_, fun k count => ?_, fun hpos => ?_,
    fun hpos k => ?_⟩
  · have hcount := countP_slots_set Slot.held ⟨key, .done⟩ hslot
    simp only [Limits.releaseBody]
    rw [hcount, hs.total]
    exact (Int.add_zero _).symm
  · have hcount := countP_slots_set (Slot.heldBy k) ⟨key, .done⟩ hslot
    rw [hclient hpos, hs.client hpos]
    simp only [Limits.releaseBody]
    rw [hcount, Slot.heldBy_running, Slot.heldBy_done]
    exact (Int.add_zero _).symm
  · simp only [Limits.releaseBody]
    split
    · rw [s.get_decremented]
      split
      · split
        · nofun
        · rintro ⟨⟩
          omega
      · exact hs.entries k count
    · exact hs.entries k count
  · have := hs.streams hpos
    simp only [Limits.releaseBody]
    omega
  · have := hs.perClient hpos k
    rw [hclient hpos]
    omega

theorem LimitsOk.step {l : Limits ρ} {a : LimitsAction ρ}
    {s s' : LimitsState} (hs : LimitsOk l s) (h : l.step a s = some s') :
    LimitsOk l s' := by
  rcases Limits.step_cases h with ⟨-, -, rfl⟩ | ⟨r, -, rfl⟩
    | ⟨i, key, -, hslot, rfl⟩ | ⟨i, key, -, hslot, rfl⟩
  · exact hs
  · exact hs.acquire r
  · exact hs.enter hslot
  · exact hs.body hslot

/-- A refused acquire changed nothing, and its cap is reached. -/
theorem LimitsOk.refused {l : Limits ρ} {s s' : LimitsState}
    (hs : LimitsOk l s) {r : ρ} {scope : LimitScope}
    (h : l.acquire r s = (.error scope, s')) :
    s' = s ∧ l.CapReached s r scope := by
  rcases l.acquire_cases r s with ⟨hpos, hcap, h'⟩ | ⟨hpos, hcap, h'⟩
    | ⟨-, -, h'⟩
  · cases h'.symm.trans h
    exact ⟨rfl, hpos, Int.le_antisymm (hs.streams hpos) hcap⟩
  · cases h'.symm.trans h
    exact ⟨rfl, hpos, Int.le_antisymm (hs.perClient hpos _) hcap⟩
  · cases h'.symm.trans h

-- ==== the run of a slot

/-- The key of the slot that an action is granted. -/
def Limits.grant (l : Limits ρ) (s : LimitsState) :
    LimitsAction ρ → List GoString
  | .acquire r =>
      match (l.acquire r s).1 with
      | .ok _ => [l.key r]
      | .error _ => []
  | _ => []

/-- The keys of the slots that a run is granted, in their order. -/
def Limits.granted (l : Limits ρ) :
    List (LimitsAction ρ) → LimitsState → List GoString
  | [], _ => []
  | a :: actions, s =>
      l.grant s a ++ l.granted actions ((l.step a s).getD s)

/-- The body of the release function `i`. -/
def LimitsAction.isBody (i : Nat) : LimitsAction ρ → Bool
  | .body j => j == i
  | _ => false

/-- The body of the release function `i` runs among the actions. -/
def released (actions : List (LimitsAction ρ)) (i : Nat) : Bool :=
  actions.any (·.isBody i)

/-- How many slots with such a key a run is granted and does not
release. -/
def Limits.heldAfter (l : Limits ρ) (actions : List (LimitsAction ρ))
    (p : GoString → Bool) : Nat :=
  (l.granted actions .init).zipIdx.countP
    fun slot => p slot.1 && !released actions slot.2

/-- The `Once` of slot `i` is done. -/
def LimitsState.done (s : LimitsState) (i : Nat) : Prop :=
  s.slots[i]?.map Slot.once = some .done

theorem getElem?_set_slot {slots : List Slot} {i : Nat} {slot new : Slot}
    (h : slots[i]? = some slot) (j : Nat) :
    (slots.set i new)[j]? = if i = j then some new else slots[j]? := by
  have hlt : i < slots.length := (List.getElem?_eq_some_iff.mp h).1
  rw [List.getElem?_set]
  simp only [if_pos hlt]

theorem map_key_set {slots : List Slot} {i : Nat} {key : GoString}
    {once once' : Once} (h : slots[i]? = some ⟨key, once⟩) :
    (slots.set i ⟨key, once'⟩).map Slot.key = slots.map Slot.key := by
  refine List.ext_getElem? fun j => ?_
  rw [List.getElem?_map, List.getElem?_map, getElem?_set_slot h]
  split
  · rename_i hij
    rw [← hij, h]
    rfl
  · rfl

theorem keys_step {l : Limits ρ} {a : LimitsAction ρ} {s s' : LimitsState}
    (h : l.step a s = some s') :
    s'.slots.map Slot.key = s.slots.map Slot.key ++ l.grant s a := by
  rcases Limits.step_cases h with ⟨i, rfl, rfl⟩ | ⟨r, rfl, rfl⟩
    | ⟨i, key, rfl, hslot, rfl⟩ | ⟨i, key, rfl, hslot, rfl⟩
  · exact (List.append_nil _).symm
  · rcases l.acquire_cases r s with ⟨-, -, h⟩ | ⟨-, -, h⟩ | ⟨-, -, h⟩
    · simp only [Limits.grant, h, List.append_nil]
    · simp only [Limits.grant, h, List.append_nil]
    · simp only [Limits.grant, h, List.map_append]
      rfl
  · exact (map_key_set hslot).trans (List.append_nil _).symm
  · exact (map_key_set hslot).trans (List.append_nil _).symm

theorem done_step {l : Limits ρ} {a : LimitsAction ρ} {s s' : LimitsState}
    (h : l.step a s = some s') (i : Nat) :
    s'.done i ↔ s.done i ∨ a.isBody i = true := by
  rcases Limits.step_cases h with ⟨j, rfl, rfl⟩ | ⟨r, rfl, rfl⟩
    | ⟨j, key, rfl, hslot, rfl⟩ | ⟨j, key, rfl, hslot, rfl⟩
  · simp [LimitsAction.isBody]
  · rcases l.acquire_cases r s with ⟨-, -, h⟩ | ⟨-, -, h⟩ | ⟨-, -, h⟩
    · simp [LimitsAction.isBody, h]
    · simp [LimitsAction.isBody, h]
    · simp only [h, LimitsState.done, LimitsAction.isBody,
        List.getElem?_append]
      split
      · simp
      · -- the new slot is fresh, and there was none
        rw [List.getElem?_singleton, List.getElem?_eq_none (by omega)]
        split <;> simp
  · simp only [LimitsState.done, LimitsAction.isBody,
      getElem?_set_slot hslot]
    split
    · rename_i hij
      rw [← hij, hslot]
      simp
    · simp
  · simp only [LimitsState.done, LimitsAction.isBody, Limits.releaseBody,
      getElem?_set_slot hslot]
    split <;> simp_all

theorem slots_run {l : Limits ρ} {actions : List (LimitsAction ρ)}
    {s s' : LimitsState} (hrun : run l.step actions s = some s') :
    s'.slots.map Slot.key = s.slots.map Slot.key ++ l.granted actions s
      ∧ ∀ i, s'.done i ↔ s.done i ∨ released actions i = true := by
  induction actions generalizing s with
  | nil =>
      cases hrun
      exact ⟨(List.append_nil _).symm, fun i => by simp [released]⟩
  | cons a actions ih =>
      obtain ⟨s₁, hstep, hrest⟩ := run_cons hrun
      obtain ⟨hkeys, hdone⟩ := ih hrest
      refine ⟨?_, fun i => ?_⟩
      · rw [hkeys, keys_step hstep, Limits.granted, hstep, Option.getD_some,
          List.append_assoc]
      · rw [hdone, done_step hstep, or_assoc, released, released,
          List.any_cons, Bool.or_eq_true]

/-- So the slots that are held are those that are not released. -/
theorem countP_held {l : Limits ρ} {actions : List (LimitsAction ρ)}
    {s : LimitsState} (hrun : run l.step actions .init = some s)
    (p : GoString → Bool) :
    s.slots.countP (fun slot => p slot.key && slot.held)
      = l.heldAfter actions p := by
  obtain ⟨hkeys, hdone⟩ := slots_run hrun
  have hgranted : l.granted actions .init = s.slots.map Slot.key :=
    hkeys.symm
  unfold Limits.heldAfter
  rw [hgranted, List.zipIdx_map, List.countP_map]
  calc s.slots.countP (fun slot => p slot.key && slot.held)
      = (s.slots.zipIdx.map Prod.fst).countP
          (fun slot => p slot.key && slot.held) := by
        rw [List.zipIdx_map_fst]
    _ = _ := by
        rw [List.countP_map]
        refine List.countP_congr fun e he => ?_
        have hslot : s.slots[e.2]? = some e.1 :=
          List.mk_mem_zipIdx_iff_getElem?.mp he
        have hiff : e.1.once = .done ↔ released actions e.2 = true := by
          have hrel := hdone e.2
          simp only [LimitsState.done, hslot] at hrel
          simpa [LimitsState.init] using hrel
        simp [Slot.held, hiff]

/-- The counters say how many slots the run holds, and no cap is
exceeded. -/
structure LimitsCount (l : Limits ρ) (actions : List (LimitsAction ρ))
    (s : LimitsState) : Prop where
  total : s.total = l.heldAfter actions fun _ => true
  client : 0 < l.maxPerClient → ∀ key,
    s.client key = l.heldAfter actions fun k => decide (k = key)
  entries : ∀ key count, s.perClient.get key = some count → 0 < count
  streams : 0 < l.maxStreams → s.total ≤ l.maxStreams
  perClient : 0 < l.maxPerClient → ∀ key, s.client key ≤ l.maxPerClient

/-- After any interleaving, the counters say how many slots were acquired
and not yet released, no cap is exceeded, and an acquire that is refused
then changes nothing and found its cap reached. -/
theorem limits_count (l : Limits ρ) (actions : List (LimitsAction ρ))
    (s : LimitsState) (hrun : run l.step actions .init = some s) :
    LimitsCount l actions s
      ∧ ∀ r scope s', l.acquire r s = (.error scope, s') →
        s' = s ∧ l.CapReached s r scope := by
  have hs : LimitsOk l s := run_invariant
    (fun _ _ _ hs h => hs.step h) actions (limitsOk_init l) hrun
  refine ⟨⟨?_, fun hpos key => ?_, hs.entries, hs.streams, hs.perClient⟩,
    fun _ _ _ h => hs.refused h⟩
  · rw [hs.total, ← countP_held hrun]
    rfl
  · rw [hs.client hpos, ← countP_held hrun]
    rfl

/-- Two streams in all, one for each client. -/
def oneEach : Limits GoString where
  maxStreams := 2
  maxPerClient := 1
  clientKey := some id
  retryAfter := defaultRetryAfter
  maxStreams_nonneg := by decide
  maxPerClient_nonneg := by decide
  clientKey_isSome := fun _ => rfl
  retryAfter_pos := by decide

/-- A slot that is released three times is given back once: no stream is
left, and no entry. The client may then have one again, and no second. -/
theorem limits_count_released :
    ∃ s s', run oneEach.step [.acquire [97], .acquire [97], .release 0,
        .release 0, .body 0, .release 0] .init = some s
      ∧ s.total = 0 ∧ s.perClient.get [97] = none
      ∧ oneEach.step (.acquire [97]) s = some s'
      ∧ s'.total = 1 ∧ s'.perClient.get [97] = some 1
      ∧ LimitsCount oneEach [.acquire [97], .acquire [97], .release 0,
        .release 0, .body 0, .release 0, .acquire [97]] s'
      ∧ oneEach.acquire [97] s' = (.error .client, s')
      ∧ oneEach.CapReached s' [97] .client := by
  have hrun : run oneEach.step [.acquire [97], .acquire [97], .release 0,
        .release 0, .body 0, .release 0, .acquire [97]] .init
      = some ⟨1, Table.empty.set [97] 1,
          [⟨[97], .done⟩, ⟨[97], .fresh⟩]⟩ := rfl
  obtain ⟨hcount, hrefused⟩ := limits_count oneEach _ _ hrun
  exact ⟨_, _, rfl, rfl, rfl, rfl, rfl, rfl, hcount, rfl,
    (hrefused [97] .client _ rfl).2⟩

end Tokyo3Base.Journal
