/-
Facts about `path.Clean` on rooted paths, through the survivors of its
elements.

`Clean` walks the elements from left to right with a stack. For a
rooted path that is the cancellation of `Lib/Cancel.lean`: empty
elements and `.` do nothing, `..` pops, every other name pushes. So the
cleaned path is the slash and the names that no later `..` removes
(`clean_rooted`), and everything below is read off that.
-/
import Tokyo3Base.Go.URL
import Tokyo3Base.Lib.Cancel

namespace Tokyo3Base.Go

open Lib (survivors)

section Split

variable {sep : UInt8}

theorem split_ne_nil (sep : UInt8) (u : GoString) : split sep u ≠ [] := by
  cases u with
  | nil => simp [split]
  | cons c cs =>
      simp only [split]
      split
      · simp
      · split <;> simp

theorem split_cons_sep (u : GoString) :
    split sep (sep :: u) = [] :: split sep u := by
  simp [split]

theorem split_cons_of_ne {c : UInt8} (hc : c ≠ sep) (u : GoString) :
    ∃ w ws, split sep u = w :: ws ∧ split sep (c :: u) = (c :: w) :: ws := by
  obtain ⟨w, ws, hw⟩ := List.exists_cons_of_ne_nil (split_ne_nil sep u)
  exact ⟨w, ws, hw, by simp [split, hc, hw]⟩

theorem split_append (u v : GoString) :
    split sep (u ++ sep :: v) = split sep u ++ split sep v := by
  induction u with
  | nil => exact split_cons_sep v
  | cons c cs ih =>
      by_cases hc : c = sep
      · subst hc
        rw [List.cons_append, split_cons_sep, split_cons_sep, ih,
          List.cons_append]
      · obtain ⟨w, ws, hw, hcw⟩ := split_cons_of_ne hc cs
        obtain ⟨w', ws', hw', hcw'⟩ := split_cons_of_ne hc (cs ++ sep :: v)
        rw [ih, hw, List.cons_append] at hw'
        cases hw'
        rw [List.cons_append, hcw, hcw', List.cons_append]

theorem split_append_sep (u : GoString) :
    split sep (u ++ [sep]) = split sep u ++ [[]] :=
  split_append u []

theorem length_split (u : GoString) :
    (split sep u).length = u.count sep + 1 := by
  induction u with
  | nil => rfl
  | cons c cs ih =>
      by_cases hc : c = sep
      · subst hc
        rw [split_cons_sep, List.length_cons, ih, List.count_cons_self]
      · obtain ⟨w, ws, hw, hcons⟩ := split_cons_of_ne hc cs
        rw [hcons, List.count_cons_of_ne hc, ← ih, hw]
        rfl

theorem mem_of_mem_split {u w : GoString} (hw : w ∈ split sep u)
    {c : UInt8} (hc : c ∈ w) : c ∈ u ∧ c ≠ sep := by
  induction u generalizing w with
  | nil =>
      rw [split, List.mem_singleton] at hw
      rw [hw] at hc
      cases hc
  | cons d ds ih =>
      have hlift : ∀ {w}, w ∈ split sep ds → c ∈ w → c ∈ d :: ds ∧ c ≠ sep :=
        fun hw hc => (ih hw hc).imp_left (List.mem_cons_of_mem d)
      by_cases hd : d = sep
      · subst hd
        rw [split_cons_sep] at hw
        rcases List.mem_cons.mp hw with rfl | hw
        · cases hc
        · exact hlift hw hc
      · obtain ⟨v, vs, hv, hdv⟩ := split_cons_of_ne hd ds
        rw [hdv] at hw
        rw [hv] at hlift
        rcases List.mem_cons.mp hw with rfl | hw
        · rcases List.mem_cons.mp hc with rfl | hc
          · exact ⟨List.mem_cons_self, hd⟩
          · exact hlift List.mem_cons_self hc
        · exact hlift (List.mem_cons_of_mem _ hw) hc

/-- The length of some pieces, with one separator each. -/
def cost (ws : List GoString) : Nat :=
  ws.foldr (fun w n => w.length + 1 + n) 0

theorem cost_sublist {ws vs : List GoString} (h : ws.Sublist vs) :
    cost ws ≤ cost vs := by
  induction h with
  | slnil => exact Nat.le_refl _
  | cons a _ ih =>
      simp only [cost, List.foldr_cons] at ih ⊢
      omega
  | cons_cons a _ ih =>
      simp only [cost, List.foldr_cons] at ih ⊢
      omega

theorem length_join (sep : UInt8) {ws : List GoString} (h : ws ≠ []) :
    (join sep ws).length + 1 = cost ws := by
  induction ws with
  | nil => exact absurd rfl h
  | cons w ws ih =>
      cases ws with
      | nil => simp [join, cost]
      | cons v vs =>
          have := ih (by simp)
          simp only [join, cost, List.foldr_cons,
            List.length_append, List.length_cons] at this ⊢
          omega

theorem length_join_eq (sep : UInt8) (ws : List GoString) :
    (join sep ws).length = cost ws - 1 := by
  by_cases h : ws = []
  · rw [h]
    rfl
  · have := length_join sep h
    omega

theorem join_sublist {ws vs : List GoString} (h : ws.Sublist vs) :
    (join sep ws).Sublist (join sep vs) := by
  induction h with
  | slnil => exact .refl _
  | @cons ws vs v h ih =>
      refine ih.trans ?_
      cases vs with
      | nil => exact List.nil_sublist v
      | cons w vs =>
          exact (List.sublist_cons_self _ _).trans (List.sublist_append_right _ _)
  | @cons_cons ws vs v h ih =>
      cases ws with
      | nil =>
          cases vs with
          | nil => exact .refl _
          | cons w vs => exact List.sublist_append_left _ _
      | cons u ws =>
          cases vs with
          | nil => cases h
          | cons w vs => exact (ih.cons_cons sep).append_left v

theorem mem_join {ws : List GoString} {c : UInt8} (h : c ∈ join sep ws) :
    c = sep ∨ ∃ w ∈ ws, c ∈ w := by
  induction ws with
  | nil => cases h
  | cons w ws ih =>
      cases ws with
      | nil => exact .inr ⟨w, List.mem_cons_self, h⟩
      | cons v vs =>
          rcases List.mem_append.mp h with h | h
          · exact .inr ⟨w, List.mem_cons_self, h⟩
          · rcases List.mem_cons.mp h with rfl | h
            · exact .inl rfl
            · rcases ih h with rfl | ⟨x, hx, hcx⟩
              · exact .inl rfl
              · exact .inr ⟨x, List.mem_cons_of_mem _ hx, hcx⟩

theorem head_join {w : GoString} {ws : List GoString} (hw : w ≠ []) :
    (join sep (w :: ws)).head? = w.head? := by
  obtain ⟨c, cs, rfl⟩ := List.exists_cons_of_ne_nil hw
  cases ws with
  | nil => rfl
  | cons v vs => rfl

theorem split_eq_singleton {w : GoString} (hw : sep ∉ w) :
    split sep w = [w] := by
  induction w with
  | nil => rfl
  | cons c cs ih =>
      have hc : c ≠ sep := fun h => hw (h ▸ List.mem_cons_self)
      have ih' := ih fun h => hw (List.mem_cons_of_mem _ h)
      obtain ⟨v, vs, hv, hcv⟩ := split_cons_of_ne hc cs
      rw [ih'] at hv
      cases hv
      exact hcv

theorem split_append_cons {w : GoString} (hw : sep ∉ w) (u : GoString) :
    split sep (w ++ sep :: u) = w :: split sep u := by
  rw [split_append, split_eq_singleton hw, List.singleton_append]

theorem split_join {ws : List GoString} (hne : ws ≠ [])
    (h : ∀ v ∈ ws, sep ∉ v) : split sep (join sep ws) = ws := by
  induction ws with
  | nil => exact absurd rfl hne
  | cons w ws ih =>
      have hw := h w List.mem_cons_self
      cases ws with
      | nil => exact split_eq_singleton hw
      | cons v vs =>
          have ih' := ih (by simp) fun x hx => h x (List.mem_cons_of_mem _ hx)
          rw [join, split_append_cons hw, ih']
          simp

theorem join_split (u : GoString) : join sep (split sep u) = u := by
  induction u with
  | nil => rfl
  | cons c cs ih =>
      by_cases hc : c = sep
      · subst hc
        obtain ⟨w, ws, hw⟩ :=
          List.exists_cons_of_ne_nil (split_ne_nil c cs)
        rw [split_cons_sep, hw, join, ← hw, ih]
        · rfl
        · simp
      · obtain ⟨w, ws, hw, hcw⟩ := split_cons_of_ne hc cs
        rw [hw] at ih
        rw [hcw, ← ih]
        cases ws <;> rfl
end Split

-- ==== survivors

/-- What an element of a rooted path does to the names kept so far. -/
def elementEffect (e : GoString) : Lib.Effect :=
  if skipped e then .skip else if e = dotDot then .pop else .push

/-- The names of a rooted path that no later `..` removes, in order. -/
def surviving (p : GoString) : List GoString :=
  survivors elementEffect (split slash p)

/-- On a rooted path `..` never stays, so `Clean`'s stack is plain
cancellation. -/
theorem foldl_cleanStep (es stack : List GoString)
    (hstack : dotDot ∉ stack) :
    es.foldl (cleanStep true) stack
      = es.foldl (Lib.stackStep elementEffect) stack := by
  induction es generalizing stack with
  | nil => rfl
  | cons e es ih =>
      have hstep : cleanStep true stack e
          = Lib.stackStep elementEffect stack e := by
        unfold cleanStep Lib.stackStep elementEffect
        split
        · rfl
        · split
          · cases stack with
            | nil => rfl
            | cons top rest =>
                have htop : top ≠ dotDot :=
                  fun h => hstack (h ▸ List.mem_cons_self)
                simp [htop]
          · rfl
      have hkeep : dotDot ∉ Lib.stackStep elementEffect stack e := by
        unfold Lib.stackStep elementEffect
        split
        · exact hstack
        · rename_i hpush
          intro hmem
          rcases List.mem_cons.mp hmem with rfl | hmem
          · simp [skipped, dotDot] at hpush
          · exact hstack hmem
        · exact fun hmem => hstack (List.mem_of_mem_tail hmem)
      rw [List.foldl_cons, List.foldl_cons, hstep]
      exact ih _ hkeep

theorem clean_rooted (u : GoString) :
    clean (slash :: u) = slash :: join slash (surviving u) := by
  have hfold : ((split slash (slash :: u)).foldl (cleanStep true)
      []).reverse = surviving u := by
    rw [foldl_cleanStep _ _ List.not_mem_nil, Lib.foldl_stackStep_nil,
      split_cons_sep, Lib.survivors_cons_skip rfl]
    rfl
  simp only [clean, List.head?_cons, beq_self_eq_true, if_true, hfold]

/-- Survivors are names of the path: not empty, made of its bytes, none
of them a slash. -/
theorem surviving_name {u w : GoString} (hw : w ∈ surviving u) :
    w ≠ [] ∧ ∀ c ∈ w, c ∈ u ∧ c ≠ slash := by
  refine ⟨?_, fun c hc => mem_of_mem_split
    ((Lib.survivors_sublist _).subset hw) hc⟩
  rintro rfl
  have := Lib.effect_of_mem_survivors hw
  simp [elementEffect, skipped] at this

theorem surviving_append_slash (u : GoString) :
    surviving (u ++ [slash]) = surviving u := by
  rw [surviving, split_append_sep, Lib.survivors_append_skip rfl]
  rfl

theorem surviving_cons_slash (u : GoString) :
    surviving (slash :: u) = surviving u := by
  rw [surviving, split_cons_sep, Lib.survivors_cons_skip rfl]
  rfl

theorem clean_append_slash (u : GoString) :
    clean (slash :: (u ++ [slash])) = clean (slash :: u) := by
  rw [clean_rooted, clean_rooted, surviving_append_slash]

theorem surviving_join (u : GoString) :
    surviving (join slash (surviving u)) = surviving u := by
  cases hk : surviving u with
  | nil => rfl
  | cons w ws =>
      have hnames : ∀ v ∈ w :: ws, slash ∉ v := by
        intro v hv hmem
        rw [← hk] at hv
        exact ((surviving_name hv).2 slash hmem).2 rfl
      rw [surviving, split_join (by simp) hnames, ← hk]
      exact Lib.survivors_of_push fun e he => Lib.effect_of_mem_survivors he

theorem clean_clean (u : GoString) :
    clean (clean (slash :: u)) = clean (slash :: u) := by
  rw [clean_rooted, clean_rooted, surviving_join]

/-- `Clean` only leaves out. -/
theorem clean_sublist (u : GoString) :
    (clean (slash :: u)).Sublist (slash :: u) := by
  have : (join slash (Lib.survivors elementEffect (split slash u))).Sublist _ :=
    join_sublist (Lib.survivors_sublist (split slash u))
  rw [join_split] at this
  rw [clean_rooted]
  exact this.cons_cons slash

theorem length_clean_le (u : GoString) :
    (clean (slash :: u)).length ≤ u.length + 1 :=
  (clean_sublist u).length_le

theorem mem_of_mem_clean {u : GoString} {c : UInt8}
    (h : c ∈ clean (slash :: u)) : c = slash ∨ c ∈ u :=
  List.mem_cons.mp ((clean_sublist u).subset h)

-- ==== the trailing slash

/-- A text that ends in a byte, split off there. -/
theorem eq_append_of_endsIn {u : GoString} {b : UInt8}
    (h : endsIn u b = true) : ∃ u', u = u' ++ [b] := by
  have hlast : u.getLast? = some b := by simpa [endsIn] using h
  exact List.getLast?_eq_some_iff.mp hlast

/-- `Clean` that keeps a trailing slash: perhaps one slash more, and it
still only leaves out. -/
theorem cleanKeepSlash_rooted (u : GoString) :
    ∃ tail, (tail = []
        ∨ tail = [slash] ∧ endsIn (clean (slash :: u)) slash = false)
      ∧ cleanKeepSlash (slash :: u) = clean (slash :: u) ++ tail
      ∧ (clean (slash :: u) ++ tail).Sublist (slash :: u) := by
  unfold cleanKeepSlash
  dsimp only
  split
  · rename_i h
    rw [Bool.and_eq_true, Bool.not_eq_true'] at h
    refine ⟨[slash], .inr ⟨rfl, h.2⟩, rfl, ?_⟩
    obtain ⟨v, hv⟩ := eq_append_of_endsIn h.1
    cases v with
    | nil =>
        -- the bare root keeps its slash already
        cases hv
        exact absurd h.2 (by decide)
    | cons c v =>
        rw [List.cons_append] at hv
        obtain ⟨-, rfl⟩ := List.cons.inj hv
        rw [clean_append_slash]
        exact (clean_sublist v).append_right [slash]
  · exact ⟨[], .inl rfl, (List.append_nil _).symm,
      by rw [List.append_nil]; exact clean_sublist u⟩

/-- A clean path other than the root does not end in a slash. -/
theorem endsIn_of_clean {u : GoString}
    (h : clean (slash :: u) = slash :: u) (hne : u ≠ []) :
    endsIn (slash :: u) slash = false := by
  cases hend : endsIn (slash :: u) slash with
  | false => rfl
  | true =>
      obtain ⟨v, hv⟩ := eq_append_of_endsIn hend
      cases v with
      | nil =>
          cases hv
          exact absurd rfl hne
      | cons c v =>
          rw [List.cons_append] at hv
          obtain ⟨-, rfl⟩ := List.cons.inj hv
          rw [clean_append_slash] at h
          have hlen := length_clean_le v
          rw [h] at hlen
          simp only [List.length_cons, List.length_append,
            List.length_nil] at hlen
          omega

/-- A clean path with a slash appended is kept as it is. -/
theorem cleanKeepSlash_of_clean {u : GoString}
    (h : clean (slash :: u) = slash :: u) (hne : u ≠ []) :
    cleanKeepSlash (slash :: (u ++ [slash])) = slash :: (u ++ [slash]) := by
  have hends : endsIn (slash :: (u ++ [slash])) slash = true := by
    simp [endsIn, List.getLast?_cons, List.getLast?_append]
  simp only [cleanKeepSlash, clean_append_slash, h, hends,
    endsIn_of_clean h hne, Bool.not_false, Bool.and_self, if_true,
    List.cons_append]

end Tokyo3Base.Go
