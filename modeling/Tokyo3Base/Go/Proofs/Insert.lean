/-
`strings.ReplaceAll` of values that were inserted into a text.

A text is a list of pieces: fixed texts and values. Values are replaced one
after the other. If matches of a value begin only in its own pieces
(`OnlyInserted`), replacing it in the text is replacing its pieces
(`replaceAll_shown`): a match that begins in such a piece is the piece, or
is skipped with it. The text it is looked for in is the one in which the
values before it are replaced already, so that the condition also is about
the new text that stands for them.
-/
import Tokyo3Base.Go.Proofs.Replace

namespace Tokyo3Base.Go

/-- A front in which no match starts is kept. -/
theorem replaceFrom_keep {pairs : List (GoString × GoString)} {r s : GoString}
    (h : ∀ i < r.length, ∀ p ∈ pairs, ¬ p.1 <+: (r ++ s).drop i) :
    replaceFrom pairs 0 (r ++ s) = r ++ replaceFrom pairs 0 s := by
  induction r with
  | nil => rfl
  | cons c r ih =>
      have hfirst : ∀ p ∈ pairs, ¬ p.1 <+: c :: (r ++ s) :=
        h 0 (Nat.zero_lt_succ _)
      rw [List.cons_append, replaceFrom_none hfirst, ih, List.cons_append]
      intro i hi p hp
      exact h (i + 1) (Nat.succ_lt_succ hi) p hp

/-- A text that is made of fixed texts and inserted values. -/
inductive Piece where
  | text (t : GoString)
  | value (v : GoString)
deriving DecidableEq

/-- The text of a piece, where some of the values are replaced. -/
def Piece.shown (new : GoString) (done : GoString → Bool) : Piece → GoString
  | .text t => t
  | .value v => if done v then new else v

def shown (new : GoString) (done : GoString → Bool) (ps : List Piece) :
    GoString :=
  ps.flatMap (Piece.shown new done)

/-- Matches of a value begin in a text only where it was inserted and is
not replaced yet. -/
def OnlyInserted (new : GoString) (done : GoString → Bool) (v : GoString) :
    List Piece → Prop
  | [] => True
  | p :: ps => ((p = .value v ∧ done v = false)
      ∨ ∀ i < (p.shown new done).length,
        ¬ v <+: (shown new done (p :: ps)).drop i)
    ∧ OnlyInserted new done v ps

instance decidableOnlyInserted (new : GoString) (done : GoString → Bool)
    (v : GoString) : ∀ ps, Decidable (OnlyInserted new done v ps)
  | [] => .isTrue trivial
  | p :: ps =>
      @instDecidableAnd _ _
        (inferInstanceAs (Decidable ((p = .value v ∧ done v = false)
          ∨ ∀ i < (p.shown new done).length,
            ¬ v <+: (shown new done (p :: ps)).drop i)))
        (decidableOnlyInserted new done v ps)

variable {new v : GoString} {done : GoString → Bool}

/-- `ReplaceAll` replaces a value where it was inserted. -/
theorem replaceAll_shown {ps : List Piece} (hne : v ≠ [])
    (h : OnlyInserted new done v ps) :
    replaceAll (shown new done ps) v new
      = shown new (fun w => done w || w == v) ps := by
  rw [replaceAll, if_neg hne]
  induction ps with
  | nil => rfl
  | cons p ps ih =>
      obtain ⟨hp, hps⟩ := h
      have hcons (done : GoString → Bool) : shown new done (p :: ps)
          = p.shown new done ++ shown new done ps := List.flatMap_cons
      rw [hcons] at hp
      rw [hcons, hcons, ← ih hps]
      by_cases hvalue : p = .value v ∧ done v = false
      · obtain ⟨rfl, hdone⟩ := hvalue
        simp only [Piece.shown, hdone, Bool.false_or, beq_self_eq_true,
          if_true, Bool.false_eq_true, if_false]
        exact replaceFrom_head hne _
      · have hsame : p.shown new (fun w => done w || w == v)
            = p.shown new done := by
          cases p with
          | text t => rfl
          | value w =>
              by_cases hw : w = v
              · subst hw
                have hdone : done w = true := by
                  simpa using fun hfalse => hvalue ⟨rfl, hfalse⟩
                simp [Piece.shown, hdone]
              · simp [Piece.shown, hw]
        rw [hsame]
        refine replaceFrom_keep fun i hi q hq => ?_
        rw [List.mem_singleton.mp hq]
        exact hp.resolve_left hvalue i hi

/-- A value that is the new text is replaced by itself. -/
theorem replaceAll_self (hne : v ≠ []) (s : GoString) :
    replaceAll s v v = s := by
  rw [replaceAll, if_neg hne]
  induction hlen : s.length using Nat.strongRecOn generalizing s with
  | ind n ih =>
      by_cases hpre : v <+: s
      · obtain ⟨t, rfl⟩ := hpre
        have hpos := List.length_pos_iff.mpr hne
        rw [List.length_append] at hlen
        rw [replaceFrom_head hne, ih t.length (by omega) t rfl]
      · cases s with
        | nil => rfl
        | cons c s =>
            rw [replaceFrom_none fun p hp => by rwa [List.mem_singleton.mp hp],
              ih s.length (by simp at hlen; omega) s rfl]

end Tokyo3Base.Go
