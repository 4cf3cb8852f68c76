/-
The token bucket: it refills at a constant rate up to its capacity, and
a request takes one token or is turned away. Nothing is rounded.

# The accounting

`available` is what a request finds. It never exceeds the capacity, it
never grows faster than the rate (`available_le_add`), and a request
that is let through lowers it by one (`available_take_le`). These three
are all that a bound on the requests of a time window needs.
-/
import Mathlib.Algebra.Order.Field.Basic
import Mathlib.Tactic.Linarith

namespace Tokyo3Base.Lib

variable {𝕜 : Type}

/-- What is stored: the tokens there were at some moment. -/
structure TokenBucket (𝕜 : Type) where
  tokens : 𝕜
  last : 𝕜
deriving DecidableEq

namespace TokenBucket

variable [Field 𝕜] [LinearOrder 𝕜]

/-- The tokens there are at a later moment. -/
def available (rate burst : 𝕜) (b : TokenBucket 𝕜) (now : 𝕜) : 𝕜 :=
  min burst (b.tokens + rate * max 0 (now - b.last))

/-- A request. One that is turned away leaves no trace. -/
def take (rate burst : 𝕜) (b : TokenBucket 𝕜) (now : 𝕜) :
    Bool × TokenBucket 𝕜 :=
  if 1 ≤ b.available rate burst now then
    (true, ⟨b.available rate burst now - 1, now⟩)
  else (false, b)

variable {rate burst : 𝕜} {b : TokenBucket 𝕜} {now later : 𝕜}

theorem available_le_burst : b.available rate burst now ≤ burst :=
  min_le_left _ _

/-- What is stored is from the request at the latest, unless it was
from later before and the request is turned away. -/
theorem take_last_le (h : b.last ≤ now ∨ 1 ≤ b.available rate burst now) :
    (b.take rate burst now).2.last ≤ now := by
  unfold take
  split
  · exact le_refl now
  · rename_i hno
    exact h.resolve_right hno

variable [IsStrictOrderedRing 𝕜]

theorem available_nonneg (hrate : 0 ≤ rate) (hburst : 0 ≤ burst)
    (hb : 0 ≤ b.tokens) : 0 ≤ b.available rate burst now :=
  le_min hburst
    (add_nonneg hb (mul_nonneg hrate (le_max_left 0 _)))

/-- A bucket that is full stays full until a request comes. -/
theorem available_full (hrate : 0 ≤ rate) (last : 𝕜) :
    available rate burst ⟨burst, last⟩ now = burst :=
  min_eq_left (le_add_of_nonneg_right
    (mul_nonneg hrate (le_max_left 0 _)))

/-- A bucket is full again once its rate has had the time. -/
theorem available_idle (hrate : 0 ≤ rate) (hb : 0 ≤ b.tokens)
    {since : 𝕜} (hlast : b.last ≤ since)
    (hidle : burst ≤ rate * (now - since)) :
    b.available rate burst now = burst := by
  refine min_eq_left ?_
  have hle : now - since ≤ max 0 (now - b.last) :=
    (sub_le_sub_left hlast now).trans (le_max_right _ _)
  have hmul := mul_le_mul_of_nonneg_left hle hrate
  linarith

/-- It grows no faster than the rate. -/
theorem available_le_add (hrate : 0 ≤ rate) (h : now ≤ later) :
    b.available rate burst later
      ≤ b.available rate burst now + rate * (later - now) := by
  have hgap : 0 ≤ rate * (later - now) :=
    mul_nonneg hrate (sub_nonneg.mpr h)
  have hmax : max 0 (later - b.last)
      ≤ max 0 (now - b.last) + (later - now) := by
    refine max_le ?_ ?_
    · exact add_nonneg (le_max_left _ _) (sub_nonneg.mpr h)
    · linarith [le_max_right 0 (now - b.last)]
  have hmul := mul_le_mul_of_nonneg_left hmax hrate
  rw [mul_add] at hmul
  unfold available
  rw [← min_add_add_right]
  refine min_le_min ?_ ?_ <;> linarith

/-- A request that is let through costs a token. -/
theorem available_take_le (hrate : 0 ≤ rate) (h : now ≤ later) :
    (b.take rate burst now).2.available rate burst later
      ≤ b.available rate burst now
        - (if (b.take rate burst now).1 then 1 else 0)
        + rate * (later - now) := by
  unfold take
  split
  · have hmax : max 0 (later - now) = later - now :=
      max_eq_right (sub_nonneg.mpr h)
    simp [available, hmax]
  · simpa using available_le_add hrate h

/-- No request takes what is not there. -/
theorem take_tokens_nonneg (hb : 0 ≤ b.tokens) :
    0 ≤ (b.take rate burst now).2.tokens := by
  unfold take
  split
  · rename_i h
    exact sub_nonneg.mpr h
  · exact hb

end TokenBucket

end Tokyo3Base.Lib
