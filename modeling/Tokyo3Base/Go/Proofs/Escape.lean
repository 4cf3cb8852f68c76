/-
What the escaping of package `net/url` writes, and that it is read back.

A byte of an escaped text is a `%`, a hexadecimal digit or a byte that the
part of the URL need not escape (`mem_escape`); so no delimiter is one of
them. Outside hosts every escape is allowed, and `unescape` takes an escaped
text back to what it was, whichever of the parts it was escaped for.
-/
import Tokyo3Base.Go.Proofs.NetURL

namespace Tokyo3Base.Go

theorem escape?_upperHex (c : UInt8) :
    escape? (upperHex (c / 16)) (upperHex (c % 16)) = some c :=
  forall_byte (P := fun c => escape? (upperHex (c / 16))
    (upperHex (c % 16)) = some c) (by decide +kernel) c

namespace NetURL

-- ==== what is written

/-- A byte that ends no part of a URL and is not refused. -/
def isPlain (c : UInt8) : Bool :=
  !isCTL c && c != hash && c != question

theorem isAlnum_upperHex (c : UInt8) :
    isAlnum (upperHex (c / 16)) = true ∧ isAlnum (upperHex (c % 16)) = true :=
  forall_byte (P := fun c => isAlnum (upperHex (c / 16)) = true
    ∧ isAlnum (upperHex (c % 16)) = true) (by decide +kernel) c

theorem mem_escape {s : GoString} {mode : Mode} {c : UInt8}
    (h : c ∈ escape s mode) :
    shouldEscape c mode = false ∨ c = percent ∨ c = 43 := by
  obtain ⟨d, -, hc⟩ := List.mem_flatMap.mp h
  have halnum {x : UInt8} (hx : isAlnum x = true) :
      shouldEscape x mode = false := by
    unfold shouldEscape
    exact if_pos hx
  split at hc
  · exact .inr (.inr (List.mem_singleton.mp hc))
  · split at hc
    · rcases List.mem_cons.mp hc with rfl | hc
      · exact .inr (.inl rfl)
      · rcases List.mem_cons.mp hc with rfl | hc
        · exact .inl (halnum (isAlnum_upperHex d).1)
        · rw [List.mem_singleton.mp hc]
          exact .inl (halnum (isAlnum_upperHex d).2)
    · next hplain =>
      rw [List.mem_singleton.mp hc]
      exact .inl ((Bool.not_eq_true _).mp hplain)

theorem not_mem_escape {s : GoString} {mode : Mode} {c : UInt8}
    (hc : shouldEscape c mode = true) (hne : c ≠ percent ∧ c ≠ 43) :
    c ∉ escape s mode := by
  intro hmem
  rcases mem_escape hmem with hplain | heq | heq
  · rw [hc] at hplain
    cases hplain
  · exact hne.1 heq
  · exact hne.2 heq

/-- Every part of a URL but a fragment escapes what ends it. -/
theorem shouldEscape_of_not_isPlain {mode : Mode} (hmode : mode ≠ .fragment)
    {c : UInt8} (hc : isPlain c = false) : shouldEscape c mode = true := by
  have hall := forall_byte (P := fun c => isPlain c = false →
    [Mode.path, .pathSegment, .host, .zone, .userPassword,
      .queryComponent].all (shouldEscape c) = true) (by decide +kernel) c hc
  refine List.all_eq_true.mp hall mode ?_
  cases mode with
  | fragment => exact absurd rfl hmode
  | _ => decide

theorem isPlain_escape {s : GoString} {mode : Mode} (hmode : mode ≠ .fragment)
    {c : UInt8} (h : c ∈ escape s mode) : isPlain c = true := by
  cases hc : isPlain c with
  | true => rfl
  | false =>
      have hescaped := shouldEscape_of_not_isPlain hmode hc
      refine absurd h (not_mem_escape hescaped ⟨?_, ?_⟩)
      · rintro rfl
        exact absurd hc (by decide)
      · rintro rfl
        exact absurd hc (by decide)

-- ==== what is read back

/-- The parts of a URL in which every escape is allowed and no byte stands
for another. -/
def Mode.Literal (mode : Mode) : Prop :=
  mode ≠ .host ∧ mode ≠ .zone ∧ mode ≠ .queryComponent

theorem escapeAllowed_literal {mode : Mode} (hmode : mode.Literal)
    (h l b : UInt8) : escapeAllowed mode h l b = true := by
  cases mode with
  | host => exact absurd rfl hmode.1
  | zone => exact absurd rfl hmode.2.1
  | _ => rfl

theorem unescape_cons {mode : Mode} (hmode : mode.Literal) {c : UInt8}
    (hc : c ≠ percent) (s : GoString) :
    unescape mode (c :: s) = (unescape mode s).map (c :: ·) := by
  have hhost : ¬ ((mode = .host ∨ mode = .zone) ∧ c < 128
      ∧ shouldEscape c mode = true) :=
    fun h => h.1.elim hmode.1 hmode.2.1
  conv => lhs; unfold unescape
  rw [if_neg hc, if_neg hhost]
  simp only [if_neg fun h : c = 43 ∧ mode = .queryComponent => hmode.2.2 h.2]

theorem unescape_percent {mode : Mode} (hmode : mode.Literal)
    (c : UInt8) (s : GoString) :
    unescape mode (percent :: upperHex (c / 16) :: upperHex (c % 16) :: s)
      = (unescape mode s).map (c :: ·) := by
  rw [unescape, if_pos rfl, escape?_upperHex]
  exact if_pos (escapeAllowed_literal hmode _ _ c)

/-- An escaped text is read back, whatever part it was escaped for. -/
theorem unescape_escape {mode mode' : Mode} (hmode : mode.Literal)
    (hmode' : mode' ≠ .queryComponent) (s : GoString) :
    unescape mode (escape s mode') = .ok s := by
  induction s with
  | nil => rfl
  | cons c s ih =>
      rw [escape, List.flatMap_cons, ← escape, if_neg fun h => hmode' h.2]
      split
      · show unescape mode (percent :: upperHex (c / 16)
          :: upperHex (c % 16) :: escape s mode') = _
        rw [unescape_percent hmode, ih]
        rfl
      · next hplain =>
        have hc : c ≠ percent := by
          rintro rfl
          exact hplain (by cases mode' <;> rfl)
        rw [List.singleton_append, unescape_cons hmode hc, ih]
        rfl

example : escape (ascii "a/b c") .pathSegment = ascii "a%2Fb%20c" := by
  decide +kernel

/-- A text without a `%` stands for itself. -/
theorem unescape_eq_self {mode : Mode} (hmode : mode.Literal) {s : GoString}
    (h : percent ∉ s) : unescape mode s = .ok s := by
  induction s with
  | nil => rfl
  | cons c s ih =>
      have hc : c ≠ percent := fun heq => h (heq ▸ List.mem_cons_self)
      rw [unescape_cons hmode hc, ih fun hmem => h (List.mem_cons_of_mem c hmem)]
      rfl

theorem unescape_append {mode : Mode} (hmode : mode.Literal)
    {x y a b : GoString} (hx : unescape mode x = .ok a)
    (hy : unescape mode y = .ok b) :
    unescape mode (x ++ y) = .ok (a ++ b) := by
  fun_induction unescape mode x generalizing a with
  | case1 =>
      cases hx
      exact hy
  | case3 h l s c hc hok ih =>
      obtain ⟨a', ha', rfl⟩ := map_ok hx
      show unescape mode (percent :: h :: l :: (s ++ y)) = _
      rw [unescape, if_pos rfl, hc, ih ha']
      exact if_pos hok
  | case7 c s hc hhost ih =>
      obtain ⟨a', ha', rfl⟩ := map_ok hx
      rw [List.cons_append, unescape_cons hmode hc, ih ha',
        if_neg fun h => hmode.2.2 h.2]
      rfl
  | _ => cases hx

end NetURL

end Tokyo3Base.Go
