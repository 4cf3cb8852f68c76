/-
`SanitizeDBConn` against the driver's reading of a connection string: what
it returns is the fixed text for an invalid string, or the fields of the
driver whose keys are safe, as they are written. No other field leaves a
trace in it.

Two readers go over the same text. The code reads it with a regular
expression, trims it before and after each field, and gives up where the
expression does not match; the driver takes what stands before the next
`=` for a key and trims ASCII white space only. They stay in step
(`InStep`) unless a vertical tab, which is white space for one of them
only, stands before or behind a value; white space beyond ASCII that the
code trims off the end of the text is part of the driver's last value.
Where the expression matches less than the driver reads, it does not match
what follows.

Where they are in step, the code shows the fields whose keys become safe
once they are trimmed and in lower case, so that it is right if and only
if these are safe as they are written.
-/
import Mathlib.Data.List.Forall2
import Tokyo3Base.Db.ConnString
import Tokyo3Base.Go.Proofs.NetURL
import Tokyo3Base.Go.Proofs.Path
import Tokyo3Base.Go.Proofs.Strings
import Tokyo3Base.Lib.ConnInfo

namespace Tokyo3Base.Db

open Go Lib
open ConnInfo (Field fields fieldsFrom isSpace bareLen valueLen trimEnd
  next bareLen_byte valueLen_bare bareLen_space)

-- ==== kept

/-- The key of a field is one of those that may be shown. -/
def isSafe (f : Field) : Bool := safeFields.contains f.key

/-- What may be shown of a connection string. -/
def safeTexts (s : GoString) : List GoString :=
  ((fields s).filter isSafe).map Field.text

/-- The code shows a field: its key is safe without the white space around
it, in lower case. -/
def isShown (toLower : ToLower) (f : Field) : Bool :=
  safeConnField toLower (trimSpace f.key)

/-- What it shows of the field. -/
def shownText (f : Field) : GoString :=
  trimSpace f.key ++ f.gap ++ 61 :: f.skip ++ f.value

/-- The readers are in step over a field, with this text behind it. -/
structure InStep (toLower : ToLower) (f : Field) (rest : GoString) :
    Prop where
  /-- no vertical tab stands before the value -/
  skip : 11 ∉ f.skip
  /-- and none ends it, unless nothing follows -/
  stop : f.stop = [11] → trimSpace rest = []
  /-- a value that is shown last does not end with white space beyond
  ASCII -/
  value : isShown toLower f = true → f.quoted = false → trimSpace rest = [] →
    ∀ w ∈ wideSpaces, ¬ w <:+ f.value

/-- They are in step over all fields; where the driver reads no more, there
is no vertical tab. -/
def StayInStep (toLower : ToLower) : Nat → GoString → Prop
  | 0, _ => True
  | n + 1, s =>
      match next s with
      | none => 11 ∉ trimSpace s
      | some (f, rest) => InStep toLower f rest ∧ StayInStep toLower n rest

-- ==== bytes

theorem isSpace_of_isRegexpSpace {c : UInt8} (h : isRegexpSpace c = true) :
    isSpace c = true :=
  forall_byte (P := fun c => isRegexpSpace c = true →
    isSpace c = true) (by decide +kernel) c h

/-- Only the vertical tab is white space for the driver alone. -/
theorem isRegexpSpace_of_isSpace {c : UInt8} (h : isSpace c = true)
    (hc : c ≠ 11) : isRegexpSpace c = true :=
  forall_byte (P := fun c => isSpace c = true → c ≠ 11 →
    isRegexpSpace c = true) (by decide +kernel) c h hc

theorem isSpace_of_isWordByte {c : UInt8} (h : isWordByte c = true) :
    isSpace c = false ∧ c ≠ 61 :=
  forall_byte (P := fun c => isWordByte c = true →
    isSpace c = false ∧ c ≠ 61) (by decide +kernel) c h

theorem wide_bytes {w : GoString} (hw : w ∈ wideSpaces) :
    w ≠ [] ∧ ∀ c ∈ w, isSpace c = false ∧ c ≠ 61 ∧ c ≠ backslash
      ∧ c ≠ 39 :=
  (by decide +kernel : ∀ w ∈ wideSpaces, w ≠ [] ∧ ∀ c ∈ w,
    isSpace c = false ∧ c ≠ 61 ∧ c ≠ backslash ∧ c ≠ 39) w hw

theorem not_mem_equals_of_spaces {t : GoString} (h : Spaces wideSpaces t) :
    61 ∉ t := by
  induction h using Spaces.induct with
  | nil => exact List.not_mem_nil
  | cons u t hu _ ih =>
      intro hmem
      refine (List.mem_append.mp hmem).elim (fun h61 => ?_) ih
      obtain ⟨c, hc, rfl⟩ | hwide := hu
      · obtain rfl := List.mem_singleton.mp h61
        exact absurd hc (by decide)
      · exact ((wide_bytes hwide).2 61 h61).2.1 rfl

/-- What is left of white space once that of ASCII is taken off its front:
nothing, or a wider one. -/
theorem dropWhile_spaces {t : GoString} (h : Spaces wideSpaces t) :
    (∀ s, (t ++ s).dropWhile isSpace = s.dropWhile isSpace)
      ∨ ∃ w t', w ∈ wideSpaces ∧ Spaces wideSpaces t'
        ∧ ∀ s, (t ++ s).dropWhile isSpace = w ++ (t' ++ s) := by
  induction h using Spaces.induct with
  | nil => exact .inl fun _ => rfl
  | cons u t hu ht ih =>
      obtain ⟨c, hc, rfl⟩ | hwide := hu
      · have hdrop : ∀ s, ([c] ++ t ++ s).dropWhile isSpace
            = (t ++ s).dropWhile isSpace := fun s =>
          List.dropWhile_cons_of_pos hc
        simp only [hdrop]
        exact ih
      · refine .inr ⟨u, t, hwide, ht, fun s => ?_⟩
        obtain ⟨hne, hbytes⟩ := wide_bytes hwide
        obtain ⟨c, v, rfl⟩ := List.exists_cons_of_ne_nil hne
        rw [List.append_assoc, List.cons_append, List.dropWhile_cons_of_neg]
        simp [(hbytes c List.mem_cons_self).1]

-- ==== parts of a match

/-- A text, cut where a class of bytes ends. -/
theorem exists_span (p : UInt8 → Bool) (s : GoString) :
    ∃ a b, s = a ++ b ∧ s.takeWhile p = a ∧ (∀ c ∈ a, p c = true)
      ∧ b.head?.any p = false := by
  refine ⟨s.takeWhile p, s.dropWhile p, List.takeWhile_append_dropWhile.symm,
    rfl, fun c hc => List.mem_takeWhile_imp hc, ?_⟩
  have hhead := List.head?_dropWhile_not p s
  cases hb : (s.dropWhile p).head? with
  | none => rfl
  | some c =>
      rw [hb] at hhead
      exact hhead

/-- A text that the expression matches, cut into its parts. -/
structure Parts (rest : GoString) where
  key : GoString
  gap : GoString
  skip : GoString
  /-- what is left for the value, and behind it -/
  tail : GoString
  text : rest = key ++ gap ++ 61 :: skip ++ tail
  key_ne : key ≠ []
  key_word : ∀ c ∈ key, isWordByte c = true
  gap_space : ∀ c ∈ gap, isRegexpSpace c = true
  skip_space : ∀ c ∈ skip, isRegexpSpace c = true
  tail_head : tail.head?.any isRegexpSpace = false

/-- The match itself. -/
def Parts.matched {rest : GoString} (p : Parts rest) : GoString :=
  p.key ++ p.gap ++ 61 :: p.skip ++ p.tail.take (matchValue p.tail)

theorem word_ne_nil {s : GoString} (h : s.head?.any isWordStart = true) :
    s.takeWhile isWordByte ≠ [] := by
  cases s with
  | nil => simp at h
  | cons c s =>
      have hc : isWordByte c = true := by
        simp only [List.head?_cons, Option.any_some] at h
        simp [isWordByte, h]
      simp [hc]

theorem parts_of_match {rest : GoString} {k len : Nat}
    (h : matchField rest = some (k, len)) :
    ∃ p : Parts rest, rest.take k = p.key
      ∧ rest.take len = p.matched
      ∧ rest.drop len = p.tail.drop (matchValue p.tail) := by
  obtain ⟨key, r, rfl, hkey, hword, -⟩ := exists_span isWordByte rest
  obtain ⟨gap, r, rfl, hgap, hgapSpace, -⟩ := exists_span isRegexpSpace r
  unfold matchField at h
  dsimp only at h
  rw [hkey, List.drop_left, hgap, ← List.append_assoc, ← List.length_append,
    List.drop_left] at h
  split at h
  · cases h
  · rename_i hstart
    split at h
    · cases h
    · rename_i heq
      obtain ⟨r, rfl⟩ : ∃ r', r = 61 :: r' := by
        cases r with
        | nil => simp at heq
        | cons d r => exact ⟨r, by simpa using heq⟩
      obtain ⟨skip, tail, rfl, hskip, hskipSpace, hhead⟩ :=
        exists_span isRegexpSpace r
      have hdrop : (key ++ gap ++ 61 :: (skip ++ tail)).drop
          ((key ++ gap).length + 1) = skip ++ tail := by
        rw [← List.drop_drop, List.drop_left]
        rfl
      rw [hdrop, hskip, List.drop_left] at h
      obtain ⟨rfl, rfl⟩ := Prod.mk.inj (Option.some.inj h)
      have hne : key ≠ [] := by
        rw [List.append_assoc] at hstart
        rw [← hkey]
        exact word_ne_nil (by simpa using hstart)
      have htext : key ++ (gap ++ 61 :: (skip ++ tail))
          = key ++ gap ++ 61 :: skip ++ tail := by simp
      have hlen : (key ++ gap).length + 1 + skip.length
          = (key ++ gap ++ 61 :: skip).length := by
        simp [Nat.add_assoc, Nat.add_comm 1]
      rw [hlen]
      exact ⟨⟨key, gap, skip, tail, htext, hne, hword, hgapSpace, hskipSpace,
        hhead⟩, List.take_left,
        (congrArg (List.take _) htext).trans (List.take_length_add_append _),
        (congrArg (List.drop _) htext).trans (List.drop_length_add_append _)⟩

-- ==== keys

theorem trimEnd_append {y gap : GoString} {c : UInt8}
    (hc : isSpace c = false) (hgap : ∀ b ∈ gap, isSpace b = true) :
    trimEnd (y ++ [c] ++ gap) = y ++ [c] := by
  have hrev : ∀ b ∈ gap.reverse, isSpace b = true := fun b hb =>
    hgap b (List.mem_reverse.mp hb)
  unfold trimEnd
  rw [List.reverse_append, List.dropWhile_append_of_pos hrev,
    List.reverse_append, List.reverse_singleton, List.singleton_append,
    List.dropWhile_cons_of_neg (by simp [hc])]
  simp

theorem trimSpace_of_spaces {t : GoString} (h : Spaces wideSpaces t) :
    trimSpace t = [] := by
  have := trimSpace_spaces h []
  rwa [List.append_nil] at this

/-- The key of the driver is that of the match, but for white space beyond
ASCII at its front. -/
theorem key_of_parts {rest : GoString} (p : Parts rest) {l : GoString}
    (hl : Spaces wideSpaces l) {name : GoString}
    (hname : name = (l ++ (p.key ++ p.gap)).dropWhile isSpace) :
    trimEnd name ≠ [] ∧ trimSpace (trimEnd name) = p.key
      ∧ name.drop (trimEnd name).length = p.gap := by
  obtain ⟨key, c, hkey⟩ : ∃ key c, p.key = key ++ [c] :=
    ⟨_, _, (List.dropLast_concat_getLast p.key_ne).symm⟩
  have hc : isSpace c = false :=
    (isSpace_of_isWordByte (p.key_word c (by simp [hkey]))).1
  have hgap : ∀ b ∈ p.gap, isSpace b = true := fun b hb =>
    isSpace_of_isRegexpSpace (p.gap_space b hb)
  have hself : trimSpace p.key = p.key := trimSpace_eq_self fun b hb =>
    forall_byte (P := fun b => isWordByte b = true → isVisible b = true)
      (by decide +kernel) b (p.key_word b hb)
  -- what is left of the white space in front
  obtain ⟨x, hx, hdrop⟩ : ∃ x, Spaces wideSpaces x
      ∧ name = x ++ p.key ++ p.gap := by
    obtain hdrop | ⟨w, t, hw, ht, hdrop⟩ := dropWhile_spaces hl
    · obtain ⟨b, k, hk⟩ := List.exists_cons_of_ne_nil p.key_ne
      have hb := (isSpace_of_isWordByte (p.key_word b (by simp [hk]))).1
      refine ⟨[], .nil, ?_⟩
      rw [hname, hdrop, hk, List.cons_append,
        List.dropWhile_cons_of_neg (by simp [hb])]
      rfl
    · exact ⟨w ++ t, ht.cons (.inr hw), by rw [hname, hdrop]; simp⟩
  have htrim : trimEnd name = x ++ p.key := by
    have := trimEnd_append (y := x ++ key) hc hgap
    rw [hdrop, hkey]
    simpa using this
  rw [htrim]
  refine ⟨by simp [p.key_ne], ?_, ?_⟩
  · rw [trimSpace_spaces hx, hself]
  · rw [hdrop, List.drop_left]

-- ==== values

/-- In quotes both readers go to the same quote. -/
theorem quotedLen_of_match {s : GoString} {n : Nat}
    (h : matchQuoted s = some n) :
    n ≤ s.length ∧ ∀ t, ConnInfo.quotedLen (s ++ t) = some n := by
  fun_induction matchQuoted s generalizing n with
  | case1 => cases h
  | case2 s =>
      obtain rfl := Option.some.inj h
      exact ⟨by simp, fun t => ConnInfo.quotedLen_quote _⟩
  | case3 => cases h
  | case4 => cases h
  | case5 d s hc hd ih =>
      obtain ⟨m, hm, rfl⟩ := Option.map_eq_some_iff.mp h
      obtain ⟨hle, hlen⟩ := ih hm
      refine ⟨by simpa using hle, fun t => ?_⟩
      exact (ConnInfo.quotedLen_escape d (s ++ t)).trans (by rw [hlen]; rfl)
  | case6 c s hq hb ih =>
      obtain ⟨m, hm, rfl⟩ := Option.map_eq_some_iff.mp h
      obtain ⟨hle, hlen⟩ := ih hm
      refine ⟨by simpa using hle, fun t => ?_⟩
      rw [List.cons_append, ConnInfo.quotedLen_byte hq hb, hlen]
      rfl

/-- Without quotes the expression stops at white space or at what it does
not match. -/
theorem matchBare_stop (s : GoString) :
    s.drop (matchBare s) = [] ∨ ∃ c r, s.drop (matchBare s) = c :: r
      ∧ (isRegexpSpace c = true ∨ c = 39 ∨ c = backslash) := by
  fun_induction matchBare s with
  | case1 => exact .inl rfl
  | case2 => exact .inr ⟨_, _, rfl, .inr (.inr rfl)⟩
  | case3 => exact .inr ⟨_, _, rfl, .inr (.inr rfl)⟩
  | case4 d s hd ih => exact ih
  | case5 c s hb hc =>
      refine .inr ⟨c, s, rfl, ?_⟩
      rw [Bool.or_eq_true, beq_iff_eq] at hc
      exact hc.imp_right .inl
  | case6 c s hb hc ih => exact ih

theorem bareLen_append {u : GoString}
    (hu : ∀ c ∈ u, isSpace c = false ∧ c ≠ backslash) (s : GoString) :
    bareLen (u ++ s) = (bareLen s).map (· + u.length) := by
  induction u with
  | nil => simp
  | cons c u ih =>
      obtain ⟨hc, hb⟩ := hu c List.mem_cons_self
      rw [List.cons_append, bareLen_byte hc hb,
        ih fun d hd => hu d (List.mem_cons_of_mem c hd)]
      simp [Function.comp_def, Nat.add_assoc]

/-- Up to there the driver reads on, or it stops at a vertical tab. -/
theorem bareLen_of_match (s : GoString) :
    matchBare s ≤ s.length
      ∧ ((∀ r, bareLen (s.take (matchBare s) ++ r)
          = (bareLen r).map (· + matchBare s))
        ∨ ∃ j r, s.drop j = 11 :: r
          ∧ ∀ t, bareLen (s ++ t) = some j) := by
  fun_induction matchBare s with
  | case1 => exact ⟨Nat.le_refl 0, .inl fun r => by simp⟩
  | case2 => exact ⟨Nat.zero_le _, .inl fun r => by simp⟩
  | case3 => exact ⟨Nat.zero_le _, .inl fun r => by simp⟩
  | case4 d s hd ih =>
      obtain ⟨hle, hlen⟩ := ih
      refine ⟨by simpa using hle, hlen.imp (fun hlen r => ?_) ?_⟩
      · rw [List.take_succ_cons, List.take_succ_cons, List.cons_append,
          List.cons_append]
        refine (ConnInfo.bareLen_escape d _).trans ?_
        rw [hlen]
        simp [Function.comp_def, Nat.add_assoc]
      · rintro ⟨j, r, hdrop, hstop⟩
        refine ⟨j + 2, r, hdrop, fun t => ?_⟩
        exact (ConnInfo.bareLen_escape d (s ++ t)).trans (by rw [hstop]; rfl)
  | case5 => exact ⟨Nat.zero_le _, .inl fun r => by simp⟩
  | case6 c s hb hc ih =>
      obtain ⟨hle, hlen⟩ := ih
      refine ⟨by simpa using hle, ?_⟩
      by_cases h11 : c = 11
      · refine .inr ⟨0, s, by rw [h11]; rfl, fun t => ?_⟩
        exact bareLen_space (by rw [h11]; decide) (s ++ t)
      · have hspace : isSpace c = false := by
          rw [← Bool.not_eq_true]
          intro hsp
          exact hc (by rw [isRegexpSpace_of_isSpace hsp h11]; rfl)
        refine hlen.imp (fun hlen r => ?_) ?_
        · rw [List.take_succ_cons, List.cons_append,
            bareLen_byte hspace hb, hlen]
          simp [Function.comp_def, Nat.add_assoc]
        · rintro ⟨j, r, hdrop, hstop⟩
          refine ⟨j + 1, r, hdrop, fun t => ?_⟩
          rw [List.cons_append, bareLen_byte hspace hb, hstop]
          rfl

/-- A value that goes on into white space ends where that of ASCII begins,
and then with a wider one. -/
theorem bareLen_spaces {t : GoString} (h : Spaces wideSpaces t) :
    (bareLen t = some 0 ∧ Spaces wideSpaces (t.drop 1))
      ∨ ∃ j w, bareLen t = some j ∧ w ∈ wideSpaces
        ∧ w <:+ t.take j ∧ Spaces wideSpaces (t.drop (j + 1)) := by
  induction h using Spaces.induct with
  | nil => exact .inl ⟨rfl, .nil⟩
  | cons u t hu ht ih =>
      obtain ⟨c, hc, rfl⟩ | hwide := hu
      · exact .inl ⟨bareLen_space hc t, ht⟩
      · have hbytes := (wide_bytes hwide).2
        have happ := bareLen_append (u := u) (fun c hc =>
          ⟨(hbytes c hc).1, (hbytes c hc).2.2.1⟩) t
        rw [happ]
        obtain ⟨h0, hsp⟩ | ⟨j, w, hj, hw, hsuf, hsp⟩ := ih
        · have htake : (u ++ t).take u.length = u := List.take_left
          refine .inr ⟨u.length, u, by rw [h0]; simp, hwide, ?_, ?_⟩
          · exact htake.symm ▸ List.suffix_refl u
          · rwa [List.drop_length_add_append]
        · refine .inr ⟨j + u.length, w, by rw [hj]; rfl, hw, ?_, ?_⟩
          · rw [Nat.add_comm, List.take_length_add_append]
            exact hsuf.trans (List.suffix_append u _)
          · rwa [Nat.add_right_comm, Nat.add_comm (j + 1),
              List.drop_length_add_append]

/-- The driver reads the value that the expression matches, behind no more
white space. -/
structure Agrees (tail t v : GoString) (len : Nat) : Prop where
  value : v.take len = tail.take (matchValue tail)
  skip : v ≠ [] → (tail ++ t).takeWhile isSpace = []
  empty : v = [] → tail = []

/-- A value with white space beyond ASCII at its end. -/
structure EndsWide (value : GoString) : Prop where
  bare : (value.head? == some ConnInfo.quote) = false
  wide : ∃ w ∈ wideSpaces, w <:+ value

/-- The driver's reading of a text behind a `=`, given how much of it the
expression matches: the same, or more with the end of the text. -/
structure Reads (tail t v : GoString) (len stop : Nat) : Prop where
  length : valueLen v = some (len, stop)
  rest : trimSpace (v.drop (len + stop))
    = trimSpace (tail.drop (matchValue tail))
  value : Agrees tail t v len
    ∨ EndsWide (v.take len) ∧ trimSpace (v.drop (len + stop)) = []

/-- A vertical tab is in the way: before the value, or behind it. -/
structure AtTab (tail t v : GoString) : Prop where
  mem : 11 ∈ tail
  tab : ∀ len stop, valueLen v = some (len, stop) →
    (v ≠ [] ∧ 11 ∈ (tail ++ t).takeWhile isSpace)
      ∨ ((v.drop len).take stop = [11]
        ∧ trimSpace (v.drop (len + stop)) ≠ [])

theorem value_of_nil {t : GoString} (ht : Spaces wideSpaces t) :
    ∃ len stop, Reads [] t (t.dropWhile isSpace) len stop := by
  obtain hdrop | ⟨w, t', hw, ht', hdrop⟩ := dropWhile_spaces ht
  · have h := hdrop []
    rw [List.append_nil, List.dropWhile_nil] at h
    rw [h]
    exact ⟨0, 1, rfl, rfl, .inl ⟨rfl, fun h => absurd rfl h, fun _ => rfl⟩⟩
  · have h := hdrop []
    rw [List.append_nil, List.append_nil] at h
    rw [h]
    have hwide := wide_bytes hw
    have hsp : Spaces wideSpaces (w ++ t') := ht'.cons (.inr hw)
    obtain ⟨c, v, rfl⟩ := List.exists_cons_of_ne_nil hwide.1
    have hc := hwide.2 c List.mem_cons_self
    have hlen := bareLen_byte hc.1 hc.2.2.1 (v ++ t')
    obtain ⟨h0, -⟩ | ⟨j, w', hj, hw', hsuf, hrest⟩ := bareLen_spaces hsp
    · rw [List.cons_append, hlen] at h0
      cases hb : bareLen (v ++ t') with
      | none =>
          rw [hb] at h0
          cases h0
      | some n =>
          rw [hb] at h0
          cases h0
    · have hnil := trimSpace_of_spaces hrest
      refine ⟨j, 1, ?_, hnil, .inr ⟨⟨?_, w', hw', hsuf⟩, hnil⟩⟩
      · have hhead : (c :: v ++ t').head? ≠ some ConnInfo.quote :=
          fun h => hc.2.2.2 (Option.some.inj h)
        rw [valueLen_bare hhead, hj]
        rfl
      · cases j with
        | zero => rfl
        | succ j => simpa [ConnInfo.quote] using hc.2.2.2

theorem value_of_quoted {tail t : GoString} (ht : Spaces wideSpaces t)
    (hq : tail.head? = some 39)
    (hstuck : (tail.drop (matchValue tail)).head? ≠ some 39) :
    ∃ len stop, Reads tail t ((tail ++ t).dropWhile isSpace) len stop := by
  obtain ⟨q, rfl⟩ : ∃ q, tail = 39 :: q := by
    cases tail with
    | nil => cases hq
    | cons c q => exact ⟨q, by rw [Option.some.inj hq]⟩
  rw [List.cons_append, List.dropWhile_cons_of_neg (by decide)]
  cases hm : matchQuoted q with
  | none =>
      -- the expression then matches nothing
      have h0 : matchValue (39 :: q) = 0 := by
        have hbare : matchBare (39 :: q) = 0 := by cases q <;> rfl
        simp [matchValue, hm, hbare]
      rw [h0] at hstuck
      exact absurd rfl hstuck
  | some n =>
      have hval : matchValue (39 :: q) = n + 1 := by
        simp [matchValue, hm]
      obtain ⟨hle, hlen⟩ := quotedLen_of_match hm
      refine ⟨n + 1, 0, ?_, ?_, .inl ⟨?_, ?_, nofun⟩⟩
      · exact (ConnInfo.valueLen_quoted (q ++ t)).trans (by rw [hlen]; rfl)
      · rw [hval, Nat.add_zero, List.drop_succ_cons, List.drop_succ_cons,
          List.drop_append_of_le_length hle, trimSpace_append ht]
      · rw [hval, List.take_succ_cons, List.take_succ_cons,
          List.take_append_of_le_length hle]
      · intro _
        exact List.takeWhile_cons_of_neg (by decide)

/-- A text that ends in no white space. -/
def EndsPlain (s : GoString) : Prop :=
  ∀ x u, s = x ++ u → Spaces wideSpaces u → u = []

theorem endsPlain_of_width {s : GoString}
    (h : spaceWidth wideSpacesRev s.reverse = 0) : EndsPlain s := by
  rintro x u rfl hu
  obtain ⟨us, hus, hrev⟩ := Spaces.reverse.mpr hu
  cases us with
  | nil => exact List.reverse_eq_nil_iff.mp hrev
  | cons v us =>
      have hv := hus v List.mem_cons_self
      rw [List.reverse_append, hrev, List.flatten_cons, List.append_assoc,
        spaceWidth_unit patterns_wideSpacesRev hv] at h
      exact absurd (List.length_eq_zero_iff.mp h)
        (hv.ne_nil patterns_wideSpacesRev)

/-- A vertical tab at which the driver stops, in a text that goes on. -/
theorem atTab_of_stop {tail t : GoString} (ht : Spaces wideSpaces t)
    (hend : EndsPlain tail) (hq : (tail ++ t).head? ≠ some ConnInfo.quote)
    {j : Nat} {r : GoString} (hdrop : tail.drop j = 11 :: r)
    (hlen : ∀ t, bareLen (tail ++ t) = some j) :
    AtTab tail t (tail ++ t) := by
  refine ⟨List.mem_of_mem_drop (hdrop ▸ List.mem_cons_self),
    fun len stop h => ?_⟩
  rw [valueLen_bare hq, hlen] at h
  cases h
  have hle : j ≤ tail.length := by
    refine Nat.le_of_not_lt fun hlt => ?_
    rw [List.drop_eq_nil_of_le (Nat.le_of_lt hlt)] at hdrop
    cases hdrop
  have hrest : (tail ++ t).drop j = 11 :: (r ++ t) := by
    rw [List.drop_append_of_le_length hle, hdrop, List.cons_append]
  refine .inr ⟨by rw [hrest]; rfl, fun hnil => ?_⟩
  rw [← List.drop_drop, hrest, List.drop_one, List.tail_cons,
    trimSpace_append ht] at hnil
  obtain ⟨l, t', hl, ht', hr, -, -⟩ := trimSpace_spec r
  rw [hnil, List.nil_append] at hr
  have htail : tail = tail.take j ++ (11 :: l ++ t') := by
    rw [List.cons_append, ← hr, ← hdrop, List.take_append_drop]
  -- both pieces of the white space would end the text
  obtain rfl := hend (tail.take j ++ 11 :: l) t'
    (by rw [List.append_assoc]; exact htail) ht'
  have hcons := hend (tail.take j) ([11] ++ l)
    (by rw [List.append_nil] at htail; exact htail)
    (hl.cons (.inl ⟨11, rfl, rfl⟩))
  cases hcons

/-- Nor does one go on that begins with a vertical tab. -/
theorem atTab_of_head {q t : GoString} (hend : EndsPlain (11 :: q)) :
    AtTab (11 :: q) t ((11 :: q ++ t).dropWhile isSpace) := by
  refine ⟨List.mem_cons_self, fun len stop _ => .inl ⟨fun hnil => ?_, ?_⟩⟩
  · have hall := List.dropWhile_eq_nil_iff.mp hnil
    cases hend [] (11 :: q) rfl (spaces_ascii fun b hb =>
      hall b (List.mem_append_left t hb))
  · rw [List.cons_append, List.takeWhile_cons_of_pos rfl]
    exact List.mem_cons_self

section Bare

variable {tail t : GoString} (ht : Spaces wideSpaces t)
  (hquote : ∀ s, (tail ++ s).head? ≠ some ConnInfo.quote)
  (hval : matchValue tail = matchBare tail)
  (hspan : (tail ++ t).takeWhile isSpace = []) (hne : tail ≠ [])
  (hle : matchBare tail ≤ tail.length)
  (hlen : ∀ r, bareLen (tail.take (matchBare tail) ++ r)
    = (bareLen r).map (· + matchBare tail))
include ht hquote hval hspan hne hle hlen

/-- The value is the rest of the text, and may go on into `t`. -/
theorem reads_to_end (hstop : tail.drop (matchBare tail) = []) :
    ∃ len stop, Reads tail t (tail ++ t) len stop := by
  have hall : tail.length = matchBare tail :=
    Nat.le_antisymm (List.drop_eq_nil_iff.mp hstop) hle
  have htake : tail.take (matchBare tail) = tail :=
    List.take_of_length_le (Nat.le_of_eq hall)
  have hbare := hlen t
  rw [htake] at hbare
  obtain ⟨h0, hsp⟩ | ⟨j, w, hj, hw, hsuf, hsp⟩ := bareLen_spaces ht
  · refine ⟨matchBare tail, 1, ?_, ?_, .inl ⟨?_, fun _ => hspan, ?_⟩⟩
    · rw [valueLen_bare (hquote t), hbare, h0]
      simp
    · rw [hval, hstop, ← hall, List.drop_length_add_append]
      exact trimSpace_of_spaces hsp
    · rw [hval, htake, ← hall, List.take_left]
    · simp [hne]
  · have hnil : trimSpace ((tail ++ t).drop (tail.length + j + 1)) = [] := by
      rw [Nat.add_assoc, List.drop_length_add_append]
      exact trimSpace_of_spaces hsp
    refine ⟨tail.length + j, 1, ?_, ?_, .inr ⟨⟨?_, w, hw, ?_⟩, hnil⟩⟩
    · rw [valueLen_bare (hquote t), hbare, hj, hall, Nat.add_comm]
      rfl
    · rw [hnil, hval, hstop]
      rfl
    · rw [List.take_length_add_append]
      exact beq_eq_false_iff_ne.mpr (hquote _)
    · rw [List.take_length_add_append]
      exact hsuf.trans (List.suffix_append _ _)

theorem reads_to_space {d : UInt8} {r : GoString}
    (hstop : tail.drop (matchBare tail) = d :: r)
    (hd : isRegexpSpace d = true) :
    ∃ len stop, Reads tail t (tail ++ t) len stop := by
  have hsplit : tail.take (matchBare tail) ++ (d :: r ++ t) = tail ++ t := by
    rw [← hstop, ← List.append_assoc, List.take_append_drop]
  have hspace := isSpace_of_isRegexpSpace hd
  have hzero : bareLen (d :: r ++ t) = some 0 := bareLen_space hspace (r ++ t)
  have hbare := hlen (d :: r ++ t)
  rw [hsplit, hzero] at hbare
  refine ⟨matchBare tail, 1, ?_, ?_, .inl ⟨?_, fun _ => hspan, ?_⟩⟩
  · rw [valueLen_bare (hquote t), hbare]
    simp
  · rw [hval, hstop, ← List.drop_drop, List.drop_append_of_le_length hle,
      hstop, List.cons_append, List.drop_one, List.tail_cons,
      trimSpace_append ht]
    exact (trimSpace_spaces (spaces_ascii (t := [d]) fun b hb => by
      rw [List.mem_singleton.mp hb]
      exact hspace) r).symm
  · rw [hval, List.take_append_of_le_length hle]
  · simp [hne]

end Bare

theorem value_of_bare {tail t : GoString} (ht : Spaces wideSpaces t)
    (hne : tail ≠ []) (hq : tail.head? ≠ some 39) (hend : EndsPlain tail)
    (hhead : tail.head?.any isRegexpSpace = false)
    (hstuck : ∀ c, c = 39 ∨ c = backslash →
      (tail.drop (matchValue tail)).head? ≠ some c) :
    (∃ len stop, Reads tail t ((tail ++ t).dropWhile isSpace) len stop)
      ∨ AtTab tail t ((tail ++ t).dropWhile isSpace) := by
  have hval : matchValue tail = matchBare tail := if_neg hq
  obtain ⟨c, q, rfl⟩ := List.exists_cons_of_ne_nil hne
  cases hc : isSpace c with
  | true =>
      obtain rfl : c = 11 := by
        refine Decidable.of_not_not fun h => ?_
        rw [List.head?_cons, Option.any_some,
          isRegexpSpace_of_isSpace hc h] at hhead
        cases hhead
      exact .inr (atTab_of_head hend)
  | false =>
      have hquote : ∀ s, (c :: q ++ s).head? ≠ some ConnInfo.quote :=
        fun _ => hq
      have hspan : (c :: q ++ t).takeWhile isSpace = [] :=
        List.takeWhile_cons_of_neg (by simp [hc])
      rw [show (c :: q ++ t).dropWhile isSpace = c :: q ++ t from
        List.dropWhile_cons_of_neg (by simp [hc])]
      obtain ⟨hle, hlen | ⟨j, r, hj, hstop⟩⟩ := bareLen_of_match (c :: q)
      · left
        obtain hstop | ⟨d, r, hstop, hd⟩ := matchBare_stop (c :: q)
        · exact reads_to_end ht hquote hval hspan hne hle hlen hstop
        · refine reads_to_space ht hquote hval hspan hne hle hlen hstop
            (hd.resolve_right fun h => hstuck d h ?_)
          rw [hval, hstop, List.head?_cons]
      · exact .inr (atTab_of_stop ht hend (hquote t) hj hstop)

-- ==== fields

/-- What is left of a text that starts with no white space starts as it
did. -/
theorem trimSpace_head {c : UInt8} {s : GoString}
    (h : spaceWidth wideSpaces (c :: s) = 0) :
    (trimSpace (c :: s)).head? = some c := by
  obtain ⟨l, t, hl, ht, hs, -, -⟩ := trimSpace_spec (c :: s)
  have hnone : ∀ t, Spaces wideSpaces t → ∀ r, c :: s = t ++ r → t = [] := by
    rintro t ⟨us, hus, rfl⟩ r hr
    cases us with
    | nil => rfl
    | cons u us =>
        rw [hr, List.flatten_cons, List.append_assoc,
          spaceWidth_unit patterns_wideSpaces (hus u List.mem_cons_self)] at h
        exact absurd (List.length_eq_zero_iff.mp h)
          ((hus u List.mem_cons_self).ne_nil patterns_wideSpaces)
  rw [hnone l hl _ hs, List.nil_append] at hs
  cases htrim : trimSpace (c :: s) with
  | nil =>
      rw [htrim, List.nil_append] at hs
      have := hnone t ht [] (by rw [List.append_nil]; exact hs)
      rw [this] at hs
      cases hs
  | cons d r =>
      rw [htrim] at hs
      rw [List.head?_cons, (List.cons.inj hs).1]

/-- Where the expression stopped short of the driver, it does not match
again. -/
theorem sanitizeFields_stuck (toLower : ToLower) {c : UInt8} {s : GoString}
    (hc : c = 39 ∨ c = backslash) (n : Nat) (acc : List GoString) :
    sanitizeFields toLower n (trimSpace (c :: s)) acc = none := by
  have hspace : isASCIISpace c = false ∧ isWordStart c = false := by
    obtain rfl | rfl := hc <;> decide
  have hwide : wideSpaces.find? (hasPrefix (c :: s)) = none := by
    rw [List.find?_eq_none]
    intro w hw hpre
    obtain ⟨hne, hbytes⟩ := wide_bytes hw
    obtain ⟨d, v, rfl⟩ := List.exists_cons_of_ne_nil hne
    have hd := (hbytes d List.mem_cons_self).2.2
    obtain ⟨t, ht⟩ := List.isPrefixOf_iff_prefix.mp hpre
    obtain rfl : d = c := (List.cons.inj ht).1
    exact hc.elim hd.2 hd.1
  have hhead := trimSpace_head (c := c) (s := s)
    (by rw [spaceWidth, if_neg (by simp [hspace.1]), hwide]; rfl)
  obtain ⟨r, hr⟩ : ∃ r, trimSpace (c :: s) = c :: r := by
    cases htrim : trimSpace (c :: s) with
    | nil =>
        rw [htrim] at hhead
        cases hhead
    | cons d r =>
        rw [htrim] at hhead
        exact ⟨r, by rw [Option.some.inj hhead]⟩
  have hmatch : matchField (c :: r) = none :=
    if_pos (by simp [hspace.2])
  rw [hr]
  cases n with
  | zero => rfl
  | succ n => rw [sanitizeFields, if_neg (List.cons_ne_nil c r), hmatch]

/-- A text of which the code matches the front, and does not get stuck
behind it. -/
theorem value_of_parts {rest : GoString} (p : Parts rest) {t : GoString}
    (ht : Spaces wideSpaces t) (hend : EndsPlain rest)
    (hstuck : ∀ c, c = 39 ∨ c = backslash →
      (p.tail.drop (matchValue p.tail)).head? ≠ some c) :
    (∃ len stop, Reads p.tail t ((p.tail ++ t).dropWhile isSpace) len stop)
      ∨ AtTab p.tail t ((p.tail ++ t).dropWhile isSpace) := by
  have hend : EndsPlain p.tail := fun x u hx hu =>
    hend (p.key ++ p.gap ++ 61 :: p.skip ++ x) u
      (by rw [List.append_assoc, ← hx]; exact p.text) hu
  by_cases hnil : p.tail = []
  · rw [hnil, List.nil_append]
    exact .inl (value_of_nil ht)
  · by_cases hq : p.tail.head? = some 39
    · exact .inl (value_of_quoted ht hq (hstuck 39 (.inl rfl)))
    · exact value_of_bare ht hnil hq hend p.tail_head hstuck

/-- No text that is left ends in white space. -/
theorem skip_eq_nil {s : GoString} (p : Parts s) (hend : EndsPlain s)
    (hnil : p.tail = []) : p.skip = [] := by
  have hskip : Spaces wideSpaces p.skip := spaces_ascii fun c hc =>
    isSpace_of_isRegexpSpace (p.skip_space c hc)
  refine hend (p.key ++ p.gap ++ [61]) p.skip ?_ hskip
  have htext := p.text
  rw [hnil] at htext
  simpa using htext

section Next

variable {rest : GoString} (p : Parts rest)

/-- The field that the driver reads from the parts of a match, with `v` from
the value on. -/
structure FieldOf (t v : GoString) (len stop : Nat) (f : Field) : Prop where
  key : trimSpace f.key = p.key
  gap : f.gap = p.gap
  skip : f.skip
    = if v = [] then [] else p.skip ++ (p.tail ++ t).takeWhile isSpace
  value : f.value = v.take len
  stop : f.stop = (v.drop len).take stop

theorem next_of_valueLen {l t v : GoString} (hl : Spaces wideSpaces l)
    (hv : v = (p.tail ++ t).dropWhile isSpace) :
    (valueLen v = none → next (l ++ (rest ++ t)) = none)
      ∧ ∀ len stop, valueLen v = some (len, stop) →
        ∃ f, FieldOf p t v len stop f
          ∧ next (l ++ (rest ++ t)) = some (f, v.drop (len + stop)) := by
  have hname : ConnInfo.equals ∉ l ++ (p.key ++ p.gap) := by
    rw [List.mem_append, List.mem_append, not_or, not_or]
    refine ⟨not_mem_equals_of_spaces hl, fun hk => ?_, fun hg => ?_⟩
    · exact (isSpace_of_isWordByte (p.key_word _ hk)).2 rfl
    · exact absurd (p.gap_space _ hg) (by decide)
  have htext : l ++ (rest ++ t)
      = l ++ (p.key ++ p.gap) ++ ConnInfo.equals :: (p.skip ++ (p.tail ++ t)) :=
    (congrArg (fun r => l ++ (r ++ t)) p.text).trans
      (by simp [ConnInfo.equals])
  have hskip : ∀ c ∈ p.skip, isSpace c = true := fun c hc =>
    isSpace_of_isRegexpSpace (p.skip_space c hc)
  have hdrop : (p.skip ++ (p.tail ++ t)).dropWhile isSpace = v :=
    (List.dropWhile_append_of_pos hskip).trans hv.symm
  obtain ⟨hkey, hkeyEq, hgapEq⟩ := key_of_parts p hl rfl
  rw [htext]
  refine ⟨fun hnone => ConnInfo.next_eq_none hname (hdrop.symm ▸ hnone),
    fun len stop hlen => ?_⟩
  have hnext := ConnInfo.next_eq hname hkey (hdrop.symm ▸ hlen)
  rw [hdrop, List.takeWhile_append_of_pos hskip] at hnext
  exact ⟨_, ⟨hkeyEq, hgapEq, rfl, rfl, rfl⟩, hnext⟩

variable {p} {t v : GoString} {len stop : Nat} {f : Field}

/-- In step with the code, the driver meets no vertical tab. -/
theorem FieldOf.reads {toLower : ToLower} (hf : FieldOf p t v len stop f)
    (hstep : InStep toLower f (v.drop (len + stop)))
    (hlen : valueLen v = some (len, stop))
    (hvalue : (∃ len stop, Reads p.tail t v len stop) ∨ AtTab p.tail t v) :
    Reads p.tail t v len stop := by
  obtain ⟨len', stop', hreads⟩ | htab := hvalue
  · obtain ⟨rfl, rfl⟩ : len' = len ∧ stop' = stop := by
      simpa using hreads.length.symm.trans hlen
    exact hreads
  · exfalso
    obtain ⟨hne, hmem⟩ | ⟨hstop, hrest⟩ := htab.tab len stop hlen
    · refine hstep.skip ?_
      rw [hf.skip, if_neg hne]
      exact List.mem_append_right _ hmem
    · exact hrest (hstep.stop (hf.stop.trans hstop))

theorem FieldOf.shownText_eq (hf : FieldOf p t v len stop f)
    (hend : EndsPlain rest) (hagree : Agrees p.tail t v len) :
    shownText f = p.matched := by
  have hskip : f.skip = p.skip := by
    rw [hf.skip]
    split
    · rename_i hv
      exact (skip_eq_nil p hend (hagree.empty hv)).symm
    · rename_i hv
      rw [hagree.skip hv, List.append_nil]
  rw [shownText, hf.key, hf.gap, hskip, hf.value, hagree.value]
  rfl

end Next

/-- Where the driver reads on, it reads the field that the code matches, if
they are in step. -/
theorem next_of_parts (toLower : ToLower) {rest : GoString} (p : Parts rest)
    {l t : GoString} (hl : Spaces wideSpaces l) (ht : Spaces wideSpaces t)
    (hend : EndsPlain rest)
    (hstuck : ∀ c, c = 39 ∨ c = backslash →
      (p.tail.drop (matchValue p.tail)).head? ≠ some c) :
    (next (l ++ (rest ++ t)) = none → 11 ∈ p.tail)
      ∧ ∀ f s, next (l ++ (rest ++ t)) = some (f, s) →
        InStep toLower f s → trimSpace f.key = p.key
          ∧ (isShown toLower f = true → shownText f = p.matched)
          ∧ trimSpace s = trimSpace (p.tail.drop (matchValue p.tail)) := by
  have hvalue := value_of_parts p ht hend hstuck
  obtain ⟨hnone, hsome⟩ := next_of_valueLen p (t := t) hl rfl
  cases hlen : valueLen ((p.tail ++ t).dropWhile isSpace) with
  | none =>
      rw [hnone hlen]
      refine ⟨fun _ => ?_, nofun⟩
      obtain ⟨len, stop, hreads⟩ | htab := hvalue
      · cases hreads.length.symm.trans hlen
      · exact htab.mem
  | some r =>
      obtain ⟨f, hf, hnext⟩ := hsome r.1 r.2 hlen
      rw [hnext]
      refine ⟨nofun, fun f' s heq hstep => ?_⟩
      obtain ⟨rfl, rfl⟩ := Prod.mk.inj (Option.some.inj heq)
      have hreads := hf.reads hstep hlen hvalue
      refine ⟨hf.key, fun hshown => hf.shownText_eq hend ?_, hreads.rest⟩
      refine hreads.value.resolve_right fun ⟨hwide, hnil⟩ => ?_
      obtain ⟨w, hw, hsuf⟩ := hwide.wide
      refine hstep.value hshown ?_ hnil w hw (hf.value ▸ hsuf)
      rw [Field.quoted, hf.value]
      exact hwide.bare

/-- The keys that may be shown pass for the code, and are shown as they
are written. -/
theorem isShown_of_isSafe (toLower : ToLower) {f : Field}
    (h : isSafe f = true) :
    isShown toLower f = true ∧ shownText f = f.text := by
  have hsafe : ∀ k ∈ safeFields, (∀ c ∈ k, c < 0x80) ∧ lowerASCII k = k
      ∧ trimSpace k = k := by
    decide +kernel
  have hmem : f.key ∈ safeFields := List.contains_iff_mem.mp h
  obtain ⟨hascii, hlower, htrim⟩ := hsafe f.key hmem
  refine ⟨?_, ?_⟩
  · rw [isShown, htrim, safeConnField, toLower.ascii _ hascii, hlower]
    exact decide_eq_true hmem
  · rw [shownText, htrim]
    rfl

theorem sanitizeFields_nil (toLower : ToLower) (n : Nat)
    (acc : List GoString) : sanitizeFields toLower n [] acc = some acc := by
  cases n <;> rfl

/-- The driver finds nothing in white space. -/
theorem fieldsFrom_of_trimSpace_nil {s : GoString} (h : trimSpace s = [])
    (m : Nat) : fieldsFrom m s = [] := by
  obtain ⟨l, t, hl, ht, hs, -, -⟩ := trimSpace_spec s
  have hno : ConnInfo.equals ∉ s := by
    rw [hs, h, List.nil_append, List.mem_append, not_or]
    exact ⟨not_mem_equals_of_spaces hl, not_mem_equals_of_spaces ht⟩
  cases m with
  | zero => rfl
  | succ m => rw [fieldsFrom, ConnInfo.next_none hno]

/-- What the loop collects are the fields of the driver that it shows. -/
theorem sanitizeFields_eq (toLower : ToLower) {n : Nat} :
    ∀ {m s acc fs}, s.length ≤ m → StayInStep toLower m s →
      sanitizeFields toLower n (trimSpace s) acc = some fs →
      fs = acc ++ ((fieldsFrom m s).filter (isShown toLower)).map
        shownText := by
  induction n with
  | zero =>
      intro m s acc fs _ _ h
      rw [sanitizeFields] at h
      split at h
      · rename_i hnil
        rw [fieldsFrom_of_trimSpace_nil hnil, ← Option.some.inj h]
        simp
      · cases h
  | succ n ih =>
      intro m s acc fs hm hsteps h
      by_cases hnil : trimSpace s = []
      · rw [hnil, sanitizeFields_nil] at h
        rw [fieldsFrom_of_trimSpace_nil hnil, ← Option.some.inj h]
        simp
      rw [sanitizeFields, if_neg hnil] at h
      cases hmatch : matchField (trimSpace s) with
      | none =>
          rw [hmatch] at h
          cases h
      | some r =>
          obtain ⟨p, hkey, htext, hrest⟩ := parts_of_match hmatch
          rw [hmatch] at h
          dsimp only at h
          rw [hkey, htext, hrest] at h
          -- at a quote or a backslash the next round would not match
          have hstuck : ∀ c, c = 39 ∨ c = backslash →
              (p.tail.drop (matchValue p.tail)).head? ≠ some c := by
            intro c hc hhead
            obtain ⟨r, hr⟩ := List.head?_eq_some_iff.mp hhead
            rw [hr, sanitizeFields_stuck toLower hc] at h
            cases h
          obtain ⟨l, t, hl, ht, hs, -, hback⟩ := trimSpace_spec s
          obtain ⟨hnone, hfield⟩ := next_of_parts toLower p hl ht
            (endsPlain_of_width hback) hstuck
          rw [← hs] at hnone hfield
          obtain ⟨m, rfl⟩ : ∃ m', m = m' + 1 := by
            cases m with
            | zero =>
                rw [List.length_eq_zero_iff.mp (Nat.le_zero.mp hm)] at hnil
                exact absurd rfl hnil
            | succ m => exact ⟨m, rfl⟩
          rw [StayInStep] at hsteps
          rw [fieldsFrom]
          cases hnext : next s with
          | none =>
              rw [hnext] at hsteps
              refine absurd ?_ hsteps
              rw [p.text]
              exact List.mem_append_right _ (hnone hnext)
          | some r =>
              obtain ⟨f, s'⟩ := r
              rw [hnext] at hsteps
              obtain ⟨hf, hsteps⟩ := hsteps
              have hlt := (ConnInfo.next_suffix hnext).2
              obtain ⟨hfkey, hftext, htrim⟩ := hfield f s' hnext hf
              rw [← hfkey, ← htrim, ← isShown] at h
              rw [ih (by omega) hsteps h, List.filter_cons]
              cases hshown : isShown toLower f with
              | false => simp
              | true => simp [← hftext hshown]

-- ==== result

/-- A keyword/value string over which the code and the driver are in
step. -/
structure ReadAlike (toLower : ToLower) (s : GoString) : Prop where
  steps : StayInStep toLower s.length s
  /-- the code does not take it for a URL of its own -/
  scheme : contains s (ascii "://") = true →
    ¬ ascii "postgres:" <+: lowerASCII s
      ∧ ¬ ascii "postgresql:" <+: lowerASCII s

/-- No key of the string becomes safe only by what the code does to it. -/
def KeysAsWritten (toLower : ToLower) (s : GoString) : Prop :=
  ∀ f ∈ fields s, isShown toLower f = true → isSafe f = true

instance (toLower : ToLower) (f : Field) (rest : GoString) :
    Decidable (InStep toLower f rest) :=
  decidable_of_iff
    (11 ∉ f.skip ∧ (f.stop = [11] → trimSpace rest = [])
      ∧ (isShown toLower f = true → f.quoted = false → trimSpace rest = [] →
        ∀ w ∈ wideSpaces, ¬ w <:+ f.value))
    ⟨fun h => ⟨h.1, h.2.1, h.2.2⟩, fun h => ⟨h.skip, h.stop, h.value⟩⟩

instance decidableStayInStep (toLower : ToLower) :
    ∀ n s, Decidable (StayInStep toLower n s)
  | 0, _ => .isTrue trivial
  | n + 1, s =>
      match h : next s with
      | none => decidable_of_iff (11 ∉ trimSpace s)
          (by rw [StayInStep, h])
      | some (f, rest) =>
          @decidable_of_iff _ (InStep toLower f rest
              ∧ StayInStep toLower n rest) (by rw [StayInStep, h])
            (@instDecidableAnd _ _ _ (decidableStayInStep toLower n rest))

instance (toLower : ToLower) (s : GoString) :
    Decidable (ReadAlike toLower s) :=
  decidable_of_iff
    (StayInStep toLower s.length s
      ∧ (contains s (ascii "://") = true →
        ¬ ascii "postgres:" <+: lowerASCII s
          ∧ ¬ ascii "postgresql:" <+: lowerASCII s))
    ⟨fun h => ⟨h.1, h.2⟩, fun h => ⟨h.steps, h.scheme⟩⟩

instance (toLower : ToLower) (s : GoString) :
    Decidable (KeysAsWritten toLower s) :=
  inferInstanceAs (Decidable (∀ f ∈ fields s, _ → _))

/-- Two strings with the same fields, but for the values of keys that may
not be shown. -/
def SameButSecrets (s s' : GoString) : Prop :=
  List.Forall₂ (fun f g => f.key = g.key ∧ (isSafe f = true → f = g))
    (fields s) (fields s')

theorem SameButSecrets.safeTexts_eq {s s' : GoString}
    (h : SameButSecrets s s') : safeTexts s = safeTexts s' := by
  unfold SameButSecrets at h
  unfold safeTexts
  generalize fields s = fs, fields s' = gs at h
  induction h with
  | nil => rfl
  | @cons f g fs gs hfg _ ih =>
      obtain ⟨hkey, heq⟩ := hfg
      have hsafe : isSafe f = isSafe g := by rw [isSafe, isSafe, hkey]
      cases hf : isSafe f with
      | false =>
          rw [List.filter_cons_of_neg (by simp [hf]),
            List.filter_cons_of_neg (by simp [← hsafe, hf])]
          exact ih
      | true =>
          rw [List.filter_cons_of_pos hf,
            List.filter_cons_of_pos (hsafe ▸ hf), List.map_cons,
            List.map_cons, ih, heq hf]

/-- What is no URL for the driver is invalid as a URL. -/
theorem sanitizeURLConn_invalid (toLower : ToLower)
    (parseAddr : NetURL.ParseAddr) {s : GoString}
    (h : ¬ ascii "postgres:" <+: lowerASCII s
      ∧ ¬ ascii "postgresql:" <+: lowerASCII s) :
    sanitizeURLConn toLower parseAddr s = invalidConn := by
  unfold sanitizeURLConn
  cases hparse : NetURL.urlParse parseAddr s with
  | error e => rfl
  | ok u =>
      have hscheme : ∀ x, x ≠ [] → ¬ x ++ [58] <+: lowerASCII s →
          u.scheme ≠ x := by
        rintro x hx hno rfl
        exact hno (NetURL.urlParse_scheme hparse hx)
      exact if_pos ⟨hscheme (ascii "postgres") (by decide) h.1,
        hscheme (ascii "postgresql") (by decide) h.2⟩

def shownTexts (toLower : ToLower) (s : GoString) : List GoString :=
  ((fields s).filter (isShown toLower)).map shownText

theorem sanitizeDBConn_eq {toLower : ToLower} (parseAddr : NetURL.ParseAddr)
    {s : GoString} (h : ReadAlike toLower s) :
    sanitizeDBConn toLower parseAddr s = invalidConn
      ∨ sanitizeDBConn toLower parseAddr s
        = join 32 (shownTexts toLower s) := by
  unfold sanitizeDBConn
  split
  · rename_i hurl
    exact .inl (sanitizeURLConn_invalid toLower parseAddr (h.scheme hurl))
  · cases hfields : sanitizeFields toLower s.length (trimSpace s) [] with
    | none => exact .inl rfl
    | some fs =>
        have := sanitizeFields_eq toLower (Nat.le_refl _) h.steps hfields
        rw [this, List.nil_append]
        exact .inr rfl

/-- A field adds more to the text than the blank. -/
theorem forall_of_cost {p : Field → Bool} {fs : List Field}
    (h : cost (fs.map shownText) ≤ cost ((fs.filter p).map shownText) + 1) :
    ∀ f ∈ fs, p f = true := by
  induction fs with
  | nil => exact fun _ hf => by cases hf
  | cons f fs ih =>
      have hle := cost_sublist ((List.filter_sublist (p := p) (l := fs)).map
        shownText)
      have hpos : 0 < (shownText f).length := by
        rw [shownText, List.append_assoc, List.length_append]
        exact Nat.add_pos_right _ (Nat.zero_lt_succ _)
      rw [List.forall_mem_cons]
      cases hp : p f with
      | false =>
          rw [List.filter_cons_of_neg (by simp [hp])] at h
          simp only [cost, List.map_cons, List.foldr_cons] at h hle
          omega
      | true =>
          rw [List.filter_cons_of_pos hp] at h
          refine ⟨rfl, ih ?_⟩
          simp only [cost, List.map_cons, List.foldr_cons] at h ⊢
          omega

/-- The safe fields are among those that are shown. -/
theorem safeTexts_eq (toLower : ToLower) (s : GoString) :
    safeTexts s = (((fields s).filter (isShown toLower)).filter
      isSafe).map shownText := by
  rw [safeTexts, List.filter_filter]
  have hfilter : (fields s).filter (fun f =>
      isSafe f && isShown toLower f) = (fields s).filter isSafe :=
    List.filter_congr fun f _ => by
      cases hf : isSafe f with
      | false => rfl
      | true => rw [(isShown_of_isSafe toLower hf).1]; rfl
  rw [hfilter]
  refine List.map_congr_left fun f hf => ?_
  exact (isShown_of_isSafe toLower (List.mem_filter.mp hf).2).2.symm

/-- What is shown is what may be, if and only if all keys are safe as they
are written. -/
theorem join_shownTexts (toLower : ToLower) (s : GoString) :
    join 32 (shownTexts toLower s) = join 32 (safeTexts s)
      ↔ KeysAsWritten toLower s := by
  rw [safeTexts_eq toLower, shownTexts]
  constructor
  · intro h f hf hshown
    have hlen := congrArg List.length h
    rw [length_join_eq, length_join_eq] at hlen
    exact forall_of_cost (by omega) f (List.mem_filter.mpr ⟨hf, hshown⟩)
  · intro h
    have hall : ∀ f ∈ (fields s).filter (isShown toLower),
        isSafe f = true := fun f hf =>
      h f (List.mem_filter.mp hf).1 (List.mem_filter.mp hf).2
    rw [List.filter_eq_self.mpr hall]

/-- Where the code is in step with the driver, it shows the fixed text for
an invalid string, or else the safe fields and nothing more if and only if
every key that it takes for safe is safe as it is written. Two such
strings that differ in secrets only then show the same, unless one of them
counts as invalid. -/
theorem sanitizeDBConn_shows_safe_iff (toLower : ToLower)
    (parseAddr : NetURL.ParseAddr) {s : GoString}
    (hs : ReadAlike toLower s) :
    (sanitizeDBConn toLower parseAddr s = invalidConn
      ∨ (sanitizeDBConn toLower parseAddr s = join 32 (safeTexts s)
        ↔ KeysAsWritten toLower s))
    ∧ (KeysAsWritten toLower s → ∀ s', ReadAlike toLower s' →
      KeysAsWritten toLower s' → SameButSecrets s s' →
        sanitizeDBConn toLower parseAddr s = invalidConn
        ∨ sanitizeDBConn toLower parseAddr s' = invalidConn
        ∨ sanitizeDBConn toLower parseAddr s
          = sanitizeDBConn toLower parseAddr s') := by
  refine ⟨(sanitizeDBConn_eq parseAddr hs).imp_right fun hres => ?_, ?_⟩
  · rw [hres]
    exact join_shownTexts toLower s
  · intro hkeys s' hs' hkeys' hsame
    obtain hinv | hres := sanitizeDBConn_eq parseAddr hs
    · exact .inl hinv
    · obtain hinv' | hres' := sanitizeDBConn_eq parseAddr hs'
      · exact .inr (.inl hinv')
      · rw [hres, hres', (join_shownTexts toLower s).mpr hkeys,
          (join_shownTexts toLower s').mpr hkeys', hsame.safeTexts_eq]
        exact .inr (.inr rfl)

/-- Two passwords, one of them with a blank and one before a vertical tab
at the end. -/
theorem sanitizeDBConn_shows_safe_passwords :
    let s := ascii "host=db port = 5432 password='p w'"
    let s' := ascii "host=db port = 5432 password=hunter" ++ [11]
    let run := sanitizeDBConn .onlyASCII (fun _ => .error [])
    run s = ascii "host=db port = 5432"
      ∧ (run s' = invalidConn ∨ (run s' = join 32 (safeTexts s')
        ↔ KeysAsWritten .onlyASCII s'))
      ∧ SameButSecrets s s'
      ∧ (run s = invalidConn ∨ run s' = invalidConn ∨ run s = run s') := by
  have hs : ReadAlike .onlyASCII
      (ascii "host=db port = 5432 password='p w'") := by decide +kernel
  have hs' : ReadAlike .onlyASCII
      (ascii "host=db port = 5432 password=hunter" ++ [11]) := by
    decide +kernel
  have hsame : SameButSecrets (ascii "host=db port = 5432 password='p w'")
      (ascii "host=db port = 5432 password=hunter" ++ [11]) := by
    unfold SameButSecrets
    decide +kernel
  refine ⟨by decide +kernel,
    (sanitizeDBConn_shows_safe_iff .onlyASCII _ hs').1, hsame, ?_⟩
  exact (sanitizeDBConn_shows_safe_iff .onlyASCII _ hs).2 (by decide +kernel)
    _ hs' (by decide +kernel) hsame

/-- The code shows the value of a key that is none of the safe ones. -/
def ShowsSecret (s : GoString) : Prop :=
  ∃ f ∈ fields s, f.key ∉ safeFields
    ∧ ascii "secret" <:+: f.value
    ∧ f.value <:+: sanitizeDBConn .onlyASCII (fun _ => .error []) s

/-- It does so elsewhere: behind a vertical tab; after white space beyond
ASCII; for a key in capitals; and in what is a URL for the code alone. -/
theorem sanitizeDBConn_shows_secret :
    ShowsSecret (ascii "password=" ++ [11] ++ ascii " host=secret")
      ∧ ShowsSecret (ascii "sslmode='x'" ++ [0xc2, 0xa0] ++ ascii "host=secret")
      ∧ ShowsSecret (ascii "HOST=secret")
      ∧ ShowsSecret (ascii "POSTGRES://h/p=secret") := by
  unfold ShowsSecret
  refine ⟨?_, ?_, ?_, ?_⟩ <;> decide +kernel

end Tokyo3Base.Db
