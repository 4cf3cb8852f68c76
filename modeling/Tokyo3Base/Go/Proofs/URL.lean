/-
Facts about cutting a text at a byte and about escapes.

`percentDecode` is analysed through three equations, one per way a byte
can be read: an ordinary byte, a complete escape, a percent sign that
starts none. `hexEscapeNonASCII` then disappears under it
(`percentDecode_hexEscape`): it only writes as an escape what would
have been read as that byte.

A text that has been through JSON parses if it did before, is cut at the
same places, and has the same ASCII. So a decoded escape is noticed: it
takes three bytes of ASCII and leaves one at most.
-/
import Mathlib.Data.List.TakeWhile
import Tokyo3Base.Go.Proofs.JSON
import Tokyo3Base.Go.Proofs.Path

namespace Tokyo3Base.Go

section Cut

variable {sep : UInt8}

theorem before_cons_of_ne {c : UInt8} (hc : c ≠ sep) (s : GoString) :
    before sep (c :: s) = c :: before sep s := by
  simp [before, hc]

theorem before_eq_self {s : GoString} (h : sep ∉ s) : before sep s = s := by
  rw [before, List.takeWhile_eq_self_iff]
  intro c hc
  simpa using fun heq : c = sep => h (heq ▸ hc)

theorem fromFirst_eq_nil {s : GoString} (h : sep ∉ s) :
    fromFirst sep s = [] := by
  rw [fromFirst, List.dropWhile_eq_nil_iff]
  intro c hc
  simpa using fun heq : c = sep => h (heq ▸ hc)

theorem not_mem_before (s : GoString) : sep ∉ before sep s := by
  intro h
  have := List.mem_takeWhile_imp h
  simp at this

theorem length_before_le (sep : UInt8) (s : GoString) :
    (before sep s).length ≤ s.length :=
  (List.takeWhile_sublist _).length_le

/-- The rest is empty or begins with the separator. -/
theorem head_fromFirst (s : GoString) :
    fromFirst sep s = [] ∨ (fromFirst sep s).head? = some sep := by
  induction s with
  | nil => exact .inl rfl
  | cons c cs ih =>
      by_cases hc : c = sep
      · subst hc
        exact .inr (by simp [fromFirst])
      · simpa [fromFirst, hc] using ih

/-- The separator's first place is inside the left part, if it is in
there at all. -/
theorem before_append_of_mem {s : GoString} (h : sep ∈ s) (t : GoString) :
    before sep (s ++ t) = before sep s
      ∧ (before sep s).length < s.length := by
  induction s with
  | nil => cases h
  | cons c cs ih =>
      by_cases hc : c = sep
      · subst hc
        simp [before]
      · have hmem : sep ∈ cs := by
          rcases List.mem_cons.mp h with rfl | h
          · exact absurd rfl hc
          · exact h
        obtain ⟨heq, hlt⟩ := ih hmem
        rw [List.cons_append, before_cons_of_ne hc, before_cons_of_ne hc,
          heq]
        exact ⟨rfl, Nat.succ_lt_succ hlt⟩

theorem before_append {x : GoString} (h : sep ∉ x) (y : GoString) :
    before sep (x ++ y) = x ++ before sep y :=
  List.takeWhile_append_of_pos fun _ hc =>
    bne_iff_ne.mpr fun heq => h (heq ▸ hc)

theorem fromFirst_append {x : GoString} (h : sep ∉ x) (y : GoString) :
    fromFirst sep (x ++ y) = fromFirst sep y :=
  List.dropWhile_append_of_pos fun _ hc =>
    bne_iff_ne.mpr fun heq => h (heq ▸ hc)

/-- A second cut behind the first does not move it. -/
theorem before_before {t : UInt8} {s : GoString} (h : t ∉ before sep s) :
    before sep (before t s) = before sep s := by
  induction s with
  | nil => rfl
  | cons c cs ih =>
      by_cases hc : c = sep
      · subst hc
        by_cases ht : c = t
        · subst ht
          simp [before]
        · rw [before_cons_of_ne ht]
          simp [before]
      · rw [before_cons_of_ne hc] at h ⊢
        have ht : c ≠ t := fun heq => h (heq ▸ List.mem_cons_self)
        rw [before_cons_of_ne ht, before_cons_of_ne hc,
          ih fun hmem => h (List.mem_cons_of_mem _ hmem)]

end Cut

-- ==== bytes

theorem escape?_lowerHex (c : UInt8) :
    escape? (lowerHex (c / 16)) (lowerHex (c % 16)) = some c :=
  forall_byte (P := fun c =>
      escape? (lowerHex (c / 16)) (lowerHex (c % 16)) = some c)
    (by decide +kernel) c

theorem ascii_of_unhex (c : UInt8) (h : (unhex c).isSome = true) :
    c < 0x80 :=
  forall_byte (P := fun c => (unhex c).isSome = true → c < 0x80)
    (by decide +kernel) c h

/-- An escape consists of two hexadecimal digits. -/
theorem unhex_of_escape? {h l b : UInt8} (hb : escape? h l = some b) :
    (unhex h).isSome = true ∧ (unhex l).isSome = true := by
  unfold escape? at hb
  split at hb
  · rename_i hh hl
    simp [hh, hl]
  · cases hb

-- ==== decoding

theorem percentDecode_cons_of_ne {c : UInt8} (hc : c ≠ percent)
    (cs : GoString) : percentDecode (c :: cs) = c :: percentDecode cs := by
  rcases cs with _ | ⟨h, _ | ⟨l, rest⟩⟩
  · rfl
  · rfl
  · simp [percentDecode, hc]

theorem percentDecode_escape {h l b : UInt8} (hb : escape? h l = some b)
    (rest : GoString) :
    percentDecode (percent :: h :: l :: rest) = b :: percentDecode rest := by
  simp [percentDecode, hb]

/-- The text does not start with the rest of an escape. -/
def NoEscape (cs : GoString) : Prop :=
  ∀ h l rest, cs = h :: l :: rest → escape? h l = none

theorem percentDecode_percent {cs : GoString} (hcs : NoEscape cs) :
    percentDecode (percent :: cs) = percent :: percentDecode cs := by
  rcases cs with _ | ⟨h, _ | ⟨l, rest⟩⟩
  · rfl
  · rfl
  · simp [percentDecode, hcs h l rest rfl]

/-- Reading a text byte by byte and escape by escape. -/
theorem decode_induction {P : GoString → Prop} (nil : P [])
    (plain : ∀ c cs, c ≠ percent → P cs → P (c :: cs))
    (escape : ∀ h l b rest, escape? h l = some b → P rest →
      P (percent :: h :: l :: rest))
    (lone : ∀ cs, NoEscape cs → P cs → P (percent :: cs)) (u : GoString) :
    P u := by
  induction hn : u.length using Nat.strongRecOn generalizing u with
  | ind n ih =>
      have ih' : ∀ v : GoString, v.length < u.length → P v :=
        fun v hv => ih v.length (hn ▸ hv) v rfl
      cases u with
      | nil => exact nil
      | cons c cs =>
          by_cases hc : c = percent
          · subst hc
            rcases cs with _ | ⟨h, _ | ⟨l, rest⟩⟩
            · exact lone [] (fun _ _ _ h => nomatch h) nil
            · exact lone [h] (fun _ _ _ h => nomatch h) (ih' [h] (by simp))
            · cases hb : escape? h l with
              | some b =>
                  exact escape h l b rest hb (ih' rest (by simp; omega))
              | none =>
                  refine lone _ ?_ (ih' _ (by simp))
                  intro h' l' rest' heq
                  cases heq
                  exact hb
          · exact plain c cs hc (ih' cs (by simp))

/-- How much of a text is ASCII. -/
def asciiCount (s : GoString) : Nat := s.countP (· < 0x80)

theorem asciiCount_cons (c : UInt8) (s : GoString) :
    asciiCount (c :: s) = asciiCount s + if c < 0x80 then 1 else 0 := by
  simp [asciiCount, List.countP_cons]

/-- Decoding shortens a text and its ASCII, unless there is nothing to
decode. -/
theorem percentDecode_shorter (u : GoString) :
    percentDecode u = u
      ∨ (percentDecode u).length < u.length
        ∧ asciiCount (percentDecode u) + 2 ≤ asciiCount u := by
  induction u using decode_induction with
  | nil => exact .inl rfl
  | plain c cs hc ih =>
      rw [percentDecode_cons_of_ne hc]
      rcases ih with ih | ⟨hlen, hcount⟩
      · exact .inl (by rw [ih])
      · rw [asciiCount_cons, asciiCount_cons]
        exact .inr ⟨Nat.succ_lt_succ hlen, by omega⟩
  | escape h l b rest hb ih =>
      have hhex := unhex_of_escape? hb
      have hle : (percentDecode rest).length ≤ rest.length
          ∧ asciiCount (percentDecode rest) ≤ asciiCount rest := by
        rcases ih with ih | ⟨hlen, hcount⟩
        · rw [ih]
          exact ⟨Nat.le_refl _, Nat.le_refl _⟩
        · exact ⟨Nat.le_of_lt hlen, by omega⟩
      rw [percentDecode_escape hb]
      simp only [asciiCount_cons, List.length_cons,
        if_pos (ascii_of_unhex h hhex.1), if_pos (ascii_of_unhex l hhex.2),
        if_pos (show percent < 0x80 by decide)]
      refine .inr ⟨by omega, ?_⟩
      split <;> omega
  | lone cs hcs ih =>
      rw [percentDecode_percent hcs]
      rcases ih with ih | ⟨hlen, hcount⟩
      · exact .inl (by rw [ih])
      · rw [asciiCount_cons, asciiCount_cons]
        exact .inr ⟨Nat.succ_lt_succ hlen, by omega⟩

theorem length_percentDecode_le (u : GoString) :
    (percentDecode u).length ≤ u.length := by
  rcases percentDecode_shorter u with h | h
  · exact Nat.le_of_eq (by rw [h])
  · exact Nat.le_of_lt h.1

theorem percentDecode_eq_self {u : GoString} (hu : percent ∉ u) :
    percentDecode u = u := by
  induction u with
  | nil => rfl
  | cons c cs ih =>
      have hc : c ≠ percent := fun h => hu (h ▸ List.mem_cons_self)
      rw [percentDecode_cons_of_ne hc,
        ih fun h => hu (List.mem_cons_of_mem _ h)]

/-- Nor anything to refuse. -/
theorem unescape_eq_self {u : GoString} (hu : percent ∉ u) :
    unescape u = some u := by
  fun_induction unescape u with
  | case1 => rfl
  | case2 => exact absurd List.mem_cons_self hu
  | case3 => rfl
  | case4 c d hpercent =>
      refine absurd ?_ hu
      rcases hpercent with rfl | rfl <;> simp
  | case5 => rfl
  | case6 => exact absurd List.mem_cons_self hu
  | case7 => exact absurd List.mem_cons_self hu
  | case8 c h l rest hc ih =>
      rw [ih fun hmem => hu (List.mem_cons_of_mem _ hmem)]
      rfl

theorem unescape_cons_of_ne {c : UInt8} (hc : c ≠ percent)
    (cs : GoString) : unescape (c :: cs) = (unescape cs).map (c :: ·) := by
  rcases cs with _ | ⟨h, _ | ⟨l, rest⟩⟩
  · simp [unescape, hc]
  · by_cases hh : h = percent <;> simp [unescape, hc, hh]
  · simp [unescape, hc]

/-- A lone `%` is an error. -/
theorem unescape_percent {cs : GoString} (hcs : NoEscape cs) :
    unescape (percent :: cs) = none := by
  rcases cs with _ | ⟨h, _ | ⟨l, rest⟩⟩
  · rfl
  · exact if_pos (.inl rfl)
  · simp [unescape, hcs h l rest rfl]

/-- What is unescaped is decoded, and shorter if there was an escape. -/
theorem unescape_shorter {u v : GoString} (h : unescape u = some v) :
    percentDecode u = v ∧ (percent ∈ u → v.length < u.length) := by
  induction u using decode_induction generalizing v with
  | nil =>
      cases h
      exact ⟨rfl, nofun⟩
  | plain c cs hc ih =>
      rw [unescape_cons_of_ne hc] at h
      obtain ⟨w, hw, rfl⟩ := Option.map_eq_some_iff.mp h
      obtain ⟨hdecode, hlt⟩ := ih hw
      rw [percentDecode_cons_of_ne hc, hdecode]
      refine ⟨rfl, fun hmem => Nat.succ_lt_succ (hlt ?_)⟩
      exact (List.mem_cons.mp hmem).resolve_left (Ne.symm hc)
  | escape x y b rest hb ih =>
      have hcons : unescape (percent :: x :: y :: rest)
          = (unescape rest).map (b :: ·) := by
        simp [unescape, hb]
      rw [hcons] at h
      obtain ⟨w, hw, rfl⟩ := Option.map_eq_some_iff.mp h
      obtain ⟨hdecode, -⟩ := ih hw
      refine ⟨by rw [percentDecode_escape hb, hdecode], fun _ => ?_⟩
      have hle := length_percentDecode_le rest
      rw [hdecode] at hle
      simp only [List.length_cons]
      omega
  | lone cs hcs ih =>
      rw [unescape_percent hcs] at h
      cases h

theorem unescape_append_of_not_mem {x : GoString} (hx : percent ∉ x)
    (y : GoString) : unescape (x ++ y) = (unescape y).map (x ++ ·) := by
  induction x with
  | nil => simp
  | cons c x ih =>
      have hc : c ≠ percent := fun h => hx (h ▸ List.mem_cons_self)
      rw [List.cons_append, unescape_cons_of_ne hc,
        ih fun h => hx (List.mem_cons_of_mem _ h), Option.map_map]
      rfl

/-- The path of a parsed reference. -/
theorem path_of_parseLocal {raw : GoString} {u : URL}
    (h : parseLocal raw = some u) :
    unescape (before question (before hash raw)) = some u.path := by
  unfold parseLocal at h
  dsimp only at h
  split at h
  · cases h
  · split at h
    · rename_i hpath _
      cases h
      exact hpath
    · cases h

/-- A slash completes no escape. -/
theorem escape?_slash (h : UInt8) : escape? h slash = none := by
  cases hb : escape? h slash with
  | none => rfl
  | some b => exact absurd (unhex_of_escape? hb).2 (by decide)

theorem percentDecode_append_slash (u : GoString) :
    percentDecode (u ++ [slash]) = percentDecode u ++ [slash] := by
  induction u using decode_induction with
  | nil => rfl
  | plain c cs hc ih =>
      rw [List.cons_append, percentDecode_cons_of_ne hc,
        percentDecode_cons_of_ne hc, ih, List.cons_append]
  | escape h l b rest hb ih =>
      simp only [List.cons_append, percentDecode_escape hb, ih]
  | lone cs hcs ih =>
      have happ : NoEscape (cs ++ [slash]) := by
        intro h l rest heq
        rcases cs with _ | ⟨h', _ | ⟨l', rest'⟩⟩
        · cases heq
        · cases heq
          exact escape?_slash _
        · cases heq
          exact hcs _ _ _ rfl
      rw [List.cons_append, percentDecode_percent happ,
        percentDecode_percent hcs, ih, List.cons_append]

-- ==== coerced text

theorem asciiCount_toValidUTF8 (s : GoString) :
    asciiCount (toValidUTF8 s) = asciiCount s := by
  unfold asciiCount
  rw [List.countP_eq_length_filter, List.countP_eq_length_filter,
    filter_toValidUTF8]

/-- Cutting at a byte of ASCII, before or after coercing. -/
theorem cut_toValidUTF8 {sep : UInt8} (hsep : sep < 0x80) (s : GoString) :
    before sep (toValidUTF8 s) = toValidUTF8 (before sep s)
      ∧ (fromFirst sep (toValidUTF8 s)).drop 1
        = toValidUTF8 ((fromFirst sep s).drop 1) := by
  by_cases h : sep ∈ s
  · obtain ⟨x, y, rfl, hx⟩ := List.eq_append_cons_of_mem h
    have hx' := not_mem_toValidUTF8 hsep hx
    rw [toValidUTF8_append hsep, before_append hx, before_append hx',
      fromFirst_append hx, fromFirst_append hx']
    simp [before, fromFirst]
  · have h' := not_mem_toValidUTF8 hsep h
    rw [before_eq_self h, before_eq_self h', fromFirst_eq_nil h,
      fromFirst_eq_nil h']
    exact ⟨rfl, rfl⟩

/-- Coercing breaks no escape. The induction carries the plain text in
front, which is coerced with what follows. -/
theorem isSome_unescape_toValidUTF8 (u : GoString) :
    ∀ x, percent ∉ x → (unescape u).isSome = true →
      (unescape (toValidUTF8 (x ++ u))).isSome = true := by
  induction u using decode_induction with
  | nil =>
      intro x hx _
      rw [List.append_nil,
        unescape_eq_self (not_mem_toValidUTF8 (by decide) hx)]
      rfl
  | plain c cs hc ih =>
      intro x hx h
      rw [unescape_cons_of_ne hc, Option.isSome_map] at h
      have := ih (x ++ [c]) (by simp [hx, Ne.symm hc]) h
      rwa [List.append_assoc] at this
  | escape h l b rest hb ih =>
      intro x hx hsome
      have hhex := unhex_of_escape? hb
      have hcons : ∀ r, unescape (percent :: h :: l :: r)
          = (unescape r).map (b :: ·) := fun r => by
        simp [unescape, hb]
      rw [hcons, Option.isSome_map] at hsome
      rw [toValidUTF8_append (by decide),
        toValidUTF8_cons (ascii_of_unhex h hhex.1),
        toValidUTF8_cons (ascii_of_unhex l hhex.2),
        unescape_append_of_not_mem (not_mem_toValidUTF8 (by decide) hx),
        Option.isSome_map, hcons, Option.isSome_map]
      exact ih [] (by simp) hsome
  | lone cs hcs ih =>
      intro x _ h
      rw [unescape_percent hcs] at h
      cases h

theorem isSome_parseLocal (raw : GoString) :
    (parseLocal raw).isSome = true
      ↔ (before hash raw).any isCTL = false
        ∧ (unescape (before question (before hash raw))).isSome = true
        ∧ (unescape ((fromFirst hash raw).drop 1)).isSome = true := by
  unfold parseLocal
  dsimp only
  cases (before hash raw).any isCTL with
  | true => simp
  | false =>
      cases unescape (before question (before hash raw)) with
      | none => simp
      | some path =>
          cases unescape ((fromFirst hash raw).drop 1) with
          | none => simp
          | some fragment => simp

/-- What parses still does once it is coerced. -/
theorem isSome_parseLocal_toValidUTF8 {raw : GoString}
    (h : (parseLocal raw).isSome = true) :
    (parseLocal (toValidUTF8 raw)).isSome = true := by
  obtain ⟨hctl, hpath, hfragment⟩ := (isSome_parseLocal raw).mp h
  obtain ⟨hbefore, hafter⟩ :=
    cut_toValidUTF8 (show hash < 0x80 by decide) raw
  rw [isSome_parseLocal, hbefore, hafter,
    (cut_toValidUTF8 (by decide) _).1]
  refine ⟨?_, isSome_unescape_toValidUTF8 _ [] (by simp) hpath,
    isSome_unescape_toValidUTF8 _ [] (by simp) hfragment⟩
  rw [List.any_eq_false] at hctl ⊢
  intro c hc hctlc
  have hascii : c < 0x80 :=
    forall_byte (P := fun c => isCTL c = true → c < 0x80)
      (by decide +kernel) c hctlc
  refine not_mem_toValidUTF8 hascii (fun hmem => ?_) hc
  exact hctl c hmem hctlc

theorem isValidUTF8_join (es : List GoString) :
    isValidUTF8 (join slash es) = true ↔ ∀ e ∈ es, isValidUTF8 e = true := by
  induction es with
  | nil => simp [join, isValidUTF8, pieces, piecesFrom]
  | cons e es ih =>
      cases es with
      | nil => simp [join]
      | cons e' es =>
          rw [List.forall_mem_cons, ← ih]
          exact isValidUTF8_append (by decide) e _

theorem isValidUTF8_clean {u : GoString} (h : isValidUTF8 u = true) :
    isValidUTF8 (clean (slash :: u)) = true := by
  rw [← join_split u, isValidUTF8_join] at h
  rw [clean_rooted, isValidUTF8_cons (by decide), isValidUTF8_join]
  exact fun e he => h e ((Lib.survivors_sublist _).subset he)

theorem isValidUTF8_before {sep : UInt8} (hsep : sep < 0x80)
    {s : GoString} (h : isValidUTF8 s = true) :
    isValidUTF8 (before sep s) = true := by
  rw [← toValidUTF8_eq_self_iff] at h ⊢
  rw [← (cut_toValidUTF8 hsep s).1, h]

-- ==== escapes of `Redirect`

theorem hexEscape_cons_ascii {c : UInt8} (hc : c < 0x80) (cs : GoString) :
    hexEscapeNonASCII (c :: cs) = c :: hexEscapeNonASCII cs := by
  simp [hexEscapeNonASCII, hc]

theorem hexEscape_cons_high {c : UInt8} (hc : ¬ c < 0x80)
    (cs : GoString) :
    hexEscapeNonASCII (c :: cs)
      = percent :: lowerHex (c / 16) :: lowerHex (c % 16)
        :: hexEscapeNonASCII cs := by
  simp [hexEscapeNonASCII, hc]

/-- The first byte sent is the first byte, or a percent sign that no
escape before it can use. -/
theorem hexEscape_head (c : UInt8) (cs : GoString) :
    ∃ d ds, hexEscapeNonASCII (c :: cs) = d :: ds
      ∧ (d = c ∧ ds = hexEscapeNonASCII cs ∨ d = percent ∧ ¬ c < 0x80) := by
  by_cases hc : c < 0x80
  · exact ⟨c, _, hexEscape_cons_ascii hc cs, .inl ⟨rfl, rfl⟩⟩
  · exact ⟨percent, _, hexEscape_cons_high hc cs, .inr ⟨rfl, hc⟩⟩

/-- What `Redirect` escapes cannot complete an escape. -/
theorem NoEscape.hexEscape {cs : GoString} (h : NoEscape cs) :
    NoEscape (hexEscapeNonASCII cs) := by
  intro x y rest heq
  cases hb : escape? x y with
  | none => rfl
  | some b =>
      obtain ⟨hx, hy⟩ := unhex_of_escape? hb
      cases cs with
      | nil => cases heq
      | cons c cs =>
          obtain ⟨d, ds, hd, hcase⟩ := hexEscape_head c cs
          rw [hd] at heq
          cases heq
          rcases hcase with ⟨rfl, hds⟩ | ⟨rfl, -⟩
          · cases cs with
            | nil => cases hds
            | cons c' cs =>
                obtain ⟨d', ds', hd', hcase'⟩ := hexEscape_head c' cs
                rw [hd'] at hds
                cases hds
                rcases hcase' with ⟨rfl, -⟩ | ⟨rfl, -⟩
                · exact hb.symm.trans (h _ _ _ rfl)
                · exact absurd hy (by decide)
          · exact absurd hx (by decide)

/-- A reader who decodes does not see what `Redirect` escaped. -/
theorem percentDecode_hexEscape (u : GoString) :
    percentDecode (hexEscapeNonASCII u) = percentDecode u := by
  induction u using decode_induction with
  | nil => rfl
  | plain c cs hc ih =>
      rw [percentDecode_cons_of_ne hc, ← ih]
      by_cases hascii : c < 0x80
      · rw [hexEscape_cons_ascii hascii, percentDecode_cons_of_ne hc]
      · rw [hexEscape_cons_high hascii,
          percentDecode_escape (escape?_lowerHex c)]
  | escape h l b rest hb ih =>
      obtain ⟨hh, hl⟩ := unhex_of_escape? hb
      rw [hexEscape_cons_ascii (by decide),
        hexEscape_cons_ascii (ascii_of_unhex h hh),
        hexEscape_cons_ascii (ascii_of_unhex l hl),
        percentDecode_escape hb, percentDecode_escape hb, ih]
  | lone cs hcs ih =>
      rw [hexEscape_cons_ascii (by decide),
        percentDecode_percent hcs.hexEscape, percentDecode_percent hcs, ih]

example : hexEscapeNonASCII [slash, 0xc3, 0xa9] = ascii "/%c3%a9" := by
  decide +kernel

end Tokyo3Base.Go
