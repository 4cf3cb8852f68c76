/-
The text of an address is read back as that address (`parseAddr_dotted`,
`parseAddr_mapped`, `parseAddr_string6`).

Each field is read back on its own, the fields are those between the
separators, and the `::` of a compressed address is found where it was
written: no field is empty, so there is none before it. The run of zeros
that is left out is put back by counting, since there are eight groups in
all.
-/
import Mathlib.Data.Nat.Digits.Lemmas
import Tokyo3Base.Go.NetIP
import Tokyo3Base.Go.Proofs.Path
import Tokyo3Base.Go.Proofs.URL

namespace Tokyo3Base.Go.NetIP

-- ==== lists

/-- The only byte of a kind is the first of that kind. -/
theorem find?_eq_some_of_unique {p : UInt8 → Bool} {s : GoString}
    {b : UInt8} (hb : b ∈ s) (hp : p b = true)
    (h : ∀ c ∈ s, p c = true → c = b) : s.find? p = some b := by
  cases hfind : s.find? p with
  | none => exact absurd hp (List.find?_eq_none.mp hfind b hb)
  | some c =>
      rw [h c (List.mem_of_find?_eq_some hfind) (List.find?_some hfind)]

-- ==== IPv4

theorem parseOctet_formatUint (b : UInt8) :
    parseOctet (formatUint b.toNat) = some b :=
  forall_byte (P := fun b => parseOctet (formatUint b.toNat) = some b)
    (by decide +kernel) b

/-- What separates addresses and their parts is no digit. -/
theorem not_mem_formatUint {c : UInt8} (hc : isDigit c = false) (n : Nat) :
    c ∉ formatUint n := fun h => by
  rw [isDigit_of_mem_formatUint h] at hc
  cases hc

theorem octets_eq (o : Octets) :
    ∃ a b c d, o = ⟨[a, b, c, d], rfl⟩ := by
  obtain ⟨l, hl⟩ := o
  match l, hl with
  | [a, b, c, d], _ => exact ⟨a, b, c, d, rfl⟩

theorem split_dotted (o : Octets) :
    split dot (dotted o) = o.val.map fun b => formatUint b.toNat := by
  refine split_join ?_ fun w hw => ?_
  · obtain ⟨a, b, c, d, rfl⟩ := octets_eq o
    exact List.cons_ne_nil _ _
  · obtain ⟨b, -, rfl⟩ := List.mem_map.mp hw
    exact not_mem_formatUint (by decide) _

theorem parseIPv4_dotted (o : Octets) : parseIPv4 (dotted o) = some o := by
  unfold parseIPv4
  rw [split_dotted, mapM_map_eq_some fun b _ => parseOctet_formatUint b]
  obtain ⟨a, b, c, d, rfl⟩ := octets_eq o
  rfl

theorem mem_dotted {o : Octets} {c : UInt8} (h : c ∈ dotted o) :
    c = dot ∨ isDigit c = true := by
  rcases mem_join h with rfl | ⟨w, hw, hc⟩
  · exact .inl rfl
  · obtain ⟨b, -, rfl⟩ := List.mem_map.mp hw
    exact .inr (isDigit_of_mem_formatUint hc)

theorem dot_mem_dotted (o : Octets) : dot ∈ dotted o := by
  obtain ⟨a, b, c, d, rfl⟩ := octets_eq o
  exact List.mem_append_right _ List.mem_cons_self

theorem parseAddr_dotted (o : Octets) :
    parseAddr (dotted o) = some (.v4 o) := by
  have hfind : (dotted o).find?
      (fun c => c == dot || c == colon || c == percent) = some dot := by
    refine find?_eq_some_of_unique (dot_mem_dotted o) rfl fun c hc hp => ?_
    rcases mem_dotted hc with rfl | hdigit
    · rfl
    · simp only [Bool.or_eq_true, beq_iff_eq] at hp
      rcases hp with (rfl | rfl) | rfl <;> cases hdigit
  unfold parseAddr
  rw [hfind, parseIPv4_dotted]
  rfl

-- ==== groups

theorem hexDigits (g : UInt16) : ∃ ds : List Nat,
    hexText g = ds.reverse.map (fun d => hexDigit (UInt8.ofNat d))
      ∧ ds ≠ [] ∧ (∀ d ∈ ds, d < 16) ∧ ds.length ≤ 4
      ∧ Nat.ofDigits 16 ds = g.toNat := by
  unfold hexText
  split
  · rename_i hg
    exact ⟨[0], rfl, by simp, by simp, by simp, by simp [hg]⟩
  · rename_i hg
    refine ⟨Nat.digits 16 g.toNat, rfl,
      Nat.digits_ne_nil_iff_ne_zero.mpr hg,
      fun d hd => Nat.digits_lt_base (by decide) hd, ?_,
      Nat.ofDigits_digits 16 _⟩
    exact (Nat.digits_length_le_iff (by decide) _).mpr g.toNat_lt

theorem unhex_hexDigit {d : Nat} (hd : d < 16) :
    unhex (hexDigit (UInt8.ofNat d)) = some (UInt8.ofNat d) := by
  have hall : ∀ d : Fin 16, unhex (hexDigit (UInt8.ofNat d.val))
      = some (UInt8.ofNat d.val) := by decide
  exact hall ⟨d, hd⟩

/-- Reading digits from the highest on is their value. -/
theorem hexNumber_digits {ds : List Nat} (hlt : ∀ d ∈ ds, d < 16) :
    hexNumber (ds.reverse.map UInt8.ofNat) = Nat.ofDigits 16 ds := by
  unfold hexNumber
  induction ds with
  | nil => rfl
  | cons d ds ih =>
      have hd : (UInt8.ofNat d).toNat = d := by
        have := hlt d List.mem_cons_self
        rw [UInt8.toNat_ofNat']
        omega
      rw [List.reverse_cons, List.map_append, List.foldl_append,
        ih fun x hx => hlt x (List.mem_cons_of_mem _ hx), Nat.ofDigits_cons]
      simp only [List.map_cons, List.map_nil, List.foldl_cons,
        List.foldl_nil, hd]
      omega

theorem parseGroup_hexText (g : UInt16) :
    parseGroup (hexText g) = some g := by
  obtain ⟨ds, htext, hne, hlt, hlen, hval⟩ := hexDigits g
  have hread : (hexText g).mapM unhex
      = some (ds.reverse.map UInt8.ofNat) := by
    have hmap : hexText g = (ds.reverse.map UInt8.ofNat).map hexDigit := by
      rw [htext, List.map_map]
      rfl
    rw [hmap]
    refine mapM_map_eq_some fun x hx => ?_
    obtain ⟨d, hd, rfl⟩ := List.mem_map.mp hx
    exact unhex_hexDigit (hlt d (List.mem_reverse.mp hd))
  unfold parseGroup
  rw [if_neg, hread, Option.map_some, hexNumber_digits hlt, hval,
    UInt16.ofNat_toNat]
  rw [htext]
  simp [hne]
  omega

theorem hexText_ne_nil (g : UInt16) : hexText g ≠ [] := by
  obtain ⟨ds, htext, hne, -⟩ := hexDigits g
  rw [htext]
  simpa using hne

/-- Hexadecimal digits are neither separators nor brackets. -/
theorem isSome_unhex_of_mem_hexText {g : UInt16} {c : UInt8}
    (h : c ∈ hexText g) : (unhex c).isSome = true := by
  obtain ⟨ds, htext, -, hlt, -⟩ := hexDigits g
  rw [htext] at h
  obtain ⟨d, hd, rfl⟩ := List.mem_map.mp h
  rw [unhex_hexDigit (hlt d (List.mem_reverse.mp hd))]
  rfl

theorem not_mem_hexText {c : UInt8} (hc : unhex c = none) (g : UInt16) :
    c ∉ hexText g := fun h => by
  have := isSome_unhex_of_mem_hexText h
  rw [hc] at this
  cases this

theorem mem_hexFields {gs : List UInt16} {c : UInt8}
    (h : c ∈ hexFields gs) : c = colon ∨ (unhex c).isSome = true := by
  rcases mem_join h with rfl | ⟨w, hw, hc⟩
  · exact .inl rfl
  · obtain ⟨g, -, rfl⟩ := List.mem_map.mp hw
    exact .inr (isSome_unhex_of_mem_hexText hc)

/-- Groups are read back, on either side. -/
theorem parseFields_hexText (dotted : Bool) (gs : List UInt16) :
    parseFields dotted (gs.map hexText) = some gs := by
  induction gs with
  | nil => rfl
  | cons g gs ih =>
      cases gs with
      | nil =>
          have hdot : List.contains (hexText g) dot = false := by
            rw [List.contains_eq_mem]
            exact decide_eq_false (not_mem_hexText (by decide) g)
          show parseFields dotted [hexText g] = _
          rw [parseFields, hdot, Bool.and_false, if_neg Bool.false_ne_true,
            parseGroup_hexText]
          rfl
      | cons g' gs =>
          rw [List.map_cons] at ih ⊢
          rw [List.map_cons, parseFields, parseGroup_hexText, ih]
          · rfl
          · exact nofun

theorem parseSide_hexFields (dotted : Bool) (gs : List UInt16) :
    parseSide dotted (hexFields gs) = some gs := by
  unfold parseSide
  split
  · rename_i hempty
    cases gs with
    | nil => rfl
    | cons g gs =>
        have hhead := hexText_ne_nil g
        unfold hexFields at hempty
        rw [List.map_cons] at hempty
        cases hgs : gs.map hexText with
        | nil =>
            rw [hgs] at hempty
            exact absurd hempty hhead
        | cons w ws =>
            rw [hgs, join] at hempty
            · exact absurd (List.append_eq_nil_iff.mp hempty).1 hhead
            · exact List.cons_ne_nil w ws
  · rename_i hne
    have hgs : gs.map hexText ≠ [] := by
      intro h
      rw [hexFields, h] at hne
      exact hne rfl
    rw [hexFields, split_join hgs, parseFields_hexText]
    intro w hw
    obtain ⟨g, -, rfl⟩ := List.mem_map.mp hw
    exact not_mem_hexText (by decide) g

-- ==== ellipsis

/-- A field is passed over. -/
theorem cutEllipsis_append {w : GoString} (hw : colon ∉ w) (s : GoString) :
    cutEllipsis (w ++ s) = (cutEllipsis s).map fun p => (w ++ p.1, p.2) := by
  induction w with
  | nil => simp
  | cons c w ih =>
      have hc : ¬ (c = colon ∧ (w ++ s).head? = some colon) := fun h =>
        hw (h.1 ▸ List.mem_cons_self)
      rw [List.cons_append, cutEllipsis, if_neg hc,
        ih fun h => hw (List.mem_cons_of_mem _ h), Option.map_map]
      rfl

/-- So is a colon in front of one. -/
theorem cutEllipsis_colon {s : GoString} (hs : s.head? ≠ some colon) :
    cutEllipsis (colon :: s)
      = (cutEllipsis s).map fun p => (colon :: p.1, p.2) := by
  rw [cutEllipsis, if_neg fun h => hs h.2]

theorem head_hexFields (g : UInt16) (gs : List UInt16) (r : GoString) :
    (hexFields (g :: gs) ++ r).head? ≠ some colon := by
  obtain ⟨c, w, hw⟩ := List.exists_cons_of_ne_nil (hexText_ne_nil g)
  have hc : c ≠ colon := by
    rintro rfl
    exact not_mem_hexText (by decide) g (hw ▸ List.mem_cons_self)
  unfold hexFields
  rw [List.map_cons, hw]
  cases gs.map hexText with
  | nil => simpa [join] using hc
  | cons v ws => simpa [join] using hc

/-- The fields are passed over, up to what follows them. -/
theorem cutEllipsis_hexFields (gs : List UInt16) {r : GoString}
    (hr : gs ≠ [] → r = [] ∨ ∃ r', r = colon :: colon :: r') :
    cutEllipsis (hexFields gs ++ r)
      = (cutEllipsis r).map fun p => (hexFields gs ++ p.1, p.2) := by
  induction gs with
  | nil => simp [hexFields, join]
  | cons g gs ih =>
      have hg : colon ∉ hexText g := not_mem_hexText (by decide) g
      cases gs with
      | nil => exact cutEllipsis_append hg r
      | cons g' gs =>
          have ih := ih fun _ => hr (List.cons_ne_nil _ _)
          have hcons : hexFields (g :: g' :: gs)
              = hexText g ++ colon :: hexFields (g' :: gs) := rfl
          rw [hcons, List.append_assoc, cutEllipsis_append hg,
            List.cons_append, cutEllipsis_colon (head_hexFields g' gs r), ih,
            Option.map_map, Option.map_map]
          simp [Function.comp_def]

-- ==== the longest run

theorem take_zeroRun (gs : List UInt16) :
    gs.take (zeroRun gs) = List.replicate (zeroRun gs) 0 := by
  unfold zeroRun
  induction gs with
  | nil => rfl
  | cons g gs ih =>
      by_cases hg : g = 0
      · rw [List.takeWhile_cons_of_pos (by simp [hg]), List.length_cons,
          List.take_succ_cons, ih, hg, List.replicate_succ]
      · rw [List.takeWhile_cons_of_neg (by simpa using hg)]
        rfl

theorem zeroRun_le (gs : List UInt16) : zeroRun gs ≤ gs.length :=
  (List.takeWhile_sublist _).length_le

/-- What is found is a run of zeros, if anything is. -/
theorem longestZeros_spec (gs : List UInt16) :
    (longestZeros gs).2 = 0 ∨ 2 ≤ (longestZeros gs).2
      ∧ (longestZeros gs).2 = zeroRun (gs.drop (longestZeros gs).1) := by
  unfold longestZeros
  generalize hbest : ((0, 0) : Nat × Nat) = best
  have hinv : best.2 = 0 ∨ 2 ≤ best.2 ∧ best.2 = zeroRun (gs.drop best.1) :=
    .inl (hbest ▸ rfl)
  clear hbest
  generalize List.range 8 = is
  induction is generalizing best with
  | nil => exact hinv
  | cons i is ih =>
      rw [List.foldl_cons]
      refine ih _ ?_
      dsimp only
      split
      · rename_i hlonger
        exact .inr ⟨hlonger.1, rfl⟩
      · exact hinv

/-- The groups around the run. -/
theorem groups_eq_of_run {gs : List UInt16} {i l : Nat}
    (h : l = zeroRun (gs.drop i)) :
    gs = gs.take i ++ List.replicate l 0 ++ gs.drop (i + l) := by
  have hrun : (gs.drop i).take l = List.replicate l 0 := by
    rw [h, take_zeroRun]
  rw [← hrun, ← List.drop_drop, List.append_assoc, List.take_append_drop,
    List.take_append_drop]

-- ==== IPv6

theorem toGroups_val (g : Groups) : toGroups g.val = some g := by
  unfold toGroups
  rw [dif_pos g.property]

theorem parseGroups_string6 (g : Groups) :
    parseGroups (string6 g) = some g := by
  have hlen := g.property
  unfold string6 parseGroups
  dsimp only
  rcases longestZeros_spec g.val with hzero | ⟨htwo, hrun⟩
  · have hcut := cutEllipsis_hexFields g.val (r := []) fun _ => .inl rfl
    rw [List.append_nil] at hcut
    rw [if_pos hzero, hcut]
    have hside := parseSide_hexFields true g.val
    unfold parseSide at hside
    split at hside
    · -- eight groups are not nothing
      have hnil := congrArg List.length (Option.some.inj hside)
      rw [hlen] at hnil
      cases hnil
    · simp only [cutEllipsis, Option.map_none, hside]
      exact toGroups_val g
  · generalize (longestZeros g.val).1 = i at *
    generalize (longestZeros g.val).2 = l at *
    have hle : l ≤ 8 - i := by
      have hrest := zeroRun_le (g.val.drop i)
      rwa [← hrun, List.length_drop, hlen] at hrest
    have hcut := cutEllipsis_hexFields (g.val.take i)
      (r := colon :: colon :: hexFields (g.val.drop (i + l)))
      fun _ => .inr ⟨_, rfl⟩
    have hends : cutEllipsis
        (colon :: colon :: hexFields (g.val.drop (i + l)))
        = some ([], hexFields (g.val.drop (i + l))) := by
      rw [cutEllipsis, if_pos ⟨rfl, rfl⟩]
      rfl
    rw [if_neg (by omega), hcut, hends]
    simp only [Option.map_some, List.append_nil, parseSide_hexFields]
    have hleft : (g.val.take i).length = i := by
      rw [List.length_take, hlen]
      omega
    have hright : (g.val.drop (i + l)).length = 8 - i - l := by
      rw [List.length_drop, hlen]
      omega
    have hcount : 8 - i - (8 - i - l) = l := by omega
    simp only [Option.bind_eq_bind, Option.bind_some, hleft, hright, hcount]
    rw [if_neg (by omega), ← groups_eq_of_run hrun]
    exact toGroups_val g

theorem mem_string6 {g : Groups} {c : UInt8} (h : c ∈ string6 g) :
    c = colon ∨ (unhex c).isSome = true := by
  unfold string6 at h
  dsimp only at h
  split at h
  · exact mem_hexFields h
  · rcases List.mem_append.mp h with h | h
    · exact mem_hexFields h
    · rcases List.mem_cons.mp h with h | h
      · exact .inl h
      · rcases List.mem_cons.mp h with h | h
        · exact .inl h
        · exact mem_hexFields h

/-- A text of digits, colons and dots whose first separator is a colon is
read as groups. -/
theorem parseAddr_colon {s : GoString}
    (hfind : s.find? (fun c => c == dot || c == colon || c == percent)
      = some colon) (hpercent : percent ∉ s) :
    parseAddr s = (parseGroups s).map fun g => .v6 g [] := by
  have hno : List.contains s percent = false := by
    rw [List.contains_eq_mem]
    exact decide_eq_false hpercent
  unfold parseAddr parseIPv6
  rw [hfind, hno]
  rfl

theorem parseAddr_string6 (g : Groups) :
    parseAddr (string6 g) = some (.v6 g []) := by
  have hcolon : colon ∈ string6 g := by
    unfold string6
    dsimp only
    split
    · match hg : g.val, g.property with
      | a :: b :: gs, _ =>
          exact List.mem_append_right (hexText a) List.mem_cons_self
    · exact List.mem_append_right _ List.mem_cons_self
  have hfind : (string6 g).find?
      (fun c => c == dot || c == colon || c == percent) = some colon := by
    refine find?_eq_some_of_unique hcolon rfl fun c hc hp => ?_
    rcases mem_string6 hc with rfl | hhex
    · rfl
    · simp only [Bool.or_eq_true, beq_iff_eq] at hp
      rcases hp with (rfl | rfl) | rfl <;> cases hhex
  rw [parseAddr_colon hfind, parseGroups_string6]
  · rfl
  · intro h
    rcases mem_string6 h with h | h <;> cases h

-- ==== IPv4-mapped

theorem groupBytes_groupOf (hi lo : UInt8) :
    groupBytes (groupOf hi lo) = [hi, lo] := by
  have hhi := hi.toNat_lt
  have hlo := lo.toNat_lt
  have hval : (groupOf hi lo).toNat = hi.toNat * 256 + lo.toNat := by
    rw [groupOf, UInt16.toNat_ofNat']
    omega
  unfold groupBytes
  rw [hval, show (hi.toNat * 256 + lo.toNat) / 256 = hi.toNat by omega,
    show (hi.toNat * 256 + lo.toNat) % 256 = lo.toNat by omega,
    UInt8.ofNat_toNat, UInt8.ofNat_toNat]

theorem groupBytes_inj {g h : UInt16} (heq : groupBytes g = groupBytes h) :
    g = h := by
  have hbyte : ∀ {m n : Nat}, m < 256 → n < 256 →
      UInt8.ofNat m = UInt8.ofNat n → m = n := fun {m n} hm hn h => by
    have := congrArg UInt8.toNat h
    rwa [UInt8.toNat_ofNat', UInt8.toNat_ofNat', Nat.mod_eq_of_lt hm,
      Nat.mod_eq_of_lt hn] at this
  obtain ⟨hhi, htail⟩ := List.cons.inj heq
  have hg := g.toNat_lt
  have hh := h.toNat_lt
  have h1 := hbyte (by omega) (by omega) hhi
  have h2 := hbyte (by omega) (by omega) (List.cons.inj htail).1
  exact UInt16.toNat_inj.mp (by omega)

/-- The bytes of groups, up to any of them. -/
theorem take_flatMap_groupBytes (gs : List UInt16) (n : Nat) :
    (gs.flatMap groupBytes).take (2 * n) = (gs.take n).flatMap groupBytes := by
  induction gs generalizing n with
  | nil => simp
  | cons g gs ih =>
      cases n with
      | zero => rfl
      | succ n =>
          rw [List.flatMap_cons, List.take_succ_cons, List.flatMap_cons, ← ih]
          rfl

theorem flatMap_groupBytes_inj {gs hs : List UInt16}
    (h : gs.flatMap groupBytes = hs.flatMap groupBytes) : gs = hs := by
  induction gs generalizing hs with
  | nil =>
      cases hs with
      | nil => rfl
      | cons h' hs => cases h
  | cons g gs ih =>
      cases hs with
      | nil => cases h
      | cons h' hs =>
          rw [List.flatMap_cons, List.flatMap_cons] at h
          obtain ⟨hhead, htail⟩ := List.append_inj h rfl
          rw [groupBytes_inj hhead, ih htail]

theorem length_octetGroups (o : Octets) : (octetGroups o).length = 2 := by
  obtain ⟨a, b, c, d, rfl⟩ := octets_eq o
  rfl

/-- The IPv4-mapped IPv6 address. -/
def mapped (o : Octets) : Groups :=
  ⟨[0, 0, 0, 0, 0, 0xffff] ++ octetGroups o, by
    rw [List.length_append, length_octetGroups]
    rfl⟩

theorem bytes_octetGroups (o : Octets) :
    (octetGroups o).flatMap groupBytes = o.val := by
  obtain ⟨a, b, c, d, rfl⟩ := octets_eq o
  show groupBytes (groupOf a b) ++ (groupBytes (groupOf c d) ++ []) = _
  rw [groupBytes_groupOf, groupBytes_groupOf]
  rfl

theorem bytes_mapped (o : Octets) :
    (mapped o).bytes = v4InV6Prefix ++ o.val := by
  show ([0, 0, 0, 0, 0, 0xffff] ++ octetGroups o).flatMap groupBytes = _
  rw [List.flatMap_append, bytes_octetGroups]
  rfl

theorem bytes_of_is4In6 {g : Groups} (h : g.is4In6 = true) :
    g.bytes = v4InV6Prefix ++ g.lower.val := by
  have hsplit : g.val = [0, 0, 0, 0, 0, 0xffff] ++ g.val.drop 6 := by
    conv_lhs => rw [← List.take_append_drop 6 g.val, beq_iff_eq.mp h]
  unfold Groups.bytes
  conv_lhs => rw [hsplit, List.flatMap_append]
  rfl

theorem length_bytes (g : Groups) : g.bytes.length = 16 := by
  have hlen : ∀ gs : List UInt16,
      (gs.flatMap groupBytes).length = 2 * gs.length := by
    intro gs
    induction gs with
    | nil => rfl
    | cons g gs ih =>
        rw [List.flatMap_cons, List.length_append, ih, List.length_cons]
        show 2 + _ = _
        omega
  rw [Groups.bytes, hlen, g.property]

theorem parseAddr_mapped (o : Octets) :
    parseAddr (ascii "::ffff:" ++ dotted o) = some (.v6 (mapped o) []) := by
  have hcolon : colon ∉ dotted o := fun h => by
    rcases mem_dotted h with h | h <;> cases h
  have hcut : cutEllipsis (ascii "::ffff:" ++ dotted o)
      = some ([], ascii "ffff:" ++ dotted o) := rfl
  have hsplit : split colon (ascii "ffff:" ++ dotted o)
      = [ascii "ffff", dotted o] := by
    rw [show ascii "ffff:" ++ dotted o
        = ascii "ffff" ++ colon :: dotted o from rfl,
      split_append_cons (by decide), split_eq_singleton hcolon]
  have hdot : List.contains (dotted o) dot = true := by
    rw [List.contains_eq_mem]
    exact decide_eq_true (dot_mem_dotted o)
  have hfields : parseFields true [ascii "ffff", dotted o]
      = some (0xffff :: octetGroups o) := by
    rw [parseFields, show parseGroup (ascii "ffff") = some 0xffff by decide,
      parseFields, hdot, parseIPv4_dotted]
    · rfl
    · exact nofun
  have hgroups : parseGroups (ascii "::ffff:" ++ dotted o)
      = some (mapped o) := by
    have hright : parseSide true (ascii "ffff:" ++ dotted o)
        = some (0xffff :: octetGroups o) := by
      rw [parseSide, if_neg (by simp [ascii]), hsplit, hfields]
    unfold parseGroups
    rw [hcut]
    dsimp only
    rw [hright, show parseSide false [] = some [] from rfl]
    simp only [Option.bind_eq_bind, Option.bind_some, List.length_cons,
      length_octetGroups]
    exact toGroups_val (mapped o)
  rw [parseAddr_colon rfl, hgroups]
  · rfl
  · intro h
    rcases List.mem_append.mp h with h | h
    · revert h
      decide
    · rcases mem_dotted h with h | h <;> cases h

-- ==== characters

/-- The bytes of addresses without a zone. -/
def isAddrByte (c : UInt8) : Bool :=
  c == dot || c == colon || (unhex c).isSome

theorem isSome_of_mapM {α β : Type} {f : α → Option β} {xs : List α}
    {ys : List β} (h : xs.mapM f = some ys) :
    ∀ x ∈ xs, (f x).isSome = true := by
  induction xs generalizing ys with
  | nil => exact nofun
  | cons x xs ih =>
      rw [List.mapM_cons] at h
      obtain ⟨y, hy, h⟩ := Option.bind_eq_some_iff.mp h
      obtain ⟨zs, hzs, -⟩ := Option.bind_eq_some_iff.mp h
      intro x' hx'
      rcases List.mem_cons.mp hx' with rfl | hx'
      · rw [hy]
        rfl
      · exact ih hzs x' hx'

theorem of_mem_split {p : UInt8 → Prop} {sep : UInt8} {s : GoString}
    (hsep : p sep) (h : ∀ w ∈ split sep s, ∀ c ∈ w, p c) :
    ∀ c ∈ s, p c := by
  intro c hc
  rw [← @join_split sep s] at hc
  rcases mem_join hc with rfl | ⟨w, hw, hcw⟩
  · exact hsep
  · exact h w hw c hcw

theorem isAddrByte_of_isDigit (c : UInt8) (h : isDigit c = true) :
    isAddrByte c = true :=
  forall_byte (P := fun c => isDigit c = true → isAddrByte c = true)
    (by decide +kernel) c h

theorem mem_of_parseIPv4 {s : GoString} {o : Octets}
    (h : parseIPv4 s = some o) : ∀ c ∈ s, c = dot ∨ isDigit c = true := by
  unfold parseIPv4 at h
  split at h
  · rename_i hread
    refine of_mem_split (p := fun c => c = dot ∨ isDigit c = true) (.inl rfl)
      fun w hw c hc => .inr ?_
    have hoctet := isSome_of_mapM hread w hw
    unfold parseOctet at hoctet
    split at hoctet
    · rename_i hok
      exact List.all_eq_true.mp hok.2.1 c hc
    · cases hoctet
  · cases h

theorem addrByte_of_parseIPv4 {s : GoString} {o : Octets}
    (h : parseIPv4 s = some o) : ∀ c ∈ s, isAddrByte c = true := by
  intro c hc
  rcases mem_of_parseIPv4 h c hc with rfl | hdigit
  · decide
  · exact isAddrByte_of_isDigit c hdigit

theorem addrByte_of_parseGroup {f : GoString} {g : UInt16}
    (h : parseGroup f = some g) : ∀ c ∈ f, isAddrByte c = true := by
  unfold parseGroup at h
  split at h
  · cases h
  · obtain ⟨ds, hread, -⟩ := Option.map_eq_some_iff.mp h
    intro c hc
    unfold isAddrByte
    rw [isSome_of_mapM hread c hc, Bool.or_true]

theorem addrByte_of_parseFields {dotted : Bool} {fs : List GoString}
    {gs : List UInt16} (h : parseFields dotted fs = some gs) :
    ∀ f ∈ fs, ∀ c ∈ f, isAddrByte c = true := by
  induction fs generalizing gs with
  | nil => exact nofun
  | cons f fs ih =>
      cases fs with
      | nil =>
          intro w hw
          rw [List.mem_singleton.mp hw]
          rw [parseFields] at h
          split at h
          · obtain ⟨o, ho, -⟩ := Option.map_eq_some_iff.mp h
            exact addrByte_of_parseIPv4 ho
          · obtain ⟨g, hg, -⟩ := Option.map_eq_some_iff.mp h
            exact addrByte_of_parseGroup hg
      | cons f' fs =>
          rw [parseFields] at h
          · obtain ⟨g, hg, h⟩ := Option.bind_eq_some_iff.mp h
            obtain ⟨rest, hrest, -⟩ := Option.bind_eq_some_iff.mp h
            intro w hw
            rcases List.mem_cons.mp hw with rfl | hw
            · exact addrByte_of_parseGroup hg
            · exact ih hrest w hw
          · exact nofun

/-- Fields are not many more groups. -/
theorem length_of_parseFields {dotted : Bool} {fs : List GoString}
    {gs : List UInt16} (h : parseFields dotted fs = some gs) :
    gs.length ≤ fs.length + 1 := by
  induction fs generalizing gs with
  | nil =>
      cases h
      exact Nat.zero_le _
  | cons f fs ih =>
      cases fs with
      | nil =>
          rw [parseFields] at h
          split at h
          · obtain ⟨o, -, rfl⟩ := Option.map_eq_some_iff.mp h
            exact Nat.le_of_eq (length_octetGroups o)
          · obtain ⟨g, -, rfl⟩ := Option.map_eq_some_iff.mp h
            exact Nat.le_succ 1
      | cons f' fs =>
          rw [parseFields] at h
          · obtain ⟨g, -, h⟩ := Option.bind_eq_some_iff.mp h
            obtain ⟨rest, hrest, h⟩ := Option.bind_eq_some_iff.mp h
            cases h
            exact Nat.succ_le_succ (ih hrest)
          · exact nofun

theorem cutEllipsis_text {s l r : GoString}
    (h : cutEllipsis s = some (l, r)) : s = l ++ colon :: colon :: r := by
  induction s generalizing l with
  | nil => cases h
  | cons c s ih =>
      rw [cutEllipsis] at h
      split at h
      · rename_i hcolons
        obtain ⟨rfl, hhead⟩ := hcolons
        cases h
        cases s with
        | nil => cases hhead
        | cons d s =>
            cases hhead
            rfl
      · obtain ⟨p, hp, heq⟩ := Option.map_eq_some_iff.mp h
        cases heq
        rw [ih hp]
        rfl

theorem addrByte_of_parseSide {dotted : Bool} {s : GoString}
    {gs : List UInt16} (h : parseSide dotted s = some gs) :
    ∀ c ∈ s, isAddrByte c = true := by
  unfold parseSide at h
  split at h
  · rename_i hnil
    rw [hnil]
    exact nofun
  · exact of_mem_split (by decide : isAddrByte colon = true)
      (addrByte_of_parseFields h)

theorem parseGroups_cases {s : GoString} {g : Groups}
    (h : parseGroups s = some g) :
    parseFields true (split colon s) = some g.val
      ∨ ∃ l r gl gr, s = l ++ colon :: colon :: r
        ∧ parseSide false l = some gl ∧ parseSide true r = some gr := by
  unfold parseGroups at h
  split at h
  · obtain ⟨gs, hgs, hto⟩ := Option.bind_eq_some_iff.mp h
    unfold toGroups at hto
    split at hto
    · cases hto
      exact .inl hgs
    · cases hto
  · rename_i l r hcut
    obtain ⟨gl, hl, h⟩ := Option.bind_eq_some_iff.mp h
    obtain ⟨gr, hr, -⟩ := Option.bind_eq_some_iff.mp h
    exact .inr ⟨l, r, gl, gr, cutEllipsis_text hcut, hl, hr⟩

theorem addrByte_of_parseGroups {s : GoString} {g : Groups}
    (h : parseGroups s = some g) : ∀ c ∈ s, isAddrByte c = true := by
  rcases parseGroups_cases h with hfields | ⟨l, r, gl, gr, rfl, hl, hr⟩
  · exact of_mem_split (by decide : isAddrByte colon = true)
      (addrByte_of_parseFields hfields)
  · intro c hc
    rcases List.mem_append.mp hc with hc | hc
    · exact addrByte_of_parseSide hl c hc
    · rcases List.mem_cons.mp hc with rfl | hc
      · decide
      · rcases List.mem_cons.mp hc with rfl | hc
        · decide
        · exact addrByte_of_parseSide hr c hc

/-- Both forms of an address; a zone stands behind `%`. -/
theorem parseAddr_cases {s : GoString} {a : Addr}
    (h : parseAddr s = some a) :
    (∃ o, a = .v4 o ∧ parseIPv4 s = some o)
      ∨ ∃ g zone, a = .v6 g zone ∧ parseGroups (before percent s) = some g
        ∧ (zone = [] → percent ∉ s) := by
  unfold parseAddr at h
  split at h
  · cases h
  · split at h
    · obtain ⟨o, ho, rfl⟩ := Option.map_eq_some_iff.mp h
      exact .inl ⟨o, rfl, ho⟩
    · split at h
      · unfold parseIPv6 at h
        split at h
        · dsimp only at h
          split at h
          · cases h
          · rename_i hne
            obtain ⟨g, hg, rfl⟩ := Option.map_eq_some_iff.mp h
            exact .inr ⟨g, _, rfl, hg, fun hnil => absurd hnil hne⟩
        · rename_i hpercent
          have hpercent : percent ∉ s := by simpa using hpercent
          obtain ⟨g, hg, rfl⟩ := Option.map_eq_some_iff.mp h
          exact .inr ⟨g, [], rfl, by rwa [before_eq_self hpercent],
            fun _ => hpercent⟩
      · cases h

example : (parseAddr (ascii "fe80::1%en0")).map Addr.zone
    = some (ascii "en0") := by decide +kernel

theorem addrByte_of_parseAddr {s : GoString} {a : Addr}
    (h : parseAddr s = some a) (hzone : a.zone = []) :
    ∀ c ∈ s, isAddrByte c = true := by
  rcases parseAddr_cases h with ⟨o, -, ho⟩ | ⟨g, zone, rfl, hg, hnone⟩
  · exact addrByte_of_parseIPv4 ho
  · rw [before_eq_self (hnone hzone)] at hg
    exact addrByte_of_parseGroups hg

end Tokyo3Base.Go.NetIP
