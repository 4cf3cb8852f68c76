/-
What `CIDRList` makes of its entries. The list as a whole is trimmed before
it is split, which changes nothing, since each entry is trimmed as well
(`cidrList_eq`). So an entry can be looked at alone.

An IPv4 prefix is one network in all its spellings (`cidrEntry_spelling`):
the sixteen bytes and the 128-bit mask of an IPv4-mapped prefix are cut
down to four bytes and 32 bits, and what is cut off are the bytes that all
mapped addresses share and ones of the mask. Any other IPv6 prefix stays as
it is (`prefixNet_v6`).
-/
import Tokyo3Base.Envutil.CIDRList
import Tokyo3Base.Go.Proofs.IPNet
import Tokyo3Base.Go.Proofs.NetURL
import Tokyo3Base.Go.Proofs.Strings

namespace Tokyo3Base.Envutil

open Go NetIP

variable {key : GoString}

-- ==== the list

theorem Spaces.not_mem_comma {t : GoString} (h : Spaces wideSpaces t) :
    comma ∉ t := by
  obtain ⟨us, hus, rfl⟩ := h
  intro hmem
  obtain ⟨u, hu, hc⟩ := List.mem_flatten.mp hmem
  rcases hus u hu with ⟨c, hspace, rfl⟩ | hwide
  · rw [← List.mem_singleton.mp hc] at hspace
    cases hspace
  · revert hc
    have hnone : ∀ u ∈ wideSpaces, comma ∉ u := by decide
    exact hnone u hwide

theorem cidrEntry_trim {l t : GoString} (hl : Spaces wideSpaces l)
    (ht : Spaces wideSpaces t) (part : GoString) :
    cidrEntry key (l ++ part) = cidrEntry key part
      ∧ cidrEntry key (part ++ t) = cidrEntry key part := by
  unfold cidrEntry
  rw [trimSpace_spaces hl, trimSpace_append ht]
  exact ⟨rfl, rfl⟩

/-- The entries between commas. -/
def entries (key value : GoString) : Except GoString (List (Option IPNet)) :=
  (split comma value).mapM (cidrEntry key)

theorem entries_append (u v : GoString) :
    entries key (u ++ comma :: v)
      = (do return (← entries key u) ++ (← entries key v)) := by
  rw [entries, split_append, List.mapM_append]
  rfl

theorem entries_single {w : GoString} (hw : comma ∉ w) :
    entries key w = (do return [← cidrEntry key w]) := by
  rw [entries, split_eq_singleton hw, List.mapM_cons, List.mapM_nil]
  rfl

/-- White space in front of the first entry does not count. -/
theorem entries_spaces {l : GoString} (hl : Spaces wideSpaces l)
    (s : GoString) : entries key (l ++ s) = entries key s := by
  have hcomma := Spaces.not_mem_comma hl
  by_cases hs : comma ∈ s
  · obtain ⟨w, v, rfl, hw⟩ := List.eq_append_cons_of_mem hs
    have hlw : comma ∉ l ++ w := fun h => by
      rcases List.mem_append.mp h with h | h
      · exact hcomma h
      · exact hw h
    rw [← List.append_assoc, entries_append, entries_append,
      entries_single hlw, entries_single hw, (cidrEntry_trim hl hl w).1]
  · have hls : comma ∉ l ++ s := fun h => by
      rcases List.mem_append.mp h with h | h
      · exact hcomma h
      · exact hs h
    rw [entries_single hls, entries_single hs, (cidrEntry_trim hl hl s).1]

/-- Nor does it behind the last one. -/
theorem entries_append_spaces {t : GoString} (ht : Spaces wideSpaces t)
    (s : GoString) : entries key (s ++ t) = entries key s := by
  have hcomma := Spaces.not_mem_comma ht
  have hlast : ∀ {w}, comma ∉ w →
      entries key (w ++ t) = entries key w := fun {w} hw => by
    have hwt : comma ∉ w ++ t := fun h => by
      rcases List.mem_append.mp h with h | h
      · exact hw h
      · exact hcomma h
    rw [entries_single hwt, entries_single hw, (cidrEntry_trim ht ht w).2]
  cases hcut : NetURL.cutLast comma s with
  | none => exact hlast (NetURL.not_mem_of_cutLast.1 hcut)
  | some p =>
      obtain ⟨x, y⟩ := p
      rw [NetURL.cutLast_text hcut, List.append_assoc, List.cons_append,
        entries_append, entries_append,
        hlast (NetURL.not_mem_of_cutLast.2 hcut)]

theorem cidrList_eq (value : GoString) :
    cidrList key value = (do return (← entries key value).filterMap id) := by
  obtain ⟨l, t, hl, ht, hvalue, -, -⟩ := trimSpace_spec value
  have htrim : entries key value = entries key (trimSpace value) := by
    conv => lhs; rw [hvalue]
    rw [entries_spaces hl, entries_append_spaces ht]
  rw [htrim, cidrList]
  split
  · rename_i hnil
    rw [hnil]
    rfl
  · rfl

/-- Entries that are read alike may replace each other in any list. -/
theorem cidrList_congr {e e' : GoString} (h : entries key e = entries key e')
    (pre post : List GoString) :
    cidrList key (join comma (pre ++ e :: post))
      = cidrList key (join comma (pre ++ e' :: post)) := by
  have hentries : entries key (join comma (pre ++ e :: post))
      = entries key (join comma (pre ++ e' :: post)) := by
    induction pre with
    | nil =>
        cases post with
        | nil => exact h
        | cons w post =>
            simp only [List.nil_append, join, entries_append, h]
    | cons w pre ih =>
        obtain ⟨v, vs, hv⟩ : ∃ v vs, pre ++ e :: post = v :: vs :=
          List.exists_cons_of_ne_nil (by simp)
        obtain ⟨v', vs', hv'⟩ : ∃ v vs, pre ++ e' :: post = v :: vs :=
          List.exists_cons_of_ne_nil (by simp)
        rw [hv, hv'] at ih
        simp only [List.cons_append, hv, hv', join, entries_append, ih]
  rw [cidrList_eq, cidrList_eq, hentries]

-- ==== entries

/-- The bytes of entries. -/
def isEntryByte (c : UInt8) : Bool := isAddrByte c || c == slash

theorem entryByte_spec (c : UInt8) (h : isEntryByte c = true) :
    isVisible c = true ∧ c ≠ comma :=
  forall_byte (P := fun c => isEntryByte c = true →
    isVisible c = true ∧ c ≠ comma) (by decide +kernel) c h

/-- An entry that has only bytes of entries is taken as it is. -/
theorem cidrEntry_eq {part : GoString} (hne : part ≠ [])
    (h : ∀ c ∈ part, isEntryByte c = true) {net : IPNet}
    (hnet : parseCIDR (withLength part) = some net) :
    entries key part = .ok [some (unmapCIDR net)] := by
  have hcomma : comma ∉ part := fun hc =>
    (entryByte_spec comma (h comma hc)).2 rfl
  have htrim := trimSpace_eq_self fun c hc => (entryByte_spec c (h c hc)).1
  have hentry : cidrEntry key part = .ok (some (unmapCIDR net)) := by
    rw [cidrEntry, htrim]
    dsimp only
    rw [if_neg hne, hnet]
  rw [entries_single hcomma, hentry]
  rfl

/-- The network of an address and a length, as `CIDRList` keeps it. -/
def prefixNet (a : Addr) (n : Nat) : IPNet :=
  let m := cidrMask n (a.bitLen / 8)
  unmapCIDR ⟨maskIP a.as16 m, m⟩

section Address

variable {text : GoString} {a : Addr}

theorem parseCIDR_text (h : parseAddr text = some a) (hzone : a.zone = [])
    {n : Nat} (hn : n ≤ a.bitLen) :
    parseCIDR (text ++ slash :: formatUint n)
      = some ⟨maskIP a.as16 (cidrMask n (a.bitLen / 8)),
          cidrMask n (a.bitLen / 8)⟩ := by
  have hslash : slash ∉ text := fun hc => by
    cases addrByte_of_parseAddr h hzone slash hc
  have hbefore : before slash (text ++ slash :: formatUint n) = text := by
    rw [before_append hslash]
    exact List.append_nil text
  have hafter : NetURL.after slash (text ++ slash :: formatUint n)
      = formatUint n := by
    rw [NetURL.after_append hslash]
    rfl
  have hdigits : (formatUint n).all isDigit = true :=
    List.all_eq_true.mpr fun c hc => isDigit_of_mem_formatUint hc
  have hcond : ¬ (a.zone ≠ [] ∨ formatUint n = []
      ∨ (formatUint n).all isDigit = false
      ∨ a.bitLen < decimal (formatUint n)) := by
    simp [hzone, formatUint_ne_nil, hdigits, decimal_formatUint, hn]
  rw [parseCIDR, if_pos (by simp), hafter, hbefore, h]
  dsimp only
  rw [if_neg hcond, decimal_formatUint]

/-- An address with the length of a prefix. -/
theorem entries_text (h : parseAddr text = some a) (hzone : a.zone = [])
    {n : Nat} (hn : n ≤ a.bitLen) :
    entries key (text ++ slash :: formatUint n)
      = .ok [some (prefixNet a n)] := by
  refine cidrEntry_eq (by simp) (fun c hc => ?_) ?_
  · rw [isEntryByte, Bool.or_eq_true, beq_iff_eq]
    rcases List.mem_append.mp hc with hc | hc
    · exact .inl (addrByte_of_parseAddr h hzone c hc)
    · rcases List.mem_cons.mp hc with rfl | hc
      · exact .inr rfl
      · exact .inl (isAddrByte_of_isDigit c (isDigit_of_mem_formatUint hc))
  · rw [withLength, if_pos (by simp)]
    exact parseCIDR_text h hzone hn

/-- A bare IPv4 address, mapped or not. -/
theorem entries_bare (h : parseAddr text = some a) (hzone : a.zone = [])
    {o : Octets} (ho : a.as16 = v4InV6Prefix ++ o.val) :
    entries key text = .ok [some (prefixNet (.v4 o) 32)] := by
  have hbytes := addrByte_of_parseAddr h hzone
  have hslash : ¬ text.contains slash = true := fun hc => by
    cases hbytes slash (by simpa using hc)
  have hne : text ≠ [] := fun hnil => by
    rw [hnil] at h
    cases h
  refine cidrEntry_eq hne (fun c hc => ?_) ?_
  · rw [isEntryByte, hbytes c hc]
    rfl
  · have hip : parseIP text = some (v4InV6Prefix ++ o.val) := by
      rw [parseIP, h]
      dsimp only
      rw [if_pos hzone, ho]
    rw [withLength, if_neg hslash, hip]
    dsimp only
    rw [to4_mapped o.property]
    exact parseCIDR_text (parseAddr_dotted o) rfl (Nat.le_refl 32)

end Address

-- ==== networks

theorem maskIP_mapped {x m : GoString} (hx : x.length = 4)
    (hm : m.length = 4) : maskIP (v4InV6Prefix ++ x) m = masked x m := by
  have hlen : (v4InV6Prefix ++ x).length = 16 := by
    rw [List.length_append, hx]
    rfl
  have hfour : m.length = 4 ∧ (v4InV6Prefix ++ x).length = 16
      ∧ (v4InV6Prefix ++ x).take 12 = v4InV6Prefix :=
    ⟨hm, hlen, List.take_left' rfl⟩
  have hrest : (v4InV6Prefix ++ x).drop 12 = x := List.drop_left' rfl
  rw [maskIP, if_pos hfour, hrest]
  exact if_neg (by rw [hx, hm]; decide)

theorem maskIP_sixteen {x m : GoString} (hx : x.length = 16)
    (hm : m.length = 16) : maskIP x m = masked x m := by
  have hfour : ¬ (m.length = 4 ∧ x.length = 16
      ∧ x.take 12 = v4InV6Prefix) := by
    rw [hm]
    exact fun h => absurd h.1 (by decide)
  rw [maskIP, if_neg hfour]
  exact if_neg (by rw [hx, hm]; decide)

theorem prefixNet_v4 (o : Octets) (n : Nat) :
    prefixNet (.v4 o) n = network o.val n := by
  have hm := length_cidrMask n 4
  have hsize : (maskSize (cidrMask n 4)).2 ≠ 128 := by
    unfold maskSize
    split
    · rw [hm]
      exact nofun
    · decide
  have hmask : maskIP (v4InV6Prefix ++ o.val) (cidrMask n 4)
      = masked o.val (cidrMask n 4) := maskIP_mapped o.property hm
  rw [network, o.property]
  unfold prefixNet unmapCIDR
  simp only [Addr.bitLen, Addr.as16, Nat.reduceDiv, hmask]
  exact if_pos (.inl hsize)

/-- An IPv4-mapped prefix is the IPv4 one. -/
theorem prefixNet_mapped (o : Octets) {n : Nat} (hn : n ≤ 32) :
    prefixNet (.v6 (mapped o) []) (96 + n) = network o.val n := by
  have hm := length_cidrMask n 4
  have hmask : cidrMask (96 + n) 16
      = List.replicate 12 0xff ++ cidrMask n 4 := cidrMask_add n 12 4
  have hones : v4InV6Prefix.length = (List.replicate 12 (0xff : UInt8)).length :=
    rfl
  have hnumber : maskIP (mapped o).bytes (cidrMask (96 + n) 16)
      = v4InV6Prefix ++ masked o.val (cidrMask n 4) := by
    rw [maskIP_sixteen (length_bytes _) (length_cidrMask _ _), bytes_mapped,
      hmask, masked_append hones]
    exact congrArg (· ++ _) (masked_ones v4InV6Prefix)
  have hlen : (masked o.val (cidrMask n 4)).length = 4 := by
    rw [length_masked (o.property.trans hm.symm), o.property]
  rw [network, o.property]
  unfold prefixNet unmapCIDR
  simp only [Addr.bitLen, Addr.as16, Nat.reduceDiv, hnumber,
    maskSize_cidrMask (96 + n) (by omega), to4_mapped hlen]
  rw [if_neg (by omega), Nat.add_sub_cancel_left]

theorem prefixNet_v6 {p : Groups} (h : to4 p.bytes = none) (n : Nat) :
    prefixNet (.v6 p []) n = network p.bytes n := by
  have hnumber : maskIP p.bytes (cidrMask n 16)
      = masked p.bytes (cidrMask n 16) :=
    maskIP_sixteen (length_bytes p) (length_cidrMask n 16)
  rw [network, length_bytes]
  unfold prefixNet unmapCIDR
  simp only [Addr.bitLen, Addr.as16, Nat.reduceDiv, hnumber,
    to4_masked n (length_bytes p) h]
  exact ite_self _

/-- The ways to write an IPv4 prefix. -/
inductive Spelling (o : Octets) (n : Nat) : GoString → Prop where
  | plain : Spelling o n (dotted o ++ slash :: formatUint n)
  | mapped : Spelling o n
      (ascii "::ffff:" ++ dotted o ++ slash :: formatUint (96 + n))
  | bare (h : n = 32) : Spelling o n (dotted o)
  | bareMapped (h : n = 32) : Spelling o n (ascii "::ffff:" ++ dotted o)

/-- All of them are the same network. -/
theorem entries_spelling {o : Octets} {n : Nat} (hn : n ≤ 32)
    {e : GoString} (he : Spelling o n e) :
    entries key e = .ok [some (network o.val n)] := by
  cases he with
  | plain =>
      rw [entries_text (parseAddr_dotted o) rfl hn, prefixNet_v4]
  | mapped =>
      rw [entries_text (parseAddr_mapped o) rfl (Nat.add_le_add_left hn 96),
        prefixNet_mapped o hn]
  | bare h =>
      rw [entries_bare (parseAddr_dotted o) rfl rfl, prefixNet_v4, h]
  | bareMapped h =>
      rw [entries_bare (parseAddr_mapped o) rfl (bytes_mapped o),
        prefixNet_v4, h]

theorem cidrList_single {e : GoString} {net : IPNet}
    (h : entries key e = .ok [some net]) : cidrList key e = .ok [net] := by
  rw [cidrList_eq, h]
  rfl

end Tokyo3Base.Envutil
