/-
Masks and networks. A network of a prefix length contains the addresses of
its kind that agree with it on the first bits, and no others.

# Bits

A mask of `n` ones leaves the first `n` bits as they are and clears the
rest. Masks and bits are both read byte by byte, the byte of a mask by how
many ones are left for it (`cidrMask_succ`, `firstBits_cons`), so that two
addresses under a mask are compared in one induction (`masked_eq_iff`) over
a fact about single bytes (`masked_byte_iff`).

# IPv4-mapped networks

Masking makes no IPv4-mapped address out of one that is not
(`to4_masked`): the last byte of the mapped front would need a mask of
ones, and with that the whole front is left as it is.
-/
import Tokyo3Base.Go.Proofs.NetIP

namespace Tokyo3Base.Go.NetIP

-- ==== bits

/-- The bits of a byte, the highest first. -/
def byteBits (b : UInt8) : List Bool :=
  (List.range 8).map fun i => b.toNat.testBit (7 - i)

/-- The first `n` bits of an address. -/
def firstBits (n : Nat) (ip : GoString) : List Bool :=
  (ip.flatMap byteBits).take n

/-- The byte of a mask with `n` ones left. -/
def maskByte (n : Nat) : UInt8 :=
  if 8 ≤ n then 0xff else ~~~((0xff : UInt8) >>> UInt8.ofNat n)

theorem length_byteBits (b : UInt8) : (byteBits b).length = 8 := rfl

theorem firstBits_cons (n : Nat) (b : UInt8) (ip : GoString) :
    firstBits n (b :: ip) = (byteBits b).take n ++ firstBits (n - 8) ip := by
  rw [firstBits, List.flatMap_cons, List.take_append, length_byteBits]
  rfl

theorem cidrMask_succ (n k : Nat) :
    cidrMask n (k + 1) = maskByte n :: cidrMask (n - 8) k := by
  rw [cidrMask, maskByte]
  split
  · rfl
  · rw [Nat.sub_eq_zero_of_le (by omega)]

theorem length_cidrMask (n k : Nat) : (cidrMask n k).length = k := by
  induction k generalizing n with
  | zero => rfl
  | succ k ih => rw [cidrMask_succ, List.length_cons, ih]

theorem testBit_maskByte {i : Nat} (hi : i < 8) (n : Nat) :
    (maskByte n).toNat.testBit (7 - i) = decide (i < n) := by
  by_cases hn : n < 8
  · have hshort : ∀ n < 8, ∀ i < 8,
        (maskByte n).toNat.testBit (7 - i) = decide (i < n) := by
      decide +kernel
    exact hshort n hn i hi
  · have hones : ∀ i < 8, (0xff : UInt8).toNat.testBit (7 - i) = true := by
      decide +kernel
    rw [maskByte, if_pos (by omega), hones i hi]
    exact (decide_eq_true (by omega)).symm

theorem take_byteBits_eq {n : Nat} {a b : UInt8} :
    (byteBits a).take n = (byteBits b).take n
      ↔ ∀ i < 8, i < n →
        a.toNat.testBit (7 - i) = b.toNat.testBit (7 - i) := by
  rw [byteBits, byteBits, ← List.map_take, ← List.map_take,
    List.take_range, List.map_inj_left]
  simp only [List.mem_range, Nat.lt_min]
  exact ⟨fun h i hi hn => h i ⟨hn, hi⟩, fun h i hi => h i hi.2 hi.1⟩

/-- Bytes are the same if their eight bits are. -/
theorem byte_eq_of_testBit {a b : UInt8}
    (h : ∀ i < 8, a.toNat.testBit (7 - i) = b.toNat.testBit (7 - i)) :
    a = b := by
  refine UInt8.toNat_inj.mp (Nat.eq_of_testBit_eq fun k => ?_)
  by_cases hk : k < 8
  · have hbit := h (7 - k) (by omega)
    rwa [show 7 - (7 - k) = k by omega] at hbit
  · have hpow : 2 ^ 8 ≤ 2 ^ k := Nat.pow_le_pow_right (by decide) (by omega)
    rw [Nat.testBit_lt_two_pow (Nat.lt_of_lt_of_le a.toNat_lt hpow),
      Nat.testBit_lt_two_pow (Nat.lt_of_lt_of_le b.toNat_lt hpow)]

theorem masked_byte_iff {n : Nat} {a b : UInt8} :
    a &&& maskByte n = b &&& maskByte n
      ↔ (byteBits a).take n = (byteBits b).take n := by
  have hmask : ∀ (c : UInt8) (i : Nat), i < 8 →
      (c &&& maskByte n).toNat.testBit (7 - i)
        = (c.toNat.testBit (7 - i) && decide (i < n)) := by
    intro c i hi
    rw [UInt8.toNat_and, Nat.testBit_and, testBit_maskByte hi]
  rw [take_byteBits_eq]
  constructor
  · intro h i hi hn
    have hbit := hmask a i hi
    rw [h, hmask b i hi, decide_eq_true hn, Bool.and_true,
      Bool.and_true] at hbit
    exact hbit.symm
  · intro h
    refine byte_eq_of_testBit fun i hi => ?_
    rw [hmask a i hi, hmask b i hi]
    by_cases hn : i < n
    · rw [h i hi hn]
    · rw [decide_eq_false hn, Bool.and_false, Bool.and_false]

/-- Two addresses are the same under a mask if they agree on its bits. -/
theorem masked_eq_iff {n k : Nat} {x y : GoString} (hx : x.length = k)
    (hy : y.length = k) :
    masked x (cidrMask n k) = masked y (cidrMask n k)
      ↔ firstBits n x = firstBits n y := by
  induction k generalizing n x y with
  | zero =>
      rw [List.eq_nil_of_length_eq_zero hx, List.eq_nil_of_length_eq_zero hy]
      exact ⟨fun _ => rfl, fun _ => rfl⟩
  | succ k ih =>
      obtain ⟨a, x, rfl⟩ := List.exists_cons_of_length_eq_add_one hx
      obtain ⟨b, y, rfl⟩ := List.exists_cons_of_length_eq_add_one hy
      have ih := ih (n := n - 8) (Nat.succ.inj hx) (Nat.succ.inj hy)
      rw [cidrMask_succ, firstBits_cons, firstBits_cons]
      unfold masked at ih ⊢
      rw [List.zipWith_cons_cons, List.zipWith_cons_cons, List.cons.injEq,
        ih, masked_byte_iff]
      constructor
      · rintro ⟨hbyte, hrest⟩
        rw [hbyte, hrest]
      · intro h
        refine List.append_inj h ?_
        rw [List.length_take, List.length_take, length_byteBits,
          length_byteBits]

theorem masked_masked (x m : GoString) :
    masked (masked x m) m = masked x m := by
  unfold masked
  induction x generalizing m with
  | nil => rfl
  | cons a x ih =>
      cases m with
      | nil => rfl
      | cons b m =>
          simp only [List.zipWith_cons_cons, ih, UInt8.and_assoc,
            UInt8.and_self]

theorem length_masked {x m : GoString} (h : x.length = m.length) :
    (masked x m).length = x.length := by
  rw [masked, List.length_zipWith, h, Nat.min_self]

-- ==== masks

/-- A mask over more bytes begins with one over fewer. -/
theorem take_cidrMask (n j k : Nat) :
    (cidrMask n (j + k)).take j = cidrMask n j := by
  induction j generalizing n with
  | zero => rfl
  | succ j ih =>
      rw [Nat.add_right_comm, cidrMask_succ, List.take_succ_cons, ih,
        ← cidrMask_succ]

theorem cidrMask_add (n j k : Nat) :
    cidrMask (8 * j + n) (j + k) = List.replicate j 0xff ++ cidrMask n k := by
  induction j with
  | zero => simp
  | succ j ih =>
      rw [Nat.add_right_comm, cidrMask_succ, maskByte,
        if_pos (Nat.le_add_right_of_le (by omega)),
        show 8 * (j + 1) + n - 8 = 8 * j + n by omega, ih,
        List.replicate_succ, List.cons_append]

theorem masked_ones (x : GoString) :
    masked x (List.replicate x.length 0xff) = x := by
  induction x with
  | nil => rfl
  | cons a x ih =>
      have hbyte : a &&& 0xff = a :=
        forall_byte (P := fun a => a &&& 0xff = a) (by decide +kernel) a
      unfold masked at ih ⊢
      rw [List.length_cons, List.replicate_succ, List.zipWith_cons_cons, ih,
        hbyte]

theorem masked_append {x y m k : GoString} (h : x.length = m.length) :
    masked (x ++ y) (m ++ k) = masked x m ++ masked y k :=
  List.zipWith_append h

/-- The front of an IPv4-mapped address keeps its bytes only under a mask
of ones. -/
theorem masked_v4InV6Prefix : ∀ n < 96,
    masked v4InV6Prefix (cidrMask n 12) ≠ v4InV6Prefix := by
  decide +kernel

/-- The sizes of the masks that `ParseCIDR` makes for IPv6. -/
theorem maskSize_cidrMask : ∀ n < 129, maskSize (cidrMask n 16) = (n, 128) := by
  decide +kernel

theorem to4_four {ip : GoString} (h : ip.length = 4) : to4 ip = some ip :=
  if_pos h

theorem to4_mapped {x : GoString} (hx : x.length = 4) :
    to4 (v4InV6Prefix ++ x) = some x := by
  have hlen : (v4InV6Prefix ++ x).length = 16 := by
    rw [List.length_append, hx]
    rfl
  have hfront : (v4InV6Prefix ++ x).take 12 = v4InV6Prefix :=
    List.take_left' rfl
  have hrest : (v4InV6Prefix ++ x).drop 12 = x := List.drop_left' rfl
  rw [to4, hlen, if_neg (by decide), if_pos ⟨rfl, hfront⟩, hrest]

theorem to4_eq_none {ip : GoString} (hlen : ip.length = 16) :
    to4 ip = none ↔ ip.take 12 ≠ v4InV6Prefix := by
  rw [to4, hlen, if_neg (by decide)]
  simp

/-- Masking makes no IPv4-mapped address. -/
theorem to4_masked {p : GoString} (n : Nat) (hlen : p.length = 16)
    (h : to4 p = none) : to4 (masked p (cidrMask n 16)) = none := by
  have hmlen : (masked p (cidrMask n 16)).length = 16 := by
    rw [length_masked (hlen.trans (length_cidrMask n 16).symm), hlen]
  rw [to4_eq_none hlen] at h
  rw [to4_eq_none hmlen]
  intro hfront
  have htake : masked (p.take 12) (cidrMask n 12) = v4InV6Prefix := by
    rw [← hfront, masked, masked, List.take_zipWith, take_cidrMask n 12 4]
  by_cases hn : n < 96
  · refine masked_v4InV6Prefix n hn ?_
    rw [← htake, masked_masked]
  · refine h ?_
    have hones : cidrMask n 12 = List.replicate (p.take 12).length 0xff := by
      have := cidrMask_add (n - 96) 12 0
      rw [show 8 * 12 + (n - 96) = n by omega] at this
      rw [List.length_take, hlen, this]
      exact List.append_nil _
    rw [hones, masked_ones] at htake
    exact htake

-- ==== networks

/-- The network of an address and a length. -/
def network (ip : GoString) (n : Nat) : IPNet :=
  let m := cidrMask n ip.length
  ⟨masked ip m, m⟩

theorem length_network (ip : GoString) (n : Nat) :
    (network ip n).ip.length = ip.length
      ∧ (network ip n).mask.length = ip.length :=
  ⟨length_masked (length_cidrMask n ip.length).symm,
    length_cidrMask n ip.length⟩

/-- Addresses of the length of the network are compared by their first
bits. -/
theorem contains_iff {a ip x : GoString} {n : Nat}
    (hnumber : (network a n).numberAndMask
      = some ((network a n).ip, (network a n).mask))
    (hx : (to4 ip).getD ip = x) (hlen : x.length = a.length) :
    (network a n).contains ip = true ↔ firstBits n x = firstBits n a := by
  rw [← masked_eq_iff hlen rfl, IPNet.contains, hnumber]
  dsimp only
  rw [hx, (length_network a n).1, hlen, beq_self_eq_true, Bool.true_and,
    beq_iff_eq, network, masked_masked]
  exact eq_comm

/-- What an IPv4 network contains: the IPv4 addresses, mapped or not, that
agree with it on the first bits. -/
theorem contains_network4 {a ip x : GoString} (n : Nat) (ha : a.length = 4)
    (hx : to4 ip = some x) (hxlen : x.length = 4) :
    (network a n).contains ip = true ↔ firstBits n x = firstBits n a := by
  obtain ⟨hip, hmask⟩ := length_network a n
  rw [ha] at hip hmask
  refine contains_iff ?_ (by rw [hx, Option.getD_some]) (hxlen.trans ha.symm)
  rw [IPNet.numberAndMask, to4_four hip]
  simp [hip, hmask]

/-- What an IPv6 network contains, of the addresses that are not
IPv4-mapped. -/
theorem contains_network16 {p q : GoString} (n : Nat) (hp : p.length = 16)
    (hp4 : to4 p = none) (hq : q.length = 16) (hq4 : to4 q = none) :
    (network p n).contains q = true ↔ firstBits n q = firstBits n p := by
  obtain ⟨hip, hmask⟩ := length_network p n
  rw [hp] at hip hmask
  refine contains_iff ?_ (by rw [hq4, Option.getD_none]) (hq.trans hp.symm)
  have hnone : to4 (network p n).ip = none := by
    rw [network, hp]
    exact to4_masked n hp hp4
  rw [IPNet.numberAndMask, hnone]
  simp [hip, hmask]

example : (network [172, 16, 0, 1] 12).contains [172, 31, 2, 3] = true := by
  decide +kernel

end Tokyo3Base.Go.NetIP
