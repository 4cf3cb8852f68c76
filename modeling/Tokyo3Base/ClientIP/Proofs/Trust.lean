/-
Which peers and hops a network of the trust list covers: those whose
address agrees with it on the first bits, in every spelling of the two.

# Spellings

`ParseIP` gives the same sixteen bytes for an IPv4 address and for its
IPv4-mapped form, and canonical text is read back as the same bytes
(`parseIP_canonical`). So without a zone it makes no difference that a peer
is written anew before it is looked up, and a hop is not.

# Entries

An entry for an IPv4-mapped prefix becomes the IPv4 network itself, down
to the bytes, and so do bare addresses. What a network covers is then a
matter of bits (`contains_network4`, `contains_network16`).

# Zones

`ParseIP` refuses a zone, so that a hop with one is trusted by no entry.
`canonical` drops the zone of an IPv4-mapped address and keeps all others.
The verdict is wrong exactly where a zone is left and the address agrees.
-/
import Tokyo3Base.ClientIP.Extractor
import Tokyo3Base.Envutil.Proofs.CIDRList

namespace Tokyo3Base.ClientIP

open Go NetIP Envutil

-- ==== texts

theorem parseIP_eq_some {s ip : GoString} :
    parseIP s = some ip
      ↔ ∃ a, parseAddr s = some a ∧ a.zone = [] ∧ a.as16 = ip := by
  unfold parseIP
  constructor
  · intro h
    split at h
    · rename_i a ha
      split at h
      · rename_i hzone
        exact ⟨a, ha, hzone, Option.some.inj h⟩
      · cases h
    · cases h
  · rintro ⟨a, ha, hzone, rfl⟩
    rw [ha]
    dsimp only
    rw [if_pos hzone]

/-- An address that has no zone once it is unmapped is read back from its
canonical text, as the same bytes. -/
theorem parseAddr_unmap_string {a : Addr} (hzone : a.unmap.zone = []) :
    ∃ a', parseAddr a.unmap.string = some a' ∧ a'.zone = []
      ∧ a'.as16 = a.as16 := by
  cases a with
  | v4 o => exact ⟨.v4 o, parseAddr_dotted o, rfl, rfl⟩
  | v6 g zone =>
      cases hg : g.is4In6 with
      | true =>
          refine ⟨.v4 g.lower, ?_, rfl, (bytes_of_is4In6 hg).symm⟩
          simp only [Addr.unmap, hg, if_true]
          exact parseAddr_dotted g.lower
      | false =>
          simp only [Addr.unmap, hg, Bool.false_eq_true, if_false] at hzone
          obtain rfl : zone = [] := hzone
          refine ⟨.v6 g [], ?_, rfl, rfl⟩
          simp only [Addr.unmap, Addr.string, hg, Bool.false_eq_true,
            if_false, if_true, List.append_nil]
          exact parseAddr_string6 g

theorem parseIP_eq_none {s : GoString} (h : percent ∈ s) :
    parseIP s = none := by
  refine Option.eq_none_iff_forall_ne_some.mpr fun ip hip => ?_
  obtain ⟨a, ha, hzone, -⟩ := parseIP_eq_some.mp hip
  cases addrByte_of_parseAddr ha hzone percent h

/-- What is looked up for a peer. -/
theorem parseIP_canonical {host : GoString} {a : Addr}
    (h : parseAddr host = some a) :
    parseIP (canonical host)
      = if a.unmap.zone = [] then some a.as16 else none := by
  unfold canonical
  rw [h]
  dsimp only
  split
  · rename_i hzone
    exact parseIP_eq_some.mpr (parseAddr_unmap_string hzone)
  · rename_i hzone
    refine parseIP_eq_none ?_
    cases hu : a.unmap with
    | v4 o =>
        rw [hu] at hzone
        exact absurd rfl hzone
    | v6 g zone =>
        rw [hu] at hzone
        have hne : zone ≠ [] := hzone
        rw [Addr.string, if_neg hne]
        exact List.mem_append_right _ List.mem_cons_self

-- ==== peers

/-- The bytes that `SplitHostPort` looks for. -/
def isHostPortByte (c : UInt8) : Bool :=
  c == colon || c == leftBracket || c == rightBracket

/-- How a peer with this host may be written: alone, with a port, or in
brackets with a port. A host with colons needs the brackets if there is a
port, and none of its own. -/
inductive Spelled (host : GoString) : GoString → Prop where
  | bare : Spelled host host
  | withPort (port : GoString) (hcolon : colon ∉ host)
      (hport : ∀ c ∈ port, isHostPortByte c = false) :
      Spelled host (host ++ colon :: port)
  | bracketed (port : GoString) (hleft : leftBracket ∉ host)
      (hright : rightBracket ∉ host)
      (hport : ∀ c ∈ port, isHostPortByte c = false) :
      Spelled host
        (leftBracket :: host ++ rightBracket :: colon :: port)

/-- The groups of an IPv6 address have two colons between them. -/
theorem two_colons {s : GoString} {g : Groups}
    (h : parseGroups s = some g) : 2 ≤ s.count colon := by
  rcases parseGroups_cases h with hfields | ⟨l, r, gl, gr, rfl, -, -⟩
  · -- the last of the fields is at most two groups
    have hlen := length_of_parseFields hfields
    rw [g.property, length_split] at hlen
    omega
  · rw [List.count_append, List.count_cons_self, List.count_cons_self]
    omega

/-- An address has no colon, or more than one. -/
theorem colons_of_parseAddr {host : GoString} {a : Addr}
    (h : parseAddr host = some a) {x y : GoString}
    (hhost : host = x ++ colon :: y) (hy : colon ∉ y) : colon ∈ x := by
  rcases parseAddr_cases h with ⟨o, -, ho⟩ | ⟨g, zone, -, hg, -⟩
  · -- an IPv4 address has digits and dots only
    have hmem : colon ∈ host := by
      rw [hhost]
      exact List.mem_append_right _ List.mem_cons_self
    rcases mem_of_parseIPv4 ho colon hmem with h | h <;> cases h
  · have hle : (before percent host).count colon ≤ host.count colon :=
      (List.takeWhile_sublist _).count_le colon
    have htwo := Nat.le_trans (two_colons hg) hle
    rw [hhost, List.count_append, List.count_cons_self,
      List.count_eq_zero.mpr hy] at htwo
    exact List.count_pos_iff.mp (by omega)

theorem head_ne_leftBracket {host : GoString} {a : Addr}
    (h : parseAddr host = some a) (s : GoString) :
    (host ++ s).head? ≠ some leftBracket := by
  cases host with
  | nil => cases h
  | cons c host =>
      rintro ⟨⟩
      rcases parseAddr_cases h with ⟨o, -, ho⟩ | ⟨g, zone, -, hg, -⟩
      · cases addrByte_of_parseIPv4 ho leftBracket List.mem_cons_self
      · cases addrByte_of_parseGroups hg leftBracket (by
          rw [before_cons_of_ne (by decide)]
          exact List.mem_cons_self)

theorem not_mem_port {port : GoString}
    (hport : ∀ c ∈ port, isHostPortByte c = false) {c : UInt8}
    (hc : isHostPortByte c = true) : c ∉ port := fun hmem => by
  rw [hport c hmem] at hc
  cases hc

/-- A bare address is no host with a port: what is before its last colon
has a colon. -/
theorem splitHostPort_bare {host : GoString} {a : Addr}
    (h : parseAddr host = some a) : splitHostPort host = none := by
  have hhead := head_ne_leftBracket h []
  rw [List.append_nil] at hhead
  unfold splitHostPort
  rw [if_neg hhead]
  cases hcut : NetURL.cutLast colon host with
  | none => rfl
  | some p =>
      obtain ⟨x, y⟩ := p
      have hx := colons_of_parseAddr h (NetURL.cutLast_text hcut)
        (NetURL.not_mem_of_cutLast.2 hcut)
      exact if_pos (.inl (by simpa using hx))

theorem splitHostPort_port {host port : GoString} {a : Addr}
    (h : parseAddr host = some a) (hcolon : colon ∉ host)
    (hport : ∀ c ∈ port, isHostPortByte c = false) :
    splitHostPort (host ++ colon :: port) = some (host, port) := by
  have hhead := head_ne_leftBracket h (colon :: port)
  have hbytes : ∀ c ∈ host, isAddrByte c = true := by
    rcases parseAddr_cases h with ⟨o, -, ho⟩ | ⟨g, zone, -, hg, -⟩
    · exact addrByte_of_parseIPv4 ho
    · have hmem : colon ∈ before percent host :=
        List.count_pos_iff.mp (by have := two_colons hg; omega)
      exact absurd ((List.takeWhile_sublist _).subset hmem) hcolon
  have hnot : ∀ c, isAddrByte c = false → isHostPortByte c = true →
      c ≠ colon → c ∉ host ++ colon :: port := fun c hc hc' hne hmem => by
    rcases List.mem_append.mp hmem with hmem | hmem
    · rw [hbytes c hmem] at hc
      cases hc
    · rcases List.mem_cons.mp hmem with heq | hmem
      · exact hne heq
      · exact not_mem_port hport hc' hmem
  unfold splitHostPort
  rw [if_neg hhead, NetURL.cutLast_append _ (not_mem_port hport rfl)]
  refine if_neg ?_
  rintro (hc | hc | hc)
  · exact hcolon (by simpa using hc)
  · exact hnot leftBracket (by decide) rfl (by decide) (by simpa using hc)
  · exact hnot rightBracket (by decide) rfl (by decide) (by simpa using hc)

theorem splitHostPort_brackets {host port : GoString}
    (hleft : leftBracket ∉ host) (hright : rightBracket ∉ host)
    (hport : ∀ c ∈ port, isHostPortByte c = false) :
    splitHostPort (leftBracket :: host ++ rightBracket :: colon :: port)
      = some (host, port) := by
  have hbefore : before rightBracket
      (host ++ rightBracket :: colon :: port) = host := by
    rw [before_append hright]
    exact List.append_nil host
  have hafter : NetURL.after rightBracket
      (host ++ rightBracket :: colon :: port) = colon :: port := by
    rw [NetURL.after_append hright]
    rfl
  have hrest : leftBracket ∉ host ++ rightBracket :: colon :: port :=
    fun hmem => by
      rcases List.mem_append.mp hmem with hmem | hmem
      · exact hleft hmem
      · rcases List.mem_cons.mp hmem with heq | hmem
        · cases heq
        · rcases List.mem_cons.mp hmem with heq | hmem
          · cases heq
          · exact not_mem_port hport rfl hmem
  have hcond : (colon :: port).head? = some colon
      ∧ ¬ List.contains ((colon :: port).drop 1) colon = true
      ∧ ¬ List.contains (host ++ rightBracket :: colon :: port) leftBracket
        = true
      ∧ ¬ List.contains ((colon :: port).drop 1) rightBracket = true := by
    refine ⟨rfl, fun hc => ?_, fun hc => ?_, fun hc => ?_⟩
    · exact not_mem_port hport (c := colon) rfl (by simpa using hc)
    · exact hrest (by simpa using hc)
    · exact not_mem_port hport (c := rightBracket) rfl (by simpa using hc)
  unfold splitHostPort
  rw [List.cons_append, List.head?_cons, if_pos rfl, List.drop_succ_cons,
    List.drop_zero]
  dsimp only
  rw [if_pos (by simp), hafter, hbefore, if_pos hcond]
  rfl

/-- In every spelling the host is found. -/
theorem hostOnly_spelled {host remote : GoString} {a : Addr}
    (h : parseAddr host = some a) (hremote : Spelled host remote) :
    hostOnly remote = host := by
  unfold hostOnly
  cases hremote with
  | bare => rw [splitHostPort_bare h]
  | withPort port hcolon hport => rw [splitHostPort_port h hcolon hport]
  | bracketed port hleft hright hport =>
      rw [splitHostPort_brackets hleft hright hport]

-- ==== verdicts

/-- When an extractor is right about a host whose address agrees with its
entry, or does not: as a hop, and as a peer in every spelling. -/
structure Extractor.RightAbout (e : Extractor) (host : GoString)
    (agrees hop peer : Prop) : Prop where
  hop : (e.isTrusted host = true ↔ agrees) ↔ hop
  peer : ∀ remote lines, Spelled host remote →
    ((e.isTrustedPeer ⟨remote, lines⟩ = true ↔ agrees) ↔ peer)

/-- With one network, a text is looked up as what `ParseIP` reads. -/
theorem isTrusted_single {s ip : GoString} {net : IPNet} {read agrees : Prop}
    [Decidable read] (h : parseIP s = if read then some ip else none)
    (hnet : net.contains ip = true ↔ agrees) :
    ((Extractor.mk [net]).isTrusted s = true ↔ agrees)
      ↔ read ∨ ¬ agrees := by
  by_cases hread : read
  · rw [if_pos hread] at h
    rw [Extractor.isTrusted, h]
    dsimp only
    rw [List.any_cons, List.any_nil, Bool.or_false, hnet]
    exact iff_of_true Iff.rfl (.inl hread)
  · rw [if_neg hread] at h
    rw [Extractor.isTrusted, h]
    simp [hread]

/-- The verdict is right where no zone is left or the address does not
agree. -/
theorem rightAbout_single {host : GoString} {a : Addr}
    (h : parseAddr host = some a) {net : IPNet} {agrees : Prop}
    (hnet : net.contains a.as16 = true ↔ agrees) :
    (Extractor.mk [net]).RightAbout host agrees
      (a.zone = [] ∨ ¬ agrees) (a.unmap.zone = [] ∨ ¬ agrees) := by
  refine ⟨isTrusted_single ?_ hnet, fun remote lines hremote => ?_⟩
  · rw [parseIP, h]
  · rw [Extractor.isTrustedPeer, hostOnly_spelled h hremote,
      show (Extractor.mk [net]).hasTrustedProxies = true from rfl,
      Bool.true_and]
    exact isTrusted_single (parseIP_canonical h) hnet

theorem length_as16 (a : Addr) : a.as16.length = 16 := by
  cases a with
  | v4 o =>
      rw [Addr.as16, List.length_append, o.property]
      rfl
  | v6 g zone => exact length_bytes g

theorem length_of_to4 {ip x : GoString} (h : to4 ip = some x) :
    x.length = 4 := by
  unfold to4 at h
  split at h
  · rename_i hlen
    cases h
    exact hlen
  · split at h
    · rename_i hlen
      cases h
      rw [List.length_drop, hlen.1]
    · cases h

/-- IPv6 addresses that are not IPv4-mapped are none for `To4` either. -/
theorem to4_bytes {p : Groups} (h : p.is4In6 = false) :
    to4 p.bytes = none := by
  rw [to4_eq_none (length_bytes p)]
  intro hfront
  have hgroups : (p.val.take 6).flatMap groupBytes
      = [0, 0, 0, 0, 0, 0xffff].flatMap groupBytes := by
    rw [← take_flatMap_groupBytes]
    exact hfront
  rw [Groups.is4In6, beq_eq_false_iff_ne] at h
  exact h (flatMap_groupBytes_inj hgroups)

/-- The spellings of an IPv4 prefix are the same entry in every list. Alone
it covers the IPv4 addresses, mapped or not, that agree with it on the
first bits, and an IPv6 prefix that is not IPv4-mapped covers, of the
addresses that are not either, those that agree with it: for a hop exactly
if there is no zone or no agreement, for a peer exactly if `Unmap` leaves
no zone or there is no agreement. -/
theorem cidrList_trusts_iff (key : GoString) :
    (∀ (o : Octets) (n : Nat), n ≤ 32 → ∀ e e', Spelling o n e →
        Spelling o n e' → ∀ pre post,
        cidrList key (join Envutil.comma (pre ++ e :: post))
          = cidrList key (join Envutil.comma (pre ++ e' :: post)))
      ∧ (∀ (o : Octets) (n : Nat), n ≤ 32 → ∀ e, Spelling o n e →
        ∃ nets, cidrList key e = .ok nets ∧ ∀ host a x,
          parseAddr host = some a → to4 a.as16 = some x →
          (Extractor.mk nets).RightAbout host
            (firstBits n x = firstBits n o.val)
            (a.zone = [] ∨ firstBits n x ≠ firstBits n o.val)
            (a.unmap.zone = [] ∨ firstBits n x ≠ firstBits n o.val))
      ∧ ∀ (text : GoString) (p : Groups), parseAddr text = some (.v6 p []) →
        p.is4In6 = false → ∀ n ≤ 128,
        ∃ nets, cidrList key (text ++ slash :: formatUint n) = .ok nets
          ∧ ∀ host a, parseAddr host = some a → to4 a.as16 = none →
          (Extractor.mk nets).RightAbout host
            (firstBits n a.as16 = firstBits n p.bytes)
            (a.zone = [] ∨ firstBits n a.as16 ≠ firstBits n p.bytes)
            (a.unmap.zone = []
              ∨ firstBits n a.as16 ≠ firstBits n p.bytes) := by
  refine ⟨fun o n hn e e' he he' pre post => ?_, fun o n hn e he => ?_,
    fun text p htext hp n hn => ?_⟩
  · refine cidrList_congr ?_ pre post
    rw [entries_spelling hn he, entries_spelling hn he']
  · refine ⟨_, cidrList_single (entries_spelling hn he),
      fun host a x hhost hx => rightAbout_single hhost ?_⟩
    exact contains_network4 n o.property hx (length_of_to4 hx)
  · have hnone := to4_bytes hp
    refine ⟨_, cidrList_single (entries_text htext rfl hn),
      fun host a hhost hip => rightAbout_single hhost ?_⟩
    rw [prefixNet_v6 hnone]
    exact contains_network16 n (length_bytes p) hnone (length_as16 a) hip

/-- `10.0.0.0/8`, mapped and in a list, and a documentation prefix. -/
theorem cidrList_trusts_private :
    cidrList (ascii "PROXIES") (ascii "192.0.2.1,::ffff:10.0.0.0/104")
        = cidrList (ascii "PROXIES") (ascii "192.0.2.1,10.0.0.0/8")
      ∧ (∃ nets,
        cidrList (ascii "PROXIES") (ascii "::ffff:10.0.0.0/104") = .ok nets
        ∧ (Extractor.mk nets).isTrustedPeer
          ⟨ascii "[::ffff:10.1.2.3%eth0]:443", []⟩ = true)
      ∧ ∃ nets, cidrList (ascii "PROXIES") (ascii "2001:db8::/32") = .ok nets
        ∧ (Extractor.mk nets).isTrusted (ascii "2001:db9::7") = false := by
  obtain ⟨hsame, hv4, hv6⟩ := cidrList_trusts_iff (ascii "PROXIES")
  let private10 : Octets := ⟨[10, 0, 0, 0], rfl⟩
  let docs : Groups := ⟨[0x2001, 0xdb8, 0, 0, 0, 0, 0, 0], rfl⟩
  refine ⟨?_, ?_, ?_⟩
  · exact hsame private10 8 (by decide) _ _ .mapped .plain
      [ascii "192.0.2.1"] []
  · obtain ⟨nets, hlist, hright⟩ := hv4 private10 8 (by decide) _ .mapped
    have hhost := hright (ascii "::ffff:10.1.2.3%eth0")
      (.v6 (mapped ⟨[10, 1, 2, 3], rfl⟩) (ascii "eth0")) [10, 1, 2, 3]
      (by decide +kernel) (by decide +kernel)
    refine ⟨nets, hlist, ((hhost.peer _ [] (.bracketed (ascii "443")
      (by decide) (by decide) (by decide +kernel))).mpr ?_).mpr ?_⟩
    · exact .inl (by decide +kernel)
    · decide +kernel
  · obtain ⟨nets, hlist, hright⟩ := hv6 (ascii "2001:db8::") docs
      (by decide +kernel) (by decide +kernel) 32 (by decide)
    have hhost := hright (ascii "2001:db9::7")
      (.v6 ⟨[0x2001, 0xdb9, 0, 0, 0, 0, 0, 7], rfl⟩ [])
      (by decide +kernel) (by decide +kernel)
    refine ⟨nets, hlist, Bool.eq_false_iff.mpr fun htrue => ?_⟩
    exact absurd ((hhost.hop.mpr (.inl rfl)).mp htrue) (by decide +kernel)

def linkLocal : Groups := ⟨[0xfe80, 0, 0, 0, 0, 0, 0, 1], rfl⟩

def linkLocalNet : IPNet := network (0xfe :: 0x80 :: List.replicate 14 0) 10

/-- A link-local proxy comes with a zone. Its address agrees with
`fe80::/10` on ten bits, and without the zone it is trusted; with it, it
is not. -/
theorem cidrList_trusts_zone :
    cidrList (ascii "PROXIES") (ascii "fe80::/10") = .ok [linkLocalNet]
      ∧ parseAddr (ascii "fe80::1%eth0") = some (.v6 linkLocal (ascii "eth0"))
      ∧ firstBits 10 linkLocal.bytes = firstBits 10 [0xfe, 0x80]
      ∧ (Extractor.mk [linkLocalNet]).isTrustedPeer
        ⟨ascii "[fe80::1]:443", []⟩ = true
      ∧ (Extractor.mk [linkLocalNet]).isTrustedPeer
        ⟨ascii "[fe80::1%eth0]:443", []⟩ = false := by
  decide +kernel

end Tokyo3Base.ClientIP
