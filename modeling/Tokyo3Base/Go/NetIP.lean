/-
Addresses and networks: package `net/netip`, and of package `net` the IPs
(byte slices), the networks and `SplitHostPort`.

# Texts of addresses

The parsers are given by the form of the text that they accept: fields
between dots or colons, at most one `::`, a dotted tail, a zone behind `%`.
The loops of the source read the same forms in one pass. Printing compresses
the first longest run of zero groups, as the source does.

# The two representations

A `netip.Addr` tells IPv4 from IPv6. A `net.IP` is four or sixteen bytes,
and an IPv4 address may be either: `To4` takes the four bytes out of the
sixteen, and `IPNet.Contains` compares IPv4-mapped addresses as IPv4.
-/
import Tokyo3Base.Go.JSON
import Tokyo3Base.Go.NetURL
import Tokyo3Base.Go.Path
import Tokyo3Base.Go.Strconv
import Tokyo3Base.Go.URL

namespace Tokyo3Base.Go.NetIP

def colon : UInt8 := 0x3a

def leftBracket : UInt8 := 0x5b

def rightBracket : UInt8 := 0x5d

-- ==== addresses

/-- The bytes of an IPv4 address. -/
abbrev Octets := { b : GoString // b.length = 4 }

/-- The 16-bit groups of an IPv6 address. -/
abbrev Groups := { g : List UInt16 // g.length = 8 }

/-- A `netip.Addr`; a zone that is empty is none. -/
inductive Addr where
  | v4 (octets : Octets)
  | v6 (groups : Groups) (zone : GoString)
deriving DecidableEq

/-- The two bytes of a group. -/
def groupBytes (g : UInt16) : GoString :=
  [UInt8.ofNat (g.toNat / 256), UInt8.ofNat (g.toNat % 256)]

/-- The group of two bytes. -/
def groupOf (hi lo : UInt8) : UInt16 :=
  UInt16.ofNat (hi.toNat * 256 + lo.toNat)

def Groups.bytes (g : Groups) : GoString := g.val.flatMap groupBytes

/-- The first twelve bytes of an IPv4-mapped address. -/
def v4InV6Prefix : GoString := List.replicate 10 0 ++ [0xff, 0xff]

/-- `Addr.Is4In6`, of the groups. -/
def Groups.is4In6 (g : Groups) : Bool :=
  g.val.take 6 == [0, 0, 0, 0, 0, 0xffff]

/-- The IPv4 address in the last two groups. -/
def Groups.lower (g : Groups) : Octets :=
  ⟨(g.val.drop 6).flatMap groupBytes, by
    have h := g.property
    match hd : g.val.drop 6 with
    | [a, b] => rfl
    | [] | [_] | _ :: _ :: _ :: _ =>
        have hlen := congrArg List.length hd
        simp [h] at hlen⟩

/-- `Addr.Unmap`; the zone goes with it. -/
def Addr.unmap : Addr → Addr
  | .v4 o => .v4 o
  | .v6 g zone => if g.is4In6 then .v4 g.lower else .v6 g zone

def Addr.zone : Addr → GoString
  | .v4 _ => []
  | .v6 _ zone => zone

/-- `Addr.As16`. -/
def Addr.as16 : Addr → GoString
  | .v4 o => v4InV6Prefix ++ o.val
  | .v6 g _ => g.bytes

def Addr.bitLen : Addr → Nat
  | .v4 _ => 32
  | .v6 _ _ => 128

-- ==== parsing

/-- One field of an IPv4 address: no leading zero, at most 255. -/
def parseOctet (f : GoString) : Option UInt8 :=
  if f ≠ [] ∧ f.all isDigit = true ∧ (f.length = 1 ∨ f.head? ≠ some 48)
      ∧ decimal f ≤ 255 then
    some (UInt8.ofNat (decimal f))
  else none

def parseIPv4 (s : GoString) : Option Octets :=
  match (split dot s).mapM parseOctet with
  | some [a, b, c, d] => some ⟨[a, b, c, d], rfl⟩
  | _ => none

/-- The number that hexadecimal digits spell. -/
def hexNumber (ds : List UInt8) : Nat :=
  ds.foldl (fun n d => n * 16 + d.toNat) 0

/-- One field of an IPv6 address: up to four hexadecimal digits. -/
def parseGroup (f : GoString) : Option UInt16 :=
  if f = [] ∨ 4 < f.length then none
  else (f.mapM unhex).map fun ds => UInt16.ofNat (hexNumber ds)

/-- The two groups of a dotted tail. -/
def octetGroups (o : Octets) : List UInt16 :=
  match o.val with
  | [a, b, c, d] => [groupOf a b, groupOf c d]
  | _ => []

/-- The fields on one side of `::`; the last of the text may be dotted. -/
def parseFields (dotted : Bool) : List GoString → Option (List UInt16)
  | [] => some []
  | [f] =>
      if dotted && List.contains f dot then (parseIPv4 f).map octetGroups
      else (parseGroup f).map fun g => [g]
  | f :: fs => do
      let g ← parseGroup f
      let gs ← parseFields dotted fs
      return g :: gs

/-- The fields of a side that may be empty. -/
def parseSide (dotted : Bool) (s : GoString) : Option (List UInt16) :=
  if s = [] then some [] else parseFields dotted (split colon s)

/-- What is before and after the first `::`. -/
def cutEllipsis : GoString → Option (GoString × GoString)
  | [] => none
  | c :: s =>
      if c = colon ∧ s.head? = some colon then some ([], s.drop 1)
      else (cutEllipsis s).map fun p => (c :: p.1, p.2)

/-- The groups, eight of them. -/
def toGroups (gs : List UInt16) : Option Groups :=
  if h : gs.length = 8 then some ⟨gs, h⟩ else none

/-- An IPv6 address without its zone. -/
def parseGroups (s : GoString) : Option Groups :=
  match cutEllipsis s with
  | none => (parseFields true (split colon s)).bind toGroups
  | some (left, right) => do
      let l ← parseSide false left
      let r ← parseSide true right
      if 7 < l.length + r.length then none
      else toGroups (l ++ List.replicate (8 - l.length - r.length) 0 ++ r)

def parseIPv6 (s : GoString) : Option Addr :=
  if s.contains percent then
    let zone := NetURL.after percent s
    if zone = [] then none
    else (parseGroups (before percent s)).map fun g => .v6 g zone
  else (parseGroups s).map fun g => .v6 g []

/-- `netip.ParseAddr`: the first dot or colon decides. -/
def parseAddr (s : GoString) : Option Addr :=
  match s.find? fun c => c == dot || c == colon || c == percent with
  | none => none
  | some c =>
      if c = dot then (parseIPv4 s).map .v4
      else if c = colon then parseIPv6 s
      else none

-- ==== printing

/-- `Addr.string4`. -/
def dotted (o : Octets) : GoString :=
  join dot (o.val.map fun b => formatUint b.toNat)

/-- `appendHex`, without leading zeros. -/
def hexText (g : UInt16) : GoString :=
  if g.toNat = 0 then [hexDigit 0]
  else (Nat.digits 16 g.toNat).reverse.map fun d => hexDigit (UInt8.ofNat d)

/-- How many zero groups there are in front. -/
def zeroRun (gs : List UInt16) : Nat := (gs.takeWhile (· == 0)).length

/-- Where the first longest run of at least two zero groups is, and how
long it is; if there is none, its length is 0. -/
def longestZeros (gs : List UInt16) : Nat × Nat :=
  (List.range 8).foldl (fun best i =>
    let l := zeroRun (gs.drop i)
    if 2 ≤ l ∧ best.2 < l then (i, l) else best) (0, 0)

def hexFields (gs : List UInt16) : GoString := join colon (gs.map hexText)

/-- `Addr.string6`, without the zone. -/
def string6 (g : Groups) : GoString :=
  let (start, len) := longestZeros g.val
  if len = 0 then hexFields g.val
  else hexFields (g.val.take start) ++ colon :: colon
    :: hexFields (g.val.drop (start + len))

/-- `Addr.String`. -/
def Addr.string : Addr → GoString
  | .v4 o => dotted o
  | .v6 g zone =>
      (if g.is4In6 then ascii "::ffff:" ++ dotted g.lower else string6 g)
        ++ if zone = [] then [] else percent :: zone

-- ==== package net

/-- `net.ParseIP`: the sixteen bytes, unless there is a zone. -/
def parseIP (s : GoString) : Option GoString :=
  match parseAddr s with
  | some a => if a.zone = [] then some a.as16 else none
  | none => none

/-- `IP.To4`. -/
def to4 (ip : GoString) : Option GoString :=
  if ip.length = 4 then some ip
  else if ip.length = 16 ∧ ip.take 12 = v4InV6Prefix then some (ip.drop 12)
  else none

/-- `net.CIDRMask`, in bytes. -/
def cidrMask : Nat → Nat → GoString
  | _, 0 => []
  | ones, bytes + 1 =>
      if 8 ≤ ones then 0xff :: cidrMask (ones - 8) bytes
      else ~~~((0xff : UInt8) >>> UInt8.ofNat ones) :: cidrMask 0 bytes

structure IPNet where
  ip : GoString
  mask : GoString
deriving DecidableEq

/-- The bytes of an address under a mask. -/
def masked (ip mask : GoString) : GoString := List.zipWith (· &&& ·) ip mask

/-- `IP.Mask`, for a mask of four or sixteen bytes. -/
def maskIP (ip mask : GoString) : GoString :=
  let ip :=
    if mask.length = 4 ∧ ip.length = 16 ∧ ip.take 12 = v4InV6Prefix then
      ip.drop 12
    else ip
  if ip.length ≠ mask.length then [] else masked ip mask

/-- `net.ParseCIDR`: the network. -/
def parseCIDR (s : GoString) : Option IPNet :=
  if s.contains slash then
    let digits := NetURL.after slash s
    match parseAddr (before slash s) with
    | none => none
    | some a =>
        if a.zone ≠ [] ∨ digits = [] ∨ digits.all isDigit = false
            ∨ a.bitLen < decimal digits then none
        else
          let m := cidrMask (decimal digits) (a.bitLen / 8)
          some ⟨maskIP a.as16 m, m⟩
  else none

/-- The leading ones of a byte. -/
def leadingOnes (b : UInt8) : Nat :=
  ((List.range 8).takeWhile fun i =>
    b &&& ((0x80 : UInt8) >>> UInt8.ofNat i) != 0).length

/-- The number of leading ones, unless there is a one behind them. -/
def simpleMaskLength : GoString → Option Nat
  | [] => some 0
  | b :: m =>
      if b = 0xff then (simpleMaskLength m).map (· + 8)
      else if b = ~~~((0xff : UInt8) >>> UInt8.ofNat (leadingOnes b))
          ∧ m.all (· == 0) = true then
        some (leadingOnes b)
      else none

/-- `IPMask.Size`. -/
def maskSize (m : GoString) : Nat × Nat :=
  match simpleMaskLength m with
  | some ones => (ones, m.length * 8)
  | none => (0, 0)

/-- `networkNumberAndMask`. -/
def IPNet.numberAndMask (n : IPNet) : Option (GoString × GoString) :=
  let ip := (to4 n.ip).getD n.ip
  if ip.length ≠ 4 ∧ ip.length ≠ 16 then none
  else if n.mask.length = 4 then
    if ip.length ≠ 4 then none else some (ip, n.mask)
  else if n.mask.length = 16 then
    some (ip, if ip.length = 4 then n.mask.drop 12 else n.mask)
  else none

/-- `IPNet.Contains`. -/
def IPNet.contains (n : IPNet) (ip : GoString) : Bool :=
  match n.numberAndMask with
  | none => false
  | some (number, mask) =>
      let ip := (to4 ip).getD ip
      ip.length == number.length && masked number mask == masked ip mask

/-- `net.SplitHostPort`. -/
def splitHostPort (hostport : GoString) : Option (GoString × GoString) :=
  if hostport.head? = some leftBracket then
    -- the first `]` has to be just before the last colon
    let rest := hostport.drop 1
    if rest.contains rightBracket then
      let tail := NetURL.after rightBracket rest
      let port := tail.drop 1
      if tail.head? = some colon ∧ ¬ port.contains colon
          ∧ ¬ rest.contains leftBracket ∧ ¬ port.contains rightBracket then
        some (before rightBracket rest, port)
      else none
    else none
  else
    match NetURL.cutLast colon hostport with
    | none => none
    | some (host, port) =>
        if host.contains colon ∨ hostport.contains leftBracket
            ∨ hostport.contains rightBracket then none
        else some (host, port)

end Tokyo3Base.Go.NetIP
