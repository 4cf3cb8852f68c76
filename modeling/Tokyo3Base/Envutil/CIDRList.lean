/-
Lists of networks from the environment (`envutil/scalars.go`): `CIDRList`
of the value of a variable.
-/
import Tokyo3Base.Go.NetIP
import Tokyo3Base.Go.Strings

namespace Tokyo3Base.Envutil

open Go NetIP

def comma : UInt8 := 0x2c

/-- An IPv4-mapped prefix as the IPv4 prefix that it stands for. -/
def unmapCIDR (n : IPNet) : IPNet :=
  let (ones, bits) := maskSize n.mask
  if bits ≠ 128 ∨ ones < 96 then n
  else
    match to4 n.ip with
    | none => n
    | some v4 => ⟨v4, cidrMask (ones - 96) 4⟩

/-- `IP.String` of four bytes. -/
def string4 (v4 : GoString) : GoString :=
  join dot (v4.map fun b => formatUint b.toNat)

/-- An entry with the length of its prefix: a bare address gets the full
one. -/
def withLength (part : GoString) : GoString :=
  if part.contains slash then part
  else
    match parseIP part with
    | none => part
    | some ip =>
        match to4 ip with
        | some v4 => string4 v4 ++ ascii "/32"
        | none => part ++ ascii "/128"

/-- One entry; `none` is one that is empty. -/
def cidrEntry (key part : GoString) : Except GoString (Option IPNet) :=
  let part := trimSpace part
  if part = [] then .ok none
  else
    let part := withLength part
    match parseCIDR part with
    | none => .error (key ++ ascii ": invalid CIDR address: " ++ part)
    | some n => .ok (some (unmapCIDR n))

/-- `CIDRList`, of the variable's value. -/
def cidrList (key value : GoString) : Except GoString (List IPNet) :=
  let s := trimSpace value
  if s = [] then .ok []
  else do
    let nets ← (split comma s).mapM (cidrEntry key)
    return nets.filterMap id

end Tokyo3Base.Envutil
