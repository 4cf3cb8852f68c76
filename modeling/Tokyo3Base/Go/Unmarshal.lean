/-
`encoding/json`'s `Unmarshal`, and `Marshal` of a struct, on syntax trees.

# Trees

A tree keeps what a decoder can see of a text: the members of an object in
their order and with their repetitions, number literals as they are
written, and strings as the bytes that they decode to. What the scanner
rejects (a malformed text, one that is nested ten thousand deep) is
rejected for every target, and has no tree.

# Decoders

A decoder gets the value that the target holds already and gives the new
one; `none` is an error. `Unmarshal` goes on after a type error and reports
it at the end. The modelled callers drop the value then, so that it makes
no difference here. A member belongs to the field whose name it equals
under case folding: the structs that are modelled have no two fields with
the same folded name, so the rule that prefers exact names has nothing to
decide.
-/
import Tokyo3Base.Go.JSON
import Tokyo3Base.Go.Strconv
import Tokyo3Base.Lib.Table

namespace Tokyo3Base.Go

open Lib

inductive Json where
  | null
  | bool (b : Bool)
  | num (literal : GoString)
  | str (s : GoString)
  | arr (items : List Json)
  | obj (members : List (GoString × Json))

abbrev Members := List (GoString × Json)

-- ==== folding

def lowerByte (c : UInt8) : UInt8 := if 65 ≤ c && c ≤ 90 then c + 32 else c

/-- What is left of `s` behind a character that folds like the ASCII
character `c`. Beyond ASCII these are U+017F for `s` and U+212A for `k`. -/
def passFold (c : UInt8) : GoString → Option GoString
  | [] => none
  | b :: s =>
      if lowerByte b = lowerByte c then some s
      else if lowerByte c = 0x73 ∧ hasPrefix (b :: s) [0xc5, 0xbf] then
        some (s.drop 1)
      else if lowerByte c = 0x6b ∧ hasPrefix (b :: s) [0xe2, 0x84, 0xaa] then
        some (s.drop 2)
      else none

/-- `strings.EqualFold`, for a first argument in ASCII. -/
def equalFold : GoString → GoString → Bool
  | [], s => s.isEmpty
  | c :: name, s =>
      match passFold c s with
      | none => false
      | some s => equalFold name s

-- ==== numbers

/-- What `strconv.ParseFloat` makes of a literal, as far as it is used
here: whether it is in range, and the `int64` that the result is converted
to. -/
abbrev ParseFloat := GoString → Option Int

-- ==== decoders

def decodeString (old : GoString) : Json → Option GoString
  | .null => some old
  | .str s => some s
  | _ => none

def decodeInt64 (old : Int) : Json → Option Int
  | .null => some old
  | .num literal => atoi literal
  | _ => none

/-- A `*int64`; `null` is the nil pointer. -/
def decodeInt64Ptr (_ : Option Int) : Json → Option (Option Int)
  | .null => some none
  | .num literal => (atoi literal).map some
  | _ => none

/-- A `json.RawMessage`: whatever stands there, `null` too; one that is
empty holds nothing. -/
def decodeRaw (_ : Option Json) (j : Json) : Option (Option Json) :=
  some (some j)

/-- A `[]string`, and what its array still holds behind it. -/
structure Strings where
  value : List GoString
  spare : List GoString
deriving DecidableEq

/-- Each item is decoded over the one that the array holds there. -/
def decodeItems : List GoString → List Json → Option (List GoString)
  | _, [] => some []
  | cells, j :: items => do
      let s ← decodeString (cells.headD []) j
      let rest ← decodeItems cells.tail items
      return s :: rest

def decodeStrings (old : Strings) : Json → Option Strings
  | .null => some ⟨[], []⟩
  | .arr [] => some ⟨[], []⟩
  | .arr items => do
      let cells := old.value ++ old.spare
      let value ← decodeItems cells items
      return ⟨value, cells.drop items.length⟩
  | _ => none

/-- A `map[string]T`, `none` being nil: `null` makes it nil, and the
members of an object are stored over what it holds. The values are decoded
from the zero of `T` on. -/
def decodeMap {α : Type} (decode : α → Json → Option α) (zero : α)
    (old : Option (Table GoString α)) :
    Json → Option (Option (Table GoString α))
  | .null => some none
  | .obj members =>
      (members.foldlM (fun m e => (decode zero e.2).map (m.set e.1))
        (old.getD .empty)).map some
  | _ => none

mutual

/-- An `any`: all numbers become `float64`s, and have to be in range. -/
def decodesToAny (parseFloat : ParseFloat) : Json → Bool
  | .num literal => (parseFloat literal).isSome
  | .arr items => allDecodeToAny parseFloat items
  | .obj members => membersDecodeToAny parseFloat members
  | _ => true

def allDecodeToAny (parseFloat : ParseFloat) : List Json → Bool
  | [] => true
  | j :: items =>
      decodesToAny parseFloat j && allDecodeToAny parseFloat items

def membersDecodeToAny (parseFloat : ParseFloat) : Members → Bool
  | [] => true
  | e :: members =>
      decodesToAny parseFloat e.2 && membersDecodeToAny parseFloat members

end

/-- An `any`, which is kept as its tree. -/
def decodeAny (parseFloat : ParseFloat) (_ : Json) (j : Json) :
    Option Json :=
  if decodesToAny parseFloat j then some j else none

/-- A field of a struct: the members that belong to it, one after the
other. -/
def decodeField {α : Type} (name : GoString)
    (decode : α → Json → Option α) (zero : α) (members : Members) :
    Option α :=
  (members.filter fun e => equalFold name e.1).foldlM
    (fun old e => decode old e.2) zero

-- ==== structs

/-- `Marshal` of a struct: its fields in their order, without those that
`omitempty` leaves out. -/
def encodeStruct (fields : List (GoString × Option Json)) : Members :=
  fields.filterMap fun f => f.2.map fun j => (f.1, j)

/-- A string, which is coerced to valid UTF-8. -/
def encodeString (s : GoString) : Json := .str (toValidUTF8 s)

/-- The same with `omitempty`. -/
def encodeNonempty (s : GoString) : Option Json :=
  if s = [] then none else some (encodeString s)

/-- A field is decoded from the fields that were written for it. -/
theorem filter_encodeStruct (name : GoString)
    (fields : List (GoString × Option Json)) :
    (encodeStruct fields).filter (fun e => equalFold name e.1)
      = encodeStruct (fields.filter fun f => equalFold name f.1) := by
  unfold encodeStruct
  rw [List.filter_filterMap, List.filterMap_filter]
  refine congrArg (List.filterMap · fields) (funext fun f => ?_)
  cases f.2 with
  | none => simp
  | some j => simp [Option.filter_some]

theorem decodeField_absent {α : Type} {name : GoString}
    {decode : α → Json → Option α} {zero : α}
    {fields : List (GoString × Option Json)}
    (h : fields.filter (fun f => equalFold name f.1) = []) :
    decodeField name decode zero (encodeStruct fields) = some zero := by
  unfold decodeField
  rw [filter_encodeStruct, h]
  rfl

theorem decodeField_single {α : Type} {name key : GoString}
    {decode : α → Json → Option α} {zero : α}
    {fields : List (GoString × Option Json)} {x : Option Json}
    (h : fields.filter (fun f => equalFold name f.1) = [(key, x)]) :
    decodeField name decode zero (encodeStruct fields)
      = x.elim (some zero) (decode zero) := by
  unfold decodeField
  rw [filter_encodeStruct, h]
  cases x with
  | none => rfl
  | some j => exact bind_pure _

theorem decodeString_encodeNonempty {s : GoString}
    (h : toValidUTF8 s = s) :
    (encodeNonempty s).elim (some []) (decodeString []) = some s := by
  unfold encodeNonempty
  by_cases hs : s = []
  · rw [if_pos hs, hs]
    rfl
  · rw [if_neg hs]
    exact congrArg some h

end Tokyo3Base.Go
