/-
Keyword/value connection strings of PostgreSQL, as a driver reads them:
fields `key = value`, one after the other, separated by white space.

The key is what stands before the next `=`, without the white space around
it. A value that starts with a quote runs to the next quote that is not
escaped, any other value to the next white space that is not; a backslash
escapes the byte after it. What the driver makes of a value, its escapes
removed, plays no part here: a field keeps its text as written.

A text that cannot be read on is refused by the driver. The fields before
that place are read all the same, and they are what `fields` gives.
-/
import Mathlib.Data.List.TakeWhile

namespace Tokyo3Base.Lib.ConnInfo

def equals : UInt8 := 61

def quote : UInt8 := 39

def backslash : UInt8 := 92

/-- The white space: space, `\t`, `\n`, `\v`, `\f` and `\r`. -/
def isSpace (c : UInt8) : Bool := c == 32 || (9 ≤ c && c ≤ 13)

/-- A field as it is written. -/
structure Field where
  key : List UInt8
  /-- white space before the `=` -/
  gap : List UInt8
  /-- white space between the `=` and the value -/
  skip : List UInt8
  /-- the value, with its quotes and escapes -/
  value : List UInt8
  /-- the white space that ends a value without quotes -/
  stop : List UInt8
deriving DecidableEq

/-- The text from the key to the end of the value. -/
def Field.text (f : Field) : List UInt8 :=
  f.key ++ f.gap ++ equals :: f.skip ++ f.value

/-- The value stands in quotes. -/
def Field.quoted (f : Field) : Bool := f.value.head? == some quote

/-- The length of a value without quotes; `none` if a backslash ends the
text. -/
def bareLen : List UInt8 → Option Nat
  | [] => some 0
  | c :: s =>
      if isSpace c then some 0
      else if c = backslash then
        match s with
        | [] => none
        | _ :: s => (bareLen s).map (· + 2)
      else (bareLen s).map (· + 1)

theorem bareLen_space {c : UInt8} (h : isSpace c = true) (s : List UInt8) :
    bareLen (c :: s) = some 0 := by
  cases s <;> simp [bareLen, h]

theorem bareLen_escape (d : UInt8) (s : List UInt8) :
    bareLen (backslash :: d :: s) = (bareLen s).map (· + 2) := by
  have h : isSpace backslash = false := rfl
  simp [bareLen, h]

theorem bareLen_byte {c : UInt8} (h : isSpace c = false)
    (hb : c ≠ backslash) (s : List UInt8) :
    bareLen (c :: s) = (bareLen s).map (· + 1) := by
  cases s <;> simp [bareLen, h, hb]

/-- What is left of a value in quotes after the first of them; `none` if
it has no end. -/
def quotedLen : List UInt8 → Option Nat
  | [] => none
  | c :: s =>
      if c = quote then some 1
      else if c = backslash then
        match s with
        | [] => none
        | _ :: s => (quotedLen s).map (· + 2)
      else (quotedLen s).map (· + 1)

theorem quotedLen_quote (s : List UInt8) :
    quotedLen (quote :: s) = some 1 := by
  cases s <;> simp [quotedLen]

theorem quotedLen_escape (d : UInt8) (s : List UInt8) :
    quotedLen (backslash :: d :: s) = (quotedLen s).map (· + 2) := by
  have h : backslash ≠ quote := by decide
  simp [quotedLen, h]

theorem quotedLen_byte {c : UInt8} (hq : c ≠ quote) (hb : c ≠ backslash)
    (s : List UInt8) :
    quotedLen (c :: s) = (quotedLen s).map (· + 1) := by
  cases s <;> simp [quotedLen, hq, hb]

/-- The length of the value with which a text starts, and of the white
space that ends it. -/
def valueLen (v : List UInt8) : Option (Nat × Nat) :=
  if v.head? = some quote then
    (quotedLen (v.drop 1)).map fun n => (n + 1, 0)
  else (bareLen v).map fun n => (n, 1)

theorem valueLen_quoted (s : List UInt8) :
    valueLen (quote :: s) = (quotedLen s).map fun n => (n + 1, 0) := by
  simp [valueLen]

theorem valueLen_bare {v : List UInt8} (h : v.head? ≠ some quote) :
    valueLen v = (bareLen v).map fun n => (n, 1) :=
  if_neg h

/-- The text without white space at its end. -/
def trimEnd (s : List UInt8) : List UInt8 :=
  (s.reverse.dropWhile isSpace).reverse

/-- The first field of a text, and the text after it; `none` at the end
and where the text is refused. -/
def next (s : List UInt8) : Option (Field × List UInt8) :=
  if equals ∉ s then none
  else
    let name := (s.takeWhile (· != equals)).dropWhile isSpace
    let key := trimEnd name
    let text := (s.dropWhile (· != equals)).drop 1
    let v := text.dropWhile isSpace
    match valueLen v with
    | none => none
    | some (len, stop) =>
        if key = [] then none
        else some
          ({ key := key
             gap := name.drop key.length
             -- white space before nothing is not part of the field
             skip := if v = [] then [] else text.takeWhile isSpace
             value := v.take len
             stop := (v.drop len).take stop },
            v.drop (len + stop))

theorem takeWhile_equals {x : List UInt8} (h : equals ∉ x)
    (y : List UInt8) :
    (x ++ equals :: y).takeWhile (· != equals) = x
      ∧ (x ++ equals :: y).dropWhile (· != equals) = equals :: y := by
  have hx : ∀ c ∈ x, (c != equals) = true := fun c hc =>
    bne_iff_ne.mpr fun heq => h (heq ▸ hc)
  rw [List.takeWhile_append_of_pos hx, List.dropWhile_append_of_pos hx]
  simp

/-- A field, by the text before its `=` and the text after it. -/
theorem next_eq {name text : List UInt8} {len stop : Nat}
    (hname : equals ∉ name) (hkey : trimEnd (name.dropWhile isSpace) ≠ [])
    (hlen : valueLen (text.dropWhile isSpace) = some (len, stop)) :
    next (name ++ equals :: text) = some
      ({ key := trimEnd (name.dropWhile isSpace)
         gap := (name.dropWhile isSpace).drop
           (trimEnd (name.dropWhile isSpace)).length
         skip := if text.dropWhile isSpace = [] then []
           else text.takeWhile isSpace
         value := (text.dropWhile isSpace).take len
         stop := ((text.dropWhile isSpace).drop len).take stop },
        (text.dropWhile isSpace).drop (len + stop)) := by
  obtain ⟨htake, hdrop⟩ := takeWhile_equals hname text
  unfold next
  rw [if_neg (by simp)]
  dsimp only
  rw [htake, hdrop, List.drop_one, List.tail_cons, hlen]
  dsimp only
  rw [if_neg hkey]

/-- A value that has no end is no field. -/
theorem next_eq_none {name text : List UInt8} (hname : equals ∉ name)
    (hlen : valueLen (text.dropWhile isSpace) = none) :
    next (name ++ equals :: text) = none := by
  unfold next
  rw [if_neg (by simp), (takeWhile_equals hname text).2, List.drop_one,
    List.tail_cons]
  dsimp only
  rw [hlen]

theorem next_none {s : List UInt8} (h : equals ∉ s) : next s = none :=
  if_pos h

/-- A field takes at least a byte, and leaves an end of the text. -/
theorem next_suffix {s rest : List UInt8} {f : Field}
    (h : next s = some (f, rest)) :
    rest <:+ s ∧ rest.length < s.length := by
  unfold next at h
  split at h
  · cases h
  · rename_i hmem
    dsimp only at h
    cases hlen : valueLen (((s.dropWhile (· != equals)).drop 1).dropWhile
        isSpace) with
    | none =>
        rw [hlen] at h
        cases h
    | some r =>
        rw [hlen] at h
        dsimp only at h
        split at h
        · cases h
        · obtain ⟨-, rfl⟩ := Prod.mk.inj (Option.some.inj h)
          have hsuf := (List.drop_suffix (r.1 + r.2) _).trans
            (List.dropWhile_suffix isSpace
              (l := (s.dropWhile (· != equals)).drop 1))
          have hall := List.dropWhile_suffix (· != equals) (l := s)
          have hne : s.dropWhile (· != equals) ≠ [] := fun hnil =>
            hmem fun hin => by
              simpa using List.dropWhile_eq_nil_iff.mp hnil equals hin
          have hpos := List.length_pos_iff.mpr hne
          refine ⟨hsuf.trans ((List.drop_suffix 1 _).trans hall), ?_⟩
          calc _ ≤ ((s.dropWhile (· != equals)).drop 1).length :=
                hsuf.length_le
            _ = (s.dropWhile (· != equals)).length - 1 := List.length_drop
            _ < (s.dropWhile (· != equals)).length := by omega
            _ ≤ s.length := hall.length_le

/-- The fields of a text, at most so many. -/
def fieldsFrom : Nat → List UInt8 → List Field
  | 0, _ => []
  | n + 1, s =>
      match next s with
      | none => []
      | some (f, rest) => f :: fieldsFrom n rest

/-- The fields of a text, up to where it ends or is refused. Each takes a
byte at least. -/
def fields (s : List UInt8) : List Field := fieldsFrom s.length s

end Tokyo3Base.Lib.ConnInfo
