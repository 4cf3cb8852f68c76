/-
`db/db.go`, the placeholders: `ConvertPgPlaceholders`, `skipLiteral` and
`isIdentByte`.

A position `i` of the text is a pair of lists: the bytes before it, the
last one first, and the bytes from it on. The source looks back at
`sql[i-1]` and `sql[i-2]` and forward from `sql[i]`; these are the fronts
of the two. An index that the source returns is the number of bytes from
`i` to it.
-/
import Tokyo3Base.Go.Strconv
import Tokyo3Base.Go.Strings

namespace Tokyo3Base.Db

open Go

def isIdentByte (b : UInt8) : Bool :=
  b == 95 || b == 36 || b ≥ 0x80
    || (b ≥ 97 && b ≤ 122) || (b ≥ 65 && b ≤ 90) || (b ≥ 48 && b ≤ 57)

/-- `i > 0 && isIdentByte(sql[i-1])`. -/
def afterIdentByte (done : GoString) : Bool := done.head?.any isIdentByte

/-- The test for the prefix of an `E'...'` string before a quote. -/
def escapePrefix : GoString → Bool
  | [] => false
  | b :: done => (b == 101 || b == 69) && !afterIdentByte done

/-- The loop over a quoted string or identifier, from the byte after its
opening quote on. -/
def skipQuoted (c : UInt8) (esc : Bool) : GoString → Nat
  | [] => 0
  | b :: rest =>
      if esc && b == backslash then
        match rest with
        | [] => 1
        | _ :: rest => 2 + skipQuoted c esc rest
      else if b == c then
        match rest with
        | [] => 1
        | d :: rest => if d == c then 2 + skipQuoted c esc rest else 1
      else 1 + skipQuoted c esc rest

/-- The loop over a block comment. -/
def skipComment : Nat → GoString → Nat
  | _, [] => 0
  | depth, b :: rest =>
      if hasPrefix (b :: rest) (ascii "/*") then
        match rest with
        | [] => 1
        | _ :: rest => 2 + skipComment (depth + 1) rest
      else if hasPrefix (b :: rest) (ascii "*/") then
        match rest with
        | [] => 1
        | _ :: rest =>
            if depth - 1 = 0 then 2 else 2 + skipComment (depth - 1) rest
      else 1 + skipComment depth rest

/-- The loop over the tag of a dollar quote. -/
def tagLen (first : Bool) : GoString → Nat
  | [] => 0
  | b :: rest =>
      if b == 95 || (b ≥ 97 && b ≤ 122) || (b ≥ 65 && b ≤ 90) || b ≥ 0x80
          || (!first && b ≥ 48 && b ≤ 57) then
        1 + tagLen false rest
      else 0

/-- `skipLiteral`: how many bytes the literal takes, 0 if none starts
here. -/
def skipLiteral (done rest : GoString) : Nat :=
  match rest with
  | [] => 0
  | c :: cs =>
      if c == 39 || c == 34 then
        1 + skipQuoted c (c == 39 && escapePrefix done) cs
      else if c == 45 && hasPrefix rest (ascii "--") then
        match indexByte rest 10 with
        | some nl => nl + 1
        | none => rest.length
      else if c == 47 && hasPrefix rest (ascii "/*") then
        skipComment 0 rest
      else if c == 36 then
        if afterIdentByte done then 0
        else
          let j := 1 + tagLen true cs
          if (rest.drop j).head? != some 36 then 0
          else
            let delim := rest.take (j + 1)
            match index (rest.drop (j + 1)) delim with
            | some k => j + 1 + k + delim.length
            | none => rest.length
      else 0

/-- What the loop builds: `b`, `orderedArgs` and `found`. -/
structure Builder (α : Type) where
  b : GoString
  orderedArgs : List α
  found : Bool

variable {α : Type}

/-- `b.WriteString`. -/
def Builder.write (acc : Builder α) (s : GoString) : Builder α :=
  { acc with b := acc.b ++ s }

/-- A placeholder that is replaced. -/
def Builder.place (acc : Builder α) (arg : α) : Builder α :=
  { b := acc.b ++ ascii "?"
    orderedArgs := acc.orderedArgs ++ [arg]
    found := true }

/-- `args[n-1]` for the number `n` that is written, if it is one of an
argument. -/
def argument (args : List α) (numStr : GoString) : Option α :=
  match atoi numStr with
  | none => none
  | some n => if n < 1 ∨ n > args.length then none else args[n.toNat - 1]?

/-- The error for any other number. -/
def invalidPlaceholder (numStr : GoString) : GoString :=
  ascii "invalid placeholder $" ++ numStr

/-- The loop over the text; the first argument bounds the rounds. -/
def convertLoop (args : List α) :
    Nat → GoString → GoString → Builder α → Except GoString (Builder α)
  | 0, _, _, acc => .ok acc
  | _ + 1, _, [], acc => .ok acc
  | n + 1, done, c :: cs, acc =>
      let rest := c :: cs
      let len := skipLiteral done rest
      if len > 0 then
        convertLoop args n ((rest.take len).reverse ++ done) (rest.drop len)
          (acc.write (rest.take len))
      else
        let numStr := cs.takeWhile isDigit
        -- a name such as col$1 is an identifier, not a placeholder
        if c == 36 && !afterIdentByte done && numStr != [] then
          match argument args numStr with
          | none => .error (invalidPlaceholder numStr)
          | some arg =>
              convertLoop args n (numStr.reverse ++ c :: done)
                (cs.drop numStr.length) (acc.place arg)
        else convertLoop args n (c :: done) cs (acc.write [c])

/-- `ConvertPgPlaceholders`. Each round takes a byte at least, so that
there are no more rounds than bytes. -/
def convertPgPlaceholders (sql : GoString) (args : List α) :
    Except GoString (GoString × List α) :=
  match convertLoop args sql.length [] sql ⟨[], [], false⟩ with
  | .error err => .error err
  | .ok acc => .ok (if acc.found then (acc.b, acc.orderedArgs) else (sql, args))

end Tokyo3Base.Db
