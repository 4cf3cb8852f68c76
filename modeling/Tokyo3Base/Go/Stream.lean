/-
Package `io`: readers that deliver some bytes and then end, with `io.EOF`
or with an error.

# Reads

A read gets a buffer with room for some bytes and may deliver fewer. It may
report the end together with the last bytes or with the next read. How a
reader cuts its bytes is a `Pace`; nothing is assumed of it.

# Reading all

`readAll` reads until the end, into buffers of any size. A reader behind an
`io.LimitReader` ends with `io.EOF` at its limit. Then it is not asked
again, so that what it would have reported there is not seen.
-/
import Tokyo3Base.Go.Bytes

namespace Tokyo3Base.Go

variable {ε : Type}

/-- How a reader ends. -/
inductive ReadEnd (ε : Type) where
  | eof
  | failed (err : ε)
deriving DecidableEq

/-- What a reader delivers before it ends. -/
structure Stream (ε : Type) where
  data : GoString
  fin : ReadEnd ε
deriving DecidableEq

/-- How a reader cuts its bytes, by the number of bytes left and the room
in the buffer, and whether it reports the end together with the last. -/
structure Pace where
  size : Nat → Nat → Nat
  together : Bool

/-- One read into a buffer that has room: what it delivers, the end if it
reports it, and what is left. A read of bytes delivers one at least. -/
def Stream.read (pace : Pace) (room : Nat) (s : Stream ε) :
    GoString × Option (ReadEnd ε) × Stream ε :=
  match s.data with
  | [] => ([], some s.fin, s)
  | _ :: _ =>
      let n := max 1 (min (pace.size s.data.length room) room)
      (s.data.take n,
        if s.data.length ≤ n ∧ pace.together = true then some s.fin else none,
        ⟨s.data.drop n, s.fin⟩)

/-- A response body: a reader, behind an `io.LimitReader` or not. -/
structure Body (ε : Type) where
  stream : Stream ε
  limit : Option Nat

/-- One read of a body. -/
def Body.read (pace : Pace) (room : Nat) (b : Body ε) :
    GoString × Option (ReadEnd ε) × Body ε :=
  match b.limit with
  | none =>
      let (chunk, fin, left) := b.stream.read pace room
      (chunk, fin, ⟨left, none⟩)
  | some 0 => ([], some .eof, b)
  | some (n + 1) =>
      let (chunk, fin, left) := b.stream.read pace (min room (n + 1))
      (chunk, fin, ⟨left, some (n + 1 - chunk.length)⟩)

/-- `io.ReadAll`; `room` is the room in the buffer after so many bytes, and
the first argument bounds the reads. -/
def readAll (pace : Pace) (room : Nat → Nat) :
    Nat → Body ε → GoString → Option (Except ε GoString)
  | 0, _, _ => none
  | fuel + 1, b, acc =>
      match b.read pace (room acc.length + 1) with
      | (chunk, some .eof, _) => some (.ok (acc ++ chunk))
      | (_, some (.failed err), _) => some (.error err)
      | (chunk, none, left) => readAll pace room fuel left (acc ++ chunk)

end Tokyo3Base.Go
