/-
Package `compress/gzip`, its reader: the header, the members one after the
other, and their checksums.

# What is modelled

`NewReader` fails where `readHeader` does, and reports `io.EOF` only for a
body without bytes. After that a read delivers what the members inflate to;
the reader ends with `io.EOF` if the last checksum was right and nothing
follows, and otherwise with an error, at the first thing that is wrong.

What a deflate stream inflates to is a parameter: the bytes that come out,
and where the stream ends in the input or what is wrong with it.
-/
import Tokyo3Base.Go.Stream

namespace Tokyo3Base.Go

/-- The errors that a gzip reader reports. -/
inductive GzipError where
  | eof
  | unexpectedEOF
  /-- `gzip.ErrHeader` -/
  | header
  /-- `gzip.ErrChecksum` -/
  | checksum
  /-- `flate.CorruptInputError` -/
  | corrupt
deriving DecidableEq

-- ==== the checksum

/-- Eight steps of the CRC, for one byte. -/
def crcBits : Nat → UInt32 → UInt32
  | 0, crc => crc
  | n + 1, crc =>
      crcBits n (if crc &&& 1 = 1 then (crc >>> 1) ^^^ 0xedb88320
        else crc >>> 1)

/-- `crc32.ChecksumIEEE`. -/
def crc32 (data : GoString) : UInt32 :=
  data.foldl (fun crc b => crcBits 8 (crc ^^^ b.toUInt32)) 0xffffffff
    ^^^ 0xffffffff

/-- A number in little-endian order. -/
def littleEndian (bytes : GoString) : Nat :=
  bytes.foldr (fun b n => b.toNat + 256 * n) 0

-- ==== the header

/-- `io.ReadFull` of so many bytes that have to be there. -/
def readFull (n : Nat) (s : GoString) :
    Except GzipError (GoString × GoString) :=
  if s.length < n then .error .unexpectedEOF else .ok (s.take n, s.drop n)

/-- The field `Extra`, with its length. -/
def skipExtra (s : GoString) : Except GzipError GoString :=
  (readFull 2 s).bind fun r =>
    (readFull (littleEndian r.1) r.2).map Prod.snd

/-- `readString`: a text that a zero byte ends, with room for 512 bytes. -/
def skipString (s : GoString) : Except GzipError GoString :=
  match (s.take 512).findIdx? (· == 0) with
  | some i => .ok (s.drop (i + 1))
  | none => .error (if 512 ≤ s.length then .header else .unexpectedEOF)

/-- A field that is there if a flag is set. -/
def ifFlag (flags flag : UInt8)
    (skip : GoString → Except GzipError GoString) (s : GoString) :
    Except GzipError GoString :=
  if flags &&& flag ≠ 0 then skip s else .ok s

/-- The checksum of the header, which ends before `s`. -/
def checkHeader (raw s : GoString) : Except GzipError GoString :=
  (readFull 2 s).bind fun r =>
    if littleEndian r.1
        ≠ (crc32 (raw.take (raw.length - s.length))).toNat % 65536 then
      .error .header
    else .ok r.2

/-- `readHeader`: what follows it. -/
def readHeader (raw : GoString) : Except GzipError GoString :=
  match raw with
  | [] => .error .eof
  | id1 :: id2 :: method :: flags :: _ :: _ :: _ :: _ :: _ :: _ :: rest =>
      if id1 ≠ 0x1f ∨ id2 ≠ 0x8b ∨ method ≠ 8 then .error .header
      else
        (ifFlag flags 4 skipExtra rest).bind fun s =>
        (ifFlag flags 8 skipString s).bind fun s =>
        (ifFlag flags 16 skipString s).bind fun s =>
        ifFlag flags 2 (checkHeader raw) s
  | _ => .error .unexpectedEOF

-- ==== the members

/-- Package `compress/flate`: what comes out, and what follows the deflate
stream or what is wrong with it. -/
structure Inflate where
  run : GoString → GoString × Except GzipError GoString

/-- The end of a member that inflated to `data`: what follows its size and
checksum. -/
def checkTrailer (data s : GoString) : Except GzipError GoString :=
  (readFull 8 s).bind fun r =>
    if littleEndian (r.1.take 4) ≠ (crc32 data).toNat
        ∨ littleEndian (r.1.drop 4) ≠ data.length % 4294967296 then
      .error .checksum
    else .ok r.2

/-- The reads after the header; the first argument bounds the members. -/
def gunzipFrom (g : Inflate) : Nat → GoString → Stream GzipError
  | 0, _ => ⟨[], .failed .unexpectedEOF⟩
  | n + 1, s =>
      let (data, r) := g.run s
      match r.bind (checkTrailer data) with
      | .error err => ⟨data, .failed err⟩
      | .ok next =>
          match readHeader next with
          | .error .eof => ⟨data, .eof⟩
          | .error err => ⟨data, .failed err⟩
          | .ok s =>
              let more := gunzipFrom g n s
              ⟨data ++ more.data, more.fin⟩

/-- The reader that `NewReader` returns, once it has read the header. There
are fewer members than bytes: a header and a trailer take eighteen. -/
def gunzip (g : Inflate) (s : GoString) : Stream GzipError :=
  gunzipFrom g (s.length + 1) s

-- ==== stored blocks

/-- The blocks of a deflate stream that is not compressed: three bits, a
length, its complement and the bytes. A compressed block is an error here;
the first argument bounds the blocks. -/
def storedBlocks : Nat → GoString → GoString × Except GzipError GoString
  | n + 1, bits :: len₀ :: len₁ :: not₀ :: not₁ :: s =>
      let len := littleEndian [len₀, len₁]
      if bits &&& 6 ≠ 0 ∨ littleEndian [not₀, not₁] + len ≠ 65535 then
        ([], .error .corrupt)
      else if s.length < len then (s, .error .unexpectedEOF)
      else if bits &&& 1 = 1 then (s.take len, .ok (s.drop len))
      else
        let (data, r) := storedBlocks n (s.drop len)
        (s.take len ++ data, r)
  | _, _ => ([], .error .unexpectedEOF)

/-- The decoder of streams that are not compressed. -/
def Inflate.stored : Inflate where
  run s := storedBlocks s.length s

end Tokyo3Base.Go
