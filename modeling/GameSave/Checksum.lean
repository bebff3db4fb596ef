import GameSave.Bytes
/-!
The checksum xxHash32 with seed zero.

The bytes go in stripes of sixteen into four lanes, one word of a stripe into each lane. What is
left at the end is mixed in word by word and then byte by byte. Every step is a bijection of the
word that it changes, so inputs of one length that differ in one byte have different checksums.
-/

namespace GameSave.Checksum

def prime1 : UInt32 := 2654435761

def prime2 : UInt32 := 2246822519

def prime3 : UInt32 := 3266489917

def prime4 : UInt32 := 668265263

def prime5 : UInt32 := 374761393

/-- Moves the bits of a word up by `n` places, those at the top to the bottom. -/
def rotate (w : UInt32) (n : UInt32) : UInt32 := (w <<< n) ||| (w >>> (32 - n))

def word (b0 b1 b2 b3 : UInt8) : UInt32 := LittleEndian.toWord [b0, b1, b2, b3]

def round (lane w : UInt32) : UInt32 := rotate (lane + w * prime2) 13 * prime1

/-- The four lanes. -/
structure Lanes where
  first : UInt32
  second : UInt32
  third : UInt32
  fourth : UInt32
deriving DecidableEq, Repr

namespace Lanes

def start : Lanes := ⟨prime1 + prime2, prime2, 0, 0 - prime1⟩

/-- Takes the four words of a stripe into the lanes. -/
def absorb (l : Lanes) (w0 w1 w2 w3 : UInt32) : Lanes :=
  ⟨round l.first w0, round l.second w1, round l.third w2, round l.fourth w3⟩

def merge (l : Lanes) : UInt32 :=
  rotate l.first 1 + rotate l.second 7 + rotate l.third 12 + rotate l.fourth 18

end Lanes

/-- Takes all whole stripes into the lanes, and leaves the rest. -/
def absorbStripes : Lanes → Bytes → Lanes × Bytes
  | l, b0 :: b1 :: b2 :: b3 :: b4 :: b5 :: b6 :: b7 :: b8 :: b9 :: b10 :: b11 :: b12 :: b13 ::
      b14 :: b15 :: rest =>
    absorbStripes
      (l.absorb (word b0 b1 b2 b3) (word b4 b5 b6 b7) (word b8 b9 b10 b11) (word b12 b13 b14 b15))
      rest
  | l, rest => (l, rest)

def mixWord (h w : UInt32) : UInt32 := rotate (h + w * prime3) 17 * prime4

def mixByte (h : UInt32) (b : UInt8) : UInt32 := rotate (h + b.toUInt32 * prime5) 11 * prime1

/-- Mixes in what is left after the stripes. -/
def mixRest : UInt32 → Bytes → UInt32
  | h, b0 :: b1 :: b2 :: b3 :: rest => mixRest (mixWord h (word b0 b1 b2 b3)) rest
  | h, rest => rest.foldl mixByte h

def avalanche (h : UInt32) : UInt32 :=
  let h := (h ^^^ (h >>> 15)) * prime2
  let h := (h ^^^ (h >>> 13)) * prime3
  h ^^^ (h >>> 16)

def xxh32 (bytes : Bytes) : UInt32 :=
  let length := UInt32.ofNat bytes.length
  if bytes.length < 16 then avalanche (mixRest (prime5 + length) bytes)
  else
    let (lanes, rest) := absorbStripes .start bytes
    avalanche (mixRest (lanes.merge + length) rest)

end GameSave.Checksum
