import GameSave.Lz4.Block
/-!
Finding matches.

The search looks up where the four bytes at a position were seen last and takes the longest match
from there. It decides how small a block gets and nothing else: whoever uses the steps that it
proposes checks that they give the block back.
-/

namespace GameSave.Lz4.Matching

/-- How many entries the table of positions has. -/
def tableSize : Nat := 4096

def slot (b0 b1 b2 b3 : UInt8) : Nat :=
  let word := b0.toUInt32 ||| b1.toUInt32 <<< 8 ||| b2.toUInt32 <<< 16 ||| b3.toUInt32 <<< 24
  ((word * 2654435761) >>> 20).toNat

/-- For each position from which four bytes follow, the last position before it whose four bytes
have the same entry, one-based; zero if there is none. -/
def candidates (bytes : Bytes) : Array Nat :=
  go 0 (Array.replicate tableSize 0) #[] bytes
where
  /-- Goes on at a position. -/
  go : (position : Nat) → (table found : Array Nat) → Bytes → Array Nat
    | position, table, found, b0 :: b1 :: b2 :: b3 :: rest =>
      let entry := slot b0 b1 b2 b3
      let found := found.push (table.getD entry 0)
      go (position + 1) (table.setIfInBounds entry (position + 1)) found (b1 :: b2 :: b3 :: rest)
    | _, _, found, _ => found

/-- How many bytes from `here` on are the same as those from `there` on, up to `most`. -/
def commonLength (source : Array UInt8) (here there : Nat) : (most : Nat) → Nat → Nat
  | 0, length => length
  | most + 1, length =>
    if source.getD (here + length) 0 = source.getD (there + length) 0 then
      commonLength source here there most (length + 1)
    else length

/-- The greatest distance that a match can reach. -/
def maxOffset : Nat := 65535

/-- The last bytes of a block are always literals. -/
def lastLiterals : Nat := 5

/-- No match begins so close to the end of a block. -/
def matchLimit : Nat := 12

/-- The match at a position, if the table proposes a good one. -/
def matchAt? (source : Array UInt8) (found : Array Nat) (position : Nat) : Option Match :=
  let candidate := found.getD position 0
  if candidate = 0 then none
  else
    let offset := position - (candidate - 1)
    let length :=
      commonLength source position (candidate - 1) (source.size - lastLiterals - position) 0
    if offset ≤ maxOffset ∧ Block.minMatch ≤ length then some ⟨offset, length⟩ else none

def slice (source : Array UInt8) (start stop : Nat) : Bytes := (source.extract start stop).toList

/-- Takes the first match that can be had from `position` on, again and again. The bytes from
`anchor` on are literals so far. -/
def steps (source : Array UInt8) (found : Array Nat) :
    (fuel anchor position : Nat) → List Sequence → Block
  | 0, anchor, _, done => ⟨done.reverse, slice source anchor source.size⟩
  | fuel + 1, anchor, position, done =>
    if source.size < position + matchLimit then ⟨done.reverse, slice source anchor source.size⟩
    else
      match matchAt? source found position with
      | none => steps source found fuel anchor (position + 1) done
      | some m =>
        steps source found fuel (position + m.length) (position + m.length)
          (⟨slice source anchor position, m⟩ :: done)

/-- Steps that should give a byte string back. -/
def propose (bytes : Bytes) : Block :=
  let source := bytes.toArray
  steps source (candidates bytes) source.size 0 0 []

end GameSave.Lz4.Matching
