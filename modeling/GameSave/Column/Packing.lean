import GameSave.Column.Basic
/-!
Packings: several small symbols in one byte.

A packing with radix `r` lays the symbols `0, …, r - 1` into a byte as its base-`r` digits, as
many of them as fit. A column of bytes chooses the densest packing for the bytes that it holds,
after taking the least of them away from each where that helps.
-/

namespace GameSave

/-- A way to lay symbols into bytes. -/
inductive Packing where
  | bytes
  | nibbles
  | base6
  | base4
  | base3
  | bits
deriving DecidableEq, Repr

namespace Packing

def radix : Packing → Nat
  | bytes => 256
  | nibbles => 16
  | base6 => 6
  | base4 => 4
  | base3 => 3
  | bits => 2

def perByte : Packing → Nat
  | bytes => 1
  | nibbles => 2
  | base6 => 3
  | base4 => 4
  | base3 => 5
  | bits => 8

/-- The place of a packing in the order from the widest symbols to the narrowest. -/
def rank : Packing → Nat
  | bytes => 0
  | nibbles => 1
  | base6 => 2
  | base4 => 3
  | base3 => 4
  | bits => 5

/-- The packing at a place in that order. -/
def ofRank? : Nat → Option Packing
  | 0 => some bytes
  | 1 => some nibbles
  | 2 => some base6
  | 3 => some base4
  | 4 => some base3
  | 5 => some bits
  | _ => none

/-- The densest packing that has all symbols up to `greatest`. -/
def forGreatest (greatest : Nat) : Packing :=
  if greatest < 2 then bits
  else if greatest < 3 then base3
  else if greatest < 4 then base4
  else if greatest < 6 then base6
  else if greatest < 16 then nibbles
  else bytes

/-- The number with the given digits, the least significant first. -/
def ofDigits (radix : Nat) (digits : List Nat) : Nat :=
  digits.foldr (fun digit n => digit + radix * n) 0

/-- The `count` lowest digits of a number, the least significant first. -/
def digits (radix : Nat) : (count n : Nat) → List Nat
  | 0, _ => []
  | count + 1, n => n % radix :: digits radix count (n / radix)

def bytesFor (p : Packing) (n : Nat) : Nat := (n + p.perByte - 1) / p.perByte

/-- Lays symbols into bytes. Digits that are left over in the last byte are zero. -/
def pack (p : Packing) (symbols : List Nat) : Bytes :=
  (chunks p.perByte symbols).map fun group => UInt8.ofNat (ofDigits p.radix group)

/-- Takes `n` symbols back out. What a byte holds beyond its digits does not matter. -/
def unpack (p : Packing) (n : Nat) : Decoder (List Nat) := do
  let bytes ← Decoder.take (p.bytesFor n)
  return (bytes.flatMap fun b => digits p.radix p.perByte b.toNat).take n

theorem ofRank?_rank (p : Packing) : ofRank? p.rank = some p := by cases p <;> rfl

end Packing

/-- How the symbols of a column relate to what is stored: which step of a scale of ever narrower
forms they are stored in, and what is taken away from each of them first. -/
structure Scale where
  rank : Nat
  base : Option Nat

namespace Scale

/-- The first byte of a column: twice the rank, less one if the base follows. -/
def code (s : Scale) : UInt8 :=
  UInt8.ofNat (if s.base.isSome then 2 * s.rank - 1 else 2 * s.rank)

/-- The scale for values between `least` and `greatest`, where `rankFor` says how narrow a form
can hold the values up to a given one. Taking the least value away costs room, so a short column
never does it, and a longer one only if a narrower form comes of it. -/
def choose (rankFor : Nat → Nat) (count least greatest : Nat) : Scale :=
  let plain := rankFor greatest
  let shifted := rankFor (greatest - least)
  if 5 < count ∧ plain < shifted then ⟨shifted, some least⟩ else ⟨plain, none⟩

/-- Reads the first byte of a column, and the base if it follows. -/
def read (width : Nat) : Decoder Scale := do
  let code ← Decoder.byte
  let rank := (code.toNat + 1) / 2
  if code.toNat % 2 = 1 then
    let base ← Decoder.number width
    return ⟨rank, some base⟩
  else
    return ⟨rank, none⟩

end Scale

/-- The least and the greatest of some numbers; both are zero if there are none. -/
def extremes : List Nat → Nat × Nat
  | [] => (0, 0)
  | x :: xs => (xs.foldl min x, xs.foldl max x)

namespace Column

/-- Bytes. One or two are stored as they are; more are packed. -/
def byte : Column UInt8 where
  write xs :=
    if xs.length ≤ 2 then xs
    else
      let values := xs.map UInt8.toNat
      let (least, greatest) := extremes values
      let scale := Scale.choose (fun n => (Packing.forGreatest n).rank) values.length least greatest
      let packing := (Packing.ofRank? scale.rank).getD .bytes
      match scale.base with
      | some base =>
        scale.code :: UInt8.ofNat base :: packing.pack (values.map fun value => value - base)
      | none => scale.code :: packing.pack values
  read n :=
    if n ≤ 2 then Decoder.take n
    else do
      let scale ← Scale.read 1
      let packing ← Decoder.ofOption (Packing.ofRank? scale.rank)
      let values ← packing.unpack n
      return values.map fun value => UInt8.ofNat (value + scale.base.getD 0)

def flag : Column Bool where
  write xs := Packing.bits.pack (xs.map Bool.toNat)
  read n := List.map (fun symbol => symbol == 1) <$> Packing.bits.unpack n

end Column

end GameSave
