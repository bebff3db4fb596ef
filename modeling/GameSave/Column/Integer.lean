import GameSave.Column.Packing
/-!
Columns of integers of a fixed width, stored in the narrowest form that holds them all.
-/

namespace GameSave

namespace IntegerForm

/-- How many bytes hold every number up to `greatest`, among one, two, four and eight. -/
def widthFor (greatest : Nat) : Nat :=
  if greatest < LittleEndian.span 1 then 1
  else if greatest < LittleEndian.span 2 then 2
  else if greatest < LittleEndian.span 4 then 4
  else 8

/-- How often the full width is halved to store numbers up to `greatest`. -/
def halvingsFor (full greatest : Nat) : Nat := (full / min full (widthFor greatest)).log2

/-- The width after a number of halvings, as long as whole bytes come of it. -/
def width? (full halvings : Nat) : Option Nat :=
  let width := full >>> halvings
  if width = 0 then none else some width

/-- Numbers side by side. Numbers of one byte make up a column of bytes of their own. -/
def write (width : Nat) (xs : List Nat) : Bytes :=
  if width = 1 then Column.byte.write (xs.map UInt8.ofNat)
  else xs.flatMap (LittleEndian.ofNat width)

/-- Takes `n` numbers of the given width back. -/
def read (width n : Nat) : Decoder (List Nat) :=
  if width = 1 then List.map UInt8.toNat <$> Column.byte.read n
  else do
    let bytes ← Decoder.take (n * width)
    return (chunks width bytes).map LittleEndian.toNat

/-- How many values are looked at to see whether a narrower form is worth trying. -/
def sampleSize : Nat := 16

/-- The form for a list of numbers: the full width if already the spread of the first few needs
it, and else whatever suits all of them best. -/
def scaleFor (full : Nat) (xs : List Nat) : Scale :=
  let sample := extremes (xs.take sampleSize)
  if full ≤ widthFor (sample.2 - sample.1) then ⟨0, none⟩
  else
    let (least, greatest) := extremes xs
    Scale.choose (halvingsFor full) xs.length least greatest

end IntegerForm

namespace Column

open IntegerForm

/-- Numbers of `full` bytes, where `full` is a power of two up to eight. Sums with the base wrap
around at the full width when they are read. -/
def integer (full : Nat) : Column Nat where
  write xs :=
    if xs = [] then []
    else
      let scale := scaleFor full xs
      let width := (width? full scale.rank).getD full
      match scale.base with
      | some base =>
        scale.code :: LittleEndian.ofNat full base ++
          IntegerForm.write width (xs.map fun x => x - base)
      | none => scale.code :: IntegerForm.write width xs
  read n :=
    if n = 0 then pure []
    else do
      let scale ← Scale.read full
      let width ← Decoder.ofOption (width? full scale.rank)
      let values ← IntegerForm.read width n
      return values.map fun value => (value + scale.base.getD 0) % LittleEndian.span full

def word : Column UInt32 := (integer 4).imap UInt32.toNat UInt32.ofNat

end Column

end GameSave
