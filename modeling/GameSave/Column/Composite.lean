import GameSave.Column.Integer
import GameSave.StringMap
import GameSave.Text.Utf8
/-!
Columns of values that vary in size: texts, optional values, lists and maps.

What varies is stored first, as a column of lengths or of truth values, and then the parts of all
values together as one column.
-/

namespace GameSave

namespace Lengths

/-- Lengths from here on do not fit into a byte, which then holds this mark. -/
def mark : Nat := 255

/-- No lengths are read back whose sum is this or more. -/
def limit : Nat := 9223372036854775807 / 4096

/-- The bytes of all lengths, then in eight bytes each those that the mark stands for. -/
def write (lengths : List Nat) : Bytes :=
  Column.byte.write (lengths.map fun n => UInt8.ofNat (min n mark)) ++
    (Column.integer 8).write (lengths.filter fun n => mark ≤ n)

/-- The length that a byte stands for, which is the next of the long ones if it is the mark. -/
def next (b : UInt8) : StateM (List Nat) Nat :=
  modifyGet fun long =>
    if b.toNat = mark then (long.headD 0, long.tail) else (b.toNat, long)

/-- Puts the long lengths in the places of their marks. -/
def fill (short : List UInt8) (long : List Nat) : List Nat :=
  ((short.mapM next).run long).1

/-- How many parts some lengths ask for in all. -/
def total (lengths : List Nat) : Nat := lengths.foldr (fun n rest => n + rest) 0

/-- Takes `n` lengths back. Their sum is bounded, so that no crafted length asks for more parts
than there can be. -/
def read (n : Nat) : Decoder (List Nat) := do
  let short ← Column.byte.read n
  let long ← (Column.integer 8).read (short.countP fun b => b.toNat = mark)
  let lengths := fill short long
  if total lengths < limit then return lengths else failure

end Lengths

/-- Takes the first `n` elements away, or all if there are fewer. -/
def takeFront {α : Type} (n : Nat) : StateM (List α) (List α) :=
  modifyGet fun xs => xs.splitAt n

/-- Cuts a list into consecutive parts of the given lengths. -/
def cutAt {α : Type} (lengths : List Nat) (xs : List α) : List (List α) :=
  ((lengths.mapM takeFront).run xs).1

namespace Column

variable {α : Type}

/-- Texts: the lengths of their UTF-8 forms, then all bytes. Each text by itself must be UTF-8. -/
def text : Column String where
  write xs :=
    let parts := xs.map Text.Utf8.encode
    Lengths.write (parts.map List.length) ++ parts.flatten
  read n := do
    let lengths ← Lengths.read n
    let bytes ← Decoder.take (Lengths.total lengths)
    Decoder.ofOption ((cutAt lengths bytes).mapM Text.Utf8.decode?)

/-- Optional values: which of them are present, then those. -/
def option (c : Column α) : Column (Option α) where
  write xs := flag.write (xs.map Option.isSome) ++ c.write (xs.filterMap id)
  read n := do
    let present ← flag.read n
    let values ← c.read (present.count true)
    return (cutAt (present.map Bool.toNat) values).map List.head?

/-- Lists: their lengths, then the elements of all of them. -/
def list (c : Column α) : Column (List α) where
  write xs := Lengths.write (xs.map List.length) ++ c.write xs.flatten
  read n := do
    let lengths ← Lengths.read n
    let elements ← c.read (Lengths.total lengths)
    return cutAt lengths elements

/-- Maps, as the lists of their entries in ascending order. Entries that are read may come in any
order. -/
def stringMap (c : Column α) : Column (StringMap α) :=
  (list (prod text c)).imap StringMap.toList StringMap.ofList

end Column

end GameSave
