import GameSave.Bytes
/-!
Column codecs.

A column codec stores a list of values side by side: first one property of all of them, then the
next property of all of them, and so on. The number of values is not part of the bytes. Whoever
reads a column knows it, from an earlier column or because there is one value only.
-/

namespace GameSave

/-- Takes a value off the front of a byte string, or fails. -/
abbrev Decoder (α : Type) := StateT Bytes Option α

namespace Decoder

def take (n : Nat) : Decoder Bytes := fun bytes => Bytes.split? n bytes

def byte : Decoder UInt8
  | [] => none
  | b :: bytes => some (b, bytes)

def number (width : Nat) : Decoder Nat := LittleEndian.toNat <$> take width

/-- Goes on with a value that may be absent, and fails if it is. -/
def ofOption {α : Type} (x : Option α) : Decoder α := fun bytes => x.map (·, bytes)

end Decoder

/-- How values of one type are stored side by side: `write` stores a list of them, and `read`
takes a list of known length back off the front of a byte string. -/
structure Column (α : Type) where
  write : List α → Bytes
  read : Nat → Decoder (List α)

namespace Column

variable {α β : Type}

def encode (c : Column α) (x : α) : Bytes := c.write [x]

/-- Reads one value that takes up the whole byte string. -/
def decode (c : Column α) (bytes : Bytes) : Option α :=
  match c.read 1 bytes with
  | some ([x], []) => some x
  | _ => none

/-- Pairs: the first components of all of them, then the second components. -/
def prod (c : Column α) (d : Column β) : Column (α × β) where
  write xs := c.write (xs.map Prod.fst) ++ d.write (xs.map Prod.snd)
  read n := do
    let firsts ← c.read n
    let seconds ← d.read n
    return firsts.zip seconds

/-- Values of another type, stored as their images under `f` and read back through `g`. -/
def imap (c : Column α) (f : β → α) (g : α → β) : Column β where
  write xs := c.write (xs.map f)
  read n := List.map g <$> c.read n

end Column

end GameSave
