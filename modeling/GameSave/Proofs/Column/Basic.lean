import GameSave.Column.Basic
import GameSave.Proofs.Bytes

/-! Laws of decoders. A decoder reads a value if it makes it of exactly its bytes,
whatever follows them. -/

namespace GameSave

namespace Decoder

variable {α β : Type}

/-- A decoder makes a value of exactly these bytes, whatever follows them. -/
def Reads (d : Decoder α) (bytes : Bytes) (x : α) : Prop :=
  ∀ rest, d (bytes ++ rest) = some (x, rest)

theorem reads_pure (x : α) : Reads (pure x) [] x := fun _ => rfl

/-- A decoder that goes on with another reads both parts, one behind the other. -/
theorem reads_bind {d : Decoder α} {next : α → Decoder β} {front back : Bytes} {x : α} {y : β}
    (hFront : Reads d front x) (hBack : Reads (next x) back y) :
    Reads (d >>= next) (front ++ back) y := by
  intro rest
  show (d (front ++ back ++ rest)).bind (fun found => next found.1 found.2) = some (y, rest)
  rw [List.append_assoc, hFront, Option.bind_some, hBack]

theorem reads_map {d : Decoder α} {bytes : Bytes} {x : α} (f : α → β) (h : Reads d bytes x) :
    Reads (f <$> d) bytes (f x) := by
  rw [map_eq_pure_bind, ← List.append_nil bytes]
  exact reads_bind h (reads_pure _)

/-- Bytes are taken as they are if their number is known. -/
theorem reads_take {bytes : Bytes} {n : Nat} (h : bytes.length = n) : Reads (take n) bytes bytes :=
  fun rest => Bytes.split?_append rest h

theorem reads_byte (b : UInt8) : Reads byte [b] b := fun _ => rfl

/-- A number is read from its bytes if it fits in the width. -/
theorem reads_number {width n : Nat} (h : n < LittleEndian.span width) :
    Reads (number width) (LittleEndian.ofNat width n) n := by
  have hDigits := reads_map LittleEndian.toNat (reads_take (LittleEndian.length_ofNat width n))
  rw [LittleEndian.toNat_ofNat_of_lt h] at hDigits
  exact hDigits

theorem reads_ofOption (x : α) : Reads (ofOption (some x)) [] x := fun _ => rfl

/-- A decoder makes no other values than these, whatever it reads. -/
def Makes (d : Decoder α) (P : α → Prop) : Prop := ∀ bytes x rest, d bytes = some (x, rest) → P x

theorem makes_any (d : Decoder α) : Makes d fun _ => True := fun _ _ _ _ => trivial

theorem makes_pure {P : α → Prop} {x : α} (h : P x) : Makes (pure x) P := by
  rintro _ _ _ ⟨⟩
  exact h

/-- What the first decoder makes is what the second may rely on. -/
theorem makes_bind {d : Decoder α} {next : α → Decoder β} {P : α → Prop} {Q : β → Prop}
    (hFirst : Makes d P) (hNext : ∀ x, P x → Makes (next x) Q) : Makes (d >>= next) Q := by
  intro bytes y rest h
  change (d bytes).bind (fun found => next found.1 found.2) = some (y, rest) at h
  obtain ⟨⟨x, between⟩, hX, hY⟩ := Option.bind_eq_some_iff.mp h
  exact hNext x (hFirst _ _ _ hX) _ _ _ hY

/-- Conditions are carried along by functions on the results. -/
theorem makes_map {d : Decoder α} {P : α → Prop} {Q : β → Prop} {f : α → β} (h : Makes d P)
    (hImage : ∀ x, P x → Q (f x)) : Makes (f <$> d) Q := by
  rw [map_eq_pure_bind]
  exact makes_bind h fun x hX => makes_pure (hImage x hX)

/-- Bytes that are taken are as many as were asked for. -/
theorem makes_take (n : Nat) : Makes (take n) fun bytes => bytes.length = n :=
  fun _ _ _ h => (Bytes.split?_eq_some_iff.mp h).2

/-- Only what is there can be made. -/
theorem makes_ofOption {x : Option α} {P : α → Prop} (h : ∀ y, x = some y → P y) :
    Makes (ofOption x) P := by
  intro bytes y rest hY
  obtain ⟨z, hZ, hSame⟩ := Option.map_eq_some_iff.mp hY
  exact (Prod.mk.inj hSame).1 ▸ h z hZ

end Decoder

namespace Column

open Decoder

variable {α : Type}

/-- Columns shorter than this read back whatever is in them. It is far more than a file can hold. -/
def room : Nat := 9223372036854775807 / 4096 / 8

/-- A single value takes up the whole byte string. -/
theorem decode_encode_of_reads {c : Column α} {x : α} (h : Reads (c.read 1) (c.encode x) [x]) :
    c.decode (c.encode x) = some x := by
  have hRead := h []
  rw [List.append_nil] at hRead
  rw [decode, hRead]

end Column

end GameSave
