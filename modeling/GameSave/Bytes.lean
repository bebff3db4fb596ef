/-!
Byte strings, the cuts that the file formats make in them, and the little-endian numbers that
they hold.
-/

namespace GameSave

abbrev Bytes := List UInt8

/-- Consecutive groups of `size` elements, in order. Only the last group may be shorter. -/
def chunks {α : Type} (size : Nat) (xs : List α) : List (List α) :=
  go xs.length [] xs
where
  /-- Cuts one group per unit of fuel; a list holds at most as many groups as elements. -/
  go : Nat → List (List α) → List α → List (List α)
    | 0, done, _ => done.reverse
    | _ + 1, done, [] => done.reverse
    | fuel + 1, done, x :: xs => go fuel ((x :: xs).take size :: done) ((x :: xs).drop size)

namespace Bytes

/-- The first `n` bytes and what follows them, if there are that many. -/
def split? (n : Nat) (bytes : Bytes) : Option (Bytes × Bytes) :=
  let parts := bytes.splitAt n
  if parts.1.length = n then some parts else none

/-- A front is split off exactly if it is one and has the length. -/
theorem split?_eq_some_iff {n : Nat} {bytes front rest : Bytes} :
    split? n bytes = some (front, rest) ↔ bytes = front ++ rest ∧ front.length = n := by
  simp only [split?, List.splitAt_eq]
  constructor
  · intro h
    split at h
    · next hLength =>
      obtain ⟨rfl, rfl⟩ := Prod.mk.inj (Option.some.inj h)
      exact ⟨(List.take_append_drop n bytes).symm, hLength⟩
    · cases h
  · rintro ⟨rfl, rfl⟩
    simp

end Bytes

namespace LittleEndian

/-- The number whose base-256 digits are the given bytes, least significant first. -/
def toNat : Bytes → Nat
  | [] => 0
  | b :: bytes => b.toNat + 256 * toNat bytes

/-- The `width` lowest base-256 digits of a number, least significant first. -/
def ofNat : Nat → Nat → Bytes
  | 0, _ => []
  | width + 1, n => UInt8.ofNat n :: ofNat width (n / 256)

/-- How many numbers have at most `width` base-256 digits. -/
def span : (width : Nat) → Nat
  | 0 => 1
  | width + 1 => 256 * span width

def ofWord (w : UInt32) : Bytes := ofNat 4 w.toNat

def toWord (bytes : Bytes) : UInt32 := UInt32.ofNat (toNat bytes)

@[simp]
theorem length_ofNat (width n : Nat) : (ofNat width n).length = width := by
  induction width generalizing n with
  | zero => rfl
  | succ width ih => simp [ofNat, ih]

/-- Of a number that is too great for the width, the low bytes are kept. -/
theorem toNat_ofNat (width n : Nat) : toNat (ofNat width n) = n % span width := by
  induction width generalizing n with
  | zero => simp [ofNat, toNat, span, Nat.mod_one]
  | succ width ih =>
    have hLow : (UInt8.ofNat n).toNat = n % 256 := UInt8.toNat_ofNat'
    rw [ofNat, toNat, ih, hLow, span, Nat.mod_mul]

@[simp]
theorem length_ofWord (w : UInt32) : (ofWord w).length = 4 := length_ofNat 4 _

/-- Words are read back. -/
@[simp]
theorem toWord_ofWord (w : UInt32) : toWord (ofWord w) = w := by
  simp only [toWord, ofWord, toNat_ofNat]
  have hSpan : w.toNat < span 4 := w.toNat_lt
  rw [Nat.mod_eq_of_lt hSpan]
  exact UInt32.ofNat_toNat

end LittleEndian

end GameSave
