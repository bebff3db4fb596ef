/-!
Arithmetic on 32-bit words that stops at the greatest word where it would wrap around.
-/

namespace GameSave.Saturating

def top : Nat := UInt32.size - 1

def clamp (n : Nat) : UInt32 := UInt32.ofNat (min n top)

/-- The sum, or the greatest word if the sum is greater. -/
def add (a b : UInt32) : UInt32 := clamp (a.toNat + b.toNat)

/-- The product, or the greatest word if the product is greater. -/
def mul (a b : UInt32) : UInt32 := clamp (a.toNat * b.toNat)

/-- Clamping takes the lesser of a number and the greatest word. -/
@[simp]
theorem toNat_clamp (n : Nat) : (clamp n).toNat = min n top := by
  have hTop : min n top < UInt32.size := by
    simp only [top, UInt32.size]
    omega
  rw [clamp, UInt32.toNat_ofNat']
  exact Nat.mod_eq_of_lt hTop

end GameSave.Saturating
