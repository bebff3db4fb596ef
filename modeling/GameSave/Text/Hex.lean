/-!
Numbers in base sixteen, as error messages show them.
-/

namespace GameSave.Text

/-- A number in capital hexadecimal digits, filled up with zeros to at least `width` digits. -/
def hex (width n : Nat) : String :=
  let digits := (Nat.toDigits 16 n).map Char.toUpper
  String.ofList (List.replicate (width - digits.length) '0' ++ digits)

end GameSave.Text
