import GameSave.Text.Hidden
/-!
Texts in quotation marks. What would not show between the marks is written as an escape.
-/

namespace GameSave.Text.Quoted

/-- The escapes that have a letter or sign of their own. -/
def shortEscape? : Char → Option Char
  | '\x00' => some '0'
  | '\t' => some 't'
  | '\n' => some 'n'
  | '\r' => some 'r'
  | '"' => some '"'
  | '\\' => some '\\'
  | _ => none

/-- A character as it is written between quotation marks: by a short escape, by its number, or as
it is. -/
def escape (c : Char) : List Char :=
  match shortEscape? c with
  | some letter => ['\\', letter]
  | none => if isHidden c then ['\\', 'u', '\x7b'] ++ Nat.toDigits 16 c.toNat ++ ['\x7d'] else [c]

def encode (s : String) : String := String.ofList ('"' :: s.toList.flatMap escape ++ ['"'])

end GameSave.Text.Quoted
