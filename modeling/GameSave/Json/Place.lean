/-!
Places of faults in a text.

Whoever reports a fault in a JSON text writes the place behind the message, as a line and a
column. A message that ends in a place already has its own place and gets no other.
-/

namespace GameSave.Json

def placeLimit : Nat := UInt64.size

/-- Takes a number off the end of a text that is written backwards. -/
def dropNumber? (backwards : List Char) : Option (List Char) :=
  let digits := backwards.takeWhile Char.isDigit
  if digits ≠ [] ∧ Nat.ofDigitChars 10 digits.reverse 0 < placeLimit then
    some (backwards.dropWhile Char.isDigit)
  else none

/-- Takes a word off the end of a text that is written backwards. -/
def dropWord? (word : String) (backwards : List Char) : Option (List Char) :=
  let n := word.toList.length
  if backwards.take n = word.toList.reverse then some (backwards.drop n) else none

/-- Takes a place off the end of a text that is written backwards. -/
def dropPlace? (backwards : List Char) : Option (List Char) := do
  dropWord? " at line " (← dropNumber? (← dropWord? " column " (← dropNumber? backwards)))

/-- A message without the place at its end, if there is one. -/
def withoutPlace (message : String) : String :=
  match dropPlace? message.toList.reverse with
  | some backwards => String.ofList backwards.reverse
  | none => message

end GameSave.Json
