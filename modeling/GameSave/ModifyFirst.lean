/-!
Changing the first element of a list that has a property, and no other.
-/

namespace GameSave

/-- Changes the first element that is `found`, if there is one. -/
def modifyFirst {α : Type} (found : α → Bool) (change : α → α) : List α → List α
  | [] => []
  | x :: xs => if found x then change x :: xs else x :: modifyFirst found change xs

end GameSave
