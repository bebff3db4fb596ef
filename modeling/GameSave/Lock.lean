/-!
Locks that any number of readers can share, or one writer can have alone.
-/

namespace GameSave

/-- Who holds a lock. -/
inductive Lock where
  | free
  /-- Some readers hold it, one more than `others`. -/
  | shared (others : Nat)
  | exclusive
deriving DecidableEq, Repr, Inhabited

namespace Lock

/-- The lock with a writer, if it can be had at once. -/
def tryWrite : Lock → Option Lock
  | free => some exclusive
  | shared _ => none
  | exclusive => none

/-- The lock after one of its holders lets it go. -/
def release : Lock → Lock
  | shared (others + 1) => shared others
  | _ => free

def isHeld (l : Lock) : Bool := l ≠ free

end Lock

end GameSave
