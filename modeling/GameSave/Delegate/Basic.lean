import GameSave.Bytes
/-!
Delegates: the units of behaviour that a turn is made of, such as buying units or moving them.

A delegate has a name within its game, a type that is the same in every game, and possibly a
state. Saves keep the state as bytes that only the delegate understands.
-/

namespace GameSave

/-- What a delegate is called: its name within the game, and the name that players see. -/
structure Identity where
  name : String
  displayName : String
deriving DecidableEq, Repr, Inhabited

namespace Identity

/-- The identity of a delegate that has not been given one. -/
def blank : Identity := ⟨"", ""⟩

end Identity

/-- Why a delegate refuses the bytes of a saved state. -/
inductive StateRejection where
  /-- The bytes are no state of a delegate of this type. -/
  | undecodable (delegate : String) (size : Nat)
  /-- The delegate has a reason of its own. -/
  | refused (reason : String)
deriving DecidableEq, Repr

def StateRejection.message : StateRejection → String
  | .undecodable delegate size =>
    "delegate " ++ delegate ++ ": failed to decode " ++ size.repr ++
      " bytes of state: <decode error>"
  | .refused reason => reason

/-- What the engine asks of a delegate. It makes one of the right type, gives it its identity, and
only then hands it the saved state, if there is one. -/
class Delegate (δ : Type) where
  withIdentity : δ → Identity → δ
  identity : δ → Identity
  /-- The type, by which saves find the way back to the right kind of delegate. -/
  typeKey : δ → String
  /-- The state as bytes, unless the delegate keeps none. -/
  saveState : δ → Option Bytes
  /-- The delegate with the state that some bytes hold. -/
  loadState : δ → Bytes → Except StateRejection δ
  /-- What is left of a delegate that refused some bytes. Nothing keeps it from having taken up a
  part of them before. -/
  afterRefusal : δ → Bytes → δ := fun d _ => d

namespace Delegate

variable {δ : Type} [Delegate δ]

/-- The name of a delegate within its game. -/
def name (d : δ) : String := (identity d).name

/-- The name of a delegate that players see. -/
def displayName (d : δ) : String := (identity d).displayName

/-- Offers the bytes of a state to a delegate: whether it takes them, and what it is afterwards. -/
def offerState (d : δ) (bytes : Bytes) : Except StateRejection Unit × δ :=
  match loadState d bytes with
  | .ok loaded => (.ok (), loaded)
  | .error reason => (.error reason, afterRefusal d bytes)

/-- A delegate of either of two kinds does as it does by itself. So an engine can have delegates
beside those that every engine has. -/
instance {ε : Type} [Delegate ε] : Delegate (δ ⊕ ε) where
  withIdentity d i := d.map (withIdentity · i) (withIdentity · i)
  identity := Sum.elim identity identity
  typeKey := Sum.elim typeKey typeKey
  saveState := Sum.elim saveState saveState
  loadState
    | .inl d, bytes => .inl <$> loadState d bytes
    | .inr d, bytes => .inr <$> loadState d bytes
  afterRefusal d bytes := d.map (afterRefusal · bytes) (afterRefusal · bytes)

end Delegate

/-- A type of delegates that can be made from nothing. -/
structure DelegateType (δ : Type) where
  key : String
  /-- A new delegate, without an identity and in the state that it starts from. -/
  blank : δ

end GameSave
