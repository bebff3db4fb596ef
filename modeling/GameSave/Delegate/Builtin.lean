import GameSave.Delegate.EndTurn
import GameSave.Delegate.Movement
import GameSave.Delegate.Purchase
/-!
The delegates that every engine has.
-/

namespace GameSave

/-- A delegate of one of the types that every engine has. -/
inductive BuiltinDelegate where
  | purchase (d : PurchaseDelegate)
  | movement (d : MovementDelegate)
  | endTurn (d : EndTurnDelegate)
deriving DecidableEq, Repr

namespace BuiltinDelegate

/-- Each type does as it does by itself. -/
instance : Delegate BuiltinDelegate where
  withIdentity
    | purchase d, identity => purchase (Delegate.withIdentity d identity)
    | movement d, identity => movement (Delegate.withIdentity d identity)
    | endTurn d, identity => endTurn (Delegate.withIdentity d identity)
  identity
    | purchase d => Delegate.identity d
    | movement d => Delegate.identity d
    | endTurn d => Delegate.identity d
  typeKey
    | purchase d => Delegate.typeKey d
    | movement d => Delegate.typeKey d
    | endTurn d => Delegate.typeKey d
  saveState
    | purchase d => Delegate.saveState d
    | movement d => Delegate.saveState d
    | endTurn d => Delegate.saveState d
  loadState
    | purchase d, bytes => purchase <$> Delegate.loadState d bytes
    | movement d, bytes => movement <$> Delegate.loadState d bytes
    | endTurn d, bytes => endTurn <$> Delegate.loadState d bytes
  afterRefusal
    | purchase d, bytes => purchase (Delegate.afterRefusal d bytes)
    | movement d, bytes => movement (Delegate.afterRefusal d bytes)
    | endTurn d, bytes => endTurn (Delegate.afterRefusal d bytes)

def types : List (DelegateType BuiltinDelegate) :=
  [⟨PurchaseDelegate.key, purchase .blank⟩, ⟨MovementDelegate.key, movement .blank⟩,
   ⟨EndTurnDelegate.key, endTurn .blank⟩]

end BuiltinDelegate

end GameSave
