import GameSave.Proofs.Delegate.Roster
import GameSave.Proofs.Delegate.State
import GameSave.Proofs.Except

/-! Delegates that come back from a save. A delegate is restored if its type is
known and a new delegate of that type takes its state. Those that every engine has
are. -/

namespace GameSave

/-! ### Identities -/

/-- A delegate has the identity that it was given, and a state that it is offered does not change
that, whether it takes the state or refuses it. -/
class LawfulDelegate (δ : Type) [Delegate δ] : Prop where
  identity_withIdentity (d : δ) (i : Identity) :
    Delegate.identity (Delegate.withIdentity d i) = i
  identity_offerState (d : δ) (state : Bytes) :
    Delegate.identity (Delegate.offerState d state).2 = Delegate.identity d

instance : LawfulDelegate PurchaseDelegate where
  identity_withIdentity _ _ := rfl
  identity_offerState d state := by
    cases hState : PurchaseState.column.decode state with
    | none =>
        rw [Delegate.offerState_of_error (PurchaseDelegate.loadState_of_decode_eq_none hState)]
        rfl
    | some s =>
        rw [Delegate.offerState_of_ok (PurchaseDelegate.loadState_of_decode hState)]
        rfl

instance : LawfulDelegate MovementDelegate where
  identity_withIdentity _ _ := rfl
  identity_offerState d state := by
    cases hState : MovementState.column.decode state with
    | none =>
        rw [Delegate.offerState_of_error (MovementDelegate.loadState_of_decode_eq_none hState)]
        rfl
    | some s =>
        rw [Delegate.offerState_of_ok (MovementDelegate.loadState_of_decode hState)]
        rfl

instance : LawfulDelegate EndTurnDelegate where
  identity_withIdentity _ _ := rfl
  identity_offerState _ _ := rfl

instance : LawfulDelegate BuiltinDelegate where
  identity_withIdentity d i := by
    cases d <;> rfl
  identity_offerState d state := by
    cases d with
    | purchase d =>
        rw [Delegate.offerState_embed BuiltinDelegate.purchase rfl rfl]
        exact LawfulDelegate.identity_offerState d state
    | movement d =>
        rw [Delegate.offerState_embed BuiltinDelegate.movement rfl rfl]
        exact LawfulDelegate.identity_offerState d state
    | endTurn d =>
        rw [Delegate.offerState_embed BuiltinDelegate.endTurn rfl rfl]
        exact LawfulDelegate.identity_offerState d state

instance {δ ε : Type} [Delegate δ] [Delegate ε] [LawfulDelegate δ] [LawfulDelegate ε] :
    LawfulDelegate (δ ⊕ ε) where
  identity_withIdentity d i := by
    cases d with
    | inl d => exact LawfulDelegate.identity_withIdentity d i
    | inr d => exact LawfulDelegate.identity_withIdentity d i
  identity_offerState d state := by
    cases d with
    | inl d =>
        rw [Delegate.offerState_embed Sum.inl rfl rfl]
        exact LawfulDelegate.identity_offerState d state
    | inr d =>
        rw [Delegate.offerState_embed Sum.inr rfl rfl]
        exact LawfulDelegate.identity_offerState d state

/-- A delegate that took on a state is still the same one. -/
theorem LawfulDelegate.identity_loadState {δ : Type} [Delegate δ] [LawfulDelegate δ] {d d' : δ}
    {state : Bytes} (h : Delegate.loadState d state = .ok d') :
    Delegate.identity d' = Delegate.identity d := by
  have hKept := identity_offerState d state
  rwa [Delegate.offerState_of_ok h] at hKept

/-- What a delegate says of itself: its name, the name that players see, its type and its state. -/
def Delegate.report {δ : Type} [Delegate δ] (d : δ) : String × String × String × Option Bytes :=
  (name d, displayName d, typeKey d, saveState d)

/-! ### Restoring -/

section

variable {δ ε : Type} [Delegate δ] [Delegate ε]

/-- A new delegate with an identity, and with a state if there is one. -/
def DelegateCatalog.settle (blank : ε) (identity : Identity) (state : Option Bytes) :
    Except StateRejection ε :=
  match state with
  | some state => Delegate.loadState (Delegate.withIdentity blank identity) state
  | none => .ok (Delegate.withIdentity blank identity)

/-- New delegates of a type report the identity that they were given, whatever state they then take
on. -/
def DelegateType.ReportsGiven (type : DelegateType ε) : Prop :=
  ∀ identity state d, DelegateCatalog.settle type.blank identity state = .ok d →
    Delegate.identity d = identity

namespace DelegateCatalog

/-- The catalog has the type of a delegate, and delegates of that type report the identity that they
are given. A new one that is given the identity and the state, if there is one, reports the same
state and the same type. -/
def Restores (r : DelegateCatalog ε) (d : δ) : Prop :=
  ∃ type ∈ r.types, type.key = Delegate.typeKey d ∧ type.ReportsGiven ∧
    ∃ restored, settle type.blank (Delegate.identity d) (Delegate.saveState d) = .ok restored ∧
      Delegate.saveState restored = Delegate.saveState d ∧
      Delegate.typeKey restored = Delegate.typeKey d

/-- A new delegate has the identity that it was given, with its state or without. -/
theorem identity_of_settle [LawfulDelegate ε] {blank restored : ε} {identity : Identity}
    {state : Option Bytes} (h : settle blank identity state = .ok restored) :
    Delegate.identity restored = identity := by
  cases state with
  | none =>
      cases h
      exact LawfulDelegate.identity_withIdentity blank identity
  | some state =>
      rw [LawfulDelegate.identity_loadState h]
      exact LawfulDelegate.identity_withIdentity blank identity

end DelegateCatalog

/-- Lawful delegates report what they were given, whatever their type. -/
theorem DelegateType.reportsGiven_of_lawful [LawfulDelegate ε] (type : DelegateType ε) :
    type.ReportsGiven :=
  fun _ _ _ => DelegateCatalog.identity_of_settle

end

/-! ### Delegates that every engine has -/

/-- The delegates that every engine has are restored, whatever their state. -/
theorem DelegateCatalog.restores_builtin {d : BuiltinDelegate}
    (hRoom : ∀ state, Delegate.saveState d = some state → state.length < Column.room) :
    (DelegateCatalog.builtin id).Restores d := by
  cases d with
  | purchase d =>
      refine ⟨⟨"purchase", .purchase .blank⟩, .head _, rfl,
        DelegateType.reportsGiven_of_lawful _, .purchase d, ?_, rfl, rfl⟩
      show BuiltinDelegate.purchase <$> PurchaseDelegate.loadState ⟨d.identity, .blank⟩ _ = _
      rw [PurchaseDelegate.loadState_of_decode
        (PurchaseState.delimitedBy_column.decode_encode (hRoom _ rfl))]
      rfl
  | movement d =>
      refine ⟨⟨"move", .movement .blank⟩, .tail _ (.head _), rfl,
        DelegateType.reportsGiven_of_lawful _, .movement d, ?_, rfl, rfl⟩
      show BuiltinDelegate.movement <$> MovementDelegate.loadState ⟨d.identity, .blank⟩ _ = _
      rw [MovementDelegate.loadState_of_decode
        (MovementState.delimitedBy_column.decode_encode (hRoom _ rfl))]
      rfl
  | endTurn d =>
      exact ⟨⟨"end_turn", .endTurn .blank⟩, .tail _ (.tail _ (.head _)), rfl,
        DelegateType.reportsGiven_of_lawful _, .endTurn d, rfl, rfl, rfl⟩

end GameSave
