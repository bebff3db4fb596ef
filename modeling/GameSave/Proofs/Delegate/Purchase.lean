import GameSave.Delegate.Purchase
import GameSave.Proofs.StringMap
import Mathlib.Algebra.Ring.Nat

/-! Totals of purchases. Adding up with a greatest word in the way gives what the exact
sum gives when it is cut off once, at the end. So it does not matter in which order
units are bought. -/

namespace GameSave

namespace Saturating

theorem clamp_toNat (a : UInt32) : clamp a.toNat = a := by
  have hTop : a.toNat ≤ top := Nat.le_sub_one_of_lt a.toNat_lt
  rw [← UInt32.toNat_inj, toNat_clamp, Nat.min_eq_left hTop]

/-- What is cut off on the way makes no difference to the end of an addition. -/
theorem clamp_clamp_add (m n : Nat) : clamp ((clamp m).toNat + n) = clamp (m + n) := by
  rw [← UInt32.toNat_inj]
  simp only [toNat_clamp]
  omega

/-- A sum that is clamped at every step is the clamped sum. -/
theorem clamp_add_clamp (m n : Nat) : clamp (m + (clamp n).toNat) = clamp (m + n) := by
  rw [Nat.add_comm, clamp_clamp_add, Nat.add_comm]

end Saturating

open Saturating

/-- Units of one type that are bought at once. -/
structure PurchaseOrder where
  unitType : String
  quantity : UInt32
  unitCost : UInt32

namespace PurchaseOrder

/-- How many units of a type are bought by some orders. -/
def demand (orders : List PurchaseOrder) (unitType : String) : Nat :=
  ((orders.filter fun o => o.unitType = unitType).map fun o => o.quantity.toNat).sum

/-- What some orders cost. -/
def cost (orders : List PurchaseOrder) : Nat :=
  (orders.map fun o => o.quantity.toNat * o.unitCost.toNat).sum

variable {orders others : List PurchaseOrder}

theorem demand_cons (o : PurchaseOrder) (orders : List PurchaseOrder) (unitType : String) :
    demand (o :: orders) unitType =
      (if o.unitType = unitType then o.quantity.toNat else 0) + demand orders unitType := by
  by_cases h : o.unitType = unitType <;> simp [demand, h]

theorem cost_cons (o : PurchaseOrder) (orders : List PurchaseOrder) :
    cost (o :: orders) = o.quantity.toNat * o.unitCost.toNat + cost orders := by
  simp [cost]

/-- How much is ordered of a type does not depend on the order. -/
theorem demand_perm (h : others.Perm orders) (unitType : String) :
    demand others unitType = demand orders unitType :=
  ((h.filter _).map _).sum_nat

/-- What is ordered costs the same in any order. -/
theorem cost_perm (h : others.Perm orders) : cost others = cost orders :=
  (h.map _).sum_nat

end PurchaseOrder

namespace PurchaseDelegate

open PurchaseOrder

/-- The delegate after some orders, one after the other. -/
def purchaseAll (d : PurchaseDelegate) (orders : List PurchaseOrder) : PurchaseDelegate :=
  orders.foldl (fun d o => d.purchase o.unitType o.quantity o.unitCost) d

variable {orders others : List PurchaseOrder}

/-! ### One order -/

theorem get?_purchase (d : PurchaseDelegate) (o : PurchaseOrder) (unitType : String) :
    (d.purchase o.unitType o.quantity o.unitCost).state.pending.get? unitType =
      if o.unitType = unitType then some (add (d.state.pendingOf o.unitType) o.quantity)
      else d.state.pending.get? unitType :=
  StringMap.get?_insert _ _ _ _

/-- A purchase adds to its own type, up to the greatest word, and to no other. -/
theorem pendingOf_purchase (d : PurchaseDelegate) (o : PurchaseOrder) (unitType : String) :
    (d.purchase o.unitType o.quantity o.unitCost).state.pendingOf unitType =
      clamp ((d.state.pendingOf unitType).toNat +
        if o.unitType = unitType then o.quantity.toNat else 0) := by
  rw [PurchaseState.pendingOf, get?_purchase]
  split
  · next hSame => rw [hSame]; rfl
  · rw [Nat.add_zero, clamp_toNat]; rfl

/-- A purchase adds its cost, up to the greatest word, even if the product alone is too great for a
word. -/
theorem spent_purchase (d : PurchaseDelegate) (o : PurchaseOrder) :
    (d.purchase o.unitType o.quantity o.unitCost).state.spent =
      clamp (d.state.spent.toNat + o.quantity.toNat * o.unitCost.toNat) :=
  clamp_add_clamp _ _

/-! ### All orders -/

/-- Of each type there is what was ordered in all, clamped once. -/
theorem pendingOf_purchaseAll (d : PurchaseDelegate) (orders : List PurchaseOrder)
    (unitType : String) : (d.purchaseAll orders).state.pendingOf unitType =
      clamp ((d.state.pendingOf unitType).toNat + demand orders unitType) := by
  -- The delegate is left free, as its counts change with each order.
  induction orders generalizing d with
  | nil => exact (clamp_toNat _).symm
  | cons o orders ih =>
      rw [purchaseAll, List.foldl_cons, ← purchaseAll, ih, pendingOf_purchase, clamp_clamp_add,
        demand_cons, Nat.add_assoc]

/-- What is spent is what was ordered in all, clamped once. -/
theorem spent_purchaseAll (d : PurchaseDelegate) (orders : List PurchaseOrder) :
    (d.purchaseAll orders).state.spent = clamp (d.state.spent.toNat + cost orders) := by
  induction orders generalizing d with
  | nil => exact (clamp_toNat _).symm
  | cons o orders ih =>
      rw [purchaseAll, List.foldl_cons, ← purchaseAll, ih, spent_purchase, clamp_clamp_add,
        cost_cons, Nat.add_assoc]

/-- There are entries for the types that were bought, and for those that there were before. -/
theorem isSome_get?_purchaseAll (d : PurchaseDelegate) (orders : List PurchaseOrder)
    (unitType : String) : ((d.purchaseAll orders).state.pending.get? unitType).isSome = true ↔
      (∃ o ∈ orders, o.unitType = unitType) ∨
        (d.state.pending.get? unitType).isSome = true := by
  induction orders generalizing d with
  | nil => simp [purchaseAll]
  | cons o orders ih =>
      rw [purchaseAll, List.foldl_cons, ← purchaseAll, ih, get?_purchase]
      split
      · next hSame => simp [hSame]
      · next hOther => simp [hOther]

theorem identity_purchaseAll (d : PurchaseDelegate) (orders : List PurchaseOrder) :
    (d.purchaseAll orders).identity = d.identity := by
  induction orders generalizing d with
  | nil => rfl
  | cons o orders ih => exact ih _

/-- Orders have the same effect in any order. -/
theorem purchaseAll_perm (d : PurchaseDelegate) (h : others.Perm orders) :
    d.purchaseAll others = d.purchaseAll orders := by
  have hPending : (d.purchaseAll others).state.pending = (d.purchaseAll orders).state.pending := by
    refine StringMap.ext_getD 0 (fun unitType => ?_) fun unitType => ?_
    · simp only [isSome_get?_purchaseAll, h.mem_iff]
    · have hBought := pendingOf_purchaseAll d others unitType
      rw [demand_perm h, ← pendingOf_purchaseAll] at hBought
      exact hBought
  have hSpent : (d.purchaseAll others).state.spent = (d.purchaseAll orders).state.spent := by
    rw [spent_purchaseAll, spent_purchaseAll, cost_perm h]
  have hIdentity : (d.purchaseAll others).identity = (d.purchaseAll orders).identity := by
    rw [identity_purchaseAll, identity_purchaseAll]
  have hState : (d.purchaseAll others).state = (d.purchaseAll orders).state :=
    congrArg₂ PurchaseState.mk hPending hSpent
  exact congrArg₂ PurchaseDelegate.mk hIdentity hState

/-- Whatever is bought, the books show what was bought and spent in all, or the greatest word where
that is more, and do not show in which order it was bought. -/
theorem totals_of_purchaseAll (orders : List PurchaseOrder) :
    let bought := blank.purchaseAll orders
    (∀ unitType, (bought.state.pendingOf unitType).toNat =
      min (UInt32.size - 1) (demand orders unitType)) ∧
    bought.state.spent.toNat = min (UInt32.size - 1) (cost orders) ∧
    (∀ unitType, (∃ count, (unitType, count) ∈ bought.state.pending.toList) ↔
      ∃ o ∈ orders, o.unitType = unitType) ∧
    ∀ others, others.Perm orders → blank.purchaseAll others = bought ∧
      Delegate.saveState (blank.purchaseAll others) = Delegate.saveState bought := by
  intro bought
  refine ⟨fun unitType => ?_, ?_, fun unitType => ?_, fun others hOthers => ?_⟩
  · rw [pendingOf_purchaseAll, toNat_clamp, Nat.min_comm]
    exact congrArg (min top) (Nat.zero_add _)
  · rw [spent_purchaseAll, toNat_clamp, Nat.min_comm]
    exact congrArg (min top) (Nat.zero_add _)
  · rw [StringMap.exists_mem_toList_iff, isSome_get?_purchaseAll]
    exact or_iff_left Bool.false_ne_true
  · rw [purchaseAll_perm blank hOthers]
    exact ⟨rfl, rfl⟩

/-- The greatest word is passed by one price, by a count and by the costs in all, and an order for
no units at all leaves an entry. -/
theorem totals_of_purchaseAll_fleet :
    let orders : List PurchaseOrder :=
      [⟨"battleship", 4294967295, 20⟩, ⟨"armour", 0, 5⟩, ⟨"battleship", 1, 20⟩]
    let bought := blank.purchaseAll orders
    bought.state.pendingOf "battleship" = 4294967295 ∧ bought.state.spent = 4294967295 ∧
      (∃ count, ("armour", count) ∈ bought.state.pending.toList) ∧
      orders.reverse.Perm orders ∧
      Delegate.saveState (blank.purchaseAll orders.reverse) = Delegate.saveState bought := by
  intro orders bought
  obtain ⟨hPending, hSpent, hEntries, hOrder⟩ := totals_of_purchaseAll orders
  refine ⟨UInt32.toNat_inj.mp ?_, UInt32.toNat_inj.mp ?_, (hEntries "armour").mpr ?_,
    orders.reverse_perm, (hOrder _ orders.reverse_perm).2⟩
  · rw [hPending "battleship"]
    decide
  · rw [hSpent]
    decide
  · exact ⟨⟨"armour", 0, 5⟩, by simp [orders], rfl⟩

end PurchaseDelegate

end GameSave
