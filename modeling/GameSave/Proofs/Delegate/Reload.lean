import GameSave.Proofs.Delegate.Catalog
import Mathlib.Data.List.Infix

/-! Delegates at work. Whoever uses a delegate gets the same answers whether or not
it is saved and loaded on the way, and whatever states it is offered and refuses. -/

namespace GameSave

/-! ### Calls -/

/-- What a delegate answers to a call. -/
inductive DelegateAnswer where
  | done
  | number (n : UInt32)
  | flag (b : Bool)
  | moves (all : List UnitMove)
  | undone (last : Option UnitMove)
  | state (bytes : Option Bytes)
deriving DecidableEq

/-- What a delegate is called for: things that all delegates do, and the operations of its type. -/
inductive DelegateCall (ω : Type) where
  | identify (identity : Identity)
  | saveState
  | operate (op : ω)

/-- A type of delegates with operations. Not all of them change the delegate, but all answer. -/
class WorkingDelegate (δ : Type) (ω : outParam Type) where
  blank : δ
  operate : δ → ω → DelegateAnswer × δ

inductive PurchaseOperation where
  | purchase (unitType : String) (quantity unitCost : UInt32)
  | pending (unitType : String)
  | spent

instance : WorkingDelegate PurchaseDelegate PurchaseOperation where
  blank := .blank
  operate d
    | .purchase unitType quantity unitCost => (.done, d.purchase unitType quantity unitCost)
    | .pending unitType => (.number (d.state.pendingOf unitType), d)
    | .spent => (.number d.state.spent, d)

inductive MovementOperation where
  | record (move : UnitMove)
  | undoLast
  | moves
  | setNonCombat (nonCombat : Bool)
  | isNonCombat

instance : WorkingDelegate MovementDelegate MovementOperation where
  blank := .blank
  operate d
    | .record move => (.done, d.record move)
    | .undoLast => (.undone d.undoLast.1, d.undoLast.2)
    | .moves => (.moves d.state.moves, d)
    | .setNonCombat nonCombat => (.done, d.setNonCombat nonCombat)
    | .isNonCombat => (.flag d.state.nonCombat, d)

/-- There is nothing to do with the end of a turn but to have it. -/
instance : WorkingDelegate EndTurnDelegate Empty where
  blank := .blank
  operate _ op := nomatch op

namespace DelegateCall

variable {δ ω : Type} [Delegate δ] [WorkingDelegate δ ω]

def perform (d : δ) : DelegateCall ω → DelegateAnswer × δ
  | .identify identity => (.done, Delegate.withIdentity d identity)
  | .saveState => (.state (Delegate.saveState d), d)
  | .operate op => WorkingDelegate.operate d op

/-- The answers to some calls, and the delegate after them. -/
def performAll : δ → List (DelegateCall ω) → List DelegateAnswer × δ
  | d, [] => ([], d)
  | d, c :: calls =>
    let (answer, next) := c.perform d
    let (answers, last) := performAll next calls
    (answer :: answers, last)

/-- What is true of the delegate before the calls and after each of them. -/
def Always (P : δ → Prop) (d : δ) (calls : List (DelegateCall ω)) : Prop :=
  ∀ front, front <+: calls → P (performAll d front).2

variable {P Q : δ → Prop} {d : δ} {c : DelegateCall ω} {calls : List (DelegateCall ω)}

theorem Always.now (h : Always P d calls) : P d := h [] List.nil_prefix

/-- What is true all the time is true from the next call on. -/
theorem Always.later (h : Always P d (c :: calls)) : Always P (c.perform d).2 calls :=
  fun front hFront => h (c :: front) ((List.prefix_cons_inj c).mpr hFront)

theorem Always.imp (h : Always P d calls) (hImp : ∀ d, P d → Q d) : Always Q d calls :=
  fun front hFront => hImp _ (h front hFront)

end DelegateCall

/-! ### Calls with saves in between -/

/-- A call, or something in between that is not to be seen: a new delegate takes the place of the
one there is, with its identity and the state that it hands over, or a state is offered. -/
inductive DelegateStep (ω : Type) where
  | call (c : DelegateCall ω)
  | reload
  | load (state : Bytes)

namespace DelegateStep

open DelegateCatalog (settle)

variable {δ ω : Type} [Delegate δ] [WorkingDelegate δ ω]

/-- The calls by themselves. -/
def calls (steps : List (DelegateStep ω)) : List (DelegateCall ω) :=
  steps.filterMap fun
    | .call c => some c
    | _ => none

/-- A new delegate in place of another. It may be that it does not take the state. -/
def reloaded (d : δ) : Except StateRejection δ :=
  settle WorkingDelegate.blank (Delegate.identity d) (Delegate.saveState d)

/-- The answers to the calls, and the delegate after all steps. -/
def run : δ → List (DelegateStep ω) → Except StateRejection (List DelegateAnswer × δ)
  | d, [] => .ok ([], d)
  | d, .call c :: steps => do
    let (answer, next) := c.perform d
    let (answers, last) ← run next steps
    return (answer :: answers, last)
  | d, .reload :: steps => do run (← reloaded d) steps
  | d, .load state :: steps => run (Delegate.offerState d state).2 steps

/-- The delegate refuses every state that it is offered, as it is when that happens. -/
def RefusesAll : δ → List (DelegateStep ω) → Prop
  | _, [] => True
  | d, .call c :: steps => RefusesAll (c.perform d).2 steps
  | d, .reload :: steps => ∀ next, reloaded d = .ok next → RefusesAll next steps
  | d, .load state :: steps =>
    (∃ reason, (Delegate.offerState d state).1 = .error reason) ∧
      RefusesAll (Delegate.offerState d state).2 steps

theorem RefusesAll.reload {d : δ} {steps : List (DelegateStep ω)} (hSame : reloaded d = .ok d)
    (hLater : RefusesAll d steps) : RefusesAll d (.reload :: steps) := by
  intro next hNext
  obtain rfl := Except.ok.inj (hSame.symm.trans hNext)
  exact hLater

/-- A state that is refused and leaves the delegate as it was may be offered before other steps. -/
theorem RefusesAll.load {d : δ} {state : Bytes} {steps : List (DelegateStep ω)}
    {reason : StateRejection} (hRefused : Delegate.loadState d state = .error reason)
    (hSame : Delegate.afterRefusal d state = d) (hLater : RefusesAll d steps) :
    RefusesAll d (.load state :: steps) := by
  have hOffer : Delegate.offerState d state = (.error reason, d) := by
    rw [Delegate.offerState_of_error hRefused, hSame]
  show (∃ reason, (Delegate.offerState d state).1 = .error reason) ∧ _
  rw [hOffer]
  exact ⟨⟨reason, rfl⟩, hLater⟩

/-- If a reload changes none of the delegates that the calls by themselves lead to, and a refused
state changes no delegate at all, then it does not show where reloads and refusals come in
between. -/
theorem run_eq_performAll {d : δ} {steps : List (DelegateStep ω)}
    (hUnchanged : ∀ (d : δ) state, Delegate.afterRefusal d state = d)
    (hReloaded : DelegateCall.Always (fun d => reloaded d = .ok d) d (calls steps))
    (hRefuses : RefusesAll d steps) :
    run d steps = .ok (DelegateCall.performAll d (calls steps)) := by
  induction steps generalizing d with
  | nil => rfl
  | cons step steps ih =>
      cases step with
      | call c =>
          have hRest : run (c.perform d).2 steps =
              .ok (DelegateCall.performAll (c.perform d).2 (calls steps)) :=
            ih hReloaded.later hRefuses
          show (run (c.perform d).2 steps >>= _) = _
          rw [hRest]
          rfl
      | reload =>
          show (reloaded d >>= fun next => run next steps) = _
          rw [hReloaded.now]
          exact ih hReloaded (hRefuses d hReloaded.now)
      | load state =>
          obtain ⟨⟨reason, hRefused⟩, hLater⟩ := hRefuses
          have hSame : (Delegate.offerState d state).2 = d :=
            (Delegate.snd_offerState_of_refused hRefused).trans (hUnchanged d state)
          rw [hSame] at hLater
          show run (Delegate.offerState d state).2 steps = _
          rw [hSame]
          exact ih hReloaded hLater

end DelegateStep

open DelegateStep DelegateCatalog

/-- No count in the state is too large to be read back. -/
def PurchaseDelegate.Countable (d : PurchaseDelegate) : Prop :=
  ∀ count ∈ d.state.counts, count < Lengths.limit

def MovementDelegate.Countable (d : MovementDelegate) : Prop :=
  ∀ count ∈ d.state.counts, count < Lengths.limit

/-- A reload gives the delegate back if its state can be counted. -/
theorem PurchaseDelegate.Countable.reloaded_eq {d : PurchaseDelegate} (h : d.Countable) :
    reloaded d = .ok d := by
  rw [Countable, ← PurchaseState.map_columnCounts, List.forall_mem_map] at h
  simp only [reloaded, settle, Delegate.saveState, Delegate.loadState]
  exact loadState_of_decode (PurchaseState.delimitedBy_column.decode_encode_eq_some_iff.mpr h)

theorem MovementDelegate.Countable.reloaded_eq {d : MovementDelegate} (h : d.Countable) :
    reloaded d = .ok d := by
  rw [Countable, ← MovementState.map_columnCounts, List.forall_mem_map] at h
  simp only [reloaded, settle, Delegate.saveState, Delegate.loadState]
  exact loadState_of_decode (MovementState.delimitedBy_column.decode_encode_eq_some_iff.mpr h)

/-- It does not show whether a delegate was saved and loaded again between the calls, or was offered
states that it refused: the answers are the same, and so is the delegate in the end. The one bound
is that of the format of states, which takes no count from `Lengths.limit` on, about two million
gigabytes. All that is counted takes up memory. -/
theorem run_with_reloads :
    (∀ (d : PurchaseDelegate) (steps : List (DelegateStep PurchaseOperation)),
      DelegateCall.Always PurchaseDelegate.Countable d (calls steps) → RefusesAll d steps →
      run d steps = .ok (DelegateCall.performAll d (calls steps))) ∧
    (∀ (d : MovementDelegate) (steps : List (DelegateStep MovementOperation)),
      DelegateCall.Always MovementDelegate.Countable d (calls steps) → RefusesAll d steps →
      run d steps = .ok (DelegateCall.performAll d (calls steps))) ∧
    ∀ (d : EndTurnDelegate) (steps : List (DelegateStep Empty)), RefusesAll d steps →
      run d steps = .ok (DelegateCall.performAll d (calls steps)) := by
  refine ⟨?_, ?_, ?_⟩
  · intro d steps hCounts hRefuses
    exact run_eq_performAll (fun _ _ => rfl) (hCounts.imp fun _ h => h.reloaded_eq) hRefuses
  · intro d steps hCounts hRefuses
    exact run_eq_performAll (fun _ _ => rfl) (hCounts.imp fun _ h => h.reloaded_eq) hRefuses
  · intro d steps hRefuses
    exact run_eq_performAll (fun _ _ => rfl) (fun _ _ => rfl) hRefuses

/-- Units are bought, and counted after a reload. A move is undone after a reload, and the phase is
still known. Bytes that end too early are refused in between. -/
theorem run_with_reloads_turn :
    let buying : List (DelegateStep PurchaseOperation) :=
      [.call (.identify ⟨"buy", "Buy"⟩), .call (.operate (.purchase "armour" 2 5)), .reload,
        .load [], .call (.operate (.pending "armour")), .call (.operate .spent)]
    let moving : List (DelegateStep MovementOperation) :=
      [.call (.operate (.record ⟨"armour", 2, "Kent", "Sussex"⟩)),
        .call (.operate (.setNonCombat true)), .reload, .load [1],
        .call (.operate .undoLast), .call (.operate .isNonCombat)]
    let ending : List (DelegateStep Empty) :=
      [.call (.identify ⟨"end", "End"⟩), .reload, .call .saveState]
    run PurchaseDelegate.blank buying = .ok ([.done, .done, .number 2, .number 10],
        ⟨⟨"buy", "Buy"⟩, PurchaseState.blank.purchase "armour" 2 5⟩) ∧
      run MovementDelegate.blank moving = .ok ([.done, .done,
        .undone (some ⟨"armour", 2, "Kent", "Sussex"⟩), .flag true], ⟨.blank, ⟨[], true⟩⟩) ∧
      run EndTurnDelegate.blank ending = .ok ([.done, .state none], ⟨⟨"end", "End"⟩⟩) := by
  intro buying moving ending
  have hBuying : DelegateCall.Always PurchaseDelegate.Countable .blank (calls buying) := by
    unfold DelegateCall.Always PurchaseDelegate.Countable
    simp only [← List.mem_inits]
    decide +kernel
  have hMoving : DelegateCall.Always MovementDelegate.Countable .blank (calls moving) := by
    unfold DelegateCall.Always MovementDelegate.Countable
    simp only [← List.mem_inits]
    decide +kernel
  have hBought := (hBuying.later.later).now.reloaded_eq
  have hMoved := (hMoving.later.later).now.reloaded_eq
  obtain ⟨hPurchase, hMovement, hEndTurn⟩ := run_with_reloads
  refine ⟨?_, ?_, ?_⟩
  · have hRefused : ∀ d : PurchaseDelegate, ∃ reason, Delegate.loadState d [] = .error reason :=
      fun d => ⟨_, PurchaseDelegate.loadState_of_decode_eq_none (by decide +kernel)⟩
    refine (hPurchase _ buying hBuying ?_).trans (congrArg Except.ok (by decide +kernel))
    obtain ⟨reason, hFault⟩ := hRefused _
    exact .reload hBought (.load hFault rfl trivial)
  · have hRefused : ∀ d : MovementDelegate, ∃ reason, Delegate.loadState d [1] = .error reason :=
      fun d => ⟨_, MovementDelegate.loadState_of_decode_eq_none (by decide +kernel)⟩
    refine (hMovement _ moving hMoving ?_).trans (congrArg Except.ok (by decide +kernel))
    obtain ⟨reason, hFault⟩ := hRefused _
    exact .reload hMoved (.load hFault rfl trivial)
  · exact hEndTurn _ ending (.reload rfl trivial)

end GameSave
