import GameSave.Delegate.Catalog

/-! Names in a roster. A delegate is only added under a name that is free, but a
change may give a delegate any name. So the names stay different exactly if each
change leaves a delegate its own name or gives it one that is free. -/

namespace GameSave

/-! ### The first of a kind -/

section

variable {α : Type} {found : α → Bool} {change : α → α}

/-- If there is none of the kind, nothing changes. -/
theorem modifyFirst_of_forall {xs : List α} (h : ∀ x ∈ xs, found x = false) :
    modifyFirst found change xs = xs := by
  induction xs with
  | nil => rfl
  | cons x xs ih =>
      obtain ⟨hFirst, hRest⟩ := List.forall_mem_cons.mp h
      rw [modifyFirst, hFirst, ih hRest]
      rfl

/-- Only the first of the kind changes. -/
theorem modifyFirst_append {front : List α} (hFront : ∀ x ∈ front, found x = false) {x : α}
    (hFound : found x = true) (back : List α) :
    modifyFirst found change (front ++ x :: back) = front ++ change x :: back := by
  induction front with
  | nil => exact if_pos hFound
  | cons y front ih =>
      obtain ⟨hFirst, hRest⟩ := List.forall_mem_cons.mp hFront
      rw [List.cons_append, modifyFirst, hFirst, ih hRest]
      rfl

end

namespace DelegateRoster

variable {δ : Type} [Delegate δ] {l : DelegateRoster δ}

/-! ### Adding -/

theorem contains_iff {name : String} : l.contains name = true ↔ name ∈ l.names := by
  simp [contains, names]

theorem add?_of_mem {d : δ} (h : Delegate.name d ∈ l.names) : l.add? d = none :=
  if_pos (contains_iff.mpr h)

theorem add?_of_not_mem {d : δ} (h : Delegate.name d ∉ l.names) :
    l.add? d = some ⟨l.toList ++ [d]⟩ :=
  if_neg fun hTaken => h (contains_iff.mp hTaken)

/-- A delegate is added at the end exactly if its name is free. -/
theorem add?_eq_some_iff {l' : DelegateRoster δ} {d : δ} :
    l.add? d = some l' ↔ Delegate.name d ∉ l.names ∧ l' = ⟨l.toList ++ [d]⟩ := by
  by_cases hTaken : Delegate.name d ∈ l.names
  · rw [add?_of_mem hTaken]
    exact iff_of_false (nomatch ·) fun h => h.1 hTaken
  · rw [add?_of_not_mem hTaken, Option.some.injEq, eq_comm]
    exact (and_iff_right hTaken).symm

/-- Adding keeps names different. -/
theorem nodup_names_of_add? {l' : DelegateRoster δ} {d : δ} (hNames : l.names.Nodup)
    (h : l.add? d = some l') : l'.names.Nodup := by
  obtain ⟨hFree, rfl⟩ := add?_eq_some_iff.mp h
  rw [names, List.map_append]
  exact DelegateCatalog.nodup_append_singleton hNames hFree

/-! ### Changes -/

theorem get?_isSome_iff {name : String} : (l.get? name).isSome = true ↔ name ∈ l.names := by
  simp [get?, names]

/-- A change goes to the delegate that is found under the name, and to no other. -/
theorem get?_cases (l : DelegateRoster δ) (name : String) :
    (l.get? name = none ∧ ∀ change, l.modify name change = l) ∨
      ∃ d front back, l.get? name = some d ∧ Delegate.name d = name ∧
        l.toList = front ++ d :: back ∧
          ∀ change, (l.modify name change).toList = front ++ change d :: back := by
  cases hFound : l.get? name with
  | none =>
      refine .inl ⟨rfl, fun change => congrArg mk (modifyFirst_of_forall fun d hMem => ?_)⟩
      exact Bool.eq_false_iff.mpr (List.find?_eq_none.mp hFound d hMem)
  | some d =>
      obtain ⟨hName, front, back, hList, hFront⟩ := List.find?_eq_some_iff_append.mp hFound
      have hOthers : ∀ x ∈ front, (Delegate.name x == name) = false := by simpa using hFront
      refine .inr ⟨d, front, back, rfl, beq_iff_eq.mp hName, hList, fun change => ?_⟩
      rw [modify, hList]
      exact modifyFirst_append hOthers hName back

/-- Different names stay different if the delegate that is changed keeps its name or takes one that
is free, and only then. -/
theorem nodup_names_modify_iff (hNames : l.names.Nodup) (name : String) (change : δ → δ) :
    (l.modify name change).names.Nodup ↔ ∀ d, l.get? name = some d →
      Delegate.name (change d) = name ∨ Delegate.name (change d) ∉ l.names := by
  rcases l.get?_cases name with ⟨hNone, hSame⟩ | ⟨d, front, back, hFound, hName, hList, hChanged⟩
  · rw [hSame change, hNone]
    exact iff_of_true hNames fun d h => nomatch h
  · have hBefore : l.names = front.map Delegate.name ++ name :: back.map Delegate.name := by
      rw [names, hList, List.map_append, List.map_cons, hName]
    have hAfter : (l.modify name change).names =
        front.map Delegate.name ++ Delegate.name (change d) :: back.map Delegate.name := by
      rw [names, hChanged change, List.map_append, List.map_cons]
    rw [hBefore] at hNames ⊢
    obtain ⟨hOwn, hOthers⟩ := List.nodup_cons.mp (List.perm_middle.nodup_iff.mp hNames)
    rw [hAfter, List.perm_middle.nodup_iff, List.nodup_cons]
    have hPlace : Delegate.name (change d) ∈
          front.map Delegate.name ++ name :: back.map Delegate.name ↔
        Delegate.name (change d) = name ∨
          Delegate.name (change d) ∈ front.map Delegate.name ++ back.map Delegate.name := by
      simp only [List.mem_append, List.mem_cons]
      exact or_left_comm
    simp only [hFound, Option.some.injEq, forall_eq']
    rw [hPlace]
    constructor
    · rintro ⟨hFree, -⟩
      by_cases hKept : Delegate.name (change d) = name
      · exact .inl hKept
      · exact .inr fun hTaken => hTaken.elim hKept hFree
    · intro hSpared
      refine ⟨?_, hOthers⟩
      rcases hSpared with hKept | hFree
      · rwa [hKept]
      · exact fun hTaken => hFree (.inr hTaken)

/-- If names are different, each delegate is found under its own. -/
theorem get?_name_of_mem (hNames : l.names.Nodup) {d : δ} (hMem : d ∈ l.toList) :
    l.get? (Delegate.name d) = some d := by
  obtain ⟨front, back, hList⟩ := List.append_of_mem hMem
  refine List.find?_eq_some_iff_append.mpr ⟨beq_self_eq_true _, front, back, hList, ?_⟩
  rw [names, hList, List.map_append, List.map_cons] at hNames
  intro x hx
  have hNe := (List.nodup_append.mp hNames).2.2 _ (List.mem_map_of_mem hx) _ List.mem_cons_self
  simpa using hNe

end DelegateRoster

/-! ### Runs -/

/-- What may be done to the delegates of a game: one is added, or the first of a name is changed in
any way. -/
inductive RosterOperation (δ : Type) where
  | add (d : δ)
  | change (name : String) (edit : δ → δ)

namespace RosterOperation

variable {δ : Type} [Delegate δ]

/-- A delegate is given another identity. -/
def identify (name : String) (identity : Identity) : RosterOperation δ :=
  .change name (Delegate.withIdentity · identity)

/-- A delegate is offered a saved state. -/
def takeState (name : String) (state : Bytes) : RosterOperation δ :=
  .change name fun d => (Delegate.offerState d state).2

def perform (l : DelegateRoster δ) : RosterOperation δ → DelegateRoster δ
  | .add d => (l.add? d).getD l
  | .change name edit => l.modify name edit

def performAll (l : DelegateRoster δ) (ops : List (RosterOperation δ)) : DelegateRoster δ :=
  ops.foldl perform l

/-- An operation gives no delegate the name of another. -/
def Spares (l : DelegateRoster δ) : RosterOperation δ → Prop
  | .add _ => True
  | .change name edit => ∀ d, l.get? name = some d →
    Delegate.name (edit d) = name ∨ Delegate.name (edit d) ∉ l.names

/-- Each operation spares the names that are there when its turn comes. -/
def SparesAll : DelegateRoster δ → List (RosterOperation δ) → Prop
  | _, [] => True
  | l, op :: later => op.Spares l ∧ SparesAll (perform l op) later

/-- One operation keeps names different exactly if it spares them. -/
theorem nodup_names_perform_iff {l : DelegateRoster δ} (hNames : l.names.Nodup)
    (op : RosterOperation δ) : (perform l op).names.Nodup ↔ op.Spares l := by
  cases op with
  | add d =>
      refine iff_of_true ?_ trivial
      rw [perform]
      cases hAdd : l.add? d with
      | none => exact hNames
      | some l' => exact DelegateRoster.nodup_names_of_add? hNames hAdd
  | change name edit => exact DelegateRoster.nodup_names_modify_iff hNames name edit

/-- Names are different all the time exactly if every operation spares them. -/
theorem nodup_names_performAll_iff {l : DelegateRoster δ} (hNames : l.names.Nodup)
    (ops : List (RosterOperation δ)) :
    (∀ k, (performAll l (ops.take k)).names.Nodup) ↔ SparesAll l ops := by
  induction ops generalizing l with
  | nil => exact iff_of_true (fun k => by rwa [List.take_nil]) trivial
  | cons op ops ih =>
      constructor
      · intro hAll
        have hNext := hAll 1
        exact ⟨(nodup_names_perform_iff hNames op).mp hNext,
          (ih hNext).mp fun k => hAll (k + 1)⟩
      · rintro ⟨hFirst, hLater⟩ k
        cases k with
        | zero => exact hNames
        | succ k =>
            exact (ih ((nodup_names_perform_iff hNames op).mpr hFirst)).mpr hLater k

end RosterOperation

end GameSave
