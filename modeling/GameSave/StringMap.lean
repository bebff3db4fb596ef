/-!
Finite maps from text to values, kept in ascending order of their keys.

A map has one representation, so two maps with the same contents are equal. The order of keys is
the order of their characters, which is also the order of their UTF-8 bytes.
-/

namespace GameSave

/-- A map with text keys: its entries, each key once, in ascending order. -/
structure StringMap (β : Type) where
  toList : List (String × β)
  ascending : toList.Pairwise (fun a b => a.1 < b.1)

namespace StringMap

variable {β : Type}

@[ext]
theorem ext {a b : StringMap β} (h : a.toList = b.toList) : a = b := by
  cases a
  cases b
  cases h
  rfl

instance [DecidableEq β] : DecidableEq (StringMap β) := fun a b =>
  decidable_of_iff (a.toList = b.toList) ⟨ext, fun h => h ▸ rfl⟩

instance [Repr β] : Repr (StringMap β) where
  reprPrec m prec := reprPrec m.toList prec

def empty : StringMap β := ⟨[], .nil⟩

instance : Inhabited (StringMap β) := ⟨empty⟩

def get? (m : StringMap β) (key : String) : Option β :=
  (m.toList.find? fun entry => entry.1 == key).map Prod.snd

/-- Puts a value at a key into an ascending list of entries, in place of the value it had. -/
def insertEntry (key : String) (value : β) : List (String × β) → List (String × β)
  | [] => [(key, value)]
  | entry :: entries =>
    if key < entry.1 then (key, value) :: entry :: entries
    else if key = entry.1 then (key, value) :: entries
    else entry :: insertEntry key value entries

/-- Nothing comes in but the new entry. -/
theorem mem_insertEntry {key : String} {value : β} {entry : String × β}
    {entries : List (String × β)} (h : entry ∈ insertEntry key value entries) :
    entry = (key, value) ∨ entry ∈ entries := by
  induction entries with
  | nil => simpa [insertEntry] using h
  | cons first entries ih =>
    simp only [insertEntry] at h
    split at h
    · simpa using h
    · split at h
      · rcases List.mem_cons.mp h with h | h
        · exact .inl h
        · exact .inr (List.mem_cons_of_mem _ h)
      · rcases List.mem_cons.mp h with h | h
        · exact .inr (h ▸ List.mem_cons_self)
        · exact (ih h).imp id (List.mem_cons_of_mem _)

private theorem lt_of_not_lt_of_ne {a b : String} (hNot : ¬a < b) (hNe : a ≠ b) : b < a :=
  Decidable.byContradiction fun h =>
    hNe (String.le_antisymm (String.not_lt.mp h) (String.not_lt.mp hNot))

/-- Keys stay in strict order, and so different. -/
theorem ascending_insertEntry (key : String) (value : β) {entries : List (String × β)}
    (h : entries.Pairwise (fun a b => a.1 < b.1)) :
    (insertEntry key value entries).Pairwise (fun a b => a.1 < b.1) := by
  induction entries with
  | nil => simp [insertEntry]
  | cons first entries ih =>
    obtain ⟨hFirst, hRest⟩ := List.pairwise_cons.mp h
    simp only [insertEntry]
    split
    · next hLt =>
      refine List.pairwise_cons.mpr ⟨fun entry hMem => ?_, h⟩
      rcases List.mem_cons.mp hMem with rfl | hMem
      · exact hLt
      · exact String.lt_trans hLt (hFirst entry hMem)
    · next hNot =>
      split
      · next hEq => exact List.pairwise_cons.mpr ⟨fun entry hMem => hEq ▸ hFirst entry hMem, hRest⟩
      · next hNe =>
        refine List.pairwise_cons.mpr ⟨fun entry hMem => ?_, ih hRest⟩
        rcases mem_insertEntry hMem with rfl | hMem
        · exact lt_of_not_lt_of_ne hNot hNe
        · exact hFirst entry hMem

/-- Puts a value at a key, in place of the value that the key had. -/
def insert (m : StringMap β) (key : String) (value : β) : StringMap β :=
  ⟨insertEntry key value m.toList, ascending_insertEntry key value m.ascending⟩

/-- The map with the given entries in any order. Of entries with one key the last counts. -/
def ofList (entries : List (String × β)) : StringMap β :=
  entries.foldl (fun m entry => m.insert entry.1 entry.2) empty

end StringMap

end GameSave
