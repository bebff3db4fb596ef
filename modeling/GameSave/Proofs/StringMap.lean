import GameSave.StringMap

/-! Maps with text keys through their look-ups. What a map holds can be told from its
look-ups alone, and putting a value in changes one of them. -/

namespace GameSave.StringMap

variable {β : Type}

/-! ### Look-ups -/

theorem find?_insertEntry_same (key : String) (value : β) (entries : List (String × β)) :
    (insertEntry key value entries).find? (fun entry => entry.1 == key) = some (key, value) := by
  induction entries with
  | nil => simp [insertEntry]
  | cons first entries ih =>
      rw [insertEntry]
      split
      · simp
      · split
        · simp
        · next hOther => rw [List.find?_cons_of_neg (by simpa using Ne.symm hOther), ih]

theorem find?_insertEntry_other {key sought : String} (h : key ≠ sought) (value : β)
    (entries : List (String × β)) :
    (insertEntry key value entries).find? (fun entry => entry.1 == sought) =
      entries.find? fun entry => entry.1 == sought := by
  induction entries with
  | nil => simp [insertEntry, h]
  | cons first entries ih =>
      rw [insertEntry]
      split
      · rw [List.find?_cons_of_neg (by simpa using h)]
      · split
        · next hSame =>
          rw [List.find?_cons_of_neg (by simpa using h),
            List.find?_cons_of_neg (by simpa [← hSame] using h)]
        · rw [List.find?_cons, List.find?_cons, ih]

/-- A new entry is found under its key, and all else as before. -/
theorem get?_insert (m : StringMap β) (key : String) (value : β) (sought : String) :
    (m.insert key value).get? sought = if key = sought then some value else m.get? sought := by
  rw [get?, insert]
  split
  · next hSame => rw [← hSame, find?_insertEntry_same, Option.map_some]
  · next hOther => rw [find?_insertEntry_other hOther, get?]

/-- The entries of a map are those that a look-up finds. -/
theorem mem_toList_iff {m : StringMap β} {key : String} {value : β} :
    (key, value) ∈ m.toList ↔ m.get? key = some value := by
  rw [get?, Option.map_eq_some_iff]
  constructor
  · intro hMem
    obtain ⟨front, back, hList⟩ := List.append_of_mem hMem
    have hAscending := m.ascending
    rw [hList, List.pairwise_append] at hAscending
    refine ⟨(key, value), List.find?_eq_some_iff_append.mpr ⟨by simp, front, back, hList, ?_⟩, rfl⟩
    intro entry hEntry
    have hLess : entry.1 < key := hAscending.2.2 entry hEntry (key, value) List.mem_cons_self
    simpa using String.ne_of_lt hLess
  · rintro ⟨entry, hFound, rfl⟩
    have hKey : entry.1 = key := by simpa using List.find?_some hFound
    rw [← hKey]
    exact List.mem_of_find?_eq_some hFound

/-- No entry comes twice. -/
theorem nodup_toList (m : StringMap β) : m.toList.Nodup :=
  m.ascending.imp fun hLess hSame => String.ne_of_lt hLess (congrArg Prod.fst hSame)

/-- Maps with the same look-ups are the same. -/
theorem ext_get? {a b : StringMap β} (h : ∀ key, a.get? key = b.get? key) : a = b := by
  have hPerm : a.toList.Perm b.toList := by
    refine (List.perm_ext_iff_of_nodup a.nodup_toList b.nodup_toList).mpr fun entry => ?_
    rw [mem_toList_iff, mem_toList_iff, h]
  refine ext (hPerm.eq_of_pairwise ?_ a.ascending b.ascending)
  exact fun _ _ _ _ hLess hMore => absurd hMore (String.lt_asymm hLess)

/-- Maps are the same if they have the same keys, with values that are the same where a key that
is not there counts as one with a default value. -/
theorem ext_getD {a b : StringMap β} (default : β)
    (hKeys : ∀ key, (a.get? key).isSome = true ↔ (b.get? key).isSome = true)
    (hValues : ∀ key, (a.get? key).getD default = (b.get? key).getD default) : a = b := by
  refine ext_get? fun key => ?_
  have hKey := hKeys key
  have hValue := hValues key
  cases hA : a.get? key with
  | none =>
      rw [hA, Option.isSome_none] at hKey
      exact (Option.not_isSome_iff_eq_none.mp fun hSome => Bool.false_ne_true (hKey.mpr hSome)).symm
  | some first =>
      rw [hA] at hKey hValue
      obtain ⟨second, hB⟩ := Option.isSome_iff_exists.mp (hKey.mp rfl)
      rw [hB] at hValue ⊢
      exact congrArg some hValue

theorem exists_mem_toList_iff {m : StringMap β} {key : String} :
    (∃ value, (key, value) ∈ m.toList) ↔ (m.get? key).isSome = true := by
  simp only [mem_toList_iff, Option.isSome_iff_exists]

/-! ### Entries in ascending order -/

/-- An entry with the greatest key goes to the end. -/
theorem insertEntry_of_greatest {key : String} {value : β} {entries : List (String × β)}
    (h : ∀ entry ∈ entries, entry.1 < key) :
    insertEntry key value entries = entries ++ [(key, value)] := by
  induction entries with
  | nil => rfl
  | cons entry entries ih =>
      have hFirst := h entry List.mem_cons_self
      have hRest := ih fun x hx => h x (List.mem_cons_of_mem _ hx)
      have hNotLess : ¬key < entry.1 := String.lt_asymm hFirst
      have hNe : key ≠ entry.1 := by
        rintro rfl
        exact String.lt_irrefl _ hFirst
      rw [insertEntry, if_neg hNotLess, if_neg hNe, hRest, List.cons_append]

/-- Entries that come in ascending order are added one behind the other. -/
theorem toList_foldl_insert {entries : List (String × β)} {m : StringMap β}
    (h : (m.toList ++ entries).Pairwise (fun a b => a.1 < b.1)) :
    (entries.foldl (fun m entry => m.insert entry.1 entry.2) m).toList = m.toList ++ entries := by
  induction entries generalizing m with
  | nil => rw [List.foldl_nil, List.append_nil]
  | cons entry entries ih =>
      have hInsert : (m.insert entry.1 entry.2).toList = m.toList ++ [entry] := by
        refine insertEntry_of_greatest fun x hx => ?_
        exact (List.pairwise_append.mp h).2.2 x hx entry List.mem_cons_self
      have hSame : m.toList ++ [entry] ++ entries = m.toList ++ entry :: entries := by simp
      rw [List.foldl_cons, ih (by rw [hInsert, hSame]; exact h), hInsert, hSame]

/-- A map is made again of its entries. -/
theorem ofList_toList (m : StringMap β) : ofList m.toList = m := by
  have hAscending : ((empty : StringMap β).toList ++ m.toList).Pairwise
      (fun a b => a.1 < b.1) := m.ascending
  exact ext (toList_foldl_insert hAscending)

end GameSave.StringMap
