import SessionVault.Table

namespace SessionVault.Table

variable {α β : Type}

theorem get?_foldl_insert {l : List (String × α)} (hl : l.Pairwise fun a b => a.1 < b.1)
    (t : Table α) (name : String) :
    (l.foldl (fun t p => t.insert p.1 p.2) t).get? name = (find name l).or (t.get? name) := by
  induction l generalizing t with
  | nil => rfl
  | cons p l ih =>
    rw [List.pairwise_cons] at hl
    rw [List.foldl_cons, ih hl.2, get?_insert, find]
    split
    · next h =>
      subst h
      rw [find_eq_none_of_lt hl.1]
      rfl
    · rfl

theorem ofList_entries (t : Table α) : ofList t.entries = t := by
  apply ext
  intro name
  rw [ofList, get?_foldl_insert t.ascending, get?_empty, Option.or_none]
  rfl

theorem mem_of_mem_foldl_insert {l : List (String × α)} {t : Table α} {p : String × α}
    (h : p ∈ (l.foldl (fun t p => t.insert p.1 p.2) t).entries) : p ∈ l ∨ p ∈ t.entries := by
  induction l generalizing t with
  | nil => exact .inr h
  | cons q l ih =>
    rcases ih h with h | h
    · exact .inl (List.mem_cons_of_mem _ h)
    · exact (mem_put h).imp (fun (e : p = q) => e ▸ List.mem_cons_self) id

theorem mem_of_mem_ofList {l : List (String × α)} {p : String × α}
    (h : p ∈ (ofList l).entries) : p ∈ l :=
  (mem_of_mem_foldl_insert h).resolve_right List.not_mem_nil

theorem mem_of_find {name : String} {l : List (String × α)} {value : α}
    (h : find name l = some value) : (name, value) ∈ l := by
  induction l with
  | nil => cases h
  | cons p l ih =>
    rw [find] at h
    split at h
    · next hn => exact Option.some.inj h ▸ hn ▸ List.mem_cons_self
    · exact List.mem_cons_of_mem _ (ih h)

theorem isEmpty_eq_false_iff (t : Table α) :
    t.isEmpty = false ↔ ∃ name, t.contains name = true := by
  simp only [← mem_names_iff, names, List.mem_map]
  rw [isEmpty, List.isEmpty_eq_false_iff_exists_mem]
  constructor
  · rintro ⟨p, hp⟩
    exact ⟨p.1, p, hp, rfl⟩
  · rintro ⟨-, p, hp, -⟩
    exact ⟨p, hp⟩

theorem find_map (f : α → β) (name : String) (l : List (String × α)) :
    find name (l.map fun p => (p.1, f p.2)) = (find name l).map f := by
  induction l with
  | nil => rfl
  | cons p l ih =>
    simp only [List.map_cons, find, ih]
    split <;> rfl

@[simp] theorem get?_map (f : α → β) (t : Table α) (name : String) :
    (t.map f).get? name = (t.get? name).map f :=
  find_map f name t.entries

@[simp] theorem contains_map (f : α → β) (t : Table α) (name : String) :
    (t.map f).contains name = t.contains name := by
  simp [contains]

theorem contains_insert (t : Table α) (name other : String) (value : α) :
    (t.insert name value).contains other = (decide (name = other) || t.contains other) := by
  rw [contains, get?_insert, contains]
  split
  · next h => simp [h]
  · next h => simp [h]

theorem contains_erase (t : Table α) (name other : String) :
    (t.erase name).contains other = (decide (other ≠ name) && t.contains other) := by
  rw [contains, get?_erase, contains]
  split
  · next h => simp [h]
  · next h => simp [h]

theorem map_insert (f : α → β) (t : Table α) (name : String) (value : α) :
    (t.insert name value).map f = (t.map f).insert name (f value) := by
  apply ext
  intro other
  simp only [get?_map, get?_insert]
  split <;> rfl

theorem map_insert_of_get? {f : α → β} {t : Table α} {name : String} {old value : α}
    (h : t.get? name = some old) (hf : f value = f old) : (t.insert name value).map f = t.map f := by
  apply ext
  intro other
  simp only [get?_map, get?_insert]
  split
  · next he =>
    subst he
    rw [h, Option.map_some, Option.map_some, hf]
  · rfl

theorem insert_of_get? {t : Table α} {name : String} {value : α} (h : t.get? name = some value) :
    t.insert name value = t := by
  apply ext
  intro other
  rw [get?_insert]
  split
  · next he => rw [← he, h]
  · rfl

theorem map_filter (f : α → β) (t : Table α) (keep : String → Bool) :
    (t.filter fun name _ => keep name).map f = (t.map f).filter fun name _ => keep name := by
  apply ext
  intro name
  simp only [get?_map, get?_filter]
  cases t.get? name with
  | none => rfl
  | some value => cases keep name <;> simp [Option.filter]

theorem map_erase (f : α → β) (t : Table α) (name : String) :
    (t.erase name).map f = (t.map f).erase name :=
  map_filter f t fun n => n != name

theorem map_map {γ : Type} (g : β → γ) (f : α → β) (t : Table α) :
    (t.map f).map g = t.map fun a => g (f a) := by
  apply ext
  intro name
  simp only [get?_map, Option.map_map]
  rfl

theorem get?_erase_of_ne {t : Table α} {name other : String} (h : other ≠ name) :
    (t.erase name).get? other = t.get? other := by
  rw [get?_erase, if_neg h]

theorem get?_insert_of_ne {t : Table α} {name other : String} {value : α} (h : other ≠ name) :
    (t.insert name value).get? other = t.get? other := by
  rw [get?_insert, if_neg (Ne.symm h)]

theorem filter_congr {t : Table α} {keep keep' : String → α → Bool}
    (h : ∀ name value, t.get? name = some value → keep name value = keep' name value) :
    t.filter keep = t.filter keep' := by
  simp only [filter, mk.injEq]
  exact List.filter_congr fun p hp => h p.1 p.2 ((get?_eq_some_iff _ _ _).2 hp)

theorem size_filter_add (t : Table α) (keep : String → α → Bool) :
    (t.filter keep).size + (t.filter fun name value => !keep name value).size = t.size := by
  have h := List.length_eq_countP_add_countP (fun p : String × α => keep p.1 p.2) (l := t.entries)
  simp only [List.countP_eq_length_filter, Bool.not_eq_true, Bool.decide_eq_false] at h
  exact h.symm

theorem filter_filter (t : Table α) (keep keep' : String → α → Bool) :
    (t.filter keep).filter keep' = t.filter fun name value => keep name value && keep' name value := by
  apply ext
  intro name
  rw [get?_filter, get?_filter, get?_filter, Option.filter_filter]

/-- Of an entry that is not kept, the earlier one of its name is not kept either. -/
theorem filter_insert (t : Table α) (keep : String → α → Bool) (name : String) (value : α) :
    (t.insert name value).filter keep =
      if keep name value then (t.filter keep).insert name value else (t.filter keep).erase name := by
  apply ext
  intro other
  rw [get?_filter, get?_insert]
  by_cases he : name = other
  · subst he
    cases hk : keep name value <;> simp [get?_erase, Option.filter, hk]
  · cases hk : keep name value <;> simp [get?_insert, get?_erase, get?_filter, he, Ne.symm he]

theorem filter_erase (t : Table α) (keep : String → α → Bool) (name : String) :
    (t.erase name).filter keep = (t.filter keep).erase name := by
  apply ext
  intro other
  rw [get?_filter, get?_erase, get?_erase, get?_filter]
  split <;> rfl

theorem nodup_names (t : Table α) : t.names.Nodup :=
  List.pairwise_map.2 (t.ascending.imp fun h => String.ne_of_lt h)

theorem names_map (f : α → β) (t : Table α) : (t.map f).names = t.names :=
  List.map_map

end SessionVault.Table
