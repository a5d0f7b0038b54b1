/-!
Finite maps from names to values.  The entries are kept in ascending order of the names, so that
two tables with the same content are the same table, and listing one gives the sorted order.
-/

namespace SessionVault

/-- One value a name, the names in ascending code point order. -/
structure Table (α : Type) where
  entries : List (String × α)
  ascending : entries.Pairwise fun a b => a.1 < b.1

namespace Table

variable {α β : Type}

def empty : Table α := ⟨[], .nil⟩

instance : EmptyCollection (Table α) := ⟨empty⟩
instance : Inhabited (Table α) := ⟨empty⟩

def find (name : String) : List (String × α) → Option α
  | [] => none
  | (n, v) :: rest => if n = name then some v else find name rest

def put (name : String) (value : α) : List (String × α) → List (String × α)
  | [] => [(name, value)]
  | (n, v) :: rest =>
    if name < n then (name, value) :: (n, v) :: rest
    else if name = n then (name, value) :: rest
    else (n, v) :: put name value rest

theorem mem_put {name : String} {value : α} {l : List (String × α)} {p : String × α}
    (h : p ∈ put name value l) : p = (name, value) ∨ p ∈ l := by
  induction l with
  | nil => simpa [put] using h
  | cons q rest ih =>
    simp only [put] at h
    split at h
    · simpa using h
    split at h
    · rcases List.mem_cons.1 h with h | h
      · exact .inl h
      · exact .inr (List.mem_cons_of_mem _ h)
    · rcases List.mem_cons.1 h with h | h
      · exact .inr (h ▸ List.mem_cons_self)
      · exact (ih h).imp id (List.mem_cons_of_mem _)

theorem put_ascending (name : String) (value : α) {l : List (String × α)}
    (h : l.Pairwise fun a b => a.1 < b.1) : (put name value l).Pairwise fun a b => a.1 < b.1 := by
  induction l with
  | nil => simp [put]
  | cons q rest ih =>
    obtain ⟨n, v⟩ := q
    rw [List.pairwise_cons] at h
    simp only [put]
    split
    · next hlt =>
      refine List.pairwise_cons.2 ⟨fun p hp => ?_, List.pairwise_cons.2 h⟩
      rcases List.mem_cons.1 hp with rfl | hp
      · exact hlt
      · exact String.lt_trans hlt (h.1 p hp)
    split
    · next heq => exact List.pairwise_cons.2 ⟨fun p hp => heq ▸ h.1 p hp, h.2⟩
    · next hlt hne =>
      refine List.pairwise_cons.2 ⟨fun p hp => ?_, ih h.2⟩
      rcases mem_put hp with rfl | hp
      · rcases Std.lt_trichotomy name n with hl | he | hg
        · exact absurd hl hlt
        · exact absurd he hne
        · exact hg
      · exact h.1 p hp

def get? (t : Table α) (name : String) : Option α := find name t.entries

def contains (t : Table α) (name : String) : Bool := (t.get? name).isSome

def insert (t : Table α) (name : String) (value : α) : Table α :=
  ⟨put name value t.entries, put_ascending name value t.ascending⟩

def filter (t : Table α) (keep : String → α → Bool) : Table α :=
  ⟨t.entries.filter fun p => keep p.1 p.2, t.ascending.filter _⟩

def erase (t : Table α) (name : String) : Table α := t.filter fun n _ => n != name

def map (f : α → β) (t : Table α) : Table β :=
  ⟨t.entries.map fun p => (p.1, f p.2), by
    rw [List.pairwise_map]
    exact t.ascending⟩

def names (t : Table α) : List String := t.entries.map (·.1)

def size (t : Table α) : Nat := t.entries.length

def isEmpty (t : Table α) : Bool := t.entries.isEmpty

def ofList (l : List (String × α)) : Table α := l.foldl (fun t p => t.insert p.1 p.2) empty

theorem find_put (name other : String) (value : α) (l : List (String × α)) :
    find other (put name value l) = if name = other then some value else find other l := by
  induction l with
  | nil => simp [put, find]
  | cons q rest ih =>
    obtain ⟨n, v⟩ := q
    simp only [put]
    split
    · simp [find]
    split
    · next h => subst h; simp only [find]; split <;> rfl
    · next hne =>
      simp only [find, ih]
      by_cases h1 : n = other
      · subst h1; simp [hne]
      · simp [h1]

@[simp] theorem get?_empty (name : String) : (empty : Table α).get? name = none := rfl

theorem get?_insert (t : Table α) (name other : String) (value : α) :
    (t.insert name value).get? other = if name = other then some value else t.get? other :=
  find_put name other value t.entries

@[simp] theorem get?_insert_self (t : Table α) (name : String) (value : α) :
    (t.insert name value).get? name = some value := by simp [get?_insert]

theorem find_eq_none_of_lt {name : String} {l : List (String × α)}
    (h : ∀ p ∈ l, name < p.1) : find name l = none := by
  induction l with
  | nil => rfl
  | cons q rest ih =>
    have hq := h q List.mem_cons_self
    have : q.1 ≠ name := fun e => String.lt_irrefl name (e ▸ hq)
    simp [find, this, ih fun p hp => h p (List.mem_cons_of_mem _ hp)]

theorem find_eq_some_iff {l : List (String × α)} (hl : l.Pairwise fun a b => a.1 < b.1)
    (name : String) (value : α) : find name l = some value ↔ (name, value) ∈ l := by
  induction l with
  | nil => simp [find]
  | cons q rest ih =>
    obtain ⟨n, v⟩ := q
    rw [List.pairwise_cons] at hl
    simp only [find, List.mem_cons, Prod.mk.injEq]
    split
    · next h =>
      subst h
      refine ⟨fun e => .inl ⟨rfl, (Option.some.inj e).symm⟩, fun e => ?_⟩
      rcases e with ⟨_, rfl⟩ | e
      · rfl
      · exact absurd (hl.1 _ e) (String.lt_irrefl n)
    · next h =>
      rw [ih hl.2]
      exact ⟨.inr, fun e => e.resolve_left fun e => h e.1.symm⟩

theorem get?_eq_some_iff (t : Table α) (name : String) (value : α) :
    t.get? name = some value ↔ (name, value) ∈ t.entries :=
  find_eq_some_iff t.ascending name value

theorem get?_filter (t : Table α) (keep : String → α → Bool) (name : String) :
    (t.filter keep).get? name = (t.get? name).filter (keep name) := by
  apply Option.ext
  intro v
  rw [get?_eq_some_iff, Option.filter_eq_some_iff, get?_eq_some_iff]
  simp [filter]

theorem get?_erase (t : Table α) (name other : String) :
    (t.erase name).get? other = if other = name then none else t.get? other := by
  rw [erase, get?_filter]
  by_cases h : other = name <;> cases t.get? other <;> simp [h]

theorem mem_names_iff (t : Table α) (name : String) : name ∈ t.names ↔ t.contains name = true := by
  simp only [names, contains, List.mem_map, Option.isSome_iff_exists, get?_eq_some_iff]
  exact ⟨fun ⟨p, hp, e⟩ => ⟨p.2, e ▸ hp⟩, fun ⟨v, hv⟩ => ⟨_, hv, rfl⟩⟩

theorem entries_ext {l m : List (String × α)} (hl : l.Pairwise fun a b => a.1 < b.1)
    (hm : m.Pairwise fun a b => a.1 < b.1) (h : ∀ p, p ∈ l ↔ p ∈ m) : l = m := by
  induction l generalizing m with
  | nil =>
    cases m with
    | nil => rfl
    | cons q m => exact absurd ((h q).2 List.mem_cons_self) List.not_mem_nil
  | cons p l ih =>
    cases m with
    | nil => exact absurd ((h p).1 List.mem_cons_self) List.not_mem_nil
    | cons q m =>
      rw [List.pairwise_cons] at hl hm
      have hpq : p = q := by
        rcases List.mem_cons.1 ((h p).1 List.mem_cons_self) with e | hp
        · exact e
        rcases List.mem_cons.1 ((h q).2 List.mem_cons_self) with e | hq
        · exact e.symm
        exact absurd (String.lt_trans (hl.1 q hq) (hm.1 p hp)) (String.lt_irrefl _)
      subst hpq
      congr 1
      refine ih hl.2 hm.2 fun r => ⟨fun hr => ?_, fun hr => ?_⟩
      · rcases List.mem_cons.1 ((h r).1 (List.mem_cons_of_mem _ hr)) with e | hr'
        · exact absurd (e ▸ hl.1 r hr) (String.lt_irrefl _)
        · exact hr'
      · rcases List.mem_cons.1 ((h r).2 (List.mem_cons_of_mem _ hr)) with e | hr'
        · exact absurd (e ▸ hm.1 r hr) (String.lt_irrefl _)
        · exact hr'

theorem ext {t u : Table α} (h : ∀ name, t.get? name = u.get? name) : t = u := by
  obtain ⟨l, hl⟩ := t
  obtain ⟨m, hm⟩ := u
  have : l = m := entries_ext hl hm fun p => by
    have hp := congrArg (· = some p.2) (h p.1)
    simpa [get?_eq_some_iff] using hp
  subst this
  rfl

instance [DecidableEq α] : DecidableEq (Table α) := fun t u =>
  decidable_of_iff (t.entries = u.entries) ⟨fun h => by cases t; cases u; cases h; rfl, congrArg _⟩

end Table

abbrev Names := Table Unit

def Names.ofList (l : List String) : Names := Table.ofList (l.map fun name => (name, ()))

end SessionVault
