import SessionVault.Json.Reader
import SessionVault.Proofs.Table

namespace SessionVault.Json

theorem depthItems_le_iff {items : List Json} {n : Nat} :
    depthItems items ≤ n ↔ ∀ v ∈ items, v.depth ≤ n := by
  induction items with
  | nil => simp [depthItems]
  | cons v rest ih => rw [depthItems, Nat.max_le, ih, List.forall_mem_cons]

theorem depthFields_le_iff {fields : List (String × Json)} {n : Nat} :
    depthFields fields ≤ n ↔ ∀ p ∈ fields, p.2.depth ≤ n := by
  induction fields with
  | nil => simp [depthFields]
  | cons p rest ih => rw [depthFields, Nat.max_le, ih, List.forall_mem_cons]

theorem depth_le_of_field? {fields : List (String × Json)} {name : String} {v : Json}
    (h : field? name fields = some v) : v.depth ≤ depthFields fields := by
  induction fields with
  | nil => cases h
  | cons p rest ih =>
    rw [field?, Option.or_eq_some_iff] at h
    rw [depthFields]
    rcases h with h | ⟨-, h⟩
    · exact Nat.le_trans (ih h) (Nat.le_max_right _ _)
    · split at h
      · exact Option.some.inj h ▸ Nat.le_max_left _ _
      · cases h

mutual

theorem depth_sorted_le : (v : Json) → v.sorted.depth ≤ v.depth
  | .array items => Nat.add_le_add_left (depthItems_sorted_le items) 1
  | .object fields => by
    refine Nat.add_le_add_left ?_ 1
    have h := depthFields_le_iff.1 (depthFields_sorted_le fields)
    exact depthFields_le_iff.2 fun p hp => h p (Table.mem_of_mem_ofList hp)
  | .null | .bool _ | .number _ | .string _ => Nat.le_refl 0

theorem depthItems_sorted_le : (items : List Json) → depthItems (sortedItems items) ≤ depthItems items
  | [] => Nat.le_refl 0
  | v :: rest => by
    have h := depth_sorted_le v
    have hr := depthItems_sorted_le rest
    simp only [sortedItems, depthItems]
    omega

theorem depthFields_sorted_le :
    (fields : List (String × Json)) → depthFields (sortedFields fields) ≤ depthFields fields
  | [] => Nat.le_refl 0
  | (_, v) :: rest => by
    have h := depth_sorted_le v
    have hr := depthFields_sorted_le rest
    simp only [sortedFields, depthFields]
    omega

end

mutual

/-- Nothing that a reader of the shape keeps is read by the bare grammar. -/
def Shape.Measured : Shape → Prop
  | .any => True
  | .ignored => False
  | .record fields => Shape.MeasuredFields fields
  | .table entry => entry.Measured

def Shape.MeasuredFields : List (String × Shape) → Prop
  | [] => True
  | (_, s) :: rest => s.Measured ∧ Shape.MeasuredFields rest

end

theorem Shape.measured_of_mem {fields : List (String × Shape)} (h : Shape.MeasuredFields fields)
    {p : String × Shape} (hp : p ∈ fields) : p.2.Measured := by
  induction fields with
  | nil => cases hp
  | cons q rest ih =>
    rcases List.mem_cons.1 hp with rfl | hp
    · exact h.1
    · exact ih h.2 hp

section Reading

variable {fuel depth i : Nat} {shape s : Shape} {input rest : Octets} {name : String} {v : Json}

theorem Shape.Measured.field? (h : shape.Measured) (hs : shape.field? name = some s) :
    s.Measured := by
  cases shape with
  | any => exact Option.some.inj hs ▸ trivial
  | ignored => exact h.elim
  | record fields => exact Shape.measured_of_mem h (Table.mem_of_find hs)
  | table entry => exact Option.some.inj hs ▸ h

theorem Shape.Measured.item? (h : shape.Measured) (hs : shape.item? i = some s) : s.Measured := by
  cases shape with
  | any => exact Option.some.inj hs ▸ trivial
  | ignored => exact h.elim
  | record fields =>
    obtain ⟨p, hp, rfl⟩ := Option.map_eq_some_iff.1 hs
    exact Shape.measured_of_mem h (List.mem_of_getElem? hp)
  | table entry => cases hs

theorem Shape.Measured.enter {inner : Nat} (h : shape.Measured) (he : shape.enter depth = some inner) :
    depth = inner + 1 := by
  cases depth with
  | zero =>
    cases shape with
    | ignored => exact h.elim
    | any | record | table => cases he
  | succ depth =>
    cases shape with
    | ignored => exact h.elim
    | any | record | table => exact congrArg (· + 1) (Option.some.inj he)

theorem depth_literal {word : List Char} {w : Json} (hw : w.depth = 0)
    (h : literal word w input = some (v, rest)) : v.depth = 0 := by
  rw [literal] at h
  split at h
  · cases h
    exact hw
  · cases h

theorem depth_readString (h : readString shape input = some (v, rest)) : v.depth = 0 := by
  unfold readString at h
  split at h
  all_goals
    obtain ⟨p, -, hp⟩ := Option.map_eq_some_iff.1 h
    cases hp
    rfl

theorem depth_readNumber (h : readNumber shape input = some (v, rest)) : v.depth = 0 := by
  obtain ⟨⟨numeral, rest'⟩, -, h⟩ := Option.bind_eq_some_iff.1 h
  dsimp only at h
  split at h
  · cases h
    rfl
  · obtain ⟨n, -, hn⟩ := Option.bind_eq_some_iff.1 h
    cases hn
    rfl

end Reading

mutual

theorem depth_readValue_le : (fuel depth : Nat) → (shape : Shape) → shape.Measured →
    (input : Octets) → {v : Json} → {rest : Octets} →
    readValue fuel depth shape input = some (v, rest) → v.depth ≤ depth
  | 0, _, _, _, _, _, _, h => by
    rw [readValue] at h
    cases h
  | fuel + 1, depth, shape, hs, input, v, rest, h => by
    rw [readValue] at h
    split at h
    · split at h
      · split at h
        · cases h
        · next inner he =>
          have hd := hs.enter he
          split at h
          · cases h
            simp [Json.depth, depthItems]
            omega
          · obtain ⟨p, hp, he⟩ := Option.map_eq_some_iff.1 h
            cases he
            have := depth_readItems_le fuel inner shape hs 0 _ hp
            simp only [Json.depth]
            omega
      · cases h
    · split at h
      · cases h
      · next inner he =>
        have hd := hs.enter he
        split at h
        · cases h
          simp [Json.depth, depthFields]
          omega
        · obtain ⟨p, hp, he⟩ := Option.map_eq_some_iff.1 h
          cases he
          have := depth_readFields_le fuel inner shape hs _ hp
          simp only [Json.depth]
          omega
    · have h0 : v.depth = 0 := by
        split at h
        · split at h
          · exact depth_readString h
          · exact depth_literal rfl h
          · exact depth_literal rfl h
          · exact depth_literal rfl h
          · exact depth_readNumber h
        · cases h
      omega
termination_by structural fuel => fuel

theorem depth_readItems_le : (fuel depth : Nat) → (shape : Shape) → shape.Measured → (i : Nat) →
    (input : Octets) → {items : List Json} → {rest : Octets} →
    readItems fuel depth shape i input = some (items, rest) → depthItems items ≤ depth
  | 0, _, _, _, _, _, _, _, h => by
    rw [readItems] at h
    cases h
  | fuel + 1, depth, shape, hs, i, input, items, rest, h => by
    rw [readItems] at h
    split at h
    · cases h
    · next s hi =>
      split at h
      · cases h
      · next v rest' hv =>
        have hd := depth_readValue_le fuel depth s (hs.item? hi) input hv
        split at h
        · obtain ⟨p, hp, he⟩ := Option.map_eq_some_iff.1 h
          cases he
          have := depth_readItems_le fuel depth shape hs (i + 1) _ hp
          exact Nat.max_le.2 ⟨hd, this⟩
        · cases h
          exact Nat.max_le.2 ⟨hd, Nat.zero_le _⟩
        · cases h

theorem depth_readFields_le : (fuel depth : Nat) → (shape : Shape) → shape.Measured →
    (input : Octets) → {fields : List (String × Json)} → {rest : Octets} →
    readFields fuel depth shape input = some (fields, rest) → depthFields fields ≤ depth
  | 0, _, _, _, _, _, _, h => by
    rw [readFields] at h
    cases h
  | fuel + 1, depth, shape, hs, input, fields, rest, h => by
    rw [readFields] at h
    split at h
    · cases h
    · next name rest' hn =>
      split at h
      · cases h
      · next v rest'' hv =>
        have hkept : depthFields (if (shape.field? name).isSome then [(name, v)] else []) ≤ depth := by
          cases hf : shape.field? name with
          | none => exact Nat.zero_le _
          | some s =>
            rw [hf] at hv
            have hd := depth_readValue_le fuel depth s (hs.field? hf) _ hv
            exact Nat.max_le.2 ⟨hd, Nat.zero_le _⟩
        dsimp only at h
        split at h
        · obtain ⟨p, hp, he⟩ := Option.map_eq_some_iff.1 h
          cases he
          have := depth_readFields_le fuel depth shape hs _ hp
          rw [depthFields_le_iff] at *
          exact fun q hq => (List.mem_append.1 hq).elim (hkept q) (this q)
        · cases h
          exact hkept
        · cases h

end

theorem depth_readAs_le {shape : Shape} (hs : shape.Measured) {input : Octets} {v : Json}
    (h : readAs shape input = some v) : v.depth ≤ maxDepth := by
  rw [readAs] at h
  split at h
  · next w rest hw =>
    split at h
    · cases h
      exact depth_readValue_le _ _ shape hs input hw
    · cases h
  · cases h

end SessionVault.Json
