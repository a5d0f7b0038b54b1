import SessionVault.Json.Printer
import SessionVault.Json.Reader
import SessionVault.Proofs.Json.Numeral
import SessionVault.Proofs.Json.Quoted

namespace SessionVault.Json

def Number.Legible : Number → Prop
  | .whole _ _ => True
  | .real x h => (real x h).ReadsBack

theorem Number.Legible.readsBack {n : Number} (h : n.Legible) : n.ReadsBack := by
  cases n with
  | whole n hn => exact readsBack_whole n hn
  | real x hx => exact h

mutual

def Legible : Json → Prop
  | .number n => n.Legible
  | .array items => LegibleItems items
  | .object fields => LegibleFields fields
  | .null | .bool _ | .string _ => True

def LegibleItems : List Json → Prop
  | [] => True
  | v :: rest => v.Legible ∧ LegibleItems rest

def LegibleFields : List (String × Json) → Prop
  | [] => True
  | (_, v) :: rest => v.Legible ∧ LegibleFields rest

end

instance (n : Number) : Decidable n.Legible :=
  match n with
  | .whole _ _ => .isTrue trivial
  | .real x h => inferInstanceAs (Decidable (Number.real x h).ReadsBack)

mutual

def decideLegible : (v : Json) → Decidable v.Legible
  | .number n => inferInstanceAs (Decidable n.Legible)
  | .array items => decideLegibleItems items
  | .object fields => decideLegibleFields fields
  | .null | .bool _ | .string _ => .isTrue trivial

def decideLegibleItems : (items : List Json) → Decidable (LegibleItems items)
  | [] => .isTrue trivial
  | v :: rest => @instDecidableAnd _ _ (decideLegible v) (decideLegibleItems rest)

def decideLegibleFields : (fields : List (String × Json)) → Decidable (LegibleFields fields)
  | [] => .isTrue trivial
  | (_, v) :: rest => @instDecidableAnd _ _ (decideLegible v) (decideLegibleFields rest)

end

instance (v : Json) : Decidable v.Legible := decideLegible v

mutual

/-- A reader of the shape keeps all of the value. -/
def Shape.Admits (shape : Shape) : Json → Prop
  | .object fields => shape ≠ .ignored ∧ shape.AdmitsFields fields
  | .array _ | .null | .bool _ | .number _ | .string _ => shape = .any

def Shape.AdmitsFields (shape : Shape) : List (String × Json) → Prop
  | [] => True
  | (name, v) :: rest => (∃ s, shape.field? name = some s ∧ s.Admits v) ∧ shape.AdmitsFields rest

end

mutual

theorem Shape.admits_any : (v : Json) → Shape.any.Admits v
  | .object fields => ⟨nofun, Shape.admitsFields_any fields⟩
  | .array _ | .null | .bool _ | .number _ | .string _ => rfl

theorem Shape.admitsFields_any : (fields : List (String × Json)) → Shape.any.AdmitsFields fields
  | [] => trivial
  | (_, v) :: rest => ⟨⟨.any, rfl, Shape.admits_any v⟩, Shape.admitsFields_any rest⟩

end

theorem skipBlanks_cons {b : UInt8} (h : isBlankOctet b = false) (rest : Octets) :
    skipBlanks (b :: rest) = b :: rest := by
  simp [skipBlanks, h]

theorem readName_quoted {shape : Shape} (h : shape ≠ .ignored) (name : String) (rest : Octets) :
    readName shape (quoted name ++ 0x3A :: rest) = some (name, rest) := by
  rw [quoted_eq]
  unfold readName
  rw [skipBlanks_cons (by decide)]
  cases shape with
  | ignored => exact absurd rfl h
  | any => simp [readQuoted_escaped, skipBlanks, isBlankOctet]
  | record fields => simp [readQuoted_escaped, skipBlanks, isBlankOctet]
  | table entry => simp [readQuoted_escaped, skipBlanks, isBlankOctet]

theorem literal_append (word : List Char) (v : Json) (rest : Octets) :
    literal word v (Octets.ascii word ++ rest) = some (v, rest) := by
  have h : (Octets.ascii word).length = word.length := by simp [Octets.ascii]
  simp [literal, ← h]

theorem readNumber_text {n : Number} (hn : n.ReadsBack) {rest : Octets} (h : EndsNumber rest) :
    readNumber .any (Octets.ascii n.text ++ rest) = some (.number n, rest) := by
  obtain ⟨s, hs, hv⟩ := hn.scan
  simp [readNumber, Numeral.scan_append h hs, hv]

theorem number_head {b : UInt8} (h : isDigitOctet b = true ∨ b = 0x2D) :
    isBlankOctet b = false ∧ b ≠ 0x5B ∧ b ≠ 0x7B ∧ b ≠ 0x22 ∧ b ≠ 0x6E ∧ b ≠ 0x74 ∧ b ≠ 0x66 := by
  refine ⟨?_, ?_, ?_, ?_, ?_, ?_, ?_⟩
  · unfold isBlankOctet
    split
    all_goals first | rfl | (revert h; decide)
  all_goals
    rintro rfl
    revert h
    decide

theorem readValue_number {n : Number} (hn : n.ReadsBack) {rest : Octets} (h : EndsNumber rest)
    (fuel depth : Nat) :
    readValue (fuel + 1) depth .any (Octets.ascii n.text ++ rest) = some (.number n, rest) := by
  have hr := readNumber_text hn h
  obtain ⟨s, hs, _⟩ := hn.scan
  obtain ⟨b, t, ht, hb⟩ := head_of_scan hs
  obtain ⟨hblank, hne⟩ := number_head hb
  rw [ht, List.cons_append] at hr ⊢
  rw [readValue, skipBlanks_cons hblank]
  simp [Shape.takesScalar, hne, hr]

theorem readValue_string (s : String) (rest : Octets) (fuel depth : Nat) :
    readValue (fuel + 1) depth .any (quoted s ++ rest) = some (.string s, rest) := by
  rw [quoted_eq, readValue, skipBlanks_cons (by decide)]
  simp [Shape.takesScalar, readString, readQuoted_escaped]

theorem readValue_literal {word : List Char} {v : Json}
    (h : (word, v) ∈ [(['n', 'u', 'l', 'l'], Json.null), (['t', 'r', 'u', 'e'], .bool true),
      (['f', 'a', 'l', 's', 'e'], .bool false)]) (rest : Octets) (fuel depth : Nat) :
    readValue (fuel + 1) depth .any (Octets.ascii word ++ rest) = some (v, rest) := by
  have hl := literal_append word v rest
  simp only [List.mem_cons, List.not_mem_nil, or_false, Prod.mk.injEq] at h
  rcases h with ⟨rfl, rfl⟩ | ⟨rfl, rfl⟩ | ⟨rfl, rfl⟩
  all_goals
    simp only [Octets.ascii, List.map_cons, List.cons_append] at hl ⊢
    rw [readValue, skipBlanks_cons (by decide)]
    simpa [Shape.takesScalar] using hl

theorem print_head {v : Json} (hv : v.Legible) :
    ∃ b t, v.print = b :: t ∧ isBlankOctet b = false ∧ b ≠ 0x5D := by
  cases v with
  | null => exact ⟨_, _, rfl, by decide, by decide⟩
  | bool b => cases b <;> exact ⟨_, _, rfl, by decide, by decide⟩
  | number n =>
    obtain ⟨s, hs, _⟩ := hv.readsBack.scan
    obtain ⟨b, t, ht, hb⟩ := head_of_scan hs
    refine ⟨b, t, ht, (number_head hb).1, ?_⟩
    rintro rfl
    revert hb
    decide
  | string s => exact ⟨_, _, rfl, by decide, by decide⟩
  | array items => exact ⟨_, _, rfl, by decide, by decide⟩
  | object fields => exact ⟨_, _, rfl, by decide, by decide⟩

theorem Shape.enter_succ {shape : Shape} (h : shape ≠ .ignored) (depth : Nat) :
    shape.enter (depth + 1) = some depth := by
  cases shape with
  | ignored => exact absurd rfl h
  | any => rfl
  | record fields => rfl
  | table entry => rfl

theorem Shape.enter_zero {shape : Shape} (h : shape ≠ .ignored) : shape.enter 0 = none := by
  cases shape with
  | ignored => exact absurd rfl h
  | any => rfl
  | record fields => rfl
  | table entry => rfl

theorem printItems_cons_cons (v w : Json) (items : List Json) :
    printItems (v :: w :: items) = v.print ++ 0x2C :: printItems (w :: items) := rfl

theorem printFields_cons_cons (name : String) (v : Json) (p : String × Json)
    (fields : List (String × Json)) :
    printFields ((name, v) :: p :: fields) =
      quoted name ++ 0x3A :: (v.print ++ 0x2C :: printFields (p :: fields)) := by
  simp [printFields]

theorem readValue_array_nil (fuel depth : Nat) (rest : Octets) :
    readValue (fuel + 1) (depth + 1) .any ((Json.array []).print ++ rest) =
      some (.array [], rest) := by
  simp only [print, printItems, List.cons_append, List.nil_append]
  rw [readValue, skipBlanks_cons (by decide)]
  simp [Shape.takesArray, Shape.enter, skipBlanks_cons (b := 0x5D) (by decide)]

theorem readValue_array {v : Json} (hv : v.Legible) (items : List Json) (fuel depth : Nat)
    (rest : Octets) :
    readValue (fuel + 1) (depth + 1) .any ((Json.array (v :: items)).print ++ rest) =
      (readItems fuel depth .any 0 (printItems (v :: items) ++ 0x5D :: rest)).map
        fun p => (.array p.1, p.2) := by
  obtain ⟨b, t, ht, hb, hne⟩ := print_head hv
  have hp : ∃ u, printItems (v :: items) = b :: u := by
    cases items with
    | nil => exact ⟨t, ht⟩
    | cons w items => exact ⟨_, by rw [printItems_cons_cons, ht]; rfl⟩
  obtain ⟨u, hu⟩ := hp
  simp only [print, hu, List.cons_append, List.append_assoc, List.nil_append]
  rw [readValue, skipBlanks_cons (by decide)]
  simp [Shape.takesArray, Shape.enter, skipBlanks_cons hb, hne]

theorem readValue_object_nil {shape : Shape} (hs : shape ≠ .ignored) (fuel depth : Nat)
    (rest : Octets) :
    readValue (fuel + 1) (depth + 1) shape ((Json.object []).print ++ rest) =
      some (.object [], rest) := by
  simp only [print, printFields, List.cons_append, List.nil_append]
  rw [readValue, skipBlanks_cons (by decide)]
  simp [Shape.enter_succ hs, skipBlanks_cons (b := 0x7D) (by decide)]

theorem readValue_object {shape : Shape} (hs : shape ≠ .ignored) (p : String × Json)
    (fields : List (String × Json)) (fuel depth : Nat) (rest : Octets) :
    readValue (fuel + 1) (depth + 1) shape ((Json.object (p :: fields)).print ++ rest) =
      (readFields fuel depth shape (printFields (p :: fields) ++ 0x7D :: rest)).map
        fun p => (.object p.1, p.2) := by
  have hp : ∃ u, printFields (p :: fields) = 0x22 :: u := by
    cases fields with
    | nil => exact ⟨_, rfl⟩
    | cons q fields => exact ⟨_, rfl⟩
  obtain ⟨u, hu⟩ := hp
  simp only [print, hu, List.cons_append, List.append_assoc, List.nil_append]
  rw [readValue, skipBlanks_cons (by decide)]
  simp [Shape.enter_succ hs, skipBlanks_cons (b := 0x22) (by decide)]

theorem readValue_zero_array (items : List Json) (fuel : Nat) (rest : Octets) :
    readValue (fuel + 1) 0 .any ((Json.array items).print ++ rest) = none := by
  simp only [print, List.cons_append]
  rw [readValue, skipBlanks_cons (by decide)]
  simp [Shape.takesArray, Shape.enter]

theorem readValue_zero_object {shape : Shape} (hs : shape ≠ .ignored)
    (fields : List (String × Json)) (fuel : Nat) (rest : Octets) :
    readValue (fuel + 1) 0 shape ((Json.object fields).print ++ rest) = none := by
  simp only [print, List.cons_append]
  rw [readValue, skipBlanks_cons (by decide)]
  simp [Shape.enter_zero hs]

section Steps

variable {fuel depth i : Nat} {shape s : Shape} {input rest : Octets} {name : String} {v : Json}

theorem readItems_none (h : readValue fuel depth .any input = none) :
    readItems (fuel + 1) depth .any i input = none := by
  simp [readItems, Shape.item?, h]

theorem readItems_last (h : readValue fuel depth .any input = some (v, 0x5D :: rest)) :
    readItems (fuel + 1) depth .any i input = some ([v], rest) := by
  simp [readItems, Shape.item?, h, skipBlanks_cons (b := 0x5D) (by decide)]

theorem readItems_more (h : readValue fuel depth .any input = some (v, 0x2C :: rest)) :
    readItems (fuel + 1) depth .any i input =
      (readItems fuel depth .any (i + 1) rest).map fun p => (v :: p.1, p.2) := by
  simp [readItems, Shape.item?, h, skipBlanks_cons (b := 0x2C) (by decide)]

theorem readFields_none (hi : shape ≠ .ignored) (hs : shape.field? name = some s)
    (h : readValue fuel depth s input = none) :
    readFields (fuel + 1) depth shape (quoted name ++ 0x3A :: input) = none := by
  simp [readFields, readName_quoted hi, hs, h]

theorem readFields_last (hi : shape ≠ .ignored) (hs : shape.field? name = some s)
    (h : readValue fuel depth s input = some (v, 0x7D :: rest)) :
    readFields (fuel + 1) depth shape (quoted name ++ 0x3A :: input) = some ([(name, v)], rest) := by
  simp [readFields, readName_quoted hi, hs, h, skipBlanks_cons (b := 0x7D) (by decide)]

theorem readFields_more (hi : shape ≠ .ignored) (hs : shape.field? name = some s)
    (h : readValue fuel depth s input = some (v, 0x2C :: rest)) :
    readFields (fuel + 1) depth shape (quoted name ++ 0x3A :: input) =
      (readFields fuel depth shape rest).map fun p => ((name, v) :: p.1, p.2) := by
  simp [readFields, readName_quoted hi, hs, h, skipBlanks_cons (b := 0x2C) (by decide)]

end Steps

theorem endsNumber_comma (rest : Octets) : EndsNumber (0x2C :: rest) := by
  simp [EndsNumber, isDigitOctet]

theorem endsNumber_bracket (rest : Octets) : EndsNumber (0x5D :: rest) := by
  simp [EndsNumber, isDigitOctet]

theorem endsNumber_brace (rest : Octets) : EndsNumber (0x7D :: rest) := by
  simp [EndsNumber, isDigitOctet]

mutual

theorem readValue_print : (v : Json) → v.Legible → (shape : Shape) → shape.Admits v →
    (rest : Octets) → EndsNumber rest → (fuel : Nat) → 2 * v.print.length ≤ fuel → (depth : Nat) →
    readValue fuel depth shape (v.print ++ rest) =
      if v.depth ≤ depth then some (v, rest) else none
  | v, hv, _, _, _, _, 0, hf, _ => by
    obtain ⟨b, t, ht, _⟩ := print_head hv
    simp [ht] at hf
  | .null, _, _, rfl, rest, _, fuel + 1, _, depth => readValue_literal (by simp) rest fuel depth
  | .bool true, _, _, rfl, rest, _, fuel + 1, _, depth =>
    readValue_literal (by simp) rest fuel depth
  | .bool false, _, _, rfl, rest, _, fuel + 1, _, depth =>
    readValue_literal (by simp) rest fuel depth
  | .number n, hv, _, rfl, rest, hr, fuel + 1, _, depth => readValue_number hv.readsBack hr fuel depth
  | .string s, _, _, rfl, rest, _, fuel + 1, _, depth => readValue_string s rest fuel depth
  | .array items, _, _, rfl, rest, _, fuel + 1, _, 0 => by
    rw [readValue_zero_array, if_neg (by simp [Json.depth])]
  | .array [], _, _, rfl, rest, _, fuel + 1, _, depth + 1 => by
    rw [readValue_array_nil, if_pos (by simp [Json.depth, depthItems])]
  | .array (v :: items), hv, _, rfl, rest, _, fuel + 1, hf, depth + 1 => by
    have hi := readItems_print v items hv rest fuel (by simp [print] at hf; omega) depth 0
    rw [readValue_array hv.1, hi]
    simp only [Json.depth, Nat.add_comm 1, Nat.add_le_add_iff_right]
    split <;> rfl
  | .object fields, _, shape, hs, rest, _, fuel + 1, _, 0 => by
    rw [readValue_zero_object hs.1, if_neg (by simp [Json.depth])]
  | .object [], _, shape, hs, rest, _, fuel + 1, _, depth + 1 => by
    rw [readValue_object_nil hs.1, if_pos (by simp [Json.depth, depthFields])]
  | .object ((name, v) :: fields), hv, shape, hs, rest, _, fuel + 1, hf, depth + 1 => by
    have hi := readFields_print name v fields hv shape hs.1 hs.2 rest fuel
      (by simp [print] at hf; omega) depth
    rw [readValue_object hs.1, hi]
    simp only [Json.depth, Nat.add_comm 1, Nat.add_le_add_iff_right]
    split <;> rfl
termination_by structural _ _ _ _ _ _ fuel => fuel

theorem readItems_print : (v : Json) → (items : List Json) → LegibleItems (v :: items) →
    (rest : Octets) → (fuel : Nat) → 2 * (printItems (v :: items)).length + 1 ≤ fuel →
    (depth i : Nat) →
    readItems fuel depth .any i (printItems (v :: items) ++ 0x5D :: rest) =
      if depthItems (v :: items) ≤ depth then some (v :: items, rest) else none
  | _, _, _, _, 0, hf, _, _ => absurd hf (by simp)
  | v, [], hv, rest, fuel + 1, hf, depth, i => by
    have h := readValue_print v hv.1 .any (Shape.admits_any v) (0x5D :: rest)
      (endsNumber_bracket rest) fuel (by simp [printItems] at hf; omega) depth
    simp only [depthItems, Nat.max_zero]
    split at h
    · next hd => rw [printItems, readItems_last h, if_pos hd]
    · next hd => rw [printItems, readItems_none h, if_neg hd]
  | v, w :: items, hv, rest, fuel + 1, hf, depth, i => by
    rw [printItems_cons_cons] at hf ⊢
    rw [List.length_append, List.length_cons] at hf
    have h := readValue_print v hv.1 .any (Shape.admits_any v)
      (0x2C :: (printItems (w :: items) ++ 0x5D :: rest)) (endsNumber_comma _) fuel (by omega) depth
    have hi := readItems_print w items hv.2 rest fuel (by omega) depth (i + 1)
    rw [List.append_assoc, List.cons_append, depthItems]
    split at h
    · next hd =>
      rw [readItems_more h, hi]
      simp only [Nat.max_le, hd, true_and]
      split <;> rfl
    · next hd => rw [readItems_none h, if_neg fun hm => hd (Nat.max_le.1 hm).1]
termination_by structural _ _ _ _ fuel => fuel

theorem readFields_print : (name : String) → (v : Json) → (fields : List (String × Json)) →
    LegibleFields ((name, v) :: fields) → (shape : Shape) → shape ≠ .ignored →
    shape.AdmitsFields ((name, v) :: fields) →
    (rest : Octets) → (fuel : Nat) → 2 * (printFields ((name, v) :: fields)).length + 1 ≤ fuel →
    (depth : Nat) →
    readFields fuel depth shape (printFields ((name, v) :: fields) ++ 0x7D :: rest) =
      if depthFields ((name, v) :: fields) ≤ depth then some ((name, v) :: fields, rest) else none
  | _, _, _, _, _, _, _, _, 0, hf, _ => absurd hf (by simp)
  | name, v, [], hv, shape, hi, ⟨⟨s, hs, ha⟩, _⟩, rest, fuel + 1, hf, depth => by
    have h := readValue_print v hv.1 s ha (0x7D :: rest) (endsNumber_brace rest) fuel
      (by simp [printFields] at hf; omega) depth
    rw [printFields, List.append_assoc, List.cons_append]
    simp only [depthFields, Nat.max_zero]
    split at h
    · next hd => rw [readFields_last hi hs h, if_pos hd]
    · next hd => rw [readFields_none hi hs h, if_neg hd]
  | name, v, (m, w) :: fields, hv, shape, hi, ⟨⟨s, hs, ha⟩, hrest⟩, rest, fuel + 1, hf, depth => by
    rw [printFields_cons_cons] at hf ⊢
    simp only [List.length_append, List.length_cons] at hf
    have h := readValue_print v hv.1 s ha
      (0x2C :: (printFields ((m, w) :: fields) ++ 0x7D :: rest)) (endsNumber_comma _) fuel
      (by omega) depth
    have hm := readFields_print m w fields hv.2 shape hi hrest rest fuel (by omega) depth
    rw [List.append_assoc, List.cons_append, List.append_assoc, List.cons_append, depthFields]
    split at h
    · next hd =>
      rw [readFields_more hi hs h, hm]
      simp only [Nat.max_le, hd, true_and]
      split <;> rfl
    · next hd => rw [readFields_none hi hs h, if_neg fun hm => hd (Nat.max_le.1 hm).1]
termination_by structural _ _ _ _ _ _ _ _ fuel => fuel

end

theorem readAs_print {v : Json} (hv : v.Legible) {shape : Shape} (hs : shape.Admits v) :
    readAs shape v.print = if v.depth ≤ maxDepth then some v else none := by
  have h := readValue_print v hv shape hs [] trivial (2 * v.print.length + 2) (by omega) maxDepth
  rw [List.append_nil] at h
  rw [readAs, h]
  by_cases hd : v.depth ≤ maxDepth
  · simp [hd, skipBlanks]
  · simp [hd]

end SessionVault.Json
