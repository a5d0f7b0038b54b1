import SessionVault.Json.Basic
import SessionVault.Proofs.Table

namespace SessionVault.Json

mutual

theorem sorted_of_ascending : (v : Json) → v.Ascending → v.sorted = v
  | .array items, h => congrArg array (sortedItems_of_ascending items h)
  | .object fields, h => by
    rw [sorted, sortedFields_of_ascending fields h.2]
    exact congrArg object (congrArg Table.entries (Table.ofList_entries ⟨fields, h.1⟩))
  | .null, _ => rfl
  | .bool _, _ => rfl
  | .number _, _ => rfl
  | .string _, _ => rfl

theorem sortedItems_of_ascending : (items : List Json) → AscendingItems items →
    sortedItems items = items
  | [], _ => rfl
  | v :: rest, h => by
    rw [sortedItems, sorted_of_ascending v h.1, sortedItems_of_ascending rest h.2]

theorem sortedFields_of_ascending : (fields : List (String × Json)) → AscendingFields fields →
    sortedFields fields = fields
  | [], _ => rfl
  | (name, v) :: rest, h => by
    rw [sortedFields, sorted_of_ascending v h.1, sortedFields_of_ascending rest h.2]

end

end SessionVault.Json
