import SessionVault.Table

namespace SessionVault

namespace Json

/-- A whole number from -2^63 to 2^64 - 1, or a finite float. -/
inductive Number where
  | whole (n : Int) (inRange : -0x8000000000000000 ≤ n ∧ n < 0x10000000000000000)
  | real (x : Float) (finite : x.isFinite = true)
  deriving DecidableEq

/-- Equality of numbers as stored: a whole number never equals a float, and both zeros are equal. -/
def Number.same : Number → Number → Bool
  | .whole n _, .whole m _ => n == m
  | .real x _, .real y _ => x == y
  | _, _ => false

end Json

inductive Json where
  | null
  | bool (b : Bool)
  | number (n : Json.Number)
  | string (s : String)
  | array (items : List Json)
  | object (fields : List (String × Json))
  deriving Inhabited

namespace Json

def ofUInt64 (n : UInt64) : Json :=
  .number (.whole n.toNat ⟨by omega, by have := n.toNat_lt; omega⟩)

def ofInt64 (n : Int64) : Json :=
  .number (.whole n.toInt ⟨by have := n.le_toInt; omega, by have := n.toInt_lt; omega⟩)

mutual

def same : Json → Json → Bool
  | .null, .null => true
  | .bool a, .bool b => a == b
  | .number a, .number b => a.same b
  | .string a, .string b => a == b
  | .array a, .array b => sameItems a b
  | .object a, .object b => sameFields a b
  | _, _ => false

def sameItems : List Json → List Json → Bool
  | [], [] => true
  | a :: as, b :: bs => a.same b && sameItems as bs
  | _, _ => false

def sameFields : List (String × Json) → List (String × Json) → Bool
  | [], [] => true
  | (n, a) :: as, (m, b) :: bs => n == m && a.same b && sameFields as bs
  | _, _ => false

end

mutual

def depth : Json → Nat
  | .array items => 1 + depthItems items
  | .object fields => 1 + depthFields fields
  | .null | .bool _ | .number _ | .string _ => 0

def depthItems : List Json → Nat
  | [] => 0
  | v :: rest => max v.depth (depthItems rest)

def depthFields : List (String × Json) → Nat
  | [] => 0
  | (_, v) :: rest => max v.depth (depthFields rest)

end

mutual

def sorted : Json → Json
  | .array items => .array (sortedItems items)
  | .object fields => .object (Table.ofList (sortedFields fields)).entries
  | .null => .null
  | .bool b => .bool b
  | .number n => .number n
  | .string s => .string s

def sortedItems : List Json → List Json
  | [] => []
  | v :: rest => v.sorted :: sortedItems rest

def sortedFields : List (String × Json) → List (String × Json)
  | [] => []
  | (n, v) :: rest => (n, v.sorted) :: sortedFields rest

end

mutual

def Ascending : Json → Prop
  | .array items => AscendingItems items
  | .object fields => (fields.Pairwise fun a b => a.1 < b.1) ∧ AscendingFields fields
  | .null | .bool _ | .number _ | .string _ => True

def AscendingItems : List Json → Prop
  | [] => True
  | v :: rest => v.Ascending ∧ AscendingItems rest

def AscendingFields : List (String × Json) → Prop
  | [] => True
  | (_, v) :: rest => v.Ascending ∧ AscendingFields rest

end

theorem ascendingFields_iff (fields : List (String × Json)) :
    AscendingFields fields ↔ ∀ p ∈ fields, p.2.Ascending := by
  induction fields with
  | nil => simp [AscendingFields]
  | cons p rest ih => simp [AscendingFields, ih]

theorem ascendingFields_ofList {l : List (String × Json)} (h : ∀ p ∈ l, p.2.Ascending)
    {t : Table Json} (ht : ∀ p ∈ t.entries, p.2.Ascending) :
    ∀ p ∈ (l.foldl (fun t p => t.insert p.1 p.2) t).entries, p.2.Ascending := by
  induction l generalizing t with
  | nil => exact ht
  | cons q rest ih =>
    refine ih (fun p hp => h p (List.mem_cons_of_mem _ hp)) fun p hp => ?_
    rcases Table.mem_put hp with rfl | hp
    · exact h q List.mem_cons_self
    · exact ht p hp

mutual

theorem ascending_sorted : (v : Json) → v.sorted.Ascending
  | .array items => by simpa [sorted, Ascending] using ascendingItems_sorted items
  | .object fields => by
    refine ⟨(Table.ofList (sortedFields fields)).ascending, ?_⟩
    rw [ascendingFields_iff]
    have h := (ascendingFields_iff _).1 (ascendingFields_sorted fields)
    exact ascendingFields_ofList h fun p hp => absurd hp List.not_mem_nil
  | .null => trivial
  | .bool _ => trivial
  | .number _ => trivial
  | .string _ => trivial

theorem ascendingItems_sorted : (items : List Json) → AscendingItems (sortedItems items)
  | [] => trivial
  | v :: rest => ⟨ascending_sorted v, ascendingItems_sorted rest⟩

theorem ascendingFields_sorted :
    (fields : List (String × Json)) → AscendingFields (sortedFields fields)
  | [] => trivial
  | (_, v) :: rest => ⟨ascending_sorted v, ascendingFields_sorted rest⟩

end

def field? (name : String) : List (String × Json) → Option Json
  | [] => none
  | (n, v) :: rest => (field? name rest).or (if n = name then some v else none)

end Json

end SessionVault
