import SessionVault.Session.Registry

namespace SessionVault.Shop

structure Cart where
  items : List String
  totalCents : UInt64
  deriving DecidableEq

namespace Cart

def toJson (c : Cart) : Json :=
  .object [("items", .array (c.items.map .string)), ("total_cents", Json.ofUInt64 c.totalCents)]

theorem ascendingItems_strings (l : List String) :
    Json.AscendingItems (l.map Json.string) := by
  induction l with
  | nil => trivial
  | cons s rest ih => exact ⟨trivial, ih⟩

theorem ascending_toJson (c : Cart) : c.toJson.Ascending := by
  have h : "items" < "total_cents" := by decide
  refine ⟨.cons (fun p hp => ?_) (List.pairwise_singleton _ _), ascendingItems_strings c.items,
    trivial, trivial⟩
  rw [List.mem_singleton.1 hp]
  exact h

def toAttribute (c : Cart) : Attribute := .custom "shop.cart" c.toJson c.ascending_toJson

def ofParts? : Json → Json → Option Cart
  | .array items, .number (.whole n _) =>
    if 0 ≤ n then (AttributeType.strings? items).map fun items => ⟨items, UInt64.ofNat n.toNat⟩
    else none
  | _, _ => none

/-- A cart is stored as an object; the array of its two fields in order is understood too. -/
def ofJson? : Json → Option Cart
  | .object fields => do ofParts? (← Json.field? "items" fields) (← Json.field? "total_cents" fields)
  | .array [items, total] => ofParts? items total
  | _ => none

def type : AttributeType where
  name := "shop.cart"
  read v := (ofJson? v).map toAttribute

end Cart

end SessionVault.Shop
