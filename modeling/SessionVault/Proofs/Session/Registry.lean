import SessionVault.Proofs.Json.Reader
import SessionVault.Proofs.Json.Sorted
import SessionVault.Session.Registry
import SessionVault.Shop.Cart

namespace SessionVault

def Attribute.ownType? : Attribute → Option AttributeType
  | .text _ => some .text
  | .int64 _ => some .int64
  | .uint64 _ => some .uint64
  | .bool _ => some .bool
  | .float _ => some .float
  | .texts _ => some .texts
  | .json _ _ => some .json
  | .custom _ _ _ => none

/-- The type of the value is registered: the library's own type under its name, or a type of an
application that takes the stored form of the value back to the value. -/
def Registry.Covers (r : Registry) (a : Attribute) : Prop :=
  ∃ t, r.types.get? a.type = some t ∧
    match a.ownType? with
    | some own => t = own
    | none => t.read a.toJson = some a

namespace AttributeType

theorem strings?_map (items : List String) : strings? (items.map Json.string) = some items := by
  induction items with
  | nil => rfl
  | cons s rest ih => simp [strings?, ih]

theorem read_own {a : Attribute} {t : AttributeType} (h : a.ownType? = some t)
    (hf : a.obstacle? = none) : t.read a.toJson = some a := by
  cases a with
  | text s => cases h; rfl
  | int64 n =>
    cases h
    have := n.toInt_lt
    simp [int64, Attribute.toJson, Json.ofInt64]
    omega
  | uint64 n =>
    cases h
    simp [uint64, Attribute.toJson, Json.ofUInt64]
  | bool b => cases h; rfl
  | float x =>
    cases h
    have hx : x.isFinite = true := Attribute.nonFinite?_eq_none_iff.1 hf
    simp [float, Attribute.toJson, hx]
  | texts items =>
    cases h
    simp [texts, Attribute.toJson, strings?_map]
  | json v hv =>
    cases h
    simp [json, Attribute.toJson, Json.sorted_of_ascending v hv]
  | custom type v hv => cases h

end AttributeType

theorem Registry.read_toJson {r : Registry} {a : Attribute} (h : r.Covers a)
    (hf : a.obstacle? = none) : r.read a.type a.toJson = .ok a := by
  obtain ⟨t, ht, hr⟩ := h
  have hread : t.read a.toJson = some a := by
    cases ho : a.ownType? with
    | none => simpa [ho] using hr
    | some own =>
      rw [ho] at hr
      exact hr ▸ AttributeType.read_own ho hf
  simp [read, ht, hread, pure, Except.pure]

theorem Shop.Cart.read_toJson (c : Cart) : Cart.type.read c.toJson = some c.toAttribute := by
  simp [Cart.type, Cart.toJson, ofJson?, Json.field?, ofParts?, Json.ofUInt64,
    AttributeType.strings?_map]

theorem Registry.covers_cart {r : Registry} (h : r.types.get? "shop.cart" = some Shop.Cart.type)
    (c : Shop.Cart) : r.Covers c.toAttribute :=
  ⟨_, h, c.read_toJson⟩

end SessionVault
