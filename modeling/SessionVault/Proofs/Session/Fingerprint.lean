import SessionVault.Proofs.Json.Unambiguous
import SessionVault.Proofs.Session.Payload

namespace SessionVault

def Attribute.stored (a : Attribute) : String × Json := (a.type, a.toJson)

namespace Session

variable {s t : Session}

theorem typedValue_eq_iff {a b : Attribute} : typedValue a = typedValue b ↔ a.stored = b.stored := by
  simp [typedValue, Attribute.stored]

theorem map_typedValue_eq_iff {a b : Option Attribute} :
    a.map typedValue = b.map typedValue ↔ a.map Attribute.stored = b.map Attribute.stored := by
  cases a <;> cases b <;> simp [typedValue_eq_iff]

theorem get?_map_typedValue (s : Session) (name : String) :
    (s.attributes.map typedValue).get? name = (s.attribute? name).map typedValue :=
  Table.get?_map typedValue s.attributes name

theorem attributesJson_eq_iff : s.attributesJson = t.attributesJson ↔
    ∀ name, (s.attribute? name).map Attribute.stored = (t.attribute? name).map Attribute.stored := by
  simp only [← map_typedValue_eq_iff (a := s.attribute? _), ← get?_map_typedValue]
  rw [attributesJson, attributesJson, Json.object.injEq]
  constructor
  · intro h name
    rw [Table.get?, Table.get?, h]
  · intro h
    rw [Table.ext h]

/-- As long as floats with different values have different texts, what is digested identifies the
attributes, by their names, types and values, down to the sign of a zero.  Nothing else has a part
in the hash, whatever has been done to the session. -/
theorem hash_identifies_attributes (s t : Session) (hs : s.Finite) (ht : t.Finite)
    (hfloats : Json.ToldApart s.attributesJson.floats t.attributesJson.floats) :
    s.hash = .ok (Digest.sha256 s.attributesJson.print) ∧
    t.hash = .ok (Digest.sha256 t.attributesJson.print) ∧
    (s.attributesJson.print = t.attributesJson.print ↔ ∀ name,
      (s.attribute? name).map Attribute.stored = (t.attribute? name).map Attribute.stored) ∧
    ((∀ name, (s.attribute? name).map Attribute.stored = (t.attribute? name).map Attribute.stored) →
      s.hash = t.hash) := by
  have hprint : s.attributesJson.print = t.attributesJson.print ↔
      s.attributesJson = t.attributesJson := ⟨Json.print_inj hfloats, congrArg Json.print⟩
  have hhash := hash_eq_ok hs.obstacle?_eq_none
  have hhash' := hash_eq_ok ht.obstacle?_eq_none
  refine ⟨hhash, hhash', hprint.trans attributesJson_eq_iff, fun h => ?_⟩
  rw [hhash, hhash', attributesJson_eq_iff.2 h]

theorem unlike_sessions_are_told_apart :
    ∃ s t : Session, s.Finite ∧ t.Finite ∧
      s.attributes.entries = [("n", .int64 5), ("x", .float 0)] ∧
      t.attributes.entries = [("n", .uint64 5), ("x", .float (-0))] ∧
      Json.ToldApart s.attributesJson.floats t.attributesJson.floats ∧
      s.attributesJson.print ≠ t.attributesJson.print := by
  let s : Session := { fresh "A" 1800 default with
    attributes := ⟨[("n", .int64 5), ("x", .float 0)], by decide⟩ }
  let t : Session := { fresh "B" 60 default with
    attributes := ⟨[("n", .uint64 5), ("x", .float (-0))], by decide⟩ }
  have hs : s.Finite := finite_iff.2 (by decide +kernel)
  have ht : t.Finite := finite_iff.2 (by decide +kernel)
  have hfloats : Json.ToldApart s.attributesJson.floats t.attributesJson.floats := by
    decide +kernel
  obtain ⟨-, -, hprint, -⟩ := hash_identifies_attributes s t hs ht hfloats
  refine ⟨s, t, hs, ht, rfl, rfl, hfloats, fun h => ?_⟩
  have htypes := congrArg (Option.map Prod.fst) (hprint.1 h "n")
  exact absurd htypes (by decide)

end Session

end SessionVault
