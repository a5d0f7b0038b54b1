import SessionVault.Proofs.Toml.Reader
import SessionVault.Toml.Fields

namespace SessionVault.Toml

variable {α : Type} {name : String} {read : Toml → Option α} {dflt x : α} {n : UInt64} {v : Toml}
  {fs : List (String × Toml)}

def Fits (n : UInt64) : Prop := n.toNat < 0x8000000000000000

instance (n : UInt64) : Decidable (Fits n) := inferInstanceAs (Decidable (_ < _))

def ofUInt64 (n : UInt64) : Toml := .integer (Int64.ofNat n.toNat)

theorem ofUInt64?_of_fits (h : Fits n) : ofUInt64? n = some (ofUInt64 n) := if_pos h

theorem uint64?_ofUInt64 (h : Fits n) : (ofUInt64 n).uint64? = some n := by
  have hint : (Int64.ofNat n.toNat).toInt = n.toNat := Int64.toInt_ofNat_of_lt h
  have hlt := n.toNat_lt
  rw [ofUInt64, uint64?, below?, hint, if_pos (by omega), Int.toNat_natCast, Option.map_some,
    UInt64.ofNat_toNat]

theorem uint32?_integer (n : UInt32) : (Toml.integer (Int64.ofNat n.toNat)).uint32? = some n := by
  have hlt := n.toNat_lt
  have hint : (Int64.ofNat n.toNat).toInt = n.toNat :=
    Int64.toInt_ofNat_of_lt (by omega)
  rw [uint32?, below?, hint, if_pos (by omega), Int.toNat_natCast, Option.map_some,
    UInt32.ofNat_toNat]

theorem fits_of_uint64? (h : v.uint64? = some n) : Fits n := by
  obtain ⟨k, hk, rfl⟩ := Option.map_eq_some_iff.1 h
  cases v with
  | integer i =>
    rw [below?] at hk
    split at hk
    · cases hk
      have hlt := i.toInt_lt
      rw [Fits, UInt64.toNat_ofNat']
      omega
    · cases hk
  | _ => cases hk

theorem allStrings?_map (l : List String) : allStrings? (l.map .string) = some l := by
  induction l with
  | nil => rfl
  | cons s l ih =>
    rw [List.map_cons, allStrings?, ih]
    rfl

theorem strings?_ofStrings (l : List String) : (ofStrings l).strings? = some l :=
  allStrings?_map l

theorem legible_ofStrings (l : List String) : Legible maxDepth (ofStrings l) := by
  refine .array fun v hv => ?_
  obtain ⟨s, -, rfl⟩ := List.mem_map.1 hv
  exact .string s

theorem find_of_mem (hfs : (fs.map Prod.fst).Nodup) (h : (name, v) ∈ fs) :
    Table.find name fs = some v := by
  induction fs with
  | nil => cases h
  | cons p fs ih =>
    rw [List.map_cons, List.nodup_cons] at hfs
    rw [Table.find]
    rcases List.mem_cons.1 h with rfl | h
    · exact if_pos rfl
    · have hne : p.1 ≠ name := fun he => hfs.1 (he ▸ List.mem_map_of_mem h)
      rw [if_neg hne, ih hfs.2 h]

theorem field_of_mem (hfs : (fs.map Prod.fst).Nodup) (h : (name, v) ∈ fs) :
    field name read dflt fs = read v := by
  rw [field, find_of_mem hfs h]

theorem field_at (hfs : (fs.map Prod.fst).Nodup) (i : Nat) (h : fs[i]? = some (name, v)) :
    field name read dflt fs = read v :=
  field_of_mem hfs (List.mem_of_getElem? h)

theorem find_of_notMem (h : name ∉ fs.map Prod.fst) : Table.find name fs = none := by
  induction fs with
  | nil => rfl
  | cons p fs ih =>
    rw [List.map_cons, List.mem_cons, not_or] at h
    rw [Table.find, if_neg (Ne.symm h.1), ih h.2]

theorem field_of_notMem (h : name ∉ fs.map Prod.fst) : field name read dflt fs = some dflt := by
  rw [field, find_of_notMem h]

theorem field_elim {p : α → Prop} (h : field name read dflt fs = some x) (hdflt : p dflt)
    (hread : ∀ v, read v = some x → p x) : p x := by
  rw [field] at h
  split at h
  · cases h
    exact hdflt
  · exact hread _ h

theorem fits_of_field {m : UInt64} (h : field name uint64? m fs = some n) (hm : Fits m) : Fits n :=
  field_elim h hm fun _ => fits_of_uint64?

end SessionVault.Toml
