import SessionVault.Table
import SessionVault.Toml.Basic

namespace SessionVault.Toml

/-- The fields of a section.  It may also be written as an array, which gives them in their order;
a date or time has none. -/
def fields? (names : List String) : Toml → Option (List (String × Toml))
  | .table entries => some entries
  | .array items => some (names.zip items)
  | .dateTime _ => some []
  | _ => none

def field {α : Type} (name : String) (read : Toml → Option α) (dflt : α)
    (fields : List (String × Toml)) : Option α :=
  match Table.find name fields with
  | none => some dflt
  | some v => read v

def string? : Toml → Option String
  | .string s => some s
  | _ => none

def bool? : Toml → Option Bool
  | .bool b => some b
  | _ => none

def integer64? : Toml → Option Int64
  | .integer n => some n
  | _ => none

def below? (bound : Nat) : Toml → Option Nat
  | .integer n => if 0 ≤ n.toInt ∧ n.toInt < bound then some n.toInt.toNat else none
  | _ => none

def uint64? (v : Toml) : Option UInt64 := (v.below? 0x10000000000000000).map UInt64.ofNat

def uint32? (v : Toml) : Option UInt32 := (v.below? 0x100000000).map UInt32.ofNat

def allStrings? : List Toml → Option (List String)
  | [] => some []
  | v :: rest => return (← v.string?) :: (← allStrings? rest)

def strings? : Toml → Option (List String)
  | .array items => allStrings? items
  | _ => none

def isVoid : Toml → Bool
  | .table [] | .array [] => true
  | _ => false

/-- The name of a choice: a string, or the key of the only entry of a table, which holds nothing. -/
def choice? : Toml → Option String
  | .string s => some s
  | .table [(name, v)] => if v.isVoid then some name else none
  | _ => none

def ofUInt64? (n : UInt64) : Option Toml :=
  if n.toNat < 0x8000000000000000 then some (.integer (Int64.ofNat n.toNat)) else none

def ofStrings (l : List String) : Toml := .array (l.map .string)

def pair (name : String) (v : Toml) : Expression := .pair ⟨[], name⟩ v

end SessionVault.Toml
