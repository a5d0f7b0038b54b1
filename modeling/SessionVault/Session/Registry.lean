import SessionVault.Session.Attribute

namespace SessionVault

structure AttributeType where
  name : String
  read : Json → Option Attribute

namespace AttributeType

def text : AttributeType where
  name := "string"
  read
    | .string s => some (.text s)
    | _ => none

def int64 : AttributeType where
  name := "i64"
  read
    | .number (.whole n _) => if n < 0x8000000000000000 then some (.int64 (Int64.ofInt n)) else none
    | _ => none

def uint64 : AttributeType where
  name := "u64"
  read
    | .number (.whole n _) => if 0 ≤ n then some (.uint64 (UInt64.ofNat n.toNat)) else none
    | _ => none

def bool : AttributeType where
  name := "bool"
  read
    | .bool b => some (.bool b)
    | _ => none

/-- A whole number is read as the nearest float. -/
def float : AttributeType where
  name := "f64"
  read
    | .number (.whole n _) => some (.float (Float.ofInt n))
    | .number (.real x _) => some (.float x)
    | _ => none

def strings? : List Json → Option (List String)
  | [] => some []
  | .string s :: rest => (strings? rest).map (s :: ·)
  | _ => none

def texts : AttributeType where
  name := "string_list"
  read
    | .array items => (strings? items).map .texts
    | _ => none

def json : AttributeType where
  name := "json"
  read v := some (.json v.sorted (Json.ascending_sorted v))

end AttributeType

structure Registry where
  types : Table AttributeType

namespace Registry

def empty : Registry := ⟨.empty⟩

def register (r : Registry) (t : AttributeType) : Registry := ⟨r.types.insert t.name t⟩

def ofList (types : List AttributeType) : Registry := types.foldl register empty

open AttributeType in
def standard : Registry := ofList [text, int64, uint64, bool, float, texts, json]

instance : Inhabited Registry := ⟨standard⟩

def contains (r : Registry) (type : String) : Bool := r.types.contains type

inductive Refusal where
  | unknownType
  | invalidValue
  deriving DecidableEq

def read (r : Registry) (type : String) (v : Json) : Except Refusal Attribute :=
  match r.types.get? type with
  | none => throw .unknownType
  | some t =>
    match t.read v with
    | none => throw .invalidValue
    | some a => return a

def summary (r : Registry) : String :=
  let names := r.types.names.map fun name => "\"" ++ name ++ "\""
  "TypeRegistry \x7b types: [" ++ String.intercalate ", " names ++ "] \x7d"

end Registry

end SessionVault
