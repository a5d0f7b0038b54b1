import SessionVault.Digest.Sha256
import SessionVault.Json.Printer
import SessionVault.Json.Reader
import SessionVault.Session.Basic
import SessionVault.Session.Registry

namespace SessionVault

inductive PayloadError where
  | shortHeader
  | shortHash (length size : Nat)
  | longHash
  | invalidBody
  | invalidAttribute (name type : String)
  | unknownType (name type : String)
  | unencodable (name : String) (value : Attribute.NonFinite)
  deriving DecidableEq

def PayloadError.message : PayloadError → String
  | .shortHeader => "corrupt session payload: payload shorter than header"
  | .shortHash length size =>
    s!"corrupt session payload: hash length {length} exceeds payload size {size}"
  | .longHash => "corrupt session payload: attribute hash too large"
  | .invalidBody => "corrupt session payload: invalid session body: "
  | .invalidAttribute name type =>
    "corrupt session payload: attribute '" ++ name ++ "' is not a valid " ++ type ++ ": "
  | .unknownType name type => "attribute '" ++ name ++ "' has unregistered type '" ++ type ++ "'"
  | .unencodable name value =>
    "attribute '" ++ name ++ "' cannot be encoded: " ++ value.text ++ " has no JSON representation"

structure Metadata where
  hash : Octets
  deriving DecidableEq, Inhabited

def Metadata.empty : Metadata := ⟨[]⟩

namespace Session

def obstacle? : List (String × Attribute) → Option PayloadError
  | [] => none
  | (name, a) :: rest =>
    match a.obstacle? with
    | some value => some (.unencodable name value)
    | none => obstacle? rest

def typedValue (a : Attribute) : Json := .object [("type", .string a.type), ("value", a.toJson)]

def attributesJson (s : Session) : Json := .object (s.attributes.map typedValue).entries

def body (s : Session) : Json :=
  .object
    [("id", .string s.id),
      ("creation_time", .string s.created.text),
      ("last_accessed_time", .string s.accessed.text),
      ("max_inactive_secs", Json.ofUInt64 s.maxInactive),
      ("is_new", .bool s.isNew),
      ("valid", .bool s.valid),
      ("principal", s.principal.elim .null .string),
      ("attributes", s.attributesJson)]

def hash (s : Session) : Except PayloadError Octets :=
  match obstacle? s.attributes.entries with
  | some e => throw e
  | none => return Digest.sha256 s.attributesJson.print

def encode (s : Session) (metadata : Metadata) : Except PayloadError Octets :=
  match obstacle? s.attributes.entries with
  | some e => throw e
  | none =>
    if metadata.hash.length < 0x100000000 then
      return Octets.ofWord (UInt32.ofNat metadata.hash.length) ++ metadata.hash ++ s.body.print
    else throw .longHash

structure Untyped where
  type : String
  value : Json

def untypedShape : Json.Shape := .record [("type", .any), ("value", .any)]

def bodyShape : Json.Shape :=
  .record
    [("id", .any), ("creation_time", .any), ("last_accessed_time", .any),
      ("max_inactive_secs", .any), ("is_new", .any), ("valid", .any), ("principal", .any),
      ("attributes", .table untypedShape)]

/-- The values of known fields in order, from an object that repeats none of them or from an array
with nothing beyond them. -/
def fieldValues? (names : List String) : Json → Option (List (Option Json))
  | .object fields =>
    if (fields.map (·.1)).Nodup then some (names.map fun name => Json.field? name fields) else none
  | .array items =>
    if items.length ≤ names.length then
      some (items.map some ++ List.replicate (names.length - items.length) none)
    else none
  | _ => none

def string? : Json → Option String
  | .string s => some s
  | _ => none

def bool? : Json → Option Bool
  | .bool b => some b
  | _ => none

def instant? : Json → Option Instant
  | .string s => Instant.ofText? s
  | _ => none

def seconds? : Json → Option UInt64
  | .number (.whole n _) => if 0 ≤ n then some (UInt64.ofNat n.toNat) else none
  | _ => none

def untyped? (v : Json) : Option Untyped := do
  match ← fieldValues? ["type", "value"] v with
  | [some type, some value] => return ⟨← string? type, value⟩
  | _ => none

def untypedFields? : List (String × Json) → Option (List (String × Untyped))
  | [] => some []
  | (name, v) :: rest => return (name, ← untyped? v) :: (← untypedFields? rest)

def untypedAttributes? : Option Json → Option (Table Untyped)
  | none => some .empty
  | some (.object fields) => (untypedFields? fields).map .ofList
  | some _ => none

/-- A principal may be left out of an object, not out of an array. -/
def principal? (v : Json) : Option Json → Option (Option String)
  | none =>
    match v with
    | .object _ => some none
    | _ => none
  | some .null => some none
  | some (.string s) => some (some s)
  | some _ => none

structure Outline where
  session : Session
  attributes : Table Untyped

def outline? (v : Json) : Option Outline := do
  match ← fieldValues? ["id", "creation_time", "last_accessed_time", "max_inactive_secs", "is_new",
      "valid", "principal", "attributes"] v with
  | [some id, some created, some accessed, some maxInactive, some isNew, some valid, principal,
      attributes] =>
    let session : Session :=
      { id := ← string? id
        created := ← instant? created
        accessed := ← instant? accessed
        maxInactive := ← seconds? maxInactive
        isNew := ← bool? isNew
        valid := ← bool? valid
        principal := ← principal? v principal
        attributes := .empty
        dirty := false
        changed := .empty }
    return ⟨session, ← untypedAttributes? attributes⟩
  | _ => none

def readAttribute (r : Registry) (name : String) (u : Untyped) : Except PayloadError Attribute :=
  match r.read u.type u.value with
  | .ok a => return a
  | .error .unknownType => throw (.unknownType name u.type)
  | .error .invalidValue => throw (.invalidAttribute name u.type)

def readAttributes (r : Registry) :
    List (String × Untyped) → Table Attribute → Except PayloadError (Table Attribute)
  | [], done => return done
  | (name, u) :: rest, done => do
    readAttributes r rest (done.insert name (← readAttribute r name u))

def ofBody (r : Registry) (input : Octets) : Except PayloadError Session :=
  match (Json.readAs bodyShape input).bind outline? with
  | none => throw .invalidBody
  | some o => do
    let attributes ← readAttributes r o.attributes.entries .empty
    return { o.session with attributes := attributes }

def decode (r : Registry) (payload : Octets) : Except PayloadError (Session × Metadata) := do
  if payload.length < 4 then throw .shortHeader
  let length := Octets.toNat (payload.take 4)
  let rest := payload.drop 4
  if rest.length < length then throw (.shortHash length rest.length)
  return (← ofBody r (rest.drop length), ⟨rest.take length⟩)

end Session

end SessionVault
