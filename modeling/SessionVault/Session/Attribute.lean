import SessionVault.Json.Basic

namespace SessionVault

inductive Attribute where
  | text (s : String)
  | int64 (n : Int64)
  | uint64 (n : UInt64)
  | bool (b : Bool)
  | float (x : Float)
  | texts (items : List String)
  | json (v : Json) (ascending : v.Ascending)
  /-- A value of a type that an application adds, held in the form in which it is stored.  Only such
  types are covered that refuse none of their values, can store all of them, and tell two of them
  apart by their stored forms. -/
  | custom (type : String) (v : Json) (ascending : v.Ascending)

namespace Attribute

instance : Inhabited Attribute := ⟨.text ""⟩

def type : Attribute → String
  | .text _ => "string"
  | .int64 _ => "i64"
  | .uint64 _ => "u64"
  | .bool _ => "bool"
  | .float _ => "f64"
  | .texts _ => "string_list"
  | .json _ _ => "json"
  | .custom type _ _ => type

/-- The stored form.  A float that is not finite has none and is stored as `null`. -/
def toJson : Attribute → Json
  | .text s => .string s
  | .int64 n => Json.ofInt64 n
  | .uint64 n => Json.ofUInt64 n
  | .bool b => .bool b
  | .float x => if h : x.isFinite = true then .number (.real x h) else .null
  | .texts items => .array (items.map .string)
  | .json v _ => v
  | .custom _ v _ => v

/-- Equality of values: of the same type and equal, floats as IEEE 754 compares them. -/
def same : Attribute → Attribute → Bool
  | .text s, .text t => s == t
  | .int64 n, .int64 m => n == m
  | .uint64 n, .uint64 m => n == m
  | .bool a, .bool b => a == b
  | .float x, .float y => x == y
  | .texts l, .texts m => l == m
  | .json v _, .json w _ => v.same w
  | .custom t v _, .custom u w _ => t == u && v.same w
  | _, _ => false

inductive NonFinite where
  | nan
  | infinite
  | negativeInfinite
  deriving DecidableEq

def NonFinite.text : NonFinite → String
  | .nan => "NaN"
  | .infinite => "inf"
  | .negativeInfinite => "-inf"

def NonFinite.float : NonFinite → Float
  | .nan => 0 / 0
  | .infinite => 1 / 0
  | .negativeInfinite => -1 / 0

def nonFinite? (x : Float) : Option NonFinite :=
  if x.isFinite then none
  else if x.isNaN then some .nan
  else if 0 < x then some .infinite else some .negativeInfinite

def obstacle? : Attribute → Option NonFinite
  | .float x => nonFinite? x
  | _ => none

theorem nonFinite?_eq_none_iff {x : Float} : nonFinite? x = none ↔ x.isFinite = true := by
  unfold nonFinite?
  repeat' split
  all_goals simp_all

end Attribute

end SessionVault
