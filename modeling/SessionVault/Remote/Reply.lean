import SessionVault.Decimal.Plain
import SessionVault.Store.Command

namespace SessionVault.Remote

inductive Reply where
  | nil
  | ok
  | int (n : Int64)
  | bulk (o : Octets)
  | simple (s : String)
  | double (x : Float)
  | bool (b : Bool)
  | verbatim (s : String)
  | array (items : List Reply)
  | set (items : List Reply)
  | map (entries : List (Reply × Reply))
  | attribute (inner : Reply)

instance : Inhabited Reply := ⟨.nil⟩

namespace Reply

/-- The reply inside a wrapper.  Only one wrapper is looked through. -/
def inner : Reply → Reply
  | .attribute r => r
  | r => r

/-- A signed number.  A float is cut off toward zero and clamped. -/
def int64? (r : Reply) : Option Int64 :=
  match r.inner with
  | .int n => some n
  | .double x => some x.toInt64
  | .simple s => ofChars? s.toList
  | .bulk o => (Octets.text? o).bind fun s => ofChars? s.toList
  | _ => none
where
  ofChars? (s : List Char) : Option Int64 :=
    match Decimal.signedValue? s with
    | some n => if -0x8000000000000000 ≤ n ∧ n < 0x8000000000000000 then some (Int64.ofInt n) else none
    | none => none

def uint64? (r : Reply) : Option UInt64 :=
  match r.inner with
  | .int n => some n.toUInt64
  | .double x => some x.toUInt64
  | .simple s => ofChars? s.toList
  | .bulk o => (Octets.text? o).bind fun s => ofChars? s.toList
  | _ => none
where
  ofChars? (s : List Char) : Option UInt64 :=
    match Decimal.naturalValue? s with
    | some n => if n < 0x10000000000000000 then some (UInt64.ofNat n) else none
    | none => none

def octet? (r : Reply) : Option UInt8 :=
  match r.inner with
  | .int n => some n.toUInt64.toUInt8
  | .double x => some x.toUInt8
  | .simple s => ofChars? s.toList
  | .bulk o => (Octets.text? o).bind fun s => ofChars? s.toList
  | _ => none
where
  ofChars? (s : List Char) : Option UInt8 :=
    match Decimal.naturalValue? s with
    | some n => if n < 0x100 then some (UInt8.ofNat n) else none
    | none => none

def text? (r : Reply) : Option String :=
  match r.inner with
  | .bulk o => Octets.text? o
  | .ok => some "OK"
  | .simple s | .verbatim s => some s
  | .double x => some (String.ofList (Decimal.plain x))
  | .int n => some (String.ofList (Decimal.signed n.toInt))
  | _ => none

def value? (r : Reply) : Option (Option Octets) :=
  match r.inner with
  | .nil => some none
  | .bulk o => some (some o)
  | .array items | .set items => (items.mapM octet?).map some
  | .map [] => some (some [])
  | _ => none

def names? : Reply → Option Names
  | .nil => some .empty
  | .bulk o => (Octets.text? o).map fun s => Names.ofList [s]
  | .array items | .set items => (items.mapM text?).map Names.ofList
  | .map [] => some .empty
  | _ => none

def answer? : (c : Command) → Reply → Option c.Answer
  | .set _ _, _ => some ()
  | .setIfAbsent _ _, r => r.int64?.map fun n => Claim.ofBool (n == 1)
  | .expire _ _, r => r.int64?.map (· == 1)
  | .get _, r => r.value?
  | .delete _, r => r.uint64?
  | .exists _, r => r.int64?.map fun n => decide (0 < n)
  | .keys _, r => r.names?

end Reply

end SessionVault.Remote
