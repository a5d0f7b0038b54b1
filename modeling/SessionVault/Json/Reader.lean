import SessionVault.Json.Numeral
import SessionVault.Json.Quoted

namespace SessionVault.Json

inductive Shape where
  | any
  | ignored
  | record (fields : List (String × Shape))
  | table (entry : Shape)
  deriving Inhabited

def Shape.field? : Shape → String → Option Shape
  | .any, _ => some .any
  | .ignored, _ => none
  | .record fields, name => Table.find name fields
  | .table entry, _ => some entry

def Shape.item? : Shape → Nat → Option Shape
  | .any, _ => some .any
  | .ignored, _ => some .ignored
  | .record fields, i => fields[i]?.map (·.2)
  | .table _, _ => none

def Shape.takesScalar : Shape → Bool
  | .any | .ignored => true
  | .record _ | .table _ => false

def Shape.takesArray : Shape → Bool
  | .table _ => false
  | _ => true

def isBlankOctet : UInt8 → Bool
  | 0x20 | 0x0A | 0x0D | 0x09 => true
  | _ => false

def skipBlanks (input : Octets) : Octets := input.dropWhile isBlankOctet

def literal (word : List Char) (v : Json) (input : Octets) : Option (Json × Octets) :=
  if Octets.ascii word <+: input then some (v, input.drop word.length) else none

def readNumber (shape : Shape) (input : Octets) : Option (Json × Octets) := do
  let (numeral, rest) ← Numeral.scan input
  match shape with
  | .ignored => return (.null, rest)
  | _ => return (.number (← numeral.number), rest)

def readString (shape : Shape) (input : Octets) : Option (Json × Octets) :=
  match shape with
  | .ignored => (Quote.plain.skip input).map fun rest => (.null, rest)
  | _ => (readQuoted input).map fun p => (.string p.1, p.2)

def readName (shape : Shape) (input : Octets) : Option (String × Octets) :=
  match skipBlanks input with
  | 0x22 :: rest => do
    let (name, rest) ← match shape with
      | .ignored => (Quote.plain.skip rest).map fun rest => ("", rest)
      | _ => readQuoted rest
    match skipBlanks rest with
    | 0x3A :: rest => some (name, rest)
    | _ => none
  | _ => none

def Shape.enter : Shape → Nat → Option Nat
  | .ignored, depth => some depth
  | _, 0 => none
  | _, depth + 1 => some depth

mutual

/-- One value and what follows it.  The fuel bounds the steps, `depth` the nesting. -/
def readValue (fuel : Nat) (depth : Nat) (shape : Shape) (input : Octets) :
    Option (Json × Octets) :=
  match fuel with
  | 0 => none
  | fuel + 1 =>
    match skipBlanks input with
    | 0x5B :: rest =>
      if shape.takesArray then
        match shape.enter depth with
        | none => none
        | some depth =>
          match skipBlanks rest with
          | 0x5D :: rest => some (.array [], rest)
          | _ => (readItems fuel depth shape 0 rest).map fun p => (.array p.1, p.2)
      else none
    | 0x7B :: rest =>
      match shape.enter depth with
      | none => none
      | some depth =>
        match skipBlanks rest with
        | 0x7D :: rest => some (.object [], rest)
        | _ => (readFields fuel depth shape rest).map fun p => (.object p.1, p.2)
    | input =>
      if shape.takesScalar then
        match input with
        | 0x22 :: rest => readString shape rest
        | 0x6E :: _ => literal ['n', 'u', 'l', 'l'] .null input
        | 0x74 :: _ => literal ['t', 'r', 'u', 'e'] (.bool true) input
        | 0x66 :: _ => literal ['f', 'a', 'l', 's', 'e'] (.bool false) input
        | _ => readNumber shape input
      else none

def readItems (fuel : Nat) (depth : Nat) (shape : Shape) (i : Nat) (input : Octets) :
    Option (List Json × Octets) :=
  match fuel with
  | 0 => none
  | fuel + 1 =>
    match shape.item? i with
    | none => none
    | some itemShape =>
      match readValue fuel depth itemShape input with
      | none => none
      | some (v, rest) =>
        match skipBlanks rest with
        | 0x2C :: rest => (readItems fuel depth shape (i + 1) rest).map fun p => (v :: p.1, p.2)
        | 0x5D :: rest => some ([v], rest)
        | _ => none

def readFields (fuel : Nat) (depth : Nat) (shape : Shape) (input : Octets) :
    Option (List (String × Json) × Octets) :=
  match fuel with
  | 0 => none
  | fuel + 1 =>
    match readName shape input with
    | none => none
    | some (name, rest) =>
      match readValue fuel depth ((shape.field? name).getD .ignored) rest with
      | none => none
      | some (v, rest) =>
        let kept := if (shape.field? name).isSome then [(name, v)] else []
        match skipBlanks rest with
        | 0x2C :: rest => (readFields fuel depth shape rest).map fun p => (kept ++ p.1, p.2)
        | 0x7D :: rest => some (kept, rest)
        | _ => none

end

def maxDepth : Nat := 127

def readAs (shape : Shape) (input : Octets) : Option Json :=
  match readValue (2 * input.length + 2) maxDepth shape input with
  | some (v, rest) => if (skipBlanks rest).isEmpty then some v else none
  | none => none

def read (input : Octets) : Option Json := (readAs .any input).map sorted

def ofText? (s : String) : Option Json := read (Octets.ofText s)

end SessionVault.Json
