import SessionVault.Decimal.Numeral
import SessionVault.Decimal.Shortest
import SessionVault.Json.Basic
import SessionVault.Octets

namespace SessionVault.Json

structure Numeral where
  negative : Bool
  whole : List Nat
  fraction : Option (List Nat)
  exponent : Option (Bool × List Nat)
  deriving DecidableEq

def isDigitOctet (b : UInt8) : Bool := 0x30 ≤ b && b ≤ 0x39

def takeDigits (input : Octets) : List Nat × Octets :=
  ((input.takeWhile isDigitOctet).map fun b => b.toNat - 48, input.dropWhile isDigitOctet)

def takeDigits1 (input : Octets) : Option (List Nat × Octets) :=
  match takeDigits input with
  | ([], _) => none
  | (ds, rest) => some (ds, rest)

def scanFraction : Octets → Option (Option (List Nat) × Octets)
  | 0x2E :: rest => (takeDigits1 rest).map fun p => (some p.1, p.2)
  | input => some (none, input)

def scanPower (input : Octets) : Option (Option (Bool × List Nat) × Octets) :=
  match input with
  | 0x2B :: rest => (takeDigits1 rest).map fun p => (some (false, p.1), p.2)
  | 0x2D :: rest => (takeDigits1 rest).map fun p => (some (true, p.1), p.2)
  | rest => (takeDigits1 rest).map fun p => (some (false, p.1), p.2)

def scanExponent : Octets → Option (Option (Bool × List Nat) × Octets)
  | 0x65 :: rest => scanPower rest
  | 0x45 :: rest => scanPower rest
  | input => some (none, input)

def scanWhole (input : Octets) : Option (List Nat × Octets) :=
  match takeDigits1 input with
  | none => none
  | some (0 :: _ :: _, _) => none
  | some p => some p

def scanSign : Octets → Bool × Octets
  | 0x2D :: rest => (true, rest)
  | input => (false, input)

def Numeral.scan (input : Octets) : Option (Numeral × Octets) := do
  let (negative, input) := scanSign input
  let (whole, input) ← scanWhole input
  let (fraction, input) ← scanFraction input
  let (exponent, input) ← scanExponent input
  return (⟨negative, whole, fraction, exponent⟩, input)

def absorb (n : Nat) : List Nat → Nat × List Nat
  | [] => (n, [])
  | d :: ds => if 10 * n + d < 0x10000000000000000 then absorb (10 * n + d) ds else (n, d :: ds)

def powerOfTen (n : Nat) : Float := Float.ofScientific 1 false n

def scaleDown (x : Float) (n : Nat) : Float :=
  if n ≤ 308 then x / powerOfTen n
  else if x == 0 then x
  else scaleDown (x / powerOfTen 308) (n - 308)
termination_by n

def scale (n : Nat) (e : Int) : Option Float :=
  if 0 ≤ e then
    if e ≤ 308 then some (Float.ofNat n * powerOfTen e.toNat)
    else if n = 0 then some 0 else none
  else some (scaleDown (Float.ofNat n) (-e).toNat)

def Numeral.magnitude (s : Numeral) : Option Float :=
  let (n, beyond) := absorb 0 s.whole
  let fraction := s.fraction.getD []
  let (n, unused) := absorb n fraction
  let e : Int := beyond.length - (fraction.length - unused.length : Nat)
  match s.exponent with
  | none => scale n e
  | some (minus, ds) =>
    let power := Decimal.ofDigits ds
    if power < 0x80000000 then scale n (if minus then e - power else e + power)
    else if minus ∨ n = 0 then some 0 else none

def Numeral.float (s : Numeral) : Option Number := do
  let x ← s.magnitude
  let x := if s.negative then -x else x
  if h : x.isFinite = true then some (.real x h) else none

def Numeral.number (s : Numeral) : Option Number :=
  match s.fraction, s.exponent with
  | none, none =>
    let n : Int := Decimal.ofDigits s.whole
    if s.negative then
      if h : 0 < n ∧ n ≤ 0x8000000000000000 then some (.whole (-n) (by omega)) else s.float
    else
      if h : 0 ≤ n ∧ n < 0x10000000000000000 then some (.whole n (by omega)) else s.float
  | _, _ => s.float

/-- A float in digits: positional with at least one digit on each side of the point when the leading
digit counts between 10^-5 and 10^15, otherwise with a signed exponent. -/
def layout (d : Decimal.Scientific) : List Char :=
  let ds := Decimal.numeral d.digits
  let e : Int := d.exponent + (ds.length - 1 : Nat)
  if 0 ≤ e ∧ e < 16 then
    if 0 ≤ d.exponent then ds ++ List.replicate d.exponent.toNat '0' ++ ['.', '0']
    else ds.take (e.toNat + 1) ++ '.' :: ds.drop (e.toNat + 1)
  else if -5 ≤ e ∧ e < 0 then
    '0' :: '.' :: (List.replicate (-e - 1).toNat '0' ++ ds)
  else
    let lead := match ds with
      | c :: [] => [c]
      | c :: rest => c :: '.' :: rest
      | [] => []
    let sign := if e < 0 then '-' else '+'
    lead ++ 'e' :: sign :: Decimal.numeral e.natAbs

/-- The text of a finite float: the shortest digits that read back, halfway the even ones. -/
def floatText (x : Float) : List Char :=
  let size := Decimal.Binary.ofBits x.toBits
  let text := if size.m = 0 then ['0', '.', '0'] else layout (size.shortest .toEven)
  if x.toBits < 0x8000000000000000 then text else '-' :: text

def Number.text : Number → List Char
  | .whole n _ => if n < 0 then '-' :: Decimal.numeral n.natAbs else Decimal.numeral n.natAbs
  | .real x _ => floatText x

end SessionVault.Json
