import SessionVault.Decimal.Numeral

namespace SessionVault.Decimal

def nearest (digits : Nat) (exponent : Int) : Float :=
  let magnitude := exponent + (numeral digits).length
  if digits = 0 ∨ magnitude < -330 then 0
  else if 310 < magnitude then 1 / 0
  else OfScientific.ofScientific digits (exponent < 0) exponent.natAbs

def digitRun (s : List Char) : List Char × List Char := (s.takeWhile isDigit, s.dropWhile isDigit)

def exponent? : List Char → Option Int
  | [] => some 0
  | c :: rest =>
    if c = 'e' ∨ c = 'E' then
      match rest with
      | '-' :: ds => (value? ds).map fun n => -(n : Int)
      | '+' :: ds => (value? ds).map Int.ofNat
      | ds => (value? ds).map Int.ofNat
    else none

def unsignedFloat? (s : List Char) : Option Float :=
  let (whole, rest) := digitRun s
  let (fraction, rest) := match rest with
    | '.' :: rest => digitRun rest
    | rest => ([], rest)
  if whole = [] ∧ fraction = [] then none
  else (exponent? rest).map fun e => nearest (value (whole ++ fraction)) (e - fraction.length)

def float? (s : List Char) : Option Float :=
  let (minus, s) := match s with
    | '-' :: rest => (true, rest)
    | '+' :: rest => (false, rest)
    | rest => (false, rest)
  let name := String.ofList (s.map Char.toLower)
  let size :=
    if name = "inf" ∨ name = "infinity" then some (1 / 0)
    else if name = "nan" then some (0 / 0)
    else unsignedFloat? s
  size.map fun x => if minus then -x else x

end SessionVault.Decimal
