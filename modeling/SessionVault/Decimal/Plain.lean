import SessionVault.Decimal.Numeral
import SessionVault.Decimal.Shortest

namespace SessionVault.Decimal

def positional (d : Scientific) : List Char :=
  let ds := numeral d.digits
  if 0 ≤ d.exponent then ds ++ List.replicate d.exponent.toNat '0'
  else
    let places := (-d.exponent).toNat
    let ds := List.replicate (places + 1 - ds.length) '0' ++ ds
    ds.take (ds.length - places) ++ '.' :: ds.drop (ds.length - places)

/-- The shortest digits that read back, halfway the greater ones, and names for what is not finite. -/
def plain (x : Float) : List Char :=
  if x.isNaN then ['N', 'a', 'N']
  else
    let size := Binary.ofBits x.toBits
    let text :=
      if x.isInf then ['i', 'n', 'f']
      else if size.m = 0 then ['0']
      else positional (size.shortest .up)
    if x.toBits < 0x8000000000000000 then text else '-' :: text

def signed (n : Int) : List Char := if n < 0 then '-' :: numeral n.natAbs else numeral n.natAbs

def signedValue? : List Char → Option Int
  | '+' :: rest => (value? rest).map Int.ofNat
  | '-' :: rest => (value? rest).map fun n => -(n : Int)
  | s => (value? s).map Int.ofNat

def naturalValue? : List Char → Option Nat
  | '+' :: rest => value? rest
  | s => value? s

end SessionVault.Decimal
