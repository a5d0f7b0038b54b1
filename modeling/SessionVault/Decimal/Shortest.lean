/-!
The shortest decimal of a binary64 value: among the decimals that round to the value, the one on
the coarsest grid of powers of ten, and of two on that grid the nearer.  A value halfway between two
goes the way that the format of the text lays down.  All comparisons are made on naturals.
-/

namespace SessionVault.Decimal

/-- The finite value `m * 2 ^ q`; `narrow` says that the gap below it is half the gap above. -/
structure Binary where
  m : Nat
  q : Int
  narrow : Bool
  deriving DecidableEq

def Binary.ofBits (bits : UInt64) : Binary :=
  let exponent : Nat := bits.toNat / 0x10000000000000 % 0x800
  let fraction : Nat := bits.toNat % 0x10000000000000
  if exponent = 0 then ⟨fraction, -1074, false⟩
  else ⟨0x10000000000000 + fraction, (exponent : Int) - 1075, fraction = 0 ∧ 1 < exponent⟩

structure Scientific where
  digits : Nat
  exponent : Int
  deriving DecidableEq

def Binary.num (x : Binary) (k : Int) (n : Nat) : Nat :=
  n * Nat.pow 2 (x.q - 2).toNat * Nat.pow 10 (-k).toNat

def Binary.den (x : Binary) (k : Int) : Nat := Nat.pow 10 k.toNat * Nat.pow 2 (2 - x.q).toNat

/-- Whether `c * 10 ^ k` lies among the reals that round to the value; the ends of that interval
belong to it when the last binary digit is even. -/
def Binary.covers (x : Binary) (k : Int) (c : Nat) : Bool :=
  let low := x.num k (if x.narrow then 4 * x.m - 1 else 4 * x.m - 2)
  let high := x.num k (4 * x.m + 2)
  let point := c * x.den k
  if x.m % 2 = 0 then low ≤ point && point ≤ high else low < point && point < high

inductive Halfway where
  | toEven
  | up
  deriving DecidableEq

def Halfway.neighbour : Halfway → Nat → Nat
  | .toEven, below => if below % 2 = 0 then below else below + 1
  | .up, below => below + 1

/-- The point of the grid of `10 ^ k` that stands for the value, if one does.  Of two the nearer is
taken. -/
def Binary.onGrid (x : Binary) (half : Halfway) (k : Int) : Option Nat :=
  let value := x.num k (4 * x.m)
  let below := value / x.den k
  match x.covers k below, x.covers k (below + 1) with
  | false, false => none
  | true, false => some below
  | false, true => some (below + 1)
  | true, true =>
    match compare (2 * value) ((2 * below + 1) * x.den k) with
    | .lt => some below
    | .gt => some (below + 1)
    | .eq => some (half.neighbour below)

def Binary.coarsest (x : Binary) (half : Halfway) (k : Int) : Nat → Option Scientific
  | 0 => none
  | steps + 1 =>
    match x.onGrid half k with
    | some c => some ⟨c, k⟩
    | none => x.coarsest half (k - 1) steps

def Binary.exact (x : Binary) : Scientific :=
  if 0 ≤ x.q then ⟨x.m * Nat.pow 2 x.q.toNat, 0⟩ else ⟨x.m * Nat.pow 5 (-x.q).toNat, x.q⟩

/-- The shortest decimal that rounds to a nonzero value.  The grids run from `10 ^ 309`, above every
value, to `10 ^ (-324)`, finer than every gap. -/
def Binary.shortest (x : Binary) (half : Halfway) : Scientific :=
  (x.coarsest half 309 634).getD x.exact

example : (Binary.ofBits (0.1 : Float).toBits).shortest .up = ⟨1, -1⟩ := by decide +kernel
example : (Binary.ofBits (1e23 : Float).toBits).shortest .up = ⟨1, 23⟩ := by decide +kernel
example : (Binary.ofBits 1).shortest .up = ⟨5, -324⟩ := by decide +kernel
example : (Binary.ofBits (0.1 + 0.2 : Float).toBits).shortest .up = ⟨30000000000000004, -17⟩ := by
  decide +kernel
example : (Binary.ofBits (16602419.086914062 : Float).toBits).shortest .up =
    ⟨16602419086914063, -9⟩ := by decide +kernel
example : (Binary.ofBits (16602419.086914062 : Float).toBits).shortest .toEven =
    ⟨16602419086914062, -9⟩ := by decide +kernel

end SessionVault.Decimal
