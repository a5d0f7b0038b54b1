import SessionVault.Octets

namespace SessionVault.Json

def escapeLetter? : UInt8 → Option UInt8
  | 0x22 => some 0x22
  | 0x5C => some 0x5C
  | 0x08 => some 0x62
  | 0x0C => some 0x66
  | 0x0A => some 0x6E
  | 0x0D => some 0x72
  | 0x09 => some 0x74
  | _ => none

def hexOctet (n : Nat) : UInt8 := UInt8.ofNat (Octets.hexDigit n).toNat

def escape (b : UInt8) : Octets :=
  match escapeLetter? b with
  | some letter => [0x5C, letter]
  | none =>
    if b < 0x20 then [0x5C, 0x75, 0x30, 0x30, hexOctet (b.toNat / 16), hexOctet (b.toNat % 16)]
    else [b]

def quoted (s : String) : Octets := 0x22 :: (Octets.ofText s).flatMap escape ++ [0x22]

inductive Quote where
  | plain
  | slash
  | hex (missing : Nat) (n : Nat)
  | lowSlash (high : Nat)
  | lowLetter (high : Nat)
  | lowHex (high : Nat) (missing : Nat) (n : Nat)
  deriving DecidableEq

def hexOctetValue? (b : UInt8) : Option Nat := Octets.hexValue? (Char.ofNat b.toNat)

def codePoint (n : Nat) : Octets := Octets.ofText (String.ofList [Char.ofNat n])

def unescape : UInt8 → Option UInt8
  | 0x22 => some 0x22
  | 0x5C => some 0x5C
  | 0x2F => some 0x2F
  | 0x62 => some 0x08
  | 0x66 => some 0x0C
  | 0x6E => some 0x0A
  | 0x72 => some 0x0D
  | 0x74 => some 0x09
  | _ => none

def Quote.ofUnit (n : Nat) : Option (Quote × Octets) :=
  if 0xD800 ≤ n ∧ n < 0xDC00 then some (.lowSlash n, [])
  else if 0xDC00 ≤ n ∧ n < 0xE000 then none
  else some (.plain, codePoint n)

def Quote.ofPair (high low : Nat) : Option (Quote × Octets) :=
  if 0xDC00 ≤ low ∧ low < 0xE000 then
    some (.plain, codePoint (0x10000 + (high - 0xD800) * 0x400 + (low - 0xDC00)))
  else none

def Quote.step : Quote → UInt8 → Option (Quote × Octets)
  | .plain, b =>
    if b = 0x5C then some (.slash, []) else if b < 0x20 then none else some (.plain, [b])
  | .slash, b =>
    if b = 0x75 then some (.hex 4 0, []) else (unescape b).map fun c => (.plain, [c])
  | .hex missing n, b => do
    let d ← hexOctetValue? b
    if missing ≤ 1 then Quote.ofUnit (n * 16 + d) else some (.hex (missing - 1) (n * 16 + d), [])
  | .lowSlash high, b => if b = 0x5C then some (.lowLetter high, []) else none
  | .lowLetter high, b => if b = 0x75 then some (.lowHex high 4 0, []) else none
  | .lowHex high missing n, b => do
    let d ← hexOctetValue? b
    if missing ≤ 1 then Quote.ofPair high (n * 16 + d)
    else some (.lowHex high (missing - 1) (n * 16 + d), [])

def Quote.read (q : Quote) : Octets → Option (Octets × Octets)
  | [] => none
  | b :: rest =>
    if q = .plain ∧ b = 0x22 then some ([], rest)
    else do
      let (q, added) ← q.step b
      let (text, after) ← q.read rest
      return (added ++ text, after)

def readQuoted (input : Octets) : Option (String × Octets) := do
  let (text, rest) ← Quote.plain.read input
  return (← Octets.text? text, rest)

/-- Passes over quoted text that nobody wants: escapes need four digits, but neither paired
surrogates nor UTF-8. -/
def Quote.skip (q : Quote) : Octets → Option Octets
  | [] => none
  | b :: rest =>
    match q with
    | .plain =>
      if b = 0x22 then some rest
      else if b = 0x5C then Quote.skip .slash rest
      else if b < 0x20 then none else Quote.skip .plain rest
    | .hex missing n =>
      if (hexOctetValue? b).isNone then none
      else if missing ≤ 1 then Quote.skip .plain rest else Quote.skip (.hex (missing - 1) n) rest
    | _ =>
      if b = 0x75 then Quote.skip (.hex 4 0) rest
      else if (unescape b).isSome then Quote.skip .plain rest else none

end SessionVault.Json
