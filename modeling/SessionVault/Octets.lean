namespace SessionVault

abbrev Octets := List UInt8

namespace Octets

def ofText (s : String) : Octets := s.toUTF8.data.toList

def text? (o : Octets) : Option String := String.fromUTF8? ⟨o.toArray⟩

@[simp] theorem text?_ofText (s : String) : text? (ofText s) = some s := by
  have h : (⟨(ofText s).toArray⟩ : ByteArray) = s.toByteArray := rfl
  rw [text?, h, String.fromUTF8?, dif_pos s.isValidUTF8]
  rfl

def ascii (s : List Char) : Octets := s.map fun c => UInt8.ofNat c.toNat

def ofWord (w : UInt32) : Octets :=
  [(w >>> 24).toUInt8, (w >>> 16).toUInt8, (w >>> 8).toUInt8, w.toUInt8]

def toNat (o : Octets) : Nat := o.foldl (fun n b => n * 256 + b.toNat) 0

def hexDigit (n : Nat) : Char :=
  if n < 10 then Char.ofNat (48 + n) else Char.ofNat (87 + n)

def upperHexDigit (n : Nat) : Char :=
  if n < 10 then Char.ofNat (48 + n) else Char.ofNat (55 + n)

def hexValue? (c : Char) : Option Nat :=
  if '0' ≤ c ∧ c ≤ '9' then some (c.toNat - 48)
  else if 'a' ≤ c ∧ c ≤ 'f' then some (c.toNat - 87)
  else if 'A' ≤ c ∧ c ≤ 'F' then some (c.toNat - 55)
  else none

def hex (o : Octets) : String :=
  String.ofList (o.flatMap fun b => [hexDigit (b.toNat / 16), hexDigit (b.toNat % 16)])

def upperHex (o : Octets) : String :=
  String.ofList (o.flatMap fun b => [upperHexDigit (b.toNat / 16), upperHexDigit (b.toNat % 16)])

def ofHexDigits? : List Char → Option Octets
  | [] => some []
  | [_] => none
  | h :: l :: rest => return UInt8.ofNat ((← hexValue? h) * 16 + (← hexValue? l)) :: (← ofHexDigits? rest)

def ofHex? (s : String) : Option Octets := ofHexDigits? s.toList

end Octets

end SessionVault
