import SessionVault.Digest.Sha256

namespace SessionVault.SessionId

def ofBits (bits : Octets) : String := Octets.upperHex (bits.take 16)

def generate (seed : Octets) (n : Nat) : String :=
  ofBits (Digest.sha256 (seed ++ Octets.ofWord (UInt32.ofNat n)))

def isUpperHexDigit (c : Char) : Bool := ('0' ≤ c && c ≤ '9') || ('A' ≤ c && c ≤ 'F')

def isWellFormed (id : String) : Bool := id.length == 32 && id.toList.all isUpperHexDigit

end SessionVault.SessionId
