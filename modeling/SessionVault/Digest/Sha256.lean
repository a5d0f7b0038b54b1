import SessionVault.Octets

namespace SessionVault.Digest

def roundConstants : List UInt32 :=
  [0x428a2f98, 0x71374491, 0xb5c0fbcf, 0xe9b5dba5, 0x3956c25b, 0x59f111f1, 0x923f82a4, 0xab1c5ed5,
    0xd807aa98, 0x12835b01, 0x243185be, 0x550c7dc3, 0x72be5d74, 0x80deb1fe, 0x9bdc06a7, 0xc19bf174,
    0xe49b69c1, 0xefbe4786, 0x0fc19dc6, 0x240ca1cc, 0x2de92c6f, 0x4a7484aa, 0x5cb0a9dc, 0x76f988da,
    0x983e5152, 0xa831c66d, 0xb00327c8, 0xbf597fc7, 0xc6e00bf3, 0xd5a79147, 0x06ca6351, 0x14292967,
    0x27b70a85, 0x2e1b2138, 0x4d2c6dfc, 0x53380d13, 0x650a7354, 0x766a0abb, 0x81c2c92e, 0x92722c85,
    0xa2bfe8a1, 0xa81a664b, 0xc24b8b70, 0xc76c51a3, 0xd192e819, 0xd6990624, 0xf40e3585, 0x106aa070,
    0x19a4c116, 0x1e376c08, 0x2748774c, 0x34b0bcb5, 0x391c0cb3, 0x4ed8aa4a, 0x5b9cca4f, 0x682e6ff3,
    0x748f82ee, 0x78a5636f, 0x84c87814, 0x8cc70208, 0x90befffa, 0xa4506ceb, 0xbef9a3f7, 0xc67178f2]

structure State where
  a : UInt32
  b : UInt32
  c : UInt32
  d : UInt32
  e : UInt32
  f : UInt32
  g : UInt32
  h : UInt32

def State.initial : State :=
  ⟨0x6a09e667, 0xbb67ae85, 0x3c6ef372, 0xa54ff53a, 0x510e527f, 0x9b05688c, 0x1f83d9ab, 0x5be0cd19⟩

def rotateRight (x : UInt32) (n : UInt32) : UInt32 := (x >>> n) ||| (x <<< (32 - n))

def State.round (s : State) (word constant : UInt32) : State :=
  let spread := rotateRight s.e 6 ^^^ rotateRight s.e 11 ^^^ rotateRight s.e 25
  let choice := (s.e &&& s.f) ^^^ (~~~s.e &&& s.g)
  let t := s.h + spread + choice + constant + word
  let fold := rotateRight s.a 2 ^^^ rotateRight s.a 13 ^^^ rotateRight s.a 22
  let majority := (s.a &&& s.b) ^^^ (s.a &&& s.c) ^^^ (s.b &&& s.c)
  ⟨t + fold + majority, s.a, s.b, s.c, s.d + t, s.e, s.f, s.g⟩

def State.add (s t : State) : State :=
  ⟨s.a + t.a, s.b + t.b, s.c + t.c, s.d + t.d, s.e + t.e, s.f + t.f, s.g + t.g, s.h + t.h⟩

def extend : Nat → List UInt32 → List UInt32
  | 0, words => words
  | n + 1, words =>
    let far := words.getD 14 0
    let near := words.getD 1 0
    let low := rotateRight far 7 ^^^ rotateRight far 18 ^^^ (far >>> 3)
    let high := rotateRight near 17 ^^^ rotateRight near 19 ^^^ (near >>> 10)
    extend n ((words.getD 15 0 + low + words.getD 6 0 + high) :: words)

def wordsOf : Octets → List UInt32
  | a :: b :: c :: d :: rest => UInt32.ofNat (Octets.toNat [a, b, c, d]) :: wordsOf rest
  | _ => []

def schedule (block : Octets) : List UInt32 := (extend 48 (wordsOf block).reverse).reverse

def State.absorb (s : State) (block : Octets) : State :=
  s.add (((schedule block).zip roundConstants).foldl (fun s p => s.round p.1 p.2) s)

def pad (message : Octets) : Octets :=
  let bits := 8 * message.length
  message ++ 0x80 :: List.replicate ((119 - message.length % 64) % 64) 0 ++
    Octets.ofWord (UInt32.ofNat (bits / 0x100000000)) ++ Octets.ofWord (UInt32.ofNat bits)

def State.absorbAll (s : State) (message : Octets) : State :=
  if message.length < 64 then s
  else (s.absorb (message.take 64)).absorbAll (message.drop 64)
termination_by message.length
decreasing_by simp only [List.length_drop]; omega

def State.octets (s : State) : Octets :=
  [s.a, s.b, s.c, s.d, s.e, s.f, s.g, s.h].flatMap Octets.ofWord

def sha256 (message : Octets) : Octets := (State.initial.absorbAll (pad message)).octets

@[simp] theorem sha256_length (message : Octets) : (sha256 message).length = 32 := rfl

end SessionVault.Digest
