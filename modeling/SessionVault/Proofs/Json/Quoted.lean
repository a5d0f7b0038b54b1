import SessionVault.Json.Quoted

namespace SessionVault.Json

theorem escapeLetter_spec {b letter : UInt8} (h : escapeLetter? b = some letter) :
    letter ≠ 0x75 ∧ unescape letter = some b := by
  unfold escapeLetter? at h
  split at h <;> cases h <;> decide

theorem plain_of_escapeLetter {b : UInt8} (h : escapeLetter? b = none) : b ≠ 0x22 ∧ b ≠ 0x5C := by
  constructor <;> rintro rfl <;> cases h

theorem hexOctet_spec : ∀ n < 16, hexOctetValue? (hexOctet n) = some n := by decide

theorem codePoint_ofNat : ∀ n < 0x20, codePoint n = [UInt8.ofNat n] := by decide +kernel

theorem Quote.read_cons {q r : Quote} {b : UInt8} {a rest : Octets}
    (hne : ¬ (q = .plain ∧ b = 0x22)) (h : q.step b = some (r, a)) :
    q.read (b :: rest) = (r.read rest).map fun p => (a ++ p.1, p.2) := by
  rw [Quote.read, if_neg hne, h]
  cases hr : r.read rest <;> simp [hr]

theorem Quote.read_control {b : UInt8} (h : b < 0x20) (rest : Octets) :
    Quote.plain.read ([0x5C, 0x75, 0x30, 0x30, hexOctet (b.toNat / 16), hexOctet (b.toNat % 16)] ++ rest) =
      (Quote.plain.read rest).map fun p => (b :: p.1, p.2) := by
  have hb : b.toNat < 32 := h
  have h1 := hexOctet_spec (b.toNat / 16) (by omega)
  have h2 := hexOctet_spec (b.toNat % 16) (by omega)
  have h0 : hexOctetValue? 0x30 = some 0 := by decide
  have hn : (b.toNat / 16) * 16 + b.toNat % 16 = b.toNat := by omega
  have hu : Quote.ofUnit b.toNat = some (.plain, [b]) := by
    rw [Quote.ofUnit, if_neg (by omega), if_neg (by omega), codePoint_ofNat _ hb]
    simp
  simp only [List.cons_append, List.nil_append]
  rw [Quote.read_cons (by decide) (r := .slash) (a := []) (by decide),
    Quote.read_cons (by decide) (r := .hex 4 0) (a := []) (by decide),
    Quote.read_cons (by decide) (r := .hex 3 0) (a := []) (by simp [Quote.step, h0]),
    Quote.read_cons (by decide) (r := .hex 2 0) (a := []) (by simp [Quote.step, h0]),
    Quote.read_cons (by simp) (r := .hex 1 (b.toNat / 16)) (a := []) (by simp [Quote.step, h1]),
    Quote.read_cons (by simp) (r := .plain) (a := [b]) (by simp [Quote.step, h2, hn, hu])]
  simp [Function.comp_def]

theorem Quote.read_escape (b : UInt8) (rest : Octets) :
    Quote.plain.read (escape b ++ rest) =
      (Quote.plain.read rest).map fun p => (b :: p.1, p.2) := by
  unfold escape
  split
  · next letter hl =>
    obtain ⟨hne, hu⟩ := escapeLetter_spec hl
    simp only [List.cons_append, List.nil_append]
    rw [Quote.read_cons (by decide) (r := .slash) (a := []) (by decide),
      Quote.read_cons (by simp) (r := .plain) (a := [b]) (by simp [Quote.step, hne, hu])]
    simp [Function.comp_def]
  · next hl =>
    obtain ⟨hq, hs⟩ := plain_of_escapeLetter hl
    split
    · next hb => exact Quote.read_control hb rest
    · next hb => exact Quote.read_cons (r := .plain) (a := [b]) (by simp [hq]) (by simp [Quote.step, hs, hb])

theorem Quote.read_flatMap_escape (text rest : Octets) :
    Quote.plain.read (text.flatMap escape ++ 0x22 :: rest) = some (text, rest) := by
  induction text with
  | nil => rfl
  | cons b text ih => rw [List.flatMap_cons, List.append_assoc, Quote.read_escape, ih]; rfl

theorem quoted_eq (s : String) (rest : Octets) :
    quoted s ++ rest = 0x22 :: ((Octets.ofText s).flatMap escape ++ 0x22 :: rest) := by
  simp [quoted]

theorem readQuoted_escaped (s : String) (rest : Octets) :
    readQuoted ((Octets.ofText s).flatMap escape ++ 0x22 :: rest) = some (s, rest) := by
  simp [readQuoted, Quote.read_flatMap_escape]

end SessionVault.Json
