import SessionVault.Proofs.Json.Numeral

namespace SessionVault.Json

def isFigure (c : Char) : Bool := Decimal.isDigit c || c ∈ ['-', '+', '.', 'e']

def isFigureOctet (b : UInt8) : Bool := isDigitOctet b || b ∈ [0x2D, 0x2B, 0x2E, 0x65, 0x45]

theorem all_isFigure_numeral (n : Nat) : (Decimal.numeral n).all isFigure = true := by
  have h := Decimal.isDigit_numeral n
  rw [List.all_eq_true] at h ⊢
  intro c hc
  rw [isFigure, h c hc, Bool.true_or]

theorem all_isFigure_layout (d : Decimal.Scientific) : (layout d).all isFigure = true := by
  have hmarks : isFigure '0' = true ∧ isFigure '.' = true ∧ isFigure 'e' = true ∧
      isFigure '+' = true ∧ isFigure '-' = true := by decide
  have hdigits := all_isFigure_numeral d.digits
  have hexponent := all_isFigure_numeral
  simp only [layout]
  generalize Decimal.numeral d.digits = ds at hdigits ⊢
  have hparts (n : Nat) : (ds.take n).all isFigure = true ∧ (ds.drop n).all isFigure = true := by
    rwa [← Bool.and_eq_true_iff, ← List.all_append, List.take_append_drop]
  split
  · split <;> simp [hmarks, hdigits, hparts]
  split
  · simp [hmarks, hdigits]
  · have hsign (e : Int) : isFigure (if e < 0 then '-' else '+') = true := by split <;> decide
    simp only [List.all_append, List.all_cons, hexponent, hmarks, hsign, Bool.and_true]
    split
    · exact hdigits
    · simpa [hmarks] using hdigits
    · rfl

theorem point_or_power_mem_layout (d : Decimal.Scientific) : '.' ∈ layout d ∨ 'e' ∈ layout d := by
  simp only [layout]
  split
  · split <;> simp
  split <;> simp

theorem all_isFigure_floatText (x : Float) : (floatText x).all isFigure = true := by
  simp only [floatText]
  split <;> split
  · decide
  · exact all_isFigure_layout _
  · decide
  · exact all_isFigure_layout _

theorem point_or_power_mem_floatText (x : Float) : '.' ∈ floatText x ∨ 'e' ∈ floatText x := by
  simp only [floatText]
  split <;> split
  · decide
  · exact point_or_power_mem_layout _
  · decide
  · exact (point_or_power_mem_layout _).imp (List.mem_cons_of_mem _) (List.mem_cons_of_mem _)

theorem Number.all_isFigure_text (n : Number) : n.text.all isFigure = true := by
  cases n with
  | whole n =>
    rw [text]
    split
    · exact all_isFigure_numeral _
    · exact all_isFigure_numeral _
  | real x => exact all_isFigure_floatText x

theorem Number.text_ne_nil (n : Number) : n.text ≠ [] := by
  cases n with
  | whole n =>
    rw [text]
    split
    · exact List.cons_ne_nil _ _
    · exact Decimal.numeral_ne_nil _
  | real x =>
    exact (point_or_power_mem_floatText x).elim List.ne_nil_of_mem List.ne_nil_of_mem

theorem isFigure_spec {c : Char} (h : isFigure c = true) :
    isFigureOctet (UInt8.ofNat c.toNat) = true ∧ c.toNat < 128 := by
  rw [isFigure, Bool.or_eq_true, Decimal.isDigit, Bool.and_eq_true, decide_eq_true_eq,
    decide_eq_true_eq, decide_eq_true_eq] at h
  rcases h with ⟨hlow, hhigh⟩ | h
  · have hlow : 48 ≤ c.toNat := hlow
    have hhigh : c.toNat ≤ 57 := hhigh
    have hdigit : ∀ n ≤ 57, 48 ≤ n → isFigureOctet (UInt8.ofNat n) = true := by decide
    exact ⟨hdigit c.toNat hhigh hlow, by omega⟩
  · simp only [List.mem_cons, List.not_mem_nil, or_false] at h
    rcases h with rfl | rfl | rfl | rfl <;> decide

theorem isFigureOctet_of_mem_text {n : Number} {b : UInt8} (h : b ∈ Octets.ascii n.text) :
    isFigureOctet b = true := by
  obtain ⟨c, hc, rfl⟩ := List.mem_map.1 h
  exact (isFigure_spec (List.all_eq_true.1 n.all_isFigure_text c hc)).1

section Scan

variable {input middle rest : Octets}

def Takes (P : Octets → Prop) (input rest : Octets) : Prop :=
  ∃ taken, P taken ∧ input = taken ++ rest

namespace Takes

variable {P Q R : Octets → Prop} {b : UInt8}

theorem mono (h : Takes P input rest) (hQ : ∀ t, P t → Q t) : Takes Q input rest :=
  h.imp fun t ht => ht.imp_left (hQ t)

theorem cons (h : Takes P input rest) (hQ : ∀ t, P t → Q (b :: t)) : Takes Q (b :: input) rest := by
  obtain ⟨taken, htaken, rfl⟩ := h
  exact ⟨b :: taken, hQ taken htaken, rfl⟩

theorem append (h : Takes P input middle) (h' : Takes Q middle rest)
    (hR : ∀ s t, P s → Q t → R (s ++ t)) : Takes R input rest := by
  obtain ⟨taken, htaken, rfl⟩ := h
  obtain ⟨taken', htaken', rfl⟩ := h'
  exact ⟨taken ++ taken', hR taken taken' htaken htaken', (List.append_assoc ..).symm⟩

end Takes

abbrev TakesFigures (input rest : Octets) : Prop :=
  Takes (fun taken => ∀ b ∈ taken, isFigureOctet b = true) input rest

theorem TakesFigures.refl (input : Octets) : TakesFigures input input := ⟨[], nofun, rfl⟩

theorem TakesFigures.cons {b : UInt8} (hb : isFigureOctet b = true) (h : TakesFigures input rest) :
    TakesFigures (b :: input) rest :=
  Takes.cons h fun _ ht => List.forall_mem_cons.2 ⟨hb, ht⟩

theorem TakesFigures.trans (h : TakesFigures input middle) (h' : TakesFigures middle rest) :
    TakesFigures input rest :=
  h.append h' fun _ _ hs ht => List.forall_mem_append.2 ⟨hs, ht⟩

theorem takesFigures_digits {ds : List Nat} (h : takeDigits1 input = some (ds, rest)) :
    TakesFigures input rest := by
  have hrest : rest = input.dropWhile isDigitOctet := by
    unfold takeDigits1 at h
    split at h
    · cases h
    · next heq =>
      rw [takeDigits] at heq
      cases h
      exact (Prod.mk.inj heq).2.symm
  refine ⟨input.takeWhile isDigitOctet, fun b hb => ?_, ?_⟩
  · rw [isFigureOctet, List.all_eq_true.1 List.all_takeWhile b hb, Bool.true_or]
  · rw [hrest, List.takeWhile_append_dropWhile]

theorem takesFigures_sign (input : Octets) : TakesFigures input (scanSign input).2 := by
  unfold scanSign
  split
  · exact .cons (by decide) (.refl _)
  · exact .refl _

theorem takesFigures_whole {ds : List Nat} (h : scanWhole input = some (ds, rest)) :
    TakesFigures input rest := by
  unfold scanWhole at h
  split at h
  · cases h
  · cases h
  · next hp =>
    cases h
    exact takesFigures_digits hp

theorem takesFigures_fraction {ds : Option (List Nat)} (h : scanFraction input = some (ds, rest)) :
    TakesFigures input rest := by
  unfold scanFraction at h
  split at h
  · obtain ⟨p, hp, hrest⟩ := Option.map_eq_some_iff.1 h
    cases hrest
    exact .cons (by decide) (takesFigures_digits hp)
  · cases h
    exact .refl _

theorem takesFigures_power {e : Option (Bool × List Nat)} (h : scanPower input = some (e, rest)) :
    TakesFigures input rest := by
  unfold scanPower at h
  split at h
  all_goals
    obtain ⟨p, hp, hrest⟩ := Option.map_eq_some_iff.1 h
    cases hrest
  · exact .cons (by decide) (takesFigures_digits hp)
  · exact .cons (by decide) (takesFigures_digits hp)
  · exact takesFigures_digits hp

theorem takesFigures_exponent {e : Option (Bool × List Nat)}
    (h : scanExponent input = some (e, rest)) : TakesFigures input rest := by
  unfold scanExponent at h
  split at h
  · exact .cons (by decide) (takesFigures_power h)
  · exact .cons (by decide) (takesFigures_power h)
  · cases h
    exact .refl _

theorem takesFigures_scan {s : Numeral} (h : Numeral.scan input = some (s, rest)) :
    TakesFigures input rest := by
  simp only [Numeral.scan, Option.bind_eq_bind, Option.bind_eq_some_iff, Option.pure_def] at h
  obtain ⟨⟨whole, r₁⟩, hwhole, ⟨fraction, r₂⟩, hfraction, ⟨exponent, r₃⟩, hexponent, hs⟩ := h
  cases hs
  exact (takesFigures_sign input).trans ((takesFigures_whole hwhole).trans
    ((takesFigures_fraction hfraction).trans (takesFigures_exponent hexponent)))

end Scan

end SessionVault.Json
