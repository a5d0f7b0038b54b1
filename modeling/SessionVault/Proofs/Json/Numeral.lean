import SessionVault.Json.Numeral

namespace SessionVault.Json

/-- What may follow a number without carrying it on. -/
def EndsNumber : Octets → Prop
  | [] => True
  | b :: _ => isDigitOctet b = false ∧ b ≠ 0x2E ∧ b ≠ 0x65 ∧ b ≠ 0x45

section Scan

variable {rest input r : Octets}

theorem takeDigits_append (h : EndsNumber rest) (input : Octets) :
    takeDigits (input ++ rest) = ((takeDigits input).1, (takeDigits input).2 ++ rest) := by
  induction input with
  | nil =>
    cases rest with
    | nil => rfl
    | cons b rest => simp [takeDigits, h.1]
  | cons b input ih =>
    simp only [takeDigits, Prod.mk.injEq] at ih
    cases hb : isDigitOctet b with
    | true => simp [takeDigits, hb, ih]
    | false => simp [takeDigits, hb]

theorem takeDigits1_append (h : EndsNumber rest) {ds : List Nat}
    (hi : takeDigits1 input = some (ds, r)) :
    takeDigits1 (input ++ rest) = some (ds, r ++ rest) := by
  unfold takeDigits1 at hi ⊢
  rw [takeDigits_append h]
  split at hi
  · cases hi
  · next hne heq =>
    simp only [Option.some.injEq, Prod.mk.injEq] at hi
    obtain ⟨rfl, rfl⟩ := hi
    rw [heq]
    split <;> simp_all

theorem scanWhole_append (h : EndsNumber rest) {ds : List Nat}
    (hi : scanWhole input = some (ds, r)) :
    scanWhole (input ++ rest) = some (ds, r ++ rest) := by
  unfold scanWhole at hi ⊢
  split at hi
  · cases hi
  · cases hi
  · next hz hp =>
    cases hi
    rw [takeDigits1_append h hp]
    split
    · simp_all
    · next heq =>
      cases heq
      exact absurd rfl (hz _ _ _)
    · simp_all

theorem exists_cons_of_append (h : EndsNumber rest) {b : UInt8} (hb : ¬ EndsNumber [b])
    {t : Octets} (he : input ++ rest = b :: t) : ∃ t', input = b :: t' := by
  cases input with
  | nil =>
    cases he
    exact absurd h hb
  | cons c input =>
    cases he
    exact ⟨_, rfl⟩

theorem scanFraction_append (h : EndsNumber rest) {ds : Option (List Nat)}
    (hi : scanFraction input = some (ds, r)) :
    scanFraction (input ++ rest) = some (ds, r ++ rest) := by
  unfold scanFraction at hi
  split at hi
  · obtain ⟨p, hp, he⟩ := Option.map_eq_some_iff.1 hi
    cases he
    simp [scanFraction, takeDigits1_append h hp]
  · next hne =>
    cases hi
    unfold scanFraction
    split
    · next heq =>
      obtain ⟨t, rfl⟩ := exists_cons_of_append h (by simp [EndsNumber]) heq
      exact absurd rfl (hne t)
    · rfl

theorem scanPower_append (h : EndsNumber rest) {e : Option (Bool × List Nat)}
    (hi : scanPower input = some (e, r)) :
    scanPower (input ++ rest) = some (e, r ++ rest) := by
  unfold scanPower at hi
  split at hi
  · obtain ⟨p, hp, he⟩ := Option.map_eq_some_iff.1 hi
    cases he
    simp [scanPower, takeDigits1_append h hp]
  · obtain ⟨p, hp, he⟩ := Option.map_eq_some_iff.1 hi
    cases he
    simp [scanPower, takeDigits1_append h hp]
  · next hplus hminus =>
    obtain ⟨p, hp, he⟩ := Option.map_eq_some_iff.1 hi
    cases he
    cases input with
    | nil => cases hp
    | cons b input =>
      unfold scanPower
      split
      · next heq =>
        cases heq
        exact absurd rfl (hplus input)
      · next heq =>
        cases heq
        exact absurd rfl (hminus input)
      · rw [takeDigits1_append h hp]
        rfl

theorem scanExponent_append (h : EndsNumber rest) {e : Option (Bool × List Nat)}
    (hi : scanExponent input = some (e, r)) :
    scanExponent (input ++ rest) = some (e, r ++ rest) := by
  unfold scanExponent at hi
  split at hi
  · exact scanPower_append h hi
  · exact scanPower_append h hi
  · next hlower hupper =>
    cases hi
    unfold scanExponent
    split
    · next heq =>
      obtain ⟨t, rfl⟩ := exists_cons_of_append h (by simp [EndsNumber]) heq
      exact absurd rfl (hlower t)
    · next heq =>
      obtain ⟨t, rfl⟩ := exists_cons_of_append h (by simp [EndsNumber]) heq
      exact absurd rfl (hupper t)
    · rfl

theorem scanSign_append (h : input ≠ []) :
    scanSign (input ++ rest) = ((scanSign input).1, (scanSign input).2 ++ rest) := by
  cases input with
  | nil => exact absurd rfl h
  | cons b input =>
    unfold scanSign
    split
    · next heq => simp_all
    · next hne =>
      split
      · next heq => simp_all
      · rfl

theorem Numeral.scan_append (h : EndsNumber rest) {s : Numeral}
    (hi : Numeral.scan input = some (s, r)) :
    Numeral.scan (input ++ rest) = some (s, r ++ rest) := by
  have hne : input ≠ [] := by
    rintro rfl
    simp [Numeral.scan, scanSign, scanWhole, takeDigits1, takeDigits] at hi
  simp only [Numeral.scan, Option.bind_eq_bind, Option.bind_eq_some_iff, Option.pure_def] at hi ⊢
  obtain ⟨⟨whole, r1⟩, h1, ⟨fraction, r2⟩, h2, ⟨exponent, r3⟩, h3, he⟩ := hi
  cases he
  rw [scanSign_append hne]
  exact ⟨_, scanWhole_append h h1, _, scanFraction_append h h2, _, scanExponent_append h h3, rfl⟩

end Scan

def digitOctet (d : Nat) : UInt8 := UInt8.ofNat (Decimal.digitChar d).toNat

theorem digitOctet_spec :
    ∀ d < 10, isDigitOctet (digitOctet d) = true ∧ (digitOctet d).toNat - 48 = d := by
  decide

theorem ascii_numeral (n : Nat) :
    Octets.ascii (Decimal.numeral n) = (Decimal.digits n).map digitOctet := by
  simp [Octets.ascii, Decimal.numeral, digitOctet]

theorem takeDigits_map {ds : List Nat} (h : ∀ d ∈ ds, d < 10) :
    takeDigits (ds.map digitOctet) = (ds, []) := by
  induction ds with
  | nil => rfl
  | cons d ds ih =>
    obtain ⟨hd, hv⟩ := digitOctet_spec d (h d List.mem_cons_self)
    have ih := ih fun d hd => h d (List.mem_cons_of_mem _ hd)
    simp only [takeDigits, Prod.mk.injEq] at ih
    simp [takeDigits, hd, hv, ih]

theorem digits_of_zero {n : Nat} {ds : List Nat} (h : Decimal.digits n = 0 :: ds) : ds = [] := by
  fun_induction Decimal.digits n generalizing ds with
  | case1 n hn => exact (List.cons.inj h).2.symm
  | case2 n hn ih =>
    cases hd : Decimal.digits (n / 10) with
    | nil => exact absurd hd (Decimal.digits_ne_nil _)
    | cons d tail =>
      rw [hd, List.cons_append] at h
      obtain ⟨rfl, _⟩ := List.cons.inj h
      rw [ih hd] at hd
      have := Decimal.ofDigits_digits (n / 10)
      rw [hd] at this
      simp [Decimal.ofDigits] at this
      omega

theorem scanWhole_numeral (n : Nat) :
    scanWhole (Octets.ascii (Decimal.numeral n)) = some (Decimal.digits n, []) := by
  have h1 : takeDigits1 (Octets.ascii (Decimal.numeral n)) = some (Decimal.digits n, []) := by
    rw [takeDigits1, ascii_numeral, takeDigits_map (Decimal.digits_lt n)]
    split
    · next heq => exact absurd (Prod.mk.inj heq).1 (Decimal.digits_ne_nil n)
    · next heq => rw [heq]
  rw [scanWhole, h1]
  split
  · next heq => cases heq
  · next heq =>
    have := digits_of_zero (Prod.mk.inj (Option.some.inj heq)).1
    cases this
  · next heq => rw [heq]

theorem scanSign_numeral (n : Nat) :
    scanSign (Octets.ascii (Decimal.numeral n)) = (false, Octets.ascii (Decimal.numeral n)) := by
  rw [ascii_numeral]
  cases hds : Decimal.digits n with
  | nil => exact absurd hds (Decimal.digits_ne_nil n)
  | cons d ds =>
    have hd : d < 10 := Decimal.digits_lt n d (hds ▸ List.mem_cons_self)
    unfold scanSign
    split
    · next heq =>
      have := (digitOctet_spec d hd).1
      rw [(List.cons.inj heq).1] at this
      cases this
    · rfl

theorem scan_numeral (n : Nat) :
    Numeral.scan (Octets.ascii (Decimal.numeral n)) =
      some (⟨false, Decimal.digits n, none, none⟩, []) := by
  simp [Numeral.scan, scanSign_numeral, scanWhole_numeral, scanFraction, scanExponent]

theorem scan_minus_numeral (n : Nat) :
    Numeral.scan (Octets.ascii ('-' :: Decimal.numeral n)) =
      some (⟨true, Decimal.digits n, none, none⟩, []) := by
  have hs : scanSign (Octets.ascii ('-' :: Decimal.numeral n)) =
      (true, Octets.ascii (Decimal.numeral n)) := rfl
  simp [Numeral.scan, hs, scanWhole_numeral, scanFraction, scanExponent]

namespace Number

def ofOctets? (input : Octets) : Option Number :=
  match Numeral.scan input with
  | some (s, []) => s.number
  | _ => none

def ReadsBack (n : Number) : Prop := ofOctets? (Octets.ascii n.text) = some n

instance (n : Number) : Decidable n.ReadsBack := inferInstanceAs (Decidable (_ = _))

theorem readsBack_whole (n : Int) (h) : (whole n h).ReadsBack := by
  rw [ReadsBack, ofOctets?, text]
  by_cases hneg : n < 0
  · obtain ⟨k, rfl⟩ : ∃ k : Nat, n = -(k : Int) := ⟨n.natAbs, by omega⟩
    have hk : 0 < (k : Int) ∧ (k : Int) ≤ 0x8000000000000000 := by omega
    rw [if_pos hneg, Int.natAbs_neg, Int.natAbs_natCast, scan_minus_numeral]
    simp only [Numeral.number, Decimal.ofDigits_digits, if_true]
    exact dif_pos hk
  · obtain ⟨k, rfl⟩ : ∃ k : Nat, n = (k : Int) := ⟨n.natAbs, by omega⟩
    have hk : 0 ≤ (k : Int) ∧ (k : Int) < 0x10000000000000000 := by omega
    rw [if_neg hneg, Int.natAbs_natCast, scan_numeral]
    simp only [Numeral.number, Decimal.ofDigits_digits, Bool.false_eq_true, if_false]
    exact dif_pos hk

theorem ReadsBack.scan {n : Number} (h : n.ReadsBack) :
    ∃ s : Numeral, Numeral.scan (Octets.ascii n.text) = some (s, []) ∧ s.number = some n := by
  unfold ReadsBack ofOctets? at h
  split at h
  · next s hs => exact ⟨s, hs, h⟩
  · cases h

end Number

theorem head_of_scan {input r : Octets} {s : Numeral} (h : Numeral.scan input = some (s, r)) :
    ∃ b t, input = b :: t ∧ (isDigitOctet b = true ∨ b = 0x2D) := by
  cases input with
  | nil => simp [Numeral.scan, scanSign, scanWhole, takeDigits1, takeDigits] at h
  | cons b t =>
    refine ⟨b, t, rfl, ?_⟩
    by_cases hb : b = 0x2D
    · exact .inr hb
    · left
      cases hd : isDigitOctet b with
      | true => rfl
      | false =>
        exfalso
        have hs : scanSign (b :: t) = (false, b :: t) := by
          unfold scanSign
          split
          · simp_all
          · rfl
        simp [Numeral.scan, hs, scanWhole, takeDigits1, takeDigits, hd] at h

end SessionVault.Json
