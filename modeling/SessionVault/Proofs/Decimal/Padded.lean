import SessionVault.Decimal.Numeral

namespace SessionVault.Decimal

theorem length_digits_le {n w : Nat} (hw : 0 < w) (h : n < Nat.pow 10 w) : (digits n).length ≤ w := by
  fun_induction digits n generalizing w with
  | case1 n hn => exact hw
  | case2 n hn ih =>
    cases w with
    | zero => omega
    | succ w =>
      have hd : n / 10 < Nat.pow 10 w := by
        have : Nat.pow 10 (w + 1) = Nat.pow 10 w * 10 := rfl
        omega
      have hw : 0 < w := by
        cases w with
        | zero => exact absurd h (by simpa using hn)
        | succ w => exact Nat.succ_pos w
      simpa using ih hw hd

theorem length_padded {n w : Nat} (hw : 0 < w) (h : n < Nat.pow 10 w) : (padded w n).length = w := by
  have := length_digits_le hw h
  simp only [padded, List.length_append, List.length_replicate, numeral, List.length_map]
  omega

theorem isDigit_padded (w n : Nat) : ∀ c ∈ padded w n, isDigit c = true := by
  intro c hc
  rcases List.mem_append.1 hc with hc | hc
  · rw [(List.mem_replicate.1 hc).2]
    rfl
  · exact List.all_eq_true.1 (isDigit_numeral n) c hc

theorem ofDigits_replicate (k : Nat) (ds : List Nat) :
    ofDigits (List.replicate k 0 ++ ds) = ofDigits ds := by
  induction k with
  | zero => rfl
  | succ k ih => exact ih

@[simp] theorem value_padded (w n : Nat) : value (padded w n) = n := by
  have h : digitValue '0' = 0 := rfl
  rw [padded, value, List.map_append, List.map_replicate, h, ofDigits_replicate]
  exact value_numeral n

end SessionVault.Decimal
