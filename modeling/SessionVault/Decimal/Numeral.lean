namespace SessionVault.Decimal

def digits (n : Nat) : List Nat :=
  if n < 10 then [n] else digits (n / 10) ++ [n % 10]

def digitChar (d : Nat) : Char := Char.ofNat (48 + d)

def isDigit (c : Char) : Bool := '0' ≤ c && c ≤ '9'

def digitValue (c : Char) : Nat := c.toNat - 48

def numeral (n : Nat) : List Char := (digits n).map digitChar

def ofDigits (ds : List Nat) : Nat := ds.foldl (fun n d => 10 * n + d) 0

def value (s : List Char) : Nat := ofDigits (s.map digitValue)

def value? (s : List Char) : Option Nat :=
  if s ≠ [] ∧ s.all isDigit then some (value s) else none

def padded (width n : Nat) : List Char :=
  List.replicate (width - (numeral n).length) '0' ++ numeral n

theorem digits_lt (n : Nat) : ∀ d ∈ digits n, d < 10 := by
  fun_induction digits n with
  | case1 n h => simpa using h
  | case2 n h ih =>
    intro d hd
    rcases List.mem_append.1 hd with hd | hd
    · exact ih d hd
    · simp only [List.mem_singleton] at hd
      omega

theorem digits_ne_nil (n : Nat) : digits n ≠ [] := by
  unfold digits
  split <;> simp

@[simp] theorem ofDigits_digits (n : Nat) : ofDigits (digits n) = n := by
  fun_induction digits n with
  | case1 n h => simp [ofDigits]
  | case2 n h ih =>
    simp only [ofDigits, List.foldl_append, List.foldl_cons, List.foldl_nil] at ih ⊢
    omega

theorem digitChar_spec : ∀ d < 10, isDigit (digitChar d) = true ∧ digitValue (digitChar d) = d := by
  decide

theorem map_digitValue_numeral (n : Nat) : (numeral n).map digitValue = digits n := by
  rw [numeral, List.map_map]
  conv => rhs; rw [← List.map_id (digits n)]
  exact List.map_congr_left fun d hd => (digitChar_spec d (digits_lt n d hd)).2

@[simp] theorem value_numeral (n : Nat) : value (numeral n) = n := by
  rw [value, map_digitValue_numeral, ofDigits_digits]

theorem isDigit_numeral (n : Nat) : (numeral n).all isDigit = true := by
  simp only [numeral, List.all_map, List.all_eq_true]
  exact fun d hd => (digitChar_spec d (digits_lt n d hd)).1

theorem numeral_ne_nil (n : Nat) : numeral n ≠ [] := by
  simpa [numeral] using digits_ne_nil n

@[simp] theorem value?_numeral (n : Nat) : value? (numeral n) = some n := by
  simp [value?, numeral_ne_nil, isDigit_numeral]

end SessionVault.Decimal
