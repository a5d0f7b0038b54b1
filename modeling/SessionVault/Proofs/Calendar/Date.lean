import SessionVault.Calendar.Date

namespace SessionVault.Calendar

theorem daysBeforeYear_cycles {e c q r : Int} (hc : 0 ≤ c ∧ c ≤ 3) (hq : 0 ≤ q ∧ q ≤ 24)
    (hr : 0 ≤ r ∧ r ≤ 3) :
    daysBeforeYear (400 * e + 100 * c + 4 * q + r + 1) =
      146097 * e + 36524 * c + 1461 * q + 365 * r := by
  have h4 : (400 * e + 100 * c + 4 * q + r) / 4 = 100 * e + 25 * c + q := by omega
  have h100 : (400 * e + 100 * c + 4 * q + r) / 100 = 4 * e + c := by omega
  have h400 : (400 * e + 100 * c + 4 * q + r) / 400 = e := by omega
  simp only [daysBeforeYear, Int.add_sub_cancel, h4, h100, h400]
  omega

theorem daysBeforeYear_add (year : Int) (k : Nat) :
    daysBeforeYear year ≤ daysBeforeYear (year + k) := by
  induction k with
  | zero => simp
  | succ k ih =>
    have : daysBeforeYear (year + k) ≤ daysBeforeYear (year + (k + 1 : Nat)) := by
      unfold daysBeforeYear
      omega
    omega

theorem daysBeforeYear_le {year other : Int} (h : year ≤ other) :
    daysBeforeYear year ≤ daysBeforeYear other := by
  have := daysBeforeYear_add year (other - year).toNat
  have he : year + ((other - year).toNat : Int) = other := by omega
  rwa [he] at this

theorem isLeap_cycles {e c q r : Int} (hc : 0 ≤ c ∧ c ≤ 3) (hq : 0 ≤ q ∧ q ≤ 24)
    (hr : 0 ≤ r ∧ r ≤ 3) :
    isLeap (400 * e + 100 * c + 4 * q + r + 1) = true ↔ r = 3 ∧ (q = 24 → c = 3) := by
  simp only [isLeap, Bool.and_eq_true, Bool.or_eq_true, beq_iff_eq, bne_iff_ne, ne_eq]
  omega

def dayOfYear (number : Int) : Int := number + epoch - daysBeforeYear (yearOf number)

def yearLength (year : Int) : Nat := if isLeap year then 366 else 365

theorem dayOfYear_range (number : Int) :
    0 ≤ dayOfYear number ∧ dayOfYear number < yearLength (yearOf number) := by
  generalize hn : number + epoch = n
  obtain ⟨e, he⟩ : ∃ e, n / 146097 = e := ⟨_, rfl⟩
  obtain ⟨c, hc⟩ : ∃ c, min (n % 146097 / 36524) 3 = c := ⟨_, rfl⟩
  obtain ⟨m, hm⟩ : ∃ m, n % 146097 - c * 36524 = m := ⟨_, rfl⟩
  obtain ⟨q, hq⟩ : ∃ q, m / 1461 = q := ⟨_, rfl⟩
  obtain ⟨r, hr⟩ : ∃ r, min (m % 1461 / 365) 3 = r := ⟨_, rfl⟩
  have hy : yearOf number = 400 * e + 100 * c + 4 * q + r + 1 := by
    simp only [yearOf, hn, he, hc, hm, hq, hr]
  have hc' : 0 ≤ c ∧ c ≤ 3 := by omega
  have hm' : 0 ≤ m ∧ (m < 36524 ∨ m = 36524 ∧ c = 3) := by omega
  have hq' : 0 ≤ q ∧ q ≤ 24 := by omega
  have hr' : 0 ≤ r ∧ r ≤ 3 := by omega
  have hleap := isLeap_cycles (e := e) hc' hq' hr'
  rw [dayOfYear, hn, yearLength, hy, daysBeforeYear_cycles hc' hq' hr']
  have hsum : n = 146097 * e + 36524 * c + 1461 * q + m % 1461 := by omega
  split
  · next hl =>
    have := hleap.1 hl
    omega
  · next hl =>
    have := mt hleap.2 hl
    omega

theorem daysBefore_congr {year other : Int} (h : isLeap year = isLeap other) :
    daysBefore year = daysBefore other := by
  funext month
  simp [daysBefore, h]

theorem monthDay_congr {year other : Int} (h : isLeap year = isLeap other) :
    monthDay year = monthDay other := by
  funext n
  simp [monthDay, daysBefore_congr h]

/-- What month and day of the `n`th day of a year are to be. -/
def IsMonthDay (year : Int) (n : Nat) (p : Nat × Nat) : Prop :=
  (1 ≤ p.1 ∧ p.1 ≤ 12) ∧ (1 ≤ p.2 ∧ p.2 ≤ daysInMonth year p.1) ∧
    daysBefore year p.1 + (p.2 - 1) = n

instance (year : Int) (n : Nat) (p : Nat × Nat) : Decidable (IsMonthDay year n p) :=
  inferInstanceAs (Decidable (_ ∧ _ ∧ _))

theorem isMonthDay_congr {year other : Int} (h : isLeap year = isLeap other) :
    IsMonthDay year = IsMonthDay other := by
  funext n p
  simp only [IsMonthDay, daysInMonth, daysBefore_congr h]

theorem isMonthDay_leap : ∀ n < 366, IsMonthDay 2000 n (monthDay 2000 n) := by decide +kernel

theorem isMonthDay_common : ∀ n < 365, IsMonthDay 2001 n (monthDay 2001 n) := by decide +kernel

theorem isMonthDay_monthDay {year : Int} {n : Nat} (h : n < yearLength year) :
    IsMonthDay year n (monthDay year n) := by
  unfold yearLength at h
  split at h
  · next hl =>
    have hc : isLeap year = isLeap 2000 := hl
    rw [isMonthDay_congr hc, monthDay_congr hc]
    exact isMonthDay_leap n h
  · next hl =>
    have hc : isLeap year = isLeap 2001 := (Bool.not_eq_true _).mp hl
    rw [isMonthDay_congr hc, monthDay_congr hc]
    exact isMonthDay_common n h

theorem exists_date_civil (number : Int) :
    ∃ d : Date, civil number = (d.year, d.month, d.day) ∧ d.number = number := by
  have hr := dayOfYear_range number
  have h : IsMonthDay (yearOf number) (dayOfYear number).toNat
      (monthDay (yearOf number) (dayOfYear number).toNat) := isMonthDay_monthDay (by omega)
  refine ⟨⟨_, _, _, h.1, h.2.1⟩, rfl, ?_⟩
  have hn := h.2.2
  have hd : dayOfYear number = number + epoch - daysBeforeYear (yearOf number) := rfl
  simp only [Date.number]
  omega

theorem Date.of?_eq_some (d : Date) : Date.of? d.year d.month d.day = some d :=
  dif_pos ⟨d.month_valid, d.day_valid⟩

theorem daysInMonth_le {year : Int} {month : Nat} (h : month ≤ 12) :
    daysInMonth year month ≤ 31 := by
  have hy : ∀ m ≤ 12, daysInMonth 2000 m ≤ 31 ∧ daysInMonth 2001 m ≤ 31 := by decide
  unfold daysInMonth at hy ⊢
  cases hl : isLeap year with
  | true =>
    have hc : isLeap year = isLeap 2000 := hl
    rw [daysBefore_congr hc]
    exact (hy month h).1
  | false =>
    have hc : isLeap year = isLeap 2001 := hl
    rw [daysBefore_congr hc]
    exact (hy month h).2

theorem daysBefore_le (year : Int) (month : Nat) : daysBefore year month ≤ 366 := by
  have h : commonDaysBefore month ≤ 365 := by
    unfold commonDaysBefore
    split <;> decide
  unfold daysBefore
  split <;> omega

theorem Date.day_le (d : Date) : d.day ≤ 31 :=
  Nat.le_trans d.day_valid.2 (daysInMonth_le d.month_valid.2)

theorem Date.day_of_year_le (d : Date) : daysBefore d.year d.month + (d.day - 1) ≤ 365 := by
  have h := d.day_valid
  have hb := daysBefore_le d.year (d.month + 1)
  unfold daysInMonth at h
  omega

end SessionVault.Calendar
