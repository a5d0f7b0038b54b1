namespace SessionVault.Calendar

def isLeap (year : Int) : Bool := year % 4 == 0 && (year % 100 != 0 || year % 400 == 0)

def commonDaysBefore : Nat → Nat
  | 0 | 1 => 0
  | 2 => 31
  | 3 => 59
  | 4 => 90
  | 5 => 120
  | 6 => 151
  | 7 => 181
  | 8 => 212
  | 9 => 243
  | 10 => 273
  | 11 => 304
  | 12 => 334
  | _ => 365

def daysBefore (year : Int) (month : Nat) : Nat :=
  commonDaysBefore month + if 2 < month ∧ isLeap year then 1 else 0

def daysInMonth (year : Int) (month : Nat) : Nat :=
  daysBefore year (month + 1) - daysBefore year month

def daysBeforeYear (year : Int) : Int :=
  365 * (year - 1) + (year - 1) / 4 - (year - 1) / 100 + (year - 1) / 400

def epoch : Int := 719162

structure Date where
  year : Int
  month : Nat
  day : Nat
  month_valid : 1 ≤ month ∧ month ≤ 12
  day_valid : 1 ≤ day ∧ day ≤ daysInMonth year month
  deriving DecidableEq

def Date.of? (year : Int) (month day : Nat) : Option Date :=
  if h : (1 ≤ month ∧ month ≤ 12) ∧ 1 ≤ day ∧ day ≤ daysInMonth year month then
    some ⟨year, month, day, h.1, h.2⟩
  else none

def Date.number (d : Date) : Int :=
  daysBeforeYear d.year + daysBefore d.year d.month + (d.day - 1 : Nat) - epoch

/-- The year in which a day falls.  It is found by the cycles of 400, 100, 4 and 1 years, of which
the last one hundred and the last single year in a cycle are a day longer. -/
def yearOf (number : Int) : Int :=
  let n := number + epoch
  let inEra := n % 146097
  let centuries := min (inEra / 36524) 3
  let inCentury := inEra - centuries * 36524
  let inFour := inCentury % 1461
  400 * (n / 146097) + 100 * centuries + 4 * (inCentury / 1461) + min (inFour / 365) 3 + 1

def monthDay (year : Int) (n : Nat) : Nat × Nat :=
  let month := ((List.range 12).filter fun m => daysBefore year (m + 1) ≤ n).length
  (month, n - daysBefore year month + 1)

def civil (number : Int) : Int × Nat × Nat :=
  let year := yearOf number
  (year, monthDay year (number + epoch - daysBeforeYear year).toNat)

example : (Date.of? 1970 1 1).map Date.number = some 0 := by decide
example : (Date.of? 2000 2 29).map (civil ·.number) = some (2000, 2, 29) := by decide
example : (Date.of? (-1) 12 31).map (civil ·.number) = some (-1, 12, 31) := by decide
example : Date.of? 1900 2 29 = none := by decide

end SessionVault.Calendar
