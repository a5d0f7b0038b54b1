import SessionVault.Calendar.Date
import SessionVault.Decimal.Numeral
import SessionVault.Text.Blank

namespace SessionVault

open Calendar

/-- A point of time with nanoseconds.  From `10 ^ 9` on the nanoseconds belong to a leap second. -/
structure Instant where
  seconds : Int
  nanos : Nat
  nanos_valid : nanos < 1000000000 ∨ nanos < 2000000000 ∧ seconds % 60 = 59
  inRange : -8334601228800 ≤ seconds ∧ seconds < 8210266876800
  deriving DecidableEq

instance : Inhabited Instant := ⟨⟨0, 0, by decide, by decide⟩⟩

namespace Instant

def of? (seconds : Int) (nanos : Nat) : Option Instant :=
  if h : (nanos < 1000000000 ∨ nanos < 2000000000 ∧ seconds % 60 = 59) ∧
      -8334601228800 ≤ seconds ∧ seconds < 8210266876800 then
    some ⟨seconds, nanos, h.1, h.2⟩
  else none

def yearText (year : Int) : List Char :=
  if 0 ≤ year ∧ year ≤ 9999 then Decimal.padded 4 year.toNat
  else (if year < 0 then '-' else '+') :: Decimal.padded 4 year.natAbs

def fractionText (nanos : Nat) : List Char :=
  if nanos = 0 then []
  else if nanos % 1000000 = 0 then '.' :: Decimal.padded 3 (nanos / 1000000)
  else if nanos % 1000 = 0 then '.' :: Decimal.padded 6 (nanos / 1000)
  else '.' :: Decimal.padded 9 nanos

def chars (t : Instant) : List Char :=
  let (year, month, day) := civil (t.seconds / 86400)
  let inDay := (t.seconds % 86400).toNat
  let second := inDay % 60 + t.nanos / 1000000000
  yearText year ++ '-' :: Decimal.padded 2 month ++ '-' :: Decimal.padded 2 day ++
    'T' :: Decimal.padded 2 (inDay / 3600) ++ ':' :: Decimal.padded 2 (inDay / 60 % 60) ++
    ':' :: Decimal.padded 2 second ++ fractionText (t.nanos % 1000000000) ++ ['Z']

def text (t : Instant) : String := String.ofList t.chars

def readNumber (width : Nat) (input : List Char) : Option (Nat × List Char) :=
  let input := Text.trimStart input
  let ds := (input.take width).takeWhile Decimal.isDigit
  if ds = [] then none else some (Decimal.value ds, input.drop ds.length)

def readYear (input : List Char) : Option (Int × List Char) :=
  match Text.trimStart input with
  | '-' :: rest => digitRun rest |>.map fun p => (-(p.1 : Int), p.2)
  | '+' :: rest => digitRun rest |>.map fun p => ((p.1 : Int), p.2)
  | input => readNumber 4 input |>.map fun p => ((p.1 : Int), p.2)
where
  digitRun (input : List Char) : Option (Nat × List Char) :=
    let ds := input.takeWhile Decimal.isDigit
    if ds = [] then none else some (Decimal.value ds, input.drop ds.length)

def readSign (sign : Char) (input : List Char) : Option (List Char) :=
  match Text.trimStart input with
  | c :: rest => if c = sign then some rest else none
  | [] => none

def readFraction : List Char → Option (Nat × List Char)
  | '.' :: rest =>
    let ds := rest.takeWhile Decimal.isDigit
    if ds = [] then none
    else
      let kept := ds.take 9
      some (Decimal.value kept * Nat.pow 10 (9 - kept.length), rest.drop ds.length)
  | input => some (0, input)

def twoDigits : List Char → Option (Nat × List Char)
  | a :: b :: rest =>
    if Decimal.isDigit a && Decimal.isDigit b then some (Decimal.value [a, b], rest) else none
  | _ => none

def isUtc : List Char → Bool
  | [a, b, c] => (a == 'U' || a == 'u') && (b == 'T' || b == 't') && (c == 'C' || c == 'c')
  | _ => false

def readOffset (input : List Char) : Option (Int × List Char) :=
  if isUtc (input.take 3) then some (0, input.drop 3)
  else
    match input with
    | 'Z' :: rest | 'z' :: rest => some (0, rest)
    | '+' :: rest => hoursMinutes rest
    | '-' :: rest | '\u2212' :: rest => (hoursMinutes rest).map fun p => (-p.1, p.2)
    | _ => none
where
  hoursMinutes (input : List Char) : Option (Int × List Char) := do
    let (hours, rest) ← twoDigits input
    let (minutes, rest) ← twoDigits (rest.dropWhile fun c => c = ':' || Text.isBlank c)
    if hours < 24 ∧ minutes < 60 then return (hours * 3600 + minutes * 60, rest) else none

def readDate (input : List Char) : Option (Date × List Char) := do
  let (year, rest) ← readYear input
  let (month, rest) ← readNumber 2 (← readSign '-' rest)
  let (day, rest) ← readNumber 2 (← readSign '-' rest)
  return (← Date.of? year month day, rest)

/-- The second of the day and the nanoseconds; second 60 counts as second 59 drawn out. -/
def readTime (input : List Char) : Option (Nat × Nat × List Char) := do
  let (hour, rest) ← readNumber 2 input
  let (minute, rest) ← readNumber 2 (← readSign ':' rest)
  let (second, rest) ← readNumber 2 (← readSign ':' rest)
  let (nanos, rest) ← readFraction rest
  if hour < 24 ∧ minute < 60 ∧ second ≤ 60 then
    let clock := hour * 3600 + minute * 60
    if second = 60 then return (clock + 59, nanos + 1000000000, rest)
    else return (clock + second, nanos, rest)
  else none

def ofChars? (input : List Char) : Option Instant := do
  let (date, rest) ← readDate input
  let rest ← match rest with
    | 'T' :: rest | 't' :: rest | ' ' :: rest => some rest
    | _ => none
  let (clock, nanos, rest) ← readTime rest
  let (offset, rest) ← readOffset (Text.trimStart rest)
  if Text.trimStart rest = [] ∧ -262143 ≤ date.year ∧ date.year ≤ 262142 then
    of? (date.number * 86400 + clock - offset) nanos
  else none

def ofText? (s : String) : Option Instant := ofChars? s.toList

end Instant

end SessionVault
