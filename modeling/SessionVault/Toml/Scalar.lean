import SessionVault.Calendar.Date
import SessionVault.Decimal.Nearest
import SessionVault.Octets
import SessionVault.Text.Split
import SessionVault.Toml.Basic

namespace SessionVault.Toml

open Decimal (isDigit)

def isWordChar (c : Char) : Bool :=
  isLetter c || isDigit c || c == '+' || c == '-' || c == '.' || c == '_' || c == ':'

def ungroup? (digit : Char → Bool) (s : List Char) : Option (List Char) :=
  let groups := Text.splitAll '_' s
  if groups.all fun g => g != [] && g.all digit then some groups.flatten else none

def splitSign : List Char → Bool × List Char
  | '-' :: rest => (true, rest)
  | '+' :: rest => (false, rest)
  | s => (false, s)

def whole? (s : List Char) : Option (List Char) := do
  let digits ← ungroup? isDigit s
  if digits.head? = some '0' ∧ digits.length ≠ 1 then none else some digits

def int64? (n : Int) : Option Int64 :=
  if Int64.minValue.toInt ≤ n ∧ n ≤ Int64.maxValue.toInt then some (Int64.ofInt n) else none

def radix? (base : Nat) (s : List Char) : Option Int64 := do
  let digit (c : Char) : Bool := (Octets.hexValue? c).any fun d => decide (d < base)
  let digits ← ungroup? digit s
  int64? (digits.foldl (fun n c => n * base + (Octets.hexValue? c).getD 0) 0 : Nat)

def integer? : List Char → Option Int64
  | '0' :: 'x' :: rest => radix? 16 rest
  | '0' :: 'o' :: rest => radix? 8 rest
  | '0' :: 'b' :: rest => radix? 2 rest
  | s => do
    let (minus, s) := splitSign s
    let n := Decimal.value (← whole? s)
    int64? (if minus then -(n : Int) else n)

def isFloat (s : List Char) : Bool :=
  let (minus, unsigned) := splitSign s
  let (mantissa, exponent) := match Text.splitFirst 'e' (unsigned.map Char.toLower) with
    | none => (unsigned, none)
    | some (mantissa, exponent) => (mantissa, some exponent)
  let (whole, decimals) := match Text.splitFirst '.' mantissa with
    | none => (mantissa, none)
    | some (whole, decimals) => (whole, some decimals)
  let isWritten (ds : Option (List Char)) : Bool :=
    ds.all fun ds => (ungroup? isDigit ds).isSome
  let isFinite :=
    minus || ((Decimal.float? (unsigned.filter (· != '_'))).any fun x => !x.isInf)
  (decimals.isSome || exponent.isSome) && (whole? whole).isSome && isWritten decimals &&
    isWritten (exponent.map fun e => (splitSign e).2) && isFinite

def isSpecial (s : List Char) : Bool :=
  let word := (splitSign s).2
  word == ['i', 'n', 'f'] || word == ['n', 'a', 'n']

def fixed? (width : Nat) (s : List Char) : Option Nat :=
  if s.length = width then Decimal.value? s else none

def isDate (s : List Char) : Bool :=
  match Text.splitAll '-' s with
  | [year, month, day] =>
    ((do Calendar.Date.of? (← fixed? 4 year) (← fixed? 2 month) (← fixed? 2 day)) :
      Option Calendar.Date).isSome
  | _ => false

def isClock (hours minutes : List Char) : Bool :=
  ((fixed? 2 hours).any fun n => decide (n < 24)) && (fixed? 2 minutes).any fun n => decide (n < 60)

def isSecond (s : List Char) : Bool :=
  let (whole, decimals) := match Text.splitFirst '.' s with
    | none => (s, none)
    | some (whole, decimals) => (whole, some decimals)
  ((fixed? 2 whole).any fun n => decide (n ≤ 60)) &&
    decimals.all fun ds => (Decimal.value? ds).isSome

def isTime (s : List Char) : Bool :=
  match Text.splitAll ':' s with
  | [hours, minutes, seconds] => isClock hours minutes && isSecond seconds
  | _ => false

def isOffsetTime (s : List Char) : Bool :=
  let body := s.takeWhile fun c => isDigit c || c == ':' || c == '.'
  isTime body &&
    match s.drop body.length with
    | [] => true
    | ['Z'] | ['z'] => true
    | c :: offset =>
      (c == '+' || c == '-') &&
        match Text.splitAll ':' offset with
        | [hours, minutes] => isClock hours minutes
        | _ => false

def isDateTime (s : List Char) : Bool :=
  let date := s.take 10
  if isDate date then
    match s.drop 10 with
    | [] => true
    | c :: time => (c == 'T' || c == 't' || c == ' ') && isOffsetTime time
  else isTime s

def scalar (word : List Char) : Option Toml :=
  if word = ['t', 'r', 'u', 'e'] then some (.bool true)
  else if word = ['f', 'a', 'l', 's', 'e'] then some (.bool false)
  else
    match integer? word with
    | some n => some (.integer n)
    | none =>
      if isFloat word || isSpecial word then some (.float word)
      else if isDateTime word then some (.dateTime word)
      else none

/-- The word at the beginning of a text.  A blank after a date belongs to it if a time follows. -/
def word (s : List Char) : List Char :=
  let first := s.takeWhile isWordChar
  if isDate first then
    match s.drop first.length with
    | ' ' :: c :: rest =>
      if isDigit c then first ++ ' ' :: (c :: rest).takeWhile isWordChar else first
    | _ => first
  else first

def readScalar (s : List Char) : Option (Toml × List Char) :=
  (scalar (word s)).map fun v => (v, s.drop (word s).length)

def writeBool (b : Bool) : List Char :=
  if b then ['t', 'r', 'u', 'e'] else ['f', 'a', 'l', 's', 'e']

end SessionVault.Toml
