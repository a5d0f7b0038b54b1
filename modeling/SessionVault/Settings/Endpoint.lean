import SessionVault.Settings.Error
import SessionVault.Text.Blank
import SessionVault.Text.Split

namespace SessionVault

structure Endpoint where
  host : String
  port : UInt16
  deriving DecidableEq

namespace Endpoint

def port? (s : List Char) : Option UInt16 :=
  match Decimal.naturalValue? s with
  | some n => if n < 0x10000 then some (UInt16.ofNat n) else none
  | none => none

def unbracket (s : List Char) : List Char :=
  ((s.dropWhile (· == '[')).reverse.dropWhile (· == ']')).reverse

/-- The last colon divides host and port; blanks around the whole do not count. -/
def ofChars (s : List Char) : Except HostFault Endpoint :=
  match Text.splitLast ':' (Text.trim s) with
  | none => throw .noPort
  | some (host, port) =>
    if unbracket host = [] then throw .emptyHost
    else
      match port? port with
      | none => throw .invalidPort
      | some port => if port = 0 then throw .zeroPort else return ⟨String.ofList (unbracket host), port⟩

def ofText (s : String) : Except ConfigError Endpoint :=
  match ofChars s.toList with
  | .ok e => .ok e
  | .error fault => .error (.invalidHost s fault)

def display (e : Endpoint) : String :=
  let port := String.ofList (Decimal.numeral e.port.toNat)
  if e.host.toList.contains ':' then "[" ++ e.host ++ "]:" ++ port else e.host ++ ":" ++ port

def parts (entry : String) : List String :=
  ((Text.splitAll ',' entry.toList).map Text.trim).filter (· ≠ []) |>.map String.ofList

def ofTexts : List String → Except ConfigError (List Endpoint)
  | [] => return []
  | s :: rest => do
    let e ← ofText s
    return e :: (← ofTexts rest)

def ofEntries (entries : List String) : Except ConfigError (List Endpoint) :=
  ofTexts (entries.flatMap parts)

end Endpoint

end SessionVault
