import SessionVault.Decimal.Numeral

namespace SessionVault

/-- A value.  Floats and times are kept as they are written, for nothing here computes with them. -/
inductive Toml where
  | string (s : String)
  | integer (n : Int64)
  | float (text : List Char)
  | bool (b : Bool)
  | dateTime (text : List Char)
  | array (items : List Toml)
  | table (entries : List (String × Toml))
  deriving Inhabited

namespace Toml

structure Key where
  path : List String
  name : String
  deriving DecidableEq

def Key.names (k : Key) : List String := k.path ++ [k.name]

inductive Expression where
  | pair (key : Key) (value : Toml)
  | header (key : Key)
  | element (key : Key)

def isSpace (c : Char) : Bool := c == ' ' || c == '\t'

def isPrintable (c : Char) : Bool := c == '\t' || (0x20 ≤ c.toNat && c.toNat != 0x7F)

def isLetter (c : Char) : Bool := ('a' ≤ c && c ≤ 'z') || ('A' ≤ c && c ≤ 'Z')

def isBare (c : Char) : Bool := isLetter c || Decimal.isDigit c || c == '-' || c == '_'

def skipSpaces (s : List Char) : List Char := s.dropWhile isSpace

/-- What follows a line break; a carriage return is part of one only in front of a line feed. -/
def newline? : List Char → Option (List Char)
  | '\n' :: rest => some rest
  | '\r' :: '\n' :: rest => some rest
  | _ => none

def endLine? (s : List Char) : Option (List Char) :=
  let s := match skipSpaces s with
    | '#' :: rest => rest.dropWhile isPrintable
    | s => s
  match s with
  | [] => some []
  | s => newline? s

end Toml

end SessionVault
