import SessionVault.Decimal.Plain
import SessionVault.Toml.Quoted
import SessionVault.Toml.Scalar

namespace SessionVault.Toml

def writeName (name : String) : List Char :=
  if name ≠ "" ∧ name.toList.all isBare then name.toList else Form.basic.write name.toList

def writeNames : List String → List Char
  | [] => []
  | [name] => writeName name
  | name :: rest => writeName name ++ '.' :: writeNames rest

def Key.write (k : Key) : List Char := writeNames k.names

def joinComma : List (List Char) → List Char
  | [] => []
  | [part] => part
  | part :: rest => part ++ ',' :: ' ' :: joinComma rest

def layOut : List (List Char) → List Char
  | [] => ['[', ']']
  | [item] => '[' :: item ++ [']']
  | items =>
    let line (item : List Char) : List Char := [' ', ' ', ' ', ' '] ++ item ++ [',', '\n']
    '[' :: '\n' :: items.flatMap line ++ [']']

mutual

def write : Toml → List Char
  | .string s => writeString s
  | .integer n => Decimal.signed n.toInt
  | .float text => text
  | .bool b => writeBool b
  | .dateTime text => text
  | .array items => layOut (writeItems items)
  | .table entries => '\x7b' :: ' ' :: joinComma (writeEntries entries) ++ [' ', '\x7d']

def writeItems : List Toml → List (List Char)
  | [] => []
  | v :: rest => v.write :: writeItems rest

def writeEntries : List (String × Toml) → List (List Char)
  | [] => []
  | (name, v) :: rest => (writeName name ++ ' ' :: '=' :: ' ' :: v.write) :: writeEntries rest

end

def Expression.write : Expression → List Char
  | .pair key v => key.write ++ ' ' :: '=' :: ' ' :: v.write ++ ['\n']
  | .header key => '[' :: key.write ++ [']', '\n']
  | .element key => '[' :: '[' :: key.write ++ [']', ']', '\n']

def Expression.isHead : Expression → Bool
  | .pair _ _ => false
  | .header _ | .element _ => true

def writeRest (l : List Expression) : List Char :=
  l.flatMap fun e => if e.isHead then '\n' :: e.write else e.write

def writeAll : List Expression → List Char
  | [] => []
  | e :: rest => e.write ++ writeRest rest

end SessionVault.Toml
