import SessionVault.Json.Numeral
import SessionVault.Json.Quoted

namespace SessionVault.Json

mutual

def print : Json → Octets
  | .null => Octets.ascii ['n', 'u', 'l', 'l']
  | .bool true => Octets.ascii ['t', 'r', 'u', 'e']
  | .bool false => Octets.ascii ['f', 'a', 'l', 's', 'e']
  | .number n => Octets.ascii n.text
  | .string s => quoted s
  | .array items => 0x5B :: printItems items ++ [0x5D]
  | .object fields => 0x7B :: printFields fields ++ [0x7D]

def printItems : List Json → Octets
  | [] => []
  | [v] => v.print
  | v :: rest => v.print ++ 0x2C :: printItems rest

def printFields : List (String × Json) → Octets
  | [] => []
  | [(name, v)] => quoted name ++ 0x3A :: v.print
  | (name, v) :: rest => quoted name ++ 0x3A :: v.print ++ 0x2C :: printFields rest

end

def text (v : Json) : String := (Octets.text? v.print).getD ""

end SessionVault.Json
