import SessionVault.Toml.Entries
import SessionVault.Toml.Quoted
import SessionVault.Toml.Scalar

namespace SessionVault.Toml

def readName (s : List Char) : Option (String × List Char) :=
  match s with
  | '"' :: _ | '\'' :: _ => readLineString s
  | _ =>
    let name := s.takeWhile isBare
    if name = [] then none else some (String.ofList name, s.drop name.length)

def readNames (fuel : Nat) (s : List Char) : Option (Key × List Char) :=
  match fuel with
  | 0 => none
  | fuel + 1 =>
    match readName (skipSpaces s) with
    | none => none
    | some (name, rest) =>
      match skipSpaces rest with
      | '.' :: rest => (readNames fuel rest).map fun p => (⟨name :: p.1.path, p.1.name⟩, p.2)
      | rest => some (⟨[], name⟩, rest)

/-- The greatest number of names in a key, and of values inside each other. -/
def maxDepth : Nat := 79

def readKey (s : List Char) : Option (Key × List Char) := readNames maxDepth s

def readAssignment (s : List Char) : Option (Key × List Char) :=
  match readKey s with
  | some (key, '=' :: rest) => some (key, skipSpaces rest)
  | _ => none

def skipLines (inComment : Bool) : List Char → List Char
  | [] => []
  | '\n' :: rest => skipLines false rest
  | '\r' :: '\n' :: rest => skipLines false rest
  | c :: rest =>
    if inComment then
      if isPrintable c then skipLines true rest else c :: rest
    else if isSpace c then skipLines false rest
    else if c = '#' then skipLines true rest
    else c :: rest

mutual

/-- One value and what follows it.  The fuel bounds the steps, `depth` the nesting. -/
def readValue (fuel depth : Nat) (s : List Char) : Option (Toml × List Char) :=
  match fuel with
  | 0 => none
  | fuel + 1 =>
    match s with
    | '"' :: _ | '\'' :: _ => (readString s).map fun p => (.string p.1, p.2)
    | '[' :: rest =>
      match depth with
      | 0 => none
      | depth + 1 =>
        match skipLines false rest with
        | ']' :: rest => some (.array [], rest)
        | rest => (readItems fuel depth rest).map fun p => (.array p.1, p.2)
    | '\x7b' :: rest =>
      match depth with
      | 0 => none
      | depth + 1 =>
        match skipSpaces rest with
        | '\x7d' :: rest => some (.table [], rest)
        | rest =>
          match readPairs fuel depth rest with
          | none => none
          | some (pairs, rest) => (ofPairs pairs).map fun entries => (.table entries, rest)
    | _ => readScalar s

def readItems (fuel depth : Nat) (s : List Char) : Option (List Toml × List Char) :=
  match fuel with
  | 0 => none
  | fuel + 1 =>
    match readValue fuel depth s with
    | none => none
    | some (v, rest) =>
      match skipLines false rest with
      | ',' :: rest =>
        match skipLines false rest with
        | ']' :: rest => some ([v], rest)
        | rest => (readItems fuel depth rest).map fun p => (v :: p.1, p.2)
      | ']' :: rest => some ([v], rest)
      | _ => none

def readPairs (fuel depth : Nat) (s : List Char) : Option (List (Key × Toml) × List Char) :=
  match fuel with
  | 0 => none
  | fuel + 1 =>
    match readAssignment s with
    | none => none
    | some (key, rest) =>
      match readValue fuel depth rest with
      | none => none
      | some (v, rest) =>
        match skipSpaces rest with
        | ',' :: rest => (readPairs fuel depth rest).map fun p => ((key, v) :: p.1, p.2)
        | '\x7d' :: rest => some ([(key, v)], rest)
        | _ => none

end

def readHead (close : List Char) (s : List Char) : Option (Key × List Char) :=
  match readKey s with
  | some (key, rest) => if close.isPrefixOf rest then some (key, rest.drop close.length) else none
  | none => none

def readExpression (s : List Char) : Option (Expression × List Char) :=
  match s with
  | '[' :: '[' :: rest => (readHead [']', ']'] rest).map fun p => (.element p.1, p.2)
  | '[' :: rest => (readHead [']'] rest).map fun p => (.header p.1, p.2)
  | s =>
    match readAssignment s with
    | none => none
    | some (key, rest) =>
      (readValue (2 * rest.length + 2) maxDepth rest).map fun p => (.pair key p.1, p.2)

def readLines (fuel : Nat) (s : List Char) : Option (List Expression) :=
  match fuel with
  | 0 => none
  | fuel + 1 =>
    match skipSpaces s with
    | [] => some []
    | s =>
      match endLine? s with
      | some rest => readLines fuel rest
      | none =>
        match readExpression s with
        | none => none
        | some (e, rest) =>
          match endLine? rest with
          | none => none
          | some rest => (readLines fuel rest).map (e :: ·)

def expressions (s : List Char) : Option (List Expression) :=
  let s := match s with
    | '\ufeff' :: rest => rest
    | s => s
  readLines (s.length + 1) s

def ofText? (s : String) : Option (List (String × Toml)) :=
  (expressions s.toList).bind ofExpressions

end SessionVault.Toml
