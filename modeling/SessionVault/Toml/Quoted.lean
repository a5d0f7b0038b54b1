import SessionVault.Octets
import SessionVault.Toml.Basic

namespace SessionVault.Toml

structure Form where
  escapes : Bool
  lines : Bool
  deriving DecidableEq

namespace Form

def basic : Form := ⟨true, false⟩
def literal : Form := ⟨false, false⟩
def basicLines : Form := ⟨true, true⟩
def literalLines : Form := ⟨false, true⟩

def quote (f : Form) : Char := if f.escapes then '"' else '\''

def delimiter (f : Form) : List Char := List.replicate (if f.lines then 3 else 1) f.quote

def room (f : Form) : Nat := if f.lines then 2 else 0

def isPlain (f : Form) (c : Char) : Bool :=
  (isPrintable c || f.lines && c == '\n') && !(f.escapes && c == '\\')

/-- The end of a string, if it is here: quotes that still belong to the text, and what follows.  Up
to two quotes in front of three closing ones belong to it. -/
def close? (f : Form) (s : List Char) : Option (List Char × List Char) :=
  let run := (s.takeWhile (· == f.quote)).length
  if run < f.delimiter.length then none
  else
    let own := min (run - f.delimiter.length) f.room
    some (s.take own, s.drop (own + f.delimiter.length))

def endsLine (s : List Char) : Bool := (newline? (skipSpaces s)).isSome

end Form

def unescape? : Char → Option Char
  | 'b' => some '\x08'
  | 't' => some '\t'
  | 'n' => some '\n'
  | 'f' => some '\x0c'
  | 'r' => some '\r'
  | '"' => some '"'
  | '\\' => some '\\'
  | _ => none

def scalar? (digits : List Char) : Option Char := do
  let ds ← digits.mapM Octets.hexValue?
  let n := ds.foldl (fun n d => n * 16 + d) 0
  if n.isValidChar then some (Char.ofNat n) else none

def push (c : Option Char) (read : Option (List Char × List Char)) :
    Option (List Char × List Char) :=
  match c, read with
  | some c, some (text, rest) => some (c :: text, rest)
  | _, _ => none

def Form.read (f : Form) (trim : Bool) : List Char → Option (List Char × List Char)
  | [] => none
  | c :: rest =>
    match f.close? (c :: rest) with
    | some p => some p
    | none =>
      if f.escapes && c == '\\' then
        if f.lines && endsLine rest then f.read true rest
        else
          match rest with
          | 'u' :: d₁ :: d₂ :: d₃ :: d₄ :: rest =>
            push (scalar? [d₁, d₂, d₃, d₄]) (f.read false rest)
          | 'U' :: d₁ :: d₂ :: d₃ :: d₄ :: d₅ :: d₆ :: d₇ :: d₈ :: rest =>
            push (scalar? [d₁, d₂, d₃, d₄, d₅, d₆, d₇, d₈]) (f.read false rest)
          | e :: rest => push (unescape? e) (f.read false rest)
          | [] => none
      else if f.lines && c == '\r' && rest.head? == some '\n' then f.read trim rest
      else if trim && (isSpace c || c == '\n') then f.read true rest
      else if f.isPlain c then push (some c) (f.read false rest)
      else none

def Form.readBody (f : Form) (s : List Char) : Option (String × List Char) :=
  let s := if f.lines then (newline? s).getD s else s
  (f.read false s).map fun p => (String.ofList p.1, p.2)

def readLineString : List Char → Option (String × List Char)
  | '"' :: rest => Form.basic.readBody rest
  | '\'' :: rest => Form.literal.readBody rest
  | _ => none

def readString : List Char → Option (String × List Char)
  | '"' :: '"' :: '"' :: rest => Form.basicLines.readBody rest
  | '\'' :: '\'' :: '\'' :: rest => Form.literalLines.readBody rest
  | s => readLineString s

def Form.escape (f : Form) (c : Char) : List Char :=
  match c with
  | '\\' => ['\\', '\\']
  | '\n' => if f.lines then ['\n'] else ['\\', 'n']
  | '\t' => ['\\', 't']
  | '\r' => ['\\', 'r']
  | '\x08' => ['\\', 'b']
  | '\x0c' => ['\\', 'f']
  | c =>
    if isPrintable c then [c]
    else
      ['\\', 'u', '0', '0', Octets.upperHexDigit (c.toNat / 16), Octets.upperHexDigit (c.toNat % 16)]

/-- A text between double quotes, after `run` quotes that stand for themselves.  A quote for which
there is no room is escaped. -/
def Form.escaped (f : Form) (run : Nat) : List Char → List Char
  | [] => []
  | c :: rest =>
    if c = f.quote then
      if run < f.room then c :: f.escaped (run + 1) rest else '\\' :: c :: f.escaped 0 rest
    else f.escape c ++ f.escaped 0 rest

def Form.fits (f : Form) (run : Nat) : List Char → Bool
  | [] => true
  | c :: rest =>
    if c = f.quote then decide (run < f.room) && f.fits (run + 1) rest
    else f.isPlain c && f.fits 0 rest

def Form.ofText (s : List Char) : Form :=
  let fitting := [basic, literal, basicLines, literalLines].find? fun f => f.fits 0 s
  fitting.getD ⟨true, s.contains '\n'⟩

def Form.write (f : Form) (s : List Char) : List Char :=
  let lead := if f.lines && s.contains '\n' then ['\n'] else []
  let body := if f.escapes then f.escaped 0 s else s
  f.delimiter ++ lead ++ body ++ f.delimiter

def writeString (s : String) : List Char := (Form.ofText s.toList).write s.toList

end SessionVault.Toml
