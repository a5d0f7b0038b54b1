import SessionVault.Toml.Basic

/-!
How the lines of a document make up its tables.  A table is opened once by its own header, and may
before that be passed through by longer headers; what dotted keys build up, no header may open, and
what a header opened, no dotted key may enter.
-/

namespace SessionVault.Toml

inductive Origin where
  | header
  | passed
  | dotted
  deriving DecidableEq

inductive Node where
  | leaf (v : Toml)
  | table (origin : Origin) (entries : List (String × Node))
  /-- An array of tables, of which only the last can still grow. -/
  | tables (before : List (List (String × Node))) (last : List (String × Node))

abbrev Nodes := List (String × Node)

def alter (f : Option Node → Option Node) (name : String) : Nodes → Option Nodes
  | [] => (f none).map fun node => [(name, node)]
  | (n, node) :: rest =>
    if n = name then (f (some node)).map fun node => (n, node) :: rest
    else (alter f name rest).map ((n, node) :: ·)

/-- Goes down a path and changes the table at its end, of which `f` is told how it came to be.
Tables that are missing on the way come to be by `origin`. -/
def descend (origin : Origin) (f : Origin → Nodes → Option Nodes) :
    List String → Origin → Nodes → Option Nodes
  | [], own, nodes => f own nodes
  | name :: path, _, nodes =>
    let enter : Option Node → Option Node
      | none => (descend origin f path origin []).map (.table origin)
      | some (.leaf _) => none
      | some (.table own entries) =>
        if origin = .dotted ∧ own = .header then none
        else (descend origin f path own entries).map (.table own)
      | some (.tables before last) => (descend origin f path .header last).map (.tables before)
    alter enter name nodes

/-- Adds a pair to a table.  What a dotted key leads to must be a table of dotted keys, and what is
not led to by one must be none. -/
def addPair (key : Key) (v : Toml) (own : Origin) (nodes : Nodes) : Option Nodes :=
  let add (own : Origin) (nodes : Nodes) : Option Nodes :=
    let fresh : Option Node → Option Node
      | none => some (.leaf v)
      | some _ => none
    if own = .dotted ↔ key.path = [] then none else alter fresh key.name nodes
  descend .dotted add key.path own nodes

def openTable (key : Key) (nodes : Nodes) : Option Nodes :=
  let enter : Option Node → Option Node
    | none => some (.table .header [])
    | some (.table .passed entries) => some (.table .header entries)
    | some _ => none
  descend .passed (fun _ => alter enter key.name) key.path .header nodes

def openElement (key : Key) (nodes : Nodes) : Option Nodes :=
  let enter : Option Node → Option Node
    | none => some (.tables [] [])
    | some (.tables before last) => some (.tables (before ++ [last]) [])
    | some _ => none
  descend .passed (fun _ => alter enter key.name) key.path .header nodes

def addExpression (header : List String) (nodes : Nodes) : Expression → Option (List String × Nodes)
  | .pair key v => (descend .passed (addPair key v) header .header nodes).map fun n => (header, n)
  | .header key => (openTable key nodes).map fun n => (key.names, n)
  | .element key => (openElement key nodes).map fun n => (key.names, n)

def addAll (header : List String) (nodes : Nodes) : List Expression → Option Nodes
  | [] => some nodes
  | e :: rest =>
    match addExpression header nodes e with
    | none => none
    | some (header, nodes) => addAll header nodes rest

mutual

def Node.value : Node → Toml
  | .leaf v => v
  | .table _ entries => .table (values entries)
  | .tables before last => .array (elements before ++ [.table (values last)])

def values : List (String × Node) → List (String × Toml)
  | [] => []
  | (name, node) :: rest => (name, node.value) :: values rest

def elements : List (List (String × Node)) → List Toml
  | [] => []
  | entries :: rest => .table (values entries) :: elements rest

end

def ofExpressions (l : List Expression) : Option (List (String × Toml)) :=
  (addAll [] [] l).map values

def ofPairs (pairs : List (Key × Toml)) : Option (List (String × Toml)) :=
  ofExpressions (pairs.map fun p => .pair p.1 p.2)

end SessionVault.Toml
