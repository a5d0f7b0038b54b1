import SessionVault.Text.Split

namespace SessionVault.Glob

inductive Member where
  | one (c : Char)
  | range (low high : Char)
  deriving DecidableEq

def Member.holds : Member → Char → Bool
  | .one d, c => c == d
  | .range low high, c => low ≤ c && c ≤ high

inductive Symbol where
  | char (c : Char)
  | any
  | set (members : List Member)
  | notSet (members : List Member)
  deriving DecidableEq

def Symbol.holds : Symbol → Char → Bool
  | .char d, c => c == d
  | .any, _ => true
  | .set l, c => l.any (·.holds c)
  | .notSet l, c => !l.any (·.holds c)

inductive Token where
  | one (symbol : Symbol)
  | run
  | components
  deriving DecidableEq

/-- The members that are written between brackets; a hyphen needs a character on both sides. -/
def members : List Char → List Member
  | low :: '-' :: high :: rest => .range low high :: members rest
  | c :: rest => .one c :: members rest
  | [] => []

def readSet : List Char → Option (List Char × List Char)
  | [] => none
  | c :: rest => (Text.splitFirst ']' rest).map fun p => (c :: p.1, p.2)

theorem readSet_length {s inside after : List Char} (h : readSet s = some (inside, after)) :
    after.length < s.length := by
  cases s with
  | nil => simp [readSet] at h
  | cons c rest =>
    obtain ⟨⟨a, b⟩, hp, e⟩ := Option.map_eq_some_iff.1 h
    cases e
    have := congrArg List.length (Text.splitFirst_eq_some hp)
    simp only [List.length_append, List.length_cons] at this ⊢
    omega

def tokens (start : Bool) (s : List Char) : Option (List Token) :=
  match s with
  | [] => some []
  | '*' :: '*' :: rest =>
    if start then
      match rest with
      | [] => some [.components]
      | '/' :: rest => (tokens true rest).map (.components :: ·)
      | _ => none
    else none
  | '*' :: rest => (tokens false rest).map (.run :: ·)
  | '?' :: rest => (tokens false rest).map (.one .any :: ·)
  | '[' :: '!' :: rest =>
    match h : readSet rest with
    | some (inside, after) =>
      have := readSet_length h
      (tokens false after).map (.one (.notSet (members inside)) :: ·)
    | none => none
  | '[' :: rest =>
    match h : readSet rest with
    | some (inside, after) =>
      have := readSet_length h
      (tokens false after).map (.one (.set (members inside)) :: ·)
    | none => none
  | c :: rest => (tokens (c == '/') rest).map (.one (.char c) :: ·)
termination_by s.length
decreasing_by all_goals simp only [List.length_cons]; omega

def afterSlashes : List Char → List (List Char)
  | [] => []
  | c :: rest => if c == '/' then rest :: afterSlashes rest else afterSlashes rest

inductive Fits : List Token → List Char → Prop
  | nil : Fits [] []
  | one {symbol : Symbol} {c : Char} {ts : List Token} {s : List Char} :
    symbol.holds c = true → Fits ts s → Fits (.one symbol :: ts) (c :: s)
  | run {ts : List Token} {s rest : List Char} : rest <:+ s → Fits ts rest → Fits (.run :: ts) s
  | components {ts : List Token} {s rest : List Char} :
    rest ∈ s :: [] :: afterSlashes s → Fits ts rest → Fits (.components :: ts) s

end SessionVault.Glob
