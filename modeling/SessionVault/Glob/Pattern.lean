import SessionVault.Glob.Row

namespace SessionVault.Glob

/-- Whether tokens match a text.  Up to the first token that is no single character there is nothing
to choose. -/
def matchTokens : List Token → List Char → Bool
  | .one symbol :: ts, c :: rest => symbol.holds c && matchTokens ts rest
  | .one _ :: _, [] => false
  | ts, s => (row ts s).headD false

theorem matchTokens_iff (ts : List Token) (s : List Char) :
    matchTokens ts s = true ↔ Fits ts s := by
  fun_induction matchTokens ts s with
  | case1 symbol ts c s ih =>
    rw [Bool.and_eq_true, ih]
    exact ⟨fun h => .one h.1 h.2, fun | .one h hs => ⟨h, hs⟩⟩
  | case2 => exact ⟨nofun, nofun⟩
  | case3 => exact (answers_row _ _).headD_iff

structure Pattern where
  tokens : List Token
  deriving DecidableEq

def Pattern.ofText? (s : String) : Option Pattern := (Glob.tokens true s.toList).map .mk

def Pattern.matches (p : Pattern) (s : String) : Bool := matchTokens p.tokens s.toList

theorem Pattern.matches_iff (p : Pattern) (s : String) :
    p.matches s = true ↔ Fits p.tokens s.toList :=
  matchTokens_iff _ _

end SessionVault.Glob
