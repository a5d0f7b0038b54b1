import SessionVault.Text.Split

namespace SessionVault.Settings

abbrev Environment := String → Option String

/-- What stands for a placeholder of this name: its value unless that is unset or empty. -/
def placeholder (env : Environment) (name : List Char) : List Char :=
  match env (String.ofList name) with
  | none => '$' :: '\x7b' :: name ++ ['\x7d']
  | some value => if value = "" then '$' :: '\x7b' :: name ++ ['\x7d'] else value.toList

theorem length_lt {s before inside name rest : List Char}
    (h : Text.splitMark '$' '\x7b' s = some (before, inside))
    (h' : Text.splitFirst '\x7d' inside = some (name, rest)) : rest.length < s.length := by
  rw [Text.splitMark_eq_some h, Text.splitFirst_eq_some h']
  simp only [List.length_append, List.length_cons]
  omega

def expand (env : Environment) (s : List Char) : List Char :=
  match h : Text.splitMark '$' '\x7b' s with
  | none => s
  | some (before, inside) =>
    match h' : Text.splitFirst '\x7d' inside with
    | none => s
    | some (name, rest) =>
      have := length_lt h h'
      before ++ placeholder env name ++ expand env rest
termination_by s.length

def interpolate (env : Environment) (s : String) : String := String.ofList (expand env s.toList)

end SessionVault.Settings
