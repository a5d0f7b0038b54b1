import SessionVault.Settings.Error
import SessionVault.Settings.Session
import SessionVault.Text.Blank

namespace SessionVault

inductive PersistPolicy where
  | default
  | saveOnChange
  | alwaysSaveAfterRequest
  deriving DecidableEq

/-- The policy of a name.  Blanks around it and the case of letters do not count, and a hyphen is as
good as an underscore. -/
def PersistPolicy.ofName? (name : String) : Option PersistPolicy :=
  let plain := (Text.trim name.toList).map fun c => if c = '-' then '_' else c.toLower
  match String.ofList plain with
  | "default" => some .default
  | "save_on_change" => some .saveOnChange
  | "always_save_after_request" => some .alwaysSaveAfterRequest
  | _ => none

namespace PersistPolicies

def add (p : PersistPolicies) : PersistPolicy → PersistPolicies
  | .default => p
  | .saveOnChange => { p with saveOnChange := true }
  | .alwaysSaveAfterRequest => { p with alwaysSaveAfterRequest := true }

def addNames (p : PersistPolicies) : List String → Except ConfigError PersistPolicies
  | [] => return p
  | name :: rest =>
    match PersistPolicy.ofName? name with
    | none => throw (.unknownPolicy name)
    | some policy => (p.add policy).addNames rest

def ofNames (names : List String) : Except ConfigError PersistPolicies := addNames {} names

end PersistPolicies

end SessionVault
