import SessionVault.Octets
import SessionVault.Store.Error
import SessionVault.Table

namespace SessionVault

inductive Claim where
  | existed
  | created
  deriving DecidableEq

def Claim.isCreated : Claim → Bool
  | .existed => false
  | .created => true

def Claim.ofBool (created : Bool) : Claim := if created then .created else .existed

@[simp] theorem Claim.isCreated_ofBool (b : Bool) : (Claim.ofBool b).isCreated = b := by
  cases b <;> rfl

inductive Operation where
  | set
  | setIfAbsent
  | expire
  | get
  | delete
  | exists
  | keys
  deriving DecidableEq

def Operation.name : Operation → String
  | .set => "set"
  | .setIfAbsent => "set_if_absent"
  | .expire => "expire"
  | .get => "get"
  | .delete => "delete"
  | .exists => "exists"
  | .keys => "keys"

def Operation.title : Operation → String
  | .set => "Set"
  | .setIfAbsent => "SetIfAbsent"
  | .expire => "Expire"
  | .get => "Get"
  | .delete => "Delete"
  | .exists => "Exists"
  | .keys => "Keys"

inductive Command where
  | set (key : String) (value : Octets)
  | setIfAbsent (key : String) (value : Octets)
  | expire (key : String) (seconds : UInt64)
  | get (key : String)
  | delete (key : String)
  | exists (key : String)
  | keys (pattern : String)
  deriving DecidableEq

namespace Command

def operation : Command → Operation
  | .set _ _ => .set
  | .setIfAbsent _ _ => .setIfAbsent
  | .expire _ _ => .expire
  | .get _ => .get
  | .delete _ => .delete
  | .exists _ => .exists
  | .keys _ => .keys

def key : Command → String
  | .set key _ | .setIfAbsent key _ | .expire key _ | .get key | .delete key | .exists key => key
  | .keys pattern => pattern

/-- What a command yields.  `expire` says whether the key held a value, `delete` how many did. -/
abbrev Answer : Command → Type
  | .set _ _ => Unit
  | .setIfAbsent _ _ => Claim
  | .expire _ _ => Bool
  | .get _ => Option Octets
  | .delete _ => UInt64
  | .exists _ => Bool
  | .keys _ => Names

abbrev Reply (c : Command) : Type := Except StoreError c.Answer

end Command

end SessionVault
