namespace SessionVault

/-- What becomes of an id that is claimed but holds no session yet. -/
inductive NullSession where
  | error
  | absent
  deriving DecidableEq

def NullSession.name : NullSession → String
  | .error => "error"
  | .absent => "absent"

def NullSession.ofName? (name : String) : Option NullSession :=
  [NullSession.error, .absent].find? fun p => p.name == name

structure PersistPolicies where
  saveOnChange : Bool := false
  alwaysSaveAfterRequest : Bool := false
  deriving DecidableEq

/-- All times are in seconds. -/
structure SessionSettings where
  keyPrefix : String := ""
  policies : PersistPolicies := {}
  timeout : UInt64 := 1800
  minExpire : UInt64 := 1800
  nullSession : NullSession := .error
  /-- The attribute that marks a session dirty instead of being set. -/
  trackingKey : Option String := none
  deriving DecidableEq

/-- The time to live of a session in the store: never below its own interval, nor below either
floor. -/
def SessionSettings.effectiveTimeout (s : SessionSettings) (maxInactive : UInt64) : UInt64 :=
  max (max maxInactive s.timeout) s.minExpire

def SessionSettings.key (s : SessionSettings) (id : String) : String := s.keyPrefix ++ id

end SessionVault
