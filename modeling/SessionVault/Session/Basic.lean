import SessionVault.Calendar.Timestamp
import SessionVault.Session.Attribute

namespace SessionVault

structure Session where
  id : String
  created : Instant
  accessed : Instant
  /-- The seconds that it may stay unused. -/
  maxInactive : UInt64
  isNew : Bool
  valid : Bool
  principal : Option String
  attributes : Table Attribute
  /-- Changed in another way than by setting attributes. -/
  dirty : Bool
  changed : Names

namespace Session

def fresh (id : String) (maxInactive : UInt64) (now : Instant) : Session where
  id := id
  created := now
  accessed := now
  maxInactive := maxInactive
  isNew := true
  valid := true
  principal := none
  attributes := .empty
  dirty := false
  changed := .empty

def attribute? (s : Session) (name : String) : Option Attribute := s.attributes.get? name

def attributeOf? (s : Session) (name type : String) : Option Attribute :=
  (s.attribute? name).filter fun a => a.type == type

def holds (s : Session) (name : String) (value : Attribute) : Bool :=
  (s.attribute? name).any fun old => old.same value

def setAttribute (s : Session) (name : String) (value : Attribute) : Bool × Session :=
  if s.holds name value then (false, s)
  else
    (true, { s with
      attributes := s.attributes.insert name value
      changed := s.changed.insert name () })

def removeAttribute (s : Session) (name : String) : Bool × Session :=
  (s.attributes.contains name, { s with
    attributes := s.attributes.erase name
    changed := s.changed.erase name
    dirty := true })

def setPrincipal (s : Session) (principal : Option String) : Session :=
  { s with principal := principal, dirty := true }

def markDirty (s : Session) : Session := { s with dirty := true }

def invalidate (s : Session) : Session := { s with valid := false }

def access (s : Session) (now : Instant) : Session := { s with accessed := now }

def setMaxInactive (s : Session) (seconds : UInt64) : Session := { s with maxInactive := seconds }

def isDirty (s : Session) : Bool := s.dirty || !s.changed.isEmpty

def resetTracking (s : Session) : Session := { s with dirty := false, changed := .empty }

@[simp] theorem isDirty_resetTracking (s : Session) : s.resetTracking.isDirty = false := rfl

end Session

end SessionVault
