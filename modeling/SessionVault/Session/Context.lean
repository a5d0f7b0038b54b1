import SessionVault.Session.Payload

namespace SessionVault

structure SessionContext where
  id : Option String := none
  session : Option Session := none
  /-- Whether the store holds the session; nothing is known before it is read or written. -/
  persisted : Option Bool := none
  metadata : Option Metadata := none

namespace SessionContext

def empty : SessionContext := {}

instance : Inhabited SessionContext := ⟨empty⟩

def unbound (id : Option String) : SessionContext := { id := id, persisted := some false }

end SessionContext

end SessionVault
