import SessionVault.Script
import SessionVault.Session.Context
import SessionVault.Settings.Session
import SessionVault.Store.Command

/-!
Sessions in a store.  An id is absent, claimed (its key holds a placeholder), persisted or removed.
An id is claimed before it is used, so no two callers get the same one.  A save writes only what
changed, but gives the key its time to live again in any case.
-/

namespace SessionVault

inductive SessionError where
  /-- The id is claimed, but nothing was saved under it. -/
  | nullSession (id : String)
  | claimExhausted (attempts : Nat)
  | store (e : StoreError)
  deriving DecidableEq

def SessionError.message : SessionError → String
  | .nullSession id => "session '" ++ id ++ "' holds no data"
  | .claimExhausted attempts =>
    "could not claim a session id after " ++ toString attempts ++ " attempts"
  | .store e => e.message

inductive SaveOutcome where
  | written
  | unchanged
  | failed
  deriving DecidableEq

structure Manager where
  settings : SessionSettings := {}
  registry : Registry := Registry.standard

namespace Manager

inductive Request where
  | store (c : Command)
  | newId
  deriving DecidableEq

abbrev Request.Answer : Request → Type
  | .store c => c.Reply
  | .newId => String

abbrev Task (α : Type) := Script Request.Answer α

def ask (c : Command) : Task c.Reply := Script.request (Request.store c)

def newId : Task String := Script.request Request.newId

/-- What the key of a claimed id holds until its first save. -/
def placeholder : Octets := Octets.ofText "null"

def maxClaims : Nat := 16

def key (m : Manager) (id : String) : String := m.settings.key id

def effectiveTimeout (m : Manager) (s : Session) : UInt64 :=
  m.settings.effectiveTimeout s.maxInactive

/-- Whether a save has to write: it is told to, something changed, or the store is not known to
hold these very attributes. -/
def needsWrite (ctx : SessionContext) (s : Session) (hash : Octets) (force : Bool) : Bool :=
  force || s.isDirty || ctx.persisted != some true || ctx.metadata.map (·.hash) != some hash

def renew (m : Manager) (s : Session) (outcome : SaveOutcome) : Task SaveOutcome := do
  match ← ask (.expire (m.key s.id) (m.effectiveTimeout s)) with
  | .ok _ => return outcome
  | .error _ => return .failed

def save (m : Manager) (force : Bool) (ctx : SessionContext) : Task (SaveOutcome × SessionContext) :=
  match ctx.session with
  | none => return (.unchanged, ctx)
  | some s =>
    match s.hash with
    | .error _ => return (.failed, ctx)
    | .ok hash =>
      if needsWrite ctx s hash force then
        match s.encode ⟨hash⟩ with
        | .error _ => return (.failed, ctx)
        | .ok payload => do
          match ← ask (.set (m.key s.id) payload) with
          | .error _ => return (.failed, ctx)
          | .ok _ =>
            let ctx := { ctx with
              session := some s.resetTracking
              persisted := some true
              metadata := some ⟨hash⟩ }
            return (← m.renew s .written, ctx)
      else do
        return (← m.renew s .unchanged, ctx)

def claimNew (m : Manager) : Nat → Task (Except SessionError String)
  | 0 => return .error (.claimExhausted maxClaims)
  | attempts + 1 => do
    let id ← newId
    match ← ask (.setIfAbsent (m.key id) placeholder) with
    | .error e => return .error (.store e)
    | .ok .created => return .ok id
    | .ok .existed => m.claimNew attempts

def claim (m : Manager) : Option String → Task (Except SessionError (Option String))
  | some id => do
    match ← ask (.setIfAbsent (m.key id) placeholder) with
    | .error e => return .error (.store e)
    | .ok .created => return .ok (some id)
    | .ok .existed => return .ok none
  | none => do
    match ← m.claimNew maxClaims with
    | .ok id => return .ok (some id)
    | .error e => return .error e

def create (m : Manager) (now : Instant) (requested : Option String) (ctx : SessionContext) :
    Task (Except SessionError (Option String) × SessionContext) := do
  match ← m.claim requested with
  | .error e => return (.error e, ctx)
  | .ok none => return (.ok none, ctx)
  | .ok (some id) =>
    let timeout := m.settings.effectiveTimeout 0
    let bound : SessionContext :=
      { id := some id
        session := some (Session.fresh id timeout now)
        persisted := some false
        metadata := some Metadata.empty }
    match ← m.save true bound with
    | (.failed, _) =>
      let _ ← ask (.expire (m.key id) timeout)
      return (.ok none, SessionContext.empty)
    | (_, ctx) => return (.ok (some id), ctx)

def loaded (m : Manager) (now : Instant) (id : String) (s : Session) : Session :=
  { s with
    id := id
    accessed := now
    isNew := false
    valid := true
    dirty := false
    changed := .empty
    maxInactive := m.effectiveTimeout s }

/-- Finds the session of an id and binds it to the context.  A store that fails, and octets that
are no session, count as absence. -/
def find (m : Manager) (now : Instant) (id : String) (ctx : SessionContext) :
    Task (Except SessionError (Option String) × SessionContext) :=
  if ctx.id = some id then return (.ok (ctx.session.map (·.id)), ctx)
  else do
    match ← ask (.get (m.key id)) with
    | .error _ | .ok none => return (.ok none, SessionContext.unbound none)
    | .ok (some data) =>
      if data = placeholder then
        match m.settings.nullSession with
        | .error => return (.error (.nullSession id), ctx)
        | .absent => return (.ok none, SessionContext.unbound none)
      else
        match Session.decode m.registry data with
        | .ok (s, metadata) =>
          let s := m.loaded now id s
          return (.ok (some s.id),
            { id := some id
              session := some s
              persisted := some true
              metadata := some metadata })
        | .error _ => return (.ok none, SessionContext.unbound (some id))

def remove (m : Manager) (s : Session) : Task (Except StoreError Bool) := do
  match ← ask (.delete (m.key s.id)) with
  | .ok count => return .ok (0 < count)
  | .error e => return .error e

def afterRequest (m : Manager) (ctx : SessionContext) : Task SessionContext := do
  match ctx.session with
  | none => return SessionContext.empty
  | some s =>
    if s.valid then
      let _ ← m.save m.settings.policies.alwaysSaveAfterRequest ctx
      return SessionContext.empty
    else
      let _ ← m.remove s
      return SessionContext.empty

def saveChange (m : Manager) (changed : Bool) (ctx : SessionContext) : Task SessionContext := do
  if changed && m.settings.policies.saveOnChange then
    return (← m.save true ctx).2
  else
    return ctx

/-- Sets an attribute and says whether that changed anything.  The tracking key is not set; it marks
the session dirty. -/
def setAttribute (m : Manager) (name : String) (value : Attribute) (ctx : SessionContext) :
    Task (Bool × SessionContext) :=
  match ctx.session with
  | none => return (false, ctx)
  | some s =>
    if m.settings.trackingKey = some name then
      return (true, { ctx with session := some s.markDirty })
    else do
      let (changed, s) := s.setAttribute name value
      return (changed, ← m.saveChange changed { ctx with session := some s })

def removeAttribute (m : Manager) (name : String) (ctx : SessionContext) :
    Task (Bool × SessionContext) :=
  match ctx.session with
  | none => return (false, ctx)
  | some s => do
    let (existed, s) := s.removeAttribute name
    return (existed, ← m.saveChange true { ctx with session := some s })

end Manager

end SessionVault
