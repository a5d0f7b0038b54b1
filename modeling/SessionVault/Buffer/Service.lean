import SessionVault.Buffer.Basic

/-!
A buffered store: every command answered by steps on this node and commands to the remote store.
Reads look here first; a write that the remote store misses stays here, and a resync repairs it
later.
-/

namespace SessionVault.Buffer

inductive Act where
  | here (s : Step)
  | remote (c : Command)
  | start (job : Job)
  deriving DecidableEq

abbrev Act.Answer : Act → Type
  | .here s => s.Answer
  | .remote c => c.Reply
  | .start _ => Unit

abbrev Service (α : Type) := Script Act.Answer α

def here (s : Step) : Service s.Answer := Script.request (Act.here s)

def remote (c : Command) : Service c.Reply := Script.request (Act.remote c)

def start (job : Job) : Service Unit := Script.request (Act.start job)

def degrade : Service Unit := here (.flag true)

def set (key : String) (value : Octets) : Service (Except StoreError Unit) := do
  here (.put key value)
  match ← remote (.set key value) with
  | .ok _ => return .ok ()
  | .error _ =>
    degrade
    return .ok ()

/-- While the remote store is out of reach, a key counts as free that is not held here. -/
def setIfAbsent (key : String) (value : Octets) : Service (Except StoreError Claim) := do
  let claim ← match ← remote (.setIfAbsent key value) with
    | .ok claim => pure claim
    | .error _ =>
      degrade
      let held ← here (.contains key)
      pure (Claim.ofBool !held)
  if claim.isCreated then
    here (.put key value)
  return .ok claim

def expire (key : String) (seconds : UInt64) : Service (Except StoreError Bool) := do
  match ← remote (.expire key seconds) with
  | .ok found => return .ok found
  | .error _ =>
    degrade
    return .ok false

def startAll : List Job → Service Unit
  | [] => return ()
  | job :: rest => do
    start job
    startAll rest

def get (key : String) : Service (Except StoreError (Option Octets)) := do
  startAll (← here .schedule)
  match ← here (.touch key) with
  | some value => return .ok (some value)
  | none =>
    match ← remote (.get key) with
    | .ok value => return .ok value
    | .error e =>
      degrade
      return .error e

def delete (key : String) : Service (Except StoreError UInt64) := do
  let held ← here (.drop key)
  match ← remote (.delete key) with
  | .ok count => return .ok count
  | .error _ =>
    degrade
    return .ok (if held then 1 else 0)

def existsKey (key : String) : Service (Except StoreError Bool) := do
  if ← here (.contains key) then
    return .ok true
  else
    remote (.exists key)

def matching (pattern : String) : Service (Except StoreError Names) := do
  match ← remote (.keys pattern) with
  | .ok names => return .ok names
  | .error _ =>
    degrade
    here (.matching pattern)

def serve : (c : Command) → Service c.Reply
  | .set key value => set key value
  | .setIfAbsent key value => setIfAbsent key value
  | .expire key seconds => expire key seconds
  | .get key => get key
  | .delete key => delete key
  | .exists key => existsKey key
  | .keys pattern => matching pattern

def resyncPasses : Nat := 3

/-- Writes a value to the remote store and gives it its time to live; then looks whether the value
held here has moved on meanwhile, and if so writes again.  After the last pass the flag is raised
for another resync. -/
def repair (key : String) (ttl : UInt64) : Nat → Octets → Service (Except StoreError Unit)
  | 0, _ => do
    here (.flag true)
    return .ok ()
  | passes + 1, value => do
    match ← remote (.set key value) with
    | .error e => return .error e
    | .ok _ =>
      match ← remote (.expire key ttl) with
      | .error e => return .error e
      | .ok _ =>
        match ← here (.value key) with
        | some current => if current = value then return .ok () else repair key ttl passes current
        | none => return .ok ()

def repairKey (key : String) (ttl : UInt64) : Service (Except StoreError Bool) := do
  match ← here (.value key) with
  | none => return .ok false
  | some value =>
    match ← repair key ttl resyncPasses value with
    | .ok _ => return .ok true
    | .error e => return .error e

def repairAll (ttl : UInt64) (written : Nat) : List String → Service Nat
  | [] => return written
  | key :: rest => do
    match ← repairKey key ttl with
    | .ok true => repairAll ttl (written + 1) rest
    | .ok false => repairAll ttl written rest
    | .error _ =>
      here (.flag true)
      return written

/-- A resync visits the keys in some order. -/
def resyncIn (order : Names → List String) (ttl : Duration) : Service Nat := do
  here (.flag false)
  repairAll ttl.seconds 0 (order (← here .names))

def sweep : Service Nat := here .evict

def runJob (order : Names → List String) (ttl : Duration) : Job → Service Unit
  | .resync => do
    let _ ← resyncIn order ttl
  | .expiry => do
    let _ ← sweep

end SessionVault.Buffer
