import SessionVault.Store.Memory

/-!
The local side of a buffered store: copies of what was written through this node, a flag for writes
that the remote store missed, and the clock of the two maintenance jobs.  Everything here happens in
one step on this node.
-/

namespace SessionVault

structure BufferConfig where
  /-- How long a session lives; its whole seconds are given to the remote store with every repaired
  entry. -/
  ttl : Duration
  grace : Duration := .ofSeconds 60
  resyncInterval : Duration := .ofSeconds 600
  expiryInterval : Duration := .ofSeconds 3600
  deriving DecidableEq

inductive Job where
  | resync
  | expiry
  deriving DecidableEq

structure JobClock where
  last : Moment
  running : Bool
  deriving DecidableEq

def JobClock.isDue (c : JobClock) (now : Moment) (interval : Duration) : Bool :=
  !c.running && interval.nanoseconds ≤ now - c.last

structure Buffer.Entry where
  value : Octets
  accessed : Moment
  deriving DecidableEq

structure Buffer where
  config : BufferConfig
  entries : Table Buffer.Entry
  needsResync : Bool
  resync : JobClock
  expiry : JobClock
  deriving DecidableEq

namespace Buffer

def new (config : BufferConfig) (now : Moment) : Buffer where
  config := config
  entries := .empty
  needsResync := false
  resync := ⟨now, false⟩
  expiry := ⟨now, false⟩

def contains (b : Buffer) (key : String) : Bool := b.entries.contains key

def value? (b : Buffer) (key : String) : Option Octets := (b.entries.get? key).map (·.value)

def put (b : Buffer) (now : Moment) (key : String) (value : Octets) : Buffer :=
  { b with entries := b.entries.insert key ⟨value, now⟩ }

def touch (b : Buffer) (now : Moment) (key : String) : Option Octets × Buffer :=
  match b.entries.get? key with
  | none => (none, b)
  | some e => (some e.value, b.put now key e.value)

def drop (b : Buffer) (key : String) : Buffer := { b with entries := b.entries.erase key }

def keys (b : Buffer) (pattern : String) : Except StoreError Names :=
  match Glob.Pattern.ofText? pattern with
  | none => throw (.invalidPattern pattern)
  | some p => return (b.entries.filter fun key _ => p.matches key).map fun _ => ()

def idleLimit? (c : BufferConfig) : Option Duration := c.ttl.add? c.grace

def evict (b : Buffer) (now : Moment) (limit : Duration) : Nat × Buffer :=
  let kept := b.entries.filter fun _ e => now - e.accessed ≤ limit.nanoseconds
  (b.entries.size - kept.size, { b with entries := kept })

def schedule (b : Buffer) (now : Moment) : List Job × Buffer :=
  let resyncDue := b.needsResync && b.resync.isDue now b.config.resyncInterval
  let expiryDue := b.expiry.isDue now b.config.expiryInterval
  ((if resyncDue then [.resync] else []) ++ (if expiryDue then [.expiry] else []),
    { b with
      resync := if resyncDue then ⟨now, true⟩ else b.resync
      expiry := if expiryDue then ⟨now, true⟩ else b.expiry })

def finish (b : Buffer) : Job → Buffer
  | .resync => { b with resync := { b.resync with running := false } }
  | .expiry => { b with expiry := { b.expiry with running := false } }

inductive Step where
  | put (key : String) (value : Octets)
  | touch (key : String)
  | value (key : String)
  | contains (key : String)
  | drop (key : String)
  | matching (pattern : String)
  | names
  | flag (raised : Bool)
  | evict
  | schedule
  deriving DecidableEq

abbrev Step.Answer : Step → Type
  | .put _ _ => Unit
  | .touch _ => Option Octets
  | .value _ => Option Octets
  | .contains _ => Bool
  | .drop _ => Bool
  | .matching _ => Except StoreError Names
  | .names => Names
  | .flag _ => Unit
  | .evict => Nat
  | .schedule => List Job

/-- Takes a step at a moment.  An eviction whose limit cannot be counted has no outcome. -/
def step (now : Moment) : Script.Handler Step.Answer Buffer
  | .put key value, b => (some (), b.put now key value)
  | .touch key, b =>
    let (value, b) := b.touch now key
    (some value, b)
  | .value key, b => (some (b.value? key), b)
  | .contains key, b => (some (b.contains key), b)
  | .drop key, b => (some (b.contains key), b.drop key)
  | .matching pattern, b => (some (b.keys pattern), b)
  | .names, b => (some (b.entries.map fun _ => ()), b)
  | .flag raised, b => (some (), { b with needsResync := raised })
  | .evict, b =>
    match idleLimit? b.config with
    | none => (none, b)
    | some limit =>
      let (count, b) := b.evict now limit
      (some count, b)
  | .schedule, b =>
    let (jobs, b) := b.schedule now
    (some jobs, b)

end Buffer

end SessionVault
