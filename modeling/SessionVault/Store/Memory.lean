import SessionVault.Glob.Pattern
import SessionVault.Script
import SessionVault.Store.Command
import SessionVault.Time

/-!
A store in memory.  An entry whose deadline has come is no longer seen; it is thrown away, with all
others of its kind, when somebody reads its key.
-/

namespace SessionVault

structure Memory.Entry where
  value : Octets
  deadline : Option Moment
  deriving DecidableEq

def Memory.Entry.isLive (e : Memory.Entry) (now : Moment) : Bool :=
  match e.deadline with
  | none => true
  | some deadline => now < deadline

structure Memory where
  entries : Table Memory.Entry

namespace Memory

def empty : Memory := ⟨.empty⟩

instance : Inhabited Memory := ⟨empty⟩

def live? (m : Memory) (now : Moment) (key : String) : Option Entry :=
  (m.entries.get? key).filter (·.isLive now)

def liveEntries (m : Memory) (now : Moment) : Table Entry := m.entries.filter fun _ e => e.isLive now

def size (m : Memory) (now : Moment) : Nat := (m.liveEntries now).size

def isEmpty (m : Memory) (now : Moment) : Bool := m.size now == 0

def remaining? (m : Memory) (now : Moment) (key : String) : Option Nat :=
  ((m.live? now key).bind (·.deadline)).map (· - now)

def put (m : Memory) (key : String) (value : Octets) : Memory :=
  ⟨m.entries.insert key ⟨value, none⟩⟩

def putIfAbsent (m : Memory) (now : Moment) (key : String) (value : Octets) : Claim × Memory :=
  if (m.live? now key).isSome then (.existed, m) else (.created, m.put key value)

/-- There is no outcome if the deadline lies beyond the clock. -/
def expire (m : Memory) (now : Moment) (key : String) (seconds : UInt64) : Option Bool × Memory :=
  match m.live? now key with
  | none => (some false, m)
  | some e =>
    match Moment.later? now seconds with
    | none => (none, m)
    | some deadline => (some true, ⟨m.entries.insert key { e with deadline := some deadline }⟩)

/-- The value of a key.  If its deadline has come, all entries of that kind go. -/
def read (m : Memory) (now : Moment) (key : String) : Option Octets × Memory :=
  match m.entries.get? key with
  | none => (none, m)
  | some e => if e.isLive now then (some e.value, m) else (none, ⟨m.liveEntries now⟩)

def delete (m : Memory) (now : Moment) (key : String) : UInt64 × Memory :=
  (if (m.live? now key).isSome then 1 else 0, ⟨m.entries.erase key⟩)

def keys (m : Memory) (now : Moment) (pattern : String) : Except StoreError Names :=
  match Glob.Pattern.ofText? pattern with
  | none => throw (.invalidPattern pattern)
  | some p => return ((m.liveEntries now).filter fun key _ => p.matches key).map fun _ => ()

def answer (now : Moment) : Script.Handler Command.Reply Memory
  | .set key value, m => (some (.ok ()), m.put key value)
  | .setIfAbsent key value, m =>
    let (claim, m) := m.putIfAbsent now key value
    (some (.ok claim), m)
  | .expire key seconds, m =>
    let (found, m) := m.expire now key seconds
    (found.map .ok, m)
  | .get key, m =>
    let (value, m) := m.read now key
    (some (.ok value), m)
  | .delete key, m =>
    let (count, m) := m.delete now key
    (some (.ok count), m)
  | .exists key, m =>
    let (value, m) := m.read now key
    (some (.ok value.isSome), m)
  | .keys pattern, m => (some (m.keys now pattern), m)

end Memory

end SessionVault
