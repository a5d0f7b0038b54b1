import SessionVault.Buffer.Service
import SessionVault.Session.Manager
import SessionVault.Trial.Faulty

namespace SessionVault.Trial

inductive Act where
  | here (s : Buffer.Step)
  | start (job : Job)
  | call (c : Command)
  | gate
  | hook
  | store (c : Command)
  | newId (manager : Nat)
  deriving DecidableEq

abbrev Act.Answer : Act → Type
  | .here s => s.Answer
  | .start _ => Unit
  | .call _ => Bool
  | .gate => Unit
  | .hook => Option Command
  | .store c => c.Reply
  | .newId _ => String

abbrev Procedure (α : Type) := Script Act.Answer α

def act (a : Act) : Procedure a.Answer := Script.request a

def refusal (c : Command) : StoreError := .transient (c.operation.name ++ " rejected")

def callWith (beforeSet : Procedure Unit) (c : Command) : Procedure c.Reply := do
  if ← act (.call c) then
    return .error (refusal c)
  else
    if c.operation = .set then
      act .gate
      beforeSet
    act (.store c)

def lowerWith (remote : (c : Command) → Procedure c.Reply) : (a : Buffer.Act) → Procedure a.Answer
  | .here s => act (.here s)
  | .remote c => remote c
  | .start job => act (.start job)

/-- Runs the next hook on the buffered store.  Writes inside a hook have no hooks. -/
def runHook : Procedure Unit := do
  match ← act .hook with
  | none => return ()
  | some c =>
    let _ ← (Buffer.serve c).interpret (lowerWith (callWith (return ())))

def remote : (c : Command) → Procedure c.Reply := callWith runHook

def buffered {α : Type} (p : Buffer.Service α) : Procedure α := p.interpret (lowerWith remote)

def top (hasBuffer : Bool) (c : Command) : Procedure c.Reply :=
  if hasBuffer then buffered (Buffer.serve c) else remote c

def managed {α : Type} (hasBuffer : Bool) (manager : Nat) (p : Manager.Task α) : Procedure α :=
  p.interpret fun
    | .store c => top hasBuffer c
    | .newId => act (.newId manager)

structure Background where
  job : Job
  rest : Procedure Unit

structure Lab where
  now : Moment
  store : FaultyStore
  refused : List Operation
  calls : List Command
  hooks : List Command
  buffer : Option Buffer
  ids : List (List String)
  queue : List Background
  held : List Background
  armed : Bool
  permit : Bool

namespace Lab

def new (now : Moment) (memory : Memory) (buffer : Option BufferConfig) (ids : List (List String)) :
    Lab where
  now := now
  store := .ofMemory memory
  refused := []
  calls := []
  hooks := []
  buffer := buffer.map fun config => Buffer.new config now
  ids := ids
  queue := []
  held := []
  armed := false
  permit := false

def ttl (l : Lab) : Duration := (l.buffer.map (·.config.ttl)).getD (.ofSeconds 0)

def job (l : Lab) (j : Job) : Background :=
  ⟨j, buffered (Buffer.runJob Table.names l.ttl j)⟩

def takeId : List String → String × List String
  | [] => ("", [])
  | [id] => (id, [id])
  | id :: rest => (id, rest)

def stepHere (l : Lab) (s : Buffer.Step) : Option s.Answer × Lab :=
  match l.buffer with
  | none => (none, l)
  | some b =>
    let (answer, b) := Buffer.step l.now s b
    (answer, { l with buffer := some b })

def answer : Script.Handler Act.Answer Lab
  | .here s, l => l.stepHere s
  | .start j, l => (some (), { l with queue := l.queue ++ [l.job j] })
  | .call c, l =>
    (some (l.refused.contains c.operation), { l with calls := l.calls ++ [c] })
  | .gate, l => (some (), l)
  | .hook, l =>
    if l.buffer.isSome then (some l.hooks.head?, { l with hooks := l.hooks.tail })
    else (some none, l)
  | .store c, l =>
    let (reply, store) := l.store.answer l.now c
    (reply, { l with store := store })
  | .newId manager, l =>
    let (id, rest) := takeId (l.ids.getD manager [])
    (some id, { l with ids := l.ids.set manager rest })

def perform {α : Type} (p : Procedure α) (l : Lab) : Option α × Lab := p.run answer l

def advance : Procedure Unit → Lab → Option (Procedure Unit) × Lab
  | .done _, l => (none, l)
  | .ask .gate next, l =>
    if l.armed then
      if l.permit then advance (next ()) { l with armed := false, permit := false }
      else (some (next ()), { l with armed := false })
    else advance (next ()) l
  | .ask a next, l =>
    match l.answer a with
    | (some x, l) => advance (next x) l
    | (none, l) => (none, l)

def runBackground (b : Background) (l : Lab) : Lab :=
  match advance b.rest l with
  | (some rest, l) => { l with held := l.held ++ [{ b with rest := rest }] }
  | (none, l) => { l with buffer := l.buffer.map (·.finish b.job) }

/-- Lets the waiting jobs run.  A hook may start two more of them, so hooks and waiting jobs bound
their number. -/
def settleFor : Nat → Lab → Lab
  | 0, l => l
  | fuel + 1, l =>
    match l.queue with
    | [] => l
    | b :: rest => settleFor fuel (runBackground b { l with queue := rest })

def settle (l : Lab) : Lab := settleFor (l.queue.length + 2 * l.hooks.length) l

def release (l : Lab) : Lab :=
  match l.held with
  | [] => { l with permit := true }
  | b :: rest => { l with held := rest, queue := l.queue ++ [b] }

def resync (l : Lab) : Option Nat × Lab :=
  l.perform (buffered (Buffer.resyncIn Table.names l.ttl))

def sweep (l : Lab) : Option Nat × Lab := l.perform (buffered Buffer.sweep)

end Lab

end SessionVault.Trial
