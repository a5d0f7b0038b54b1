import SessionVault.Buffer.Service
import SessionVault.Remote.Pool
import SessionVault.Remote.Service
import SessionVault.Session.Manager

namespace SessionVault.Stack

inductive Act where
  | here (s : Buffer.Step)
  | start (job : Job)
  | link (a : Remote.Act)
  deriving DecidableEq

abbrev Act.Answer : Act → Type
  | .here s => s.Answer
  | .start _ => Unit
  | .link a => a.Answer

abbrev Service (α : Type) := Script Act.Answer α

def act (a : Act) : Service a.Answer := Script.request a

def remote (s : Settings) (c : Command) : Service c.Reply :=
  (Remote.serve (.ofTopology s.redis.topology) c).interpret fun a => act (.link a)

def lower (s : Settings) : (a : Buffer.Act) → Service a.Answer
  | .here step => act (.here step)
  | .remote c => remote s c
  | .start job => act (.start job)

def serve (s : Settings) (c : Command) : Service c.Reply :=
  if s.localCache.enabled then (Buffer.serve c).interpret (lower s) else remote s c

def manager (s : Settings) : Manager where
  settings := s.session

def managed {α : Type} (s : Settings) (candidate : String) (p : Manager.Task α) : Service α :=
  p.interpret fun
    | .store c => serve s c
    | .newId => return candidate

structure State where
  pool : Remote.Pool
  buffer : Buffer

def State.new (s : Settings) (now : Moment) : State :=
  ⟨.ofSettings s.redis, Buffer.new s.bufferConfig now⟩

def State.close (st : State) : State := { st with pool := st.pool.close }

/-- Answers for a stack that is closed; one that is open would need the server.  The jobs of the
buffer do not run. -/
def State.answer (now : Moment) : Script.Handler Act.Answer State
  | .here step, st =>
    let (answer, buffer) := Buffer.step now step st.buffer
    (answer, { st with buffer := buffer })
  | .start _, st => (some (), st)
  | .link (.send _), st => (st.pool.refusal?.map .error, st)
  | .link .isCancelled, st => (some st.pool.closed, st)
  | .link (.pause _), st => (some (!st.pool.closed), st)

end SessionVault.Stack
