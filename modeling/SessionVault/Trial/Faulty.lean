import SessionVault.Store.Memory

namespace SessionVault.Trial

structure FaultyStore where
  memory : Memory
  failing : Bool
  failNext : Nat
  reached : Nat

namespace FaultyStore

def ofMemory (m : Memory) : FaultyStore := ⟨m, false, 0, 0⟩

def failure (c : Command) : StoreError := .transient ("injected failure on " ++ c.operation.title)

def receive (s : FaultyStore) : Bool × FaultyStore :=
  (0 < s.failNext || s.failing, { s with failNext := s.failNext - 1, reached := s.reached + 1 })

def answer (now : Moment) (c : Command) (s : FaultyStore) : Option c.Reply × FaultyStore :=
  match s.receive with
  | (true, s) => (some (.error (failure c)), s)
  | (false, s) =>
    let (reply, memory) := Memory.answer now c s.memory
    (reply, { s with memory := memory })

end FaultyStore

end SessionVault.Trial
