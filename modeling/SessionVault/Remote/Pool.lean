import SessionVault.Settings.Resolve
import SessionVault.Store.Error

namespace SessionVault.Remote

structure Pool where
  topology : Topology
  size : Nat
  closed : Bool
  deriving DecidableEq

namespace Pool

def ofSettings (s : RedisSettings) : Pool := ⟨s.topology, 0, false⟩

def close (p : Pool) : Pool := { p with size := 0, closed := true }

def refusal? (p : Pool) : Option StoreError :=
  if p.closed then some (.pool "pool is closed") else none

end Pool

end SessionVault.Remote
