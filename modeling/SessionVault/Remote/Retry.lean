import SessionVault.Remote.Reply
import SessionVault.Script
import SessionVault.Settings.Topology
import SessionVault.Time

namespace SessionVault.Remote

structure RetryPolicy where
  /-- All attempts, the first included.  One is made in any case. -/
  maxAttempts : UInt32
  backoff : Duration
  deriving DecidableEq

def RetryPolicy.ofTopology : Topology → RetryPolicy
  | .standalone => ⟨3, .ofSeconds 0⟩
  | .sentinel => ⟨3, .ofSeconds 2⟩
  | .cluster => ⟨30, .ofSeconds 4⟩

inductive Act where
  | send (words : List Octets)
  | isCancelled
  | pause (d : Duration)
  deriving DecidableEq

abbrev Act.Answer : Act → Type
  | .send _ => Except StoreError Reply
  | .isCancelled => Bool
  | .pause _ => Bool

abbrev Link (α : Type) := Script Act.Answer α

def send (words : List Octets) : Link (Except StoreError Reply) := Script.request (Act.send words)

def isCancelled : Link Bool := Script.request Act.isCancelled

def pause (d : Duration) : Link Bool := Script.request (Act.pause d)

def waitOn (policy : RetryPolicy) : Link Bool := do
  if ← isCancelled then
    return false
  else if policy.backoff.nanoseconds = 0 then
    return true
  else
    pause policy.backoff

/-- Makes an attempt after `made` others; `left` more may follow. -/
def attempts {α : Type} (policy : RetryPolicy) (attempt : Link (Except StoreError α)) (made : Nat) :
    Nat → Link (Except StoreError α)
  | 0 => do
    match ← attempt with
    | .error (.unreachable _ message) => return .error (.unreachable (made + 1) message)
    | outcome => return outcome
  | left + 1 => do
    match ← attempt with
    | .error (.unreachable _ _) =>
      if ← waitOn policy then
        attempts policy attempt (made + 1) left
      else
        return .error .interrupted
    | outcome => return outcome

def retry {α : Type} (policy : RetryPolicy) (attempt : Link (Except StoreError α)) :
    Link (Except StoreError α) :=
  attempts policy attempt 0 (policy.maxAttempts.toNat - 1)

end SessionVault.Remote
