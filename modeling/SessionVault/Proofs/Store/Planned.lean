import SessionVault.Proofs.Store.Lifetime
import SessionVault.Proofs.Table

namespace SessionVault

structure Plan where
  now : Nat → Moment
  failure? : Nat → Option StoreError

structure Planned where
  memory : Memory
  calls : List Command

namespace Plan

variable {p : Plan} {m : Memory} {calls : List Command} {key : String} {value : Octets}
variable {e : StoreError} {seconds : UInt64}

def answer (p : Plan) : Script.Handler Command.Reply Planned
  | c, s =>
    match p.failure? s.calls.length with
    | some e => (some (.error e), ⟨s.memory, s.calls ++ [c]⟩)
    | none =>
      let (x, memory) := Memory.answer (p.now s.calls.length) c s.memory
      (x, ⟨memory, s.calls ++ [c]⟩)

/-- The call of a number succeeds, whatever is stored.  A deadline beyond the clock is none. -/
def Succeeds (p : Plan) (n : Nat) : Command → Prop
  | .expire _ seconds => p.failure? n = none ∧ (Moment.later? (p.now n) seconds).isSome
  | _ => p.failure? n = none

theorem answer_failure (h : p.failure? calls.length = some e) (c : Command) :
    p.answer c ⟨m, calls⟩ = (some (.error e), ⟨m, calls ++ [c]⟩) := by
  simp only [answer, h]

theorem answer_memory (h : p.failure? calls.length = none) (c : Command) :
    p.answer c ⟨m, calls⟩ =
      ((Memory.answer (p.now calls.length) c m).1,
        ⟨(Memory.answer (p.now calls.length) c m).2, calls ++ [c]⟩) := by
  simp only [answer, h]

theorem answer_set (h : p.failure? calls.length = none) (m : Memory) (key : String)
    (value : Octets) :
    p.answer (.set key value) ⟨m, calls⟩ =
      (some (.ok ()), ⟨m.put key value, calls ++ [.set key value]⟩) :=
  answer_memory h _

theorem answer_expire_put {n : Nat} (h : p.Succeeds n (.expire key seconds))
    (hn : calls.length = n) (m : Memory) (value : Octets) :
    ∃ m', p.answer (.expire key seconds) ⟨m.put key value, calls⟩ =
        (some (.ok true), ⟨m', calls ++ [.expire key seconds]⟩) ∧
      m'.entries.get? key = some ⟨value, some (p.now n + (Duration.ofSeconds seconds).nanoseconds)⟩ ∧
      ∀ k, k ≠ key → m'.entries.get? k = m.entries.get? k := by
  subst hn
  obtain ⟨hanswered, hlater⟩ := h
  obtain ⟨deadline, hdeadline⟩ := Option.isSome_iff_exists.1 hlater
  refine ⟨⟨(m.put key value).entries.insert key ⟨value, some deadline⟩⟩, ?_, ?_, fun k hk => ?_⟩
  · rw [answer_memory hanswered, Memory.answer_expire_later m key value hdeadline]
  · rw [← Moment.eq_of_later? hdeadline]
    exact Table.get?_insert_self ..
  · exact (Table.get?_insert_of_ne hk).trans (Table.get?_insert_of_ne hk)

end Plan

end SessionVault
