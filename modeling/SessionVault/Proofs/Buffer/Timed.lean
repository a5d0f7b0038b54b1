import SessionVault.Proofs.Buffer.Calls
import SessionVault.Proofs.History

namespace SessionVault.Buffer

structure Timed (ρ : Type) where
  now : Moment
  buffer : Buffer
  remote : ρ

namespace Timed

variable {ρ α : Type}

/-- Acts, each at its moment.  A job that is started runs at another time. -/
def Acts (R : Moment → Script.Rules Command.Reply ρ) : Script.Rules Act.Answer (Timed ρ)
  | .here s, n, x, n' =>
    n.now ≤ n'.now ∧ step n'.now s n.buffer = (some x, n'.buffer) ∧ n'.remote = n.remote
  | .remote c, n, x, n' => n.now ≤ n'.now ∧ R n'.now c n.remote x n'.remote ∧ n'.buffer = n.buffer
  | .start _, n, _, n' => n' = n

abbrev Event (ρ : Type) : Type := Script.Event Act.Answer (Timed ρ)

abbrev Log (ρ : Type) : Type := Script.History Act.Answer (Timed ρ)

abbrev Recorded (R : Moment → Script.Rules Command.Reply ρ) :
    Script.Rules Act.Answer (Timed ρ × Log ρ) :=
  (Acts R).logged

variable {R : Moment → Script.Rules Command.Reply ρ} {start s s' : Timed ρ × Log ρ}

inductive Course (R : Moment → Script.Rules Command.Reply ρ) (start : Timed ρ × Log ρ) :
    Timed ρ × Log ρ → Prop where
  | start : Course R start start
  | act {s s' : Timed ρ × Log ρ} {r : Act} {x : r.Answer} :
      Course R start s → Recorded R r s x s' → Course R start s'
  | ended {s : Timed ρ × Log ρ} (job : Job) :
      Course R start s → Course R start ({ s.1 with buffer := s.1.buffer.finish job }, s.2)

inductive Calls (R : Moment → Script.Rules Command.Reply ρ) (order : Names → List String)
    (ok : Call → Prop) (start : Timed ρ × Log ρ) : Timed ρ × Log ρ → Prop where
  | start : Calls R order ok start start
  | call {s s' : Timed ρ × Log ρ} (k : Call) {x : k.Answer} :
      Calls R order ok start s → ok k →
      (k.script order s.1.buffer.config.ttl).Runs (Recorded R) s x s' →
      Calls R order ok start ({ s'.1 with buffer := k.close s'.1.buffer }, s'.2)

theorem Course.runs {p : Service α} {a : α} (h : Course R start s)
    (hrun : p.Runs (Recorded R) s a s') : Course R start s' := by
  induction hrun with
  | done => exact h
  | ask hx _ ih => exact ih (h.act hx)

end Timed

end SessionVault.Buffer
