import SessionVault.Proofs.Buffer.Resync

namespace SessionVault.Buffer

structure Linked (ρ : Type) where
  buffer : Buffer
  remote : ρ

inductive Call where
  | command (c : Command)
  /-- A job that is called for, or one that runs in the background since some command has
  started it. -/
  | job (j : Job) (background : Bool)
  deriving DecidableEq

abbrev Call.Answer : Call → Type
  | .command c => c.Reply
  | .job _ _ => Nat

def Call.script (order : Names → List String) (ttl : Duration) : (k : Call) → Service k.Answer
  | .command c => serve c
  | .job .resync _ => resyncIn order ttl
  | .job .expiry _ => sweep

def Call.close : Call → Buffer → Buffer
  | .job j true, b => b.finish j
  | _, b => b

namespace Linked

variable {ρ : Type}

def answer (now : Moment) (there : Script.Handler Command.Reply ρ) :
    Script.Handler Act.Answer (Linked ρ)
  | .here s, n =>
    let (x, b) := step now s n.buffer
    (x, { n with buffer := b })
  | .remote c, n =>
    let (x, remote) := there c n.remote
    (x, { n with remote := remote })
  | .start _, n => (some (), n)

def call (now : Moment) (there : Script.Handler Command.Reply ρ) (order : Names → List String)
    (k : Call) (n : Linked ρ) : Option k.Answer × Linked ρ :=
  let (x, n) := (k.script order n.buffer.config.ttl).run (answer now there) n
  (x, { n with buffer := k.close n.buffer })

variable {α : Type} {now : Moment} {there : Script.Handler Command.Reply ρ} {n : Linked ρ}
variable {live : Linked ρ → Prop} {post : Option α → Linked ρ → Prop} {b : Buffer}

theorem run_here {s : Step} {f : s.Answer → Service α} {x : s.Answer}
    (h : step now s n.buffer = (some x, b)) :
    ((here s).bind f).run (answer now there) n = (f x).run (answer now there) ⟨b, n.remote⟩ :=
  Script.run_ask (by simp only [answer, h])

theorem run_remote {c : Command} {f : c.Reply → Service α} {x : c.Reply} {r : ρ}
    (h : there c n.remote = (some x, r)) :
    ((Buffer.remote c).bind f).run (answer now there) n =
      (f x).run (answer now there) ⟨n.buffer, r⟩ :=
  Script.run_ask (by simp only [answer, h])

theorem meets_here {s : Step} {f : s.Answer → Service α} {x : s.Answer}
    (hs : step now s n.buffer = (some x, b))
    (h : (f x).Meets (answer now there) live post ⟨b, n.remote⟩) :
    ((here s).bind f).Meets (answer now there) live post n := by
  refine Script.meets_ask fun _ => ?_
  simp only [answer, hs]
  exact h

theorem meets_startAll {f : Unit → Service α} (jobs : List Job)
    (h : (f ()).Meets (answer now there) live post n) :
    ((startAll jobs).bind f).Meets (answer now there) live post n := by
  induction jobs with
  | nil => exact h
  | cons job rest ih => exact Script.meets_ask fun _ => ih

theorem meets_schedule {f : Unit → Service α}
    (h : ∀ b, b.entries = n.buffer.entries → b.needsResync = n.buffer.needsResync →
      (f ()).Meets (answer now there) live post ⟨b, n.remote⟩) :
    ((here .schedule).bind fun jobs => (startAll jobs).bind f).Meets (answer now there) live post
      n :=
  meets_here rfl (meets_startAll _ (h _ rfl rfl))

end Linked

end SessionVault.Buffer
