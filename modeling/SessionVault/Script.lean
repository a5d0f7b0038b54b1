namespace SessionVault

inductive Script {Req : Type} (Ans : Req → Type) (α : Type) where
  | done (a : α)
  | ask (r : Req) (next : Ans r → Script Ans α)

namespace Script

variable {Req Req' : Type} {Ans : Req → Type} {Ans' : Req' → Type} {α β σ : Type}

def bind : Script Ans α → (α → Script Ans β) → Script Ans β
  | .done a, f => f a
  | .ask r next, f => .ask r fun x => (next x).bind f

instance : Monad (Script Ans) where
  pure := .done
  bind := bind

def request (r : Req) : Script Ans (Ans r) := .ask r .done

/-- Whoever answers requests in a state.  No answer means that the caller is torn down; the state
it leaves behind stays. -/
abbrev Handler (Ans : Req → Type) (σ : Type) := (r : Req) → σ → Option (Ans r) × σ

def run (h : Handler Ans σ) : Script Ans α → σ → Option α × σ
  | .done a, s => (some a, s)
  | .ask r next, s =>
    match h r s with
    | (some x, s) => (next x).run h s
    | (none, s) => (none, s)

def interpret (f : (r : Req) → Script Ans' (Ans r)) : Script Ans α → Script Ans' α
  | .done a => .done a
  | .ask r next => (f r).bind fun x => (next x).interpret f

@[simp] theorem pure_eq (a : α) : (pure a : Script Ans α) = .done a := rfl

@[simp] theorem bind_eq (p : Script Ans α) (f : α → Script Ans β) : p >>= f = p.bind f := rfl

@[simp] theorem done_bind (a : α) (f : α → Script Ans β) : (done a).bind f = f a := rfl

@[simp] theorem ask_bind (r : Req) (next : Ans r → Script Ans α) (f : α → Script Ans β) :
    (ask r next).bind f = .ask r fun x => (next x).bind f := rfl

theorem run_bind (h : Handler Ans σ) (p : Script Ans α) (f : α → Script Ans β) (s : σ) :
    (p.bind f).run h s =
      match p.run h s with
      | (some a, s) => (f a).run h s
      | (none, s) => (none, s) := by
  induction p generalizing s with
  | done a => rfl
  | ask r next ih =>
    simp only [ask_bind, run]
    split
    · exact ih _ _
    · rfl

theorem bind_done (p : Script Ans α) : p.bind .done = p := by
  induction p with
  | done a => rfl
  | ask r next ih => exact congrArg (ask r) (funext ih)

theorem bind_assoc {γ : Type} (p : Script Ans α) (f : α → Script Ans β) (g : β → Script Ans γ) :
    (p.bind f).bind g = p.bind fun a => (f a).bind g := by
  induction p with
  | done a => rfl
  | ask r next ih => exact congrArg (ask r) (funext ih)

instance : LawfulMonad (Script Ans) :=
  LawfulMonad.mk' _ bind_done (fun _ _ => rfl) bind_assoc

end Script

end SessionVault
