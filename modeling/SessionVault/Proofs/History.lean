import SessionVault.Proofs.Script

/-!
Ways through scripts with a record of what was asked and what was answered.
-/

namespace SessionVault.Script

variable {Req : Type} {Ans : Req → Type} {α σ : Type}

structure Event (Ans : Req → Type) (σ : Type) where
  request : Req
  answer : Ans request
  state : σ

abbrev History (Ans : Req → Type) (σ : Type) := List (Event Ans σ)

def Rules.logged (R : Rules Ans σ) : Rules Ans (σ × History Ans σ) :=
  fun r s x s' => R r s.1 x s'.1 ∧ s'.2 = ⟨r, x, s'.1⟩ :: s.2

variable {R : Rules Ans σ} {p : Script Ans α} {s : σ} {log : History Ans σ}
variable {post : α → σ × History Ans σ → Prop}

theorem ensures_logged_ask {r : Req} {next : Ans r → Script Ans α}
    (h : ∀ x s', R r s x s' → (next x).Ensures R.logged post (s', ⟨r, x, s'⟩ :: log)) :
    (Script.ask r next).Ensures R.logged post (s, log) := by
  rintro x ⟨s', log'⟩ ⟨hx, hlog⟩
  obtain rfl : log' = ⟨r, x, s'⟩ :: log := hlog
  exact h x s' hx

theorem delivers_logged_ask {ok : Req → Prop} {r : Req} {next : Ans r → Script Ans α} (hr : ok r)
    (h : ∀ x s', R r s x s' → (next x).Delivers R.logged ok post (s', ⟨r, x, s'⟩ :: log)) :
    (Script.ask r next).Delivers R.logged ok post (s, log) := by
  refine ⟨hr, ?_⟩
  rintro x ⟨s', log'⟩ ⟨hx, hlog⟩
  obtain rfl : log' = ⟨r, x, s'⟩ :: log := hlog
  exact h x s' hx

theorem exists_logged {r : Req} (hr : ∃ x s', R r s x s') : ∃ x t, R.logged r (s, log) x t := by
  obtain ⟨x, s', hx⟩ := hr
  exact ⟨x, (s', ⟨r, x, s'⟩ :: log), hx, rfl⟩

theorem runs_logged_ask {r : Req} {next : Ans r → Script Ans α} {x : Ans r} {s' : σ} {a : α}
    {t : σ × History Ans σ} (hx : R r s x s')
    (h : (next x).Runs R.logged (s', ⟨r, x, s'⟩ :: log) a t) :
    (Script.ask r next).Runs R.logged (s, log) a t :=
  .ask (show R.logged r (s, log) x (s', _) from ⟨hx, rfl⟩) h

/-- However the requests are answered, a condition holds whenever one is put, and the script ends as
it should. -/
def Sustains (R : Rules Ans σ) (inv : σ → Prop) (post : α → σ → Prop) : Script Ans α → σ → Prop
  | .done a, s => post a s
  | .ask r next, s => inv s ∧ ∀ x s', R r s x s' → (next x).Sustains R inv post s'

variable {inv inv' : σ → Prop} {ends ends' : α → σ → Prop}

theorem Sustains.ensures (h : p.Sustains R inv ends s) : p.Ensures R ends s := by
  induction p generalizing s with
  | done a => exact h
  | ask r next ih =>
    intro x s' hx
    exact ih x (h.2 x s' hx)

theorem Ensures.sustains (h : p.Ensures R ends s) : p.Sustains R (fun _ => True) ends s := by
  induction p generalizing s with
  | done a => exact h
  | ask r next ih => exact ⟨trivial, fun x s' hx => ih x (h x s' hx)⟩

theorem Sustains.mono (h : p.Sustains R inv ends s) (hinv : ∀ s, inv s → inv' s)
    (hends : ∀ a s, ends a s → ends' a s) : p.Sustains R inv' ends' s := by
  induction p generalizing s with
  | done a => exact hends a s h
  | ask r next ih => exact ⟨hinv s h.1, fun x s' hx => ih x (h.2 x s' hx)⟩

theorem Sustains.and (h : p.Sustains R inv ends s) (h' : p.Sustains R inv' ends' s) :
    p.Sustains R (fun s => inv s ∧ inv' s) (fun a s => ends a s ∧ ends' a s) s := by
  induction p generalizing s with
  | done a => exact ⟨h, h'⟩
  | ask r next ih => exact ⟨⟨h.1, h'.1⟩, fun x s' hx => ih x (h.2 x s' hx) (h'.2 x s' hx)⟩

theorem sustains_bind {β : Type} {f : α → Script Ans β} {ends : β → σ → Prop} :
    (p.bind f).Sustains R inv ends s ↔
      p.Sustains R inv (fun a s => (f a).Sustains R inv ends s) s := by
  induction p generalizing s with
  | done a => rfl
  | ask r next ih =>
    simp only [ask_bind, Sustains, ih]

theorem Asks.sustains {ok : Req → Prop} (h : p.Asks ok)
    (hkeeps : ∀ r s x s', ok r → R r s x s' → inv s → inv s') (hs : inv s) :
    p.Sustains R inv (fun _ => inv) s := by
  induction p generalizing s with
  | done a => exact hs
  | ask r next ih => exact ⟨hs, fun x s' hx => ih x (h.2 x) (hkeeps r s x s' h.1 hx hs)⟩

theorem Asks.ensures {ok : Req → Prop} (h : p.Asks ok)
    (hkeeps : ∀ r s x s', ok r → R r s x s' → inv s → inv s') (hs : inv s) :
    p.Ensures R (fun _ s' => inv s') s :=
  (h.sustains hkeeps hs).ensures

theorem asks_of_forall {ok : Req → Prop} (hok : ∀ r, ok r) (p : Script Ans α) : p.Asks ok := by
  induction p with
  | done a => trivial
  | ask r next ih => exact ⟨hok r, ih⟩

def Yields (ok : Req → Prop) (post : α → Prop) : Script Ans α → Prop
  | .done a => post a
  | .ask r next => ok r ∧ ∀ x, (next x).Yields ok post

theorem yields_bind {β : Type} {ok : Req → Prop} {post : β → Prop} {f : α → Script Ans β} :
    (p.bind f).Yields ok post ↔ p.Yields ok fun a => (f a).Yields ok post := by
  induction p with
  | done a => rfl
  | ask r next ih => simp only [ask_bind, Yields, ih]

theorem Yields.mono {ok : Req → Prop} {post post' : α → Prop} (h : p.Yields ok post)
    (hpost : ∀ a, post a → post' a) : p.Yields ok post' := by
  induction p with
  | done a => exact hpost a h
  | ask r next ih => exact ⟨h.1, fun x => ih x (h.2 x)⟩

theorem Yields.exists_run {ok : Req → Prop} {post : α → Prop} {h : Handler Ans σ}
    (hp : p.Yields ok post) (hh : ∀ r s, ok r → (h r s).1.isSome = true) (s : σ) :
    ∃ a s', p.run h s = (some a, s') ∧ post a := by
  induction p generalizing s with
  | done a => exact ⟨a, s, rfl, hp⟩
  | ask r next ih =>
    obtain ⟨x, hx⟩ := Option.isSome_iff_exists.1 (hh r s hp.1)
    obtain ⟨a, s', hrun, hpost⟩ := ih x (hp.2 x) (h r s).2
    have hstep : h r s = (some x, (h r s).2) := Prod.ext hx rfl
    refine ⟨a, s', ?_, hpost⟩
    rw [run, hstep]
    exact hrun

theorem isSome_run {h : Handler Ans σ} (hh : ∀ r s, (h r s).1.isSome = true) (p : Script Ans α)
    (s : σ) : (p.run h s).1.isSome = true := by
  have hp : p.Yields (fun _ => True) fun _ => True := by
    induction p with
    | done a => trivial
    | ask r next ih => exact ⟨trivial, ih⟩
  obtain ⟨a, s', hrun, -⟩ := hp.exists_run (fun r s _ => hh r s) s
  rw [hrun]
  rfl

def Owes (due : Req → Prop) : Script Ans α → Prop
  | .done _ => False
  | .ask r next => due r ∨ ∀ x, (next x).Owes due

/-- No request of a kind is put before some answer allows it. -/
def Awaits (allows : (r : Req) → Ans r → Prop) (needs : Req → Prop) : Script Ans α → Prop
  | .done _ => True
  | .ask r next => ¬ needs r ∧ ∀ x, allows r x ∨ (next x).Awaits allows needs

variable {β : Type} {allows : (r : Req) → Ans r → Prop} {needs : Req → Prop}

theorem Asks.awaits (h : p.Asks fun r => ¬ needs r) : p.Awaits allows needs := by
  induction p with
  | done a => trivial
  | ask r next ih => exact ⟨h.1, fun x => .inr (ih x (h.2 x))⟩

theorem Awaits.bind {f : α → Script Ans β} (h : p.Awaits allows needs)
    (hf : ∀ a, (f a).Awaits allows needs) : (p.bind f).Awaits allows needs := by
  induction p with
  | done a => exact hf a
  | ask r next ih => exact ⟨h.1, fun x => (h.2 x).imp_right (ih x)⟩

end SessionVault.Script
