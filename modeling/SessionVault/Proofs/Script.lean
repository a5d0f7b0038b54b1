import SessionVault.Script

/-!
Scripts whose requests may be answered in more than one way.  `Runs` is one way through a script;
`Ensures` says something about every way through it.
-/

namespace SessionVault.Script

variable {Req : Type} {Ans : Req → Type} {α β σ τ : Type}

/-- The answers that a request may get in a state, each with the state it leaves behind. -/
abbrev Rules (Ans : Req → Type) (σ : Type) := (r : Req) → σ → Ans r → σ → Prop

inductive Runs (R : Rules Ans σ) : Script Ans α → σ → α → σ → Prop where
  | done (a : α) (s : σ) : Runs R (.done a) s a s
  | ask {r : Req} {next : Ans r → Script Ans α} {s s₁ s₂ : σ} {x : Ans r} {a : α} :
      R r s x s₁ → Runs R (next x) s₁ a s₂ → Runs R (.ask r next) s a s₂

/-- However the requests are answered, the script ends as it should. -/
def Ensures (R : Rules Ans σ) (post : α → σ → Prop) : Script Ans α → σ → Prop
  | .done a, s => post a s
  | .ask r next, s => ∀ x s', R r s x s' → (next x).Ensures R post s'

variable {R : Rules Ans σ} {post post' : α → σ → Prop} {p : Script Ans α} {s s' : σ} {a : α}

theorem Runs.ensures (h : Runs R p s a s') (hp : p.Ensures R post s) : post a s' := by
  induction h with
  | done a s => exact hp
  | ask hx _ ih => exact ih (hp _ _ hx)

theorem ensures_of_runs (h : ∀ a s', Runs R p s a s' → post a s') : p.Ensures R post s := by
  induction p generalizing s with
  | done a => exact h a s (.done a s)
  | ask r next ih =>
    intro x s' hx
    exact ih x fun a s'' hrun => h a s'' (.ask hx hrun)

theorem Runs.bind {f : α → Script Ans β} {s₁ : σ} {b : β} (h : Runs R p s a s₁)
    (hf : Runs R (f a) s₁ b s') : Runs R (p.bind f) s b s' := by
  induction h with
  | done a s => exact hf
  | ask hx _ ih => exact .ask hx (ih hf)

theorem Ensures.mono (h : p.Ensures R post s) (hpost : ∀ a s, post a s → post' a s) :
    p.Ensures R post' s := by
  induction p generalizing s with
  | done a => exact hpost a s h
  | ask r next ih =>
    intro x s' hx
    exact ih x (h x s' hx)

theorem ensures_of_forall (p : Script Ans α) (s : σ) (h : ∀ a s, post a s) :
    p.Ensures R post s := by
  induction p generalizing s with
  | done a => exact h a s
  | ask r next ih =>
    intro x s' _
    exact ih x s'

theorem ensures_bind {f : α → Script Ans β} {post : β → σ → Prop} :
    (p.bind f).Ensures R post s ↔ p.Ensures R (fun a s => (f a).Ensures R post s) s := by
  induction p generalizing s with
  | done a => rfl
  | ask r next ih =>
    simp only [ask_bind, Ensures, ih]

theorem runs_request_done {r : Req} {f : Ans r → α} :
    Runs R ((request r).bind fun x => .done (f x)) s a s' ↔ ∃ x, R r s x s' ∧ a = f x := by
  constructor
  · intro h
    cases h with
    | ask hx hrest =>
      cases hrest
      exact ⟨_, hx, rfl⟩
  · rintro ⟨x, hx, rfl⟩
    exact .ask hx (.done _ _)

theorem runs_of_run {h : Handler Ans σ} (hR : ∀ r s x s', h r s = (some x, s') → R r s x s')
    (hp : p.run h s = (some a, s')) : Runs R p s a s' := by
  induction p generalizing s with
  | done b =>
    cases hp
    exact .done _ _
  | ask r next ih =>
    rw [run] at hp
    split at hp
    · next x s₁ hx => exact .ask (hR r s x s₁ hx) (ih x hp)
    · cases hp

theorem Runs.map {R' : Rules Ans τ} (view : σ → τ)
    (hR : ∀ r s x s', R r s x s' → R' r (view s) x (view s')) (h : Runs R p s a s') :
    Runs R' p (view s) a (view s') := by
  induction h with
  | done a s => exact .done a (view s)
  | ask hx _ ih => exact .ask (hR _ _ _ _ hx) ih

def Rules.through (view : σ → τ) (R : Rules Ans σ) : Rules Ans τ :=
  fun r s x s' => ∃ t t', view t = s ∧ view t' = s' ∧ R r t x t'

def Delivers (R : Rules Ans σ) (ok : Req → Prop) (post : α → σ → Prop) : Script Ans α → σ → Prop
  | .done a, s => post a s
  | .ask r next, s => ok r ∧ ∀ x s', R r s x s' → (next x).Delivers R ok post s'

theorem Delivers.ensures {ok : Req → Prop} (h : p.Delivers R ok post s) : p.Ensures R post s := by
  induction p generalizing s with
  | done a => exact h
  | ask r next ih =>
    intro x s' hx
    exact ih x (h.2 x s' hx)

theorem Delivers.exists_runs {ok : Req → Prop} (h : p.Delivers R ok post s)
    (hok : ∀ r s, ok r → ∃ x s', R r s x s') : ∃ a s', Runs R p s a s' := by
  induction p generalizing s with
  | done a => exact ⟨a, s, .done a s⟩
  | ask r next ih =>
    obtain ⟨x, s₁, hx⟩ := hok r s h.1
    obtain ⟨a, s', hrun⟩ := ih x (h.2 x s₁ hx)
    exact ⟨a, s', .ask hx hrun⟩

theorem Delivers.mono {ok : Req → Prop} (h : p.Delivers R ok post s)
    (hpost : ∀ a s, post a s → post' a s) : p.Delivers R ok post' s := by
  induction p generalizing s with
  | done a => exact hpost a s h
  | ask r next ih => exact ⟨h.1, fun x s' hx => ih x (h.2 x s' hx)⟩

theorem delivers_bind {ok : Req → Prop} {f : α → Script Ans β} {post : β → σ → Prop} :
    (p.bind f).Delivers R ok post s ↔
      p.Delivers R ok (fun a s => (f a).Delivers R ok post s) s := by
  induction p generalizing s with
  | done a => rfl
  | ask r next ih => simp only [ask_bind, Delivers, ih]

def Asks (ok : Req → Prop) : Script Ans α → Prop
  | .done _ => True
  | .ask r next => ok r ∧ ∀ x, (next x).Asks ok

/-- It holds of the script, and of whatever is left of it after some answers. -/
def Always (P : Script Ans α → Prop) : Script Ans α → Prop
  | .done a => P (.done a)
  | .ask r next => P (.ask r next) ∧ ∀ x, (next x).Always P

variable {ok : Req → Prop} {P : Script Ans α → Prop}

theorem Always.holds (h : p.Always P) : P p := by
  cases p with
  | done a => exact h
  | ask r next => exact h.1

theorem Always.bind {f : α → Script Ans β} {P' : Script Ans β → Prop} (h : p.Always P)
    (hf : ∀ a, (f a).Always P') (hP : (∀ a, P' (f a)) → ∀ q, P q → P' (q.bind f)) :
    (p.bind f).Always P' := by
  induction p with
  | done a => exact hf a
  | ask r next ih => exact ⟨hP (fun a => (hf a).holds) _ h.1, fun x => ih x (h.2 x)⟩

theorem Asks.mono {ok' : Req → Prop} (h : p.Asks ok) (hok : ∀ r, ok r → ok' r) : p.Asks ok' := by
  induction p with
  | done a => trivial
  | ask r next ih => exact ⟨hok r h.1, fun x => ih x (h.2 x)⟩

theorem Asks.bind {f : α → Script Ans β} (h : p.Asks ok) (hf : ∀ a, (f a).Asks ok) :
    (p.bind f).Asks ok := by
  induction p with
  | done a => exact hf a
  | ask r next ih => exact ⟨h.1, fun x => ih x (h.2 x)⟩

def Throughout (h : Handler Ans σ) (P : σ → Prop) : Script Ans α → σ → Prop
  | .done _, _ => True
  | .ask r next, s => P s ∧ (h r s).1.elim True fun x => (next x).Throughout h P (h r s).2

instance decidableElim {o : Option β} {P : β → Prop} [DecidablePred P] :
    Decidable (o.elim True P) :=
  match o with
  | none => .isTrue trivial
  | some x => inferInstanceAs (Decidable (P x))

instance decidableThroughout (h : Handler Ans σ) (P : σ → Prop) [DecidablePred P] :
    (p : Script Ans α) → (s : σ) → Decidable (p.Throughout h P s)
  | .done _, _ => .isTrue trivial
  | .ask r next, s =>
    have (x : Ans r) : Decidable ((next x).Throughout h P (h r s).2) :=
      decidableThroughout h P (next x) (h r s).2
    inferInstanceAs (Decidable (P s ∧ (h r s).1.elim True _))

/-- As long as the condition holds, the script ends as it should, even if it is torn down. -/
def Meets (h : Handler Ans σ) (P : σ → Prop) (post : Option α → σ → Prop) (p : Script Ans α)
    (s : σ) : Prop :=
  p.Throughout h P s → post (p.run h s).1 (p.run h s).2

variable {h : Handler Ans σ} {Q : σ → Prop} {ends : Option α → σ → Prop}

theorem run_ask {r : Req} {next : Ans r → Script Ans α} {x : Ans r} {s' : σ}
    (hx : h r s = (some x, s')) : (Script.ask r next).run h s = (next x).run h s' := by
  rw [run, hx]

theorem throughout_of_forall (hQ : ∀ s, Q s) (p : Script Ans α) (s : σ) :
    p.Throughout h Q s := by
  induction p generalizing s with
  | done a => trivial
  | ask r next ih =>
    refine ⟨hQ s, ?_⟩
    cases (h r s).1 with
    | none => trivial
    | some x => exact ih x _

theorem meets_done (ha : ends (some a) s) : (Script.done a : Script Ans α).Meets h Q ends s :=
  fun _ => ha

theorem meets_ask {r : Req} {next : Ans r → Script Ans α}
    (hnext : Q s → (h r s).1.elim (ends none (h r s).2) fun x =>
      (next x).Meets h Q ends (h r s).2) :
    (Script.ask r next).Meets h Q ends s := by
  intro hq
  have hrest := hnext hq.1
  have hq := hq.2
  rw [run]
  cases hx : h r s with
  | mk x s' =>
    rw [hx] at hrest hq
    cases x with
    | none => exact hrest
    | some x => exact hrest hq

theorem meets_bind {f : α → Script Ans β} {ends : Option β → σ → Prop}
    (hp : p.Meets h Q (fun x s => x.elim (ends none s) fun a => (f a).Meets h Q ends s) s) :
    (p.bind f).Meets h Q ends s := by
  induction p generalizing s with
  | done a => exact hp trivial
  | ask r next ih =>
    refine meets_ask fun hs => ?_
    rw [Meets, Throughout, run] at hp
    cases hx : h r s with
    | mk x s' =>
      rw [hx] at hp
      cases x with
      | none => exact hp ⟨hs, trivial⟩
      | some x => exact ih x fun hq => hp ⟨hs, hq⟩

theorem Meets.mono {ends' : Option α → σ → Prop} (hp : p.Meets h Q ends s)
    (hends : ∀ x s, ends x s → ends' x s) : p.Meets h Q ends' s :=
  fun hq => hends _ _ (hp hq)

end SessionVault.Script
