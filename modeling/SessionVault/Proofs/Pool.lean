import Mathlib.Logic.Function.Basic
import Mathlib.Logic.Relation
import SessionVault.Proofs.Script

/-!
Scripts side by side.  They share a state and take turns in any order, a request at a time.
-/

namespace SessionVault

structure Pool {Req ι : Type} (Ans : Req → Type) (α : ι → Type) (σ : Type) where
  shared : σ
  parts : (i : ι) → Script Ans (α i)

namespace Pool

variable {Req ι : Type} {Ans : Req → Type} {α : ι → Type} {σ τ : Type}

structure Step (R : Script.Rules Ans σ) (i : ι) (r : Req) (x : Ans r) (p p' : Pool Ans α σ) :
    Prop where
  part : ∃ next, p.parts i = .ask r next ∧ p'.parts i = next x
  shared : R r p.shared x p'.shared
  others : ∀ j, j ≠ i → p'.parts j = p.parts j

def Turn (R : Script.Rules Ans σ) (p p' : Pool Ans α σ) : Prop :=
  ∃ i r x, Step R i r x p p'

abbrev Reaches (R : Script.Rules Ans σ) : Pool Ans α σ → Pool Ans α σ → Prop :=
  Relation.ReflTransGen (Turn R)

def Passes (R : Script.Rules Ans σ) (start p : Pool Ans α σ) (i : ι) (r : Req) (x : Ans r)
    (kind : σ → Prop) : Prop :=
  ∃ p₁ p₂, Reaches R start p₁ ∧ kind p₁.shared ∧ Step R i r x p₁ p₂ ∧ Reaches R p₂ p

variable {R : Script.Rules Ans σ} {p p' start : Pool Ans α σ} {i : ι} {r : Req} {x : Ans r}
variable {kind : σ → Prop}

theorem Step.reaches (h : Step R i r x p p') : Reaches R p p' := .single ⟨i, r, x, h⟩

theorem Passes.later (h : Passes R start p i r x kind) (hp : Reaches R p p') :
    Passes R start p' i r x kind := by
  obtain ⟨p₁, p₂, hstart, hkind, hstep, hend⟩ := h
  exact ⟨p₁, p₂, hstart, hkind, hstep, hend.trans hp⟩

theorem Reaches.asks {ok : Req → Prop} (h : Reaches R p p') (hp : (p.parts i).Asks ok) :
    (p'.parts i).Asks ok := by
  induction h with
  | refl => exact hp
  | tail _ hturn ih =>
    obtain ⟨j, r, x, hstep⟩ := hturn
    by_cases hij : i = j
    · subst hij
      obtain ⟨next, hpart, hnext⟩ := hstep.part
      rw [hpart] at ih
      rw [hnext]
      exact ih.2 x
    · rw [hstep.others i hij]
      exact ih

/-- What every part does for all of them, as long as it can rely on what nobody takes from it. -/
theorem Reaches.keeps (shares : σ → Prop) (relies : (i : ι) → Script Ans (α i) → σ → Prop)
    (h : Reaches R p p')
    (hown : ∀ i r next x s s', R r s x s' → shares s → relies i (.ask r next) s →
      shares s' ∧ relies i (next x) s')
    (hothers : ∀ i q r x s s', R r s x s' → relies i q s → relies i q s')
    (hp : shares p.shared ∧ ∀ i, relies i (p.parts i) p.shared) :
    shares p'.shared ∧ ∀ i, relies i (p'.parts i) p'.shared := by
  induction h with
  | refl => exact hp
  | tail _ hturn ih =>
    obtain ⟨i, r, x, ⟨next, hpart, hnext⟩, hshared, hwait⟩ := hturn
    obtain ⟨hs, hparts⟩ := ih
    obtain ⟨hs', hrest⟩ := hown i r next x _ _ hshared hs (hpart ▸ hparts i)
    refine ⟨hs', fun j => ?_⟩
    by_cases hj : j = i
    · subst hj
      rw [hnext]
      exact hrest
    · rw [hwait j hj]
      exact hothers j _ r x _ _ hshared (hparts j)

theorem Reaches.progress {ok : Req → Prop} (h : Reaches R p p') (hp : (p.parts i).Asks ok)
    (hR : ∀ r, ok r → ∀ s, ∃ x s', R r s x s') :
    (∃ a, p'.parts i = .done a) ∨ ∃ r x p'', Step R i r x p' p'' := by
  classical
  have hasks := h.asks hp
  cases hpart : p'.parts i with
  | done a => exact .inl ⟨a, rfl⟩
  | ask r next =>
    rw [hpart] at hasks
    obtain ⟨x, s, hx⟩ := hR r hasks.1 p'.shared
    refine .inr ⟨r, x, ⟨s, Function.update p'.parts i (next x)⟩, ?_⟩
    exact ⟨⟨next, hpart, Function.update_self i _ _⟩, hx, fun _ hj => Function.update_of_ne hj _ _⟩

theorem reaches_of_runs [DecidableEq ι] (p : Pool Ans α σ) (i : ι) {β : Type} {q : Script Ans β}
    {f : β → Script Ans (α i)} {a : β} {s : σ} (hq : q.Runs R p.shared a s)
    (hpart : p.parts i = q.bind f) :
    Reaches R p ⟨s, Function.update p.parts i (f a)⟩ := by
  obtain ⟨t, parts⟩ := p
  simp only at hq hpart
  induction hq generalizing parts with
  | done a s =>
    rw [show f a = parts i from hpart.symm, Function.update_eq_self]
  | @ask r next s s₁ s₂ x a hx _ ih =>
    have hstep : Step R i r x ⟨s, parts⟩ ⟨s₁, Function.update parts i ((next x).bind f)⟩ :=
      ⟨⟨_, hpart, Function.update_self ..⟩, hx, fun _ hj => Function.update_of_ne hj ..⟩
    have hrest := ih (Function.update parts i ((next x).bind f)) (Function.update_self ..)
    rw [Function.update_idem] at hrest
    exact hstep.reaches.trans hrest

/-- A part goes on as if it were alone, if the others leave alone what it depends on. -/
theorem Reaches.ensures {view : σ → τ} {post : α i → τ → Prop} (h : Reaches R p p')
    (hothers : ∀ j, j ≠ i → (p.parts j).Asks fun r => ∀ s x s', R r s x s' → view s' = view s)
    (hp : (p.parts i).Ensures (R.through view) post (view p.shared)) :
    (p'.parts i).Ensures (R.through view) post (view p'.shared) := by
  induction h using Relation.ReflTransGen.head_induction_on with
  | refl => exact hp
  | head hturn _ ih =>
    obtain ⟨j, r, x, hstep⟩ := hturn
    obtain ⟨next, hpart, hnext⟩ := hstep.part
    apply ih
    · intro k hk
      have hasks := hothers k hk
      by_cases hkj : k = j
      · subst hkj
        rw [hpart] at hasks
        rw [hnext]
        exact hasks.2 x
      · rw [hstep.others k hkj]
        exact hasks
    · by_cases hij : i = j
      · subst hij
        rw [hpart] at hp
        rw [hnext]
        exact hp x _ ⟨_, _, rfl, rfl, hstep.shared⟩
      · have hasks := hothers j (Ne.symm hij)
        rw [hpart] at hasks
        rw [hstep.others i hij, hasks.1 _ _ _ hstep.shared]
        exact hp

abbrev Results (ι β γ : Type) : Option ι → Type
  | none => β
  | some _ => γ

variable {β γ : Type} {s s' : σ}

def beside (s : σ) (one : Script Ans β) (others : ι → Script Ans γ) :
    Pool Ans (Results ι β γ) σ where
  shared := s
  parts
    | none => one
    | some i => others i

theorem step_one {next : Ans r → Script Ans β} {others : ι → Script Ans γ} (hx : R r s x s') :
    Step R none r x (beside s (.ask r next) others) (beside s' (next x) others) := by
  refine ⟨⟨next, rfl, rfl⟩, hx, fun j hj => ?_⟩
  cases j with
  | none => contradiction
  | some => rfl

theorem step_other {one : Script Ans β} {next : Ans r → Script Ans γ} (hx : R r s x s') :
    Step R (some ()) r x (beside s one fun _ => .ask r next) (beside s' one fun _ => next x) := by
  refine ⟨⟨next, rfl, rfl⟩, hx, fun j hj => ?_⟩
  cases j with
  | none => rfl
  | some => contradiction

end Pool

end SessionVault
