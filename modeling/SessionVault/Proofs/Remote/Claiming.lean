import Mathlib.Logic.Function.Basic
import SessionVault.Proofs.History
import SessionVault.Remote.Service

namespace SessionVault.Remote

structure Server (σ : Type) where
  held : σ → Octets → Option Octets
  run : List Octets → σ → Reply × σ
  setnx_reply (key value : Octets) (s : σ) :
    (run [Octets.ofText "SETNX", key, value] s).1 = .int (if (held s key).isSome then 0 else 1)
  setnx_held (key value : Octets) (s : σ) :
    held (run [Octets.ofText "SETNX", key, value] s).2 key = some ((held s key).getD value)

namespace Server

variable {σ : Type}

inductive Answers (srv : Server σ) (words : List Octets) (s : σ) :
    Except StoreError Reply → σ → Prop where
  | replied : Answers srv words s (.ok (srv.run words s).1) (srv.run words s).2
  | unsent (e : StoreError) : Answers srv words s (.error e) s
  | lost (e : StoreError) : Answers srv words s (.error e) (srv.run words s).2

theorem answers_claim {srv : Server σ} {key : String} {s : σ} {held : Option Octets}
    (hheld : srv.held s (Octets.ofText key) = held) (value : Octets) :
    srv.Answers (words (.setIfAbsent key value)) s (.ok (.int (if held.isSome then 0 else 1)))
      (srv.run (words (.setIfAbsent key value)) s).2 := by
  rw [← hheld, ← srv.setnx_reply _ value]
  exact .replied

/-- A connection to a server that others use too, but do not write this key on. -/
def Connection (srv : Server σ) (key : Octets) : Script.Rules Act.Answer σ
  | .send words, s, x, s' => ∃ s₁, srv.held s₁ key = srv.held s key ∧ srv.Answers words s₁ x s'
  | .isCancelled, s, _, s' | .pause _, s, _, s' => s' = s

def FailsLate (srv : Server σ) (key : Octets) : Script.Event Act.Answer σ → Bool
  | ⟨.send _, .error _, s⟩ => (srv.held s key).isSome
  | _ => false

variable {srv : Server σ} {key value : Octets} {before : Option Octets}
variable {s s' : σ} {log : Script.History Act.Answer σ} {policy : RetryPolicy}

/-- Whether a claim comes too late, be it after another one or after itself. -/
def taken (srv : Server σ) (key : Octets) (before : Option Octets)
    (log : Script.History Act.Answer σ) : Bool :=
  before.isSome || log.any (srv.FailsLate key)

def Underway (srv : Server σ) (key value : Octets) (before : Option Octets)
    (t : σ × Script.History Act.Answer σ) : Prop :=
  srv.held t.1 key = if srv.taken key before t.2 then some (before.getD value) else none

theorem underway_nil (srv : Server σ) (key value : Octets) (s : σ) :
    srv.Underway key value (srv.held s key) (s, []) := by
  rw [Underway, taken, List.any_nil, Bool.or_false]
  cases srv.held s key <;> rfl

theorem Underway.isSome (h : srv.Underway key value before (s, log)) :
    (srv.held s key).isSome = srv.taken key before log := by
  rw [h]
  cases srv.taken key before log <;> rfl

theorem Underway.getD (h : srv.Underway key value before (s, log)) :
    (srv.held s key).getD value = before.getD value := by
  rw [h, taken]
  cases before with
  | some v => rfl
  | none => cases log.any (srv.FailsLate key) <;> rfl

theorem Underway.failed {words : List Octets} {e : StoreError}
    (h : srv.Underway key value before (s, log))
    (hs' : srv.held s' key = srv.held s key ∨
      srv.held s' key = some ((srv.held s key).getD value)) :
    srv.Underway key value before (s', ⟨.send words, .error e, s'⟩ :: log) := by
  have htaken : srv.taken key before (⟨.send words, .error e, s'⟩ :: log) =
      ((srv.held s' key).isSome || srv.taken key before log) :=
    Bool.or_left_comm ..
  rw [Underway, htaken]
  -- The first case is a failure before the effect, the second one after it.
  obtain hs' | hs' := hs'
  · rw [hs', h.isSome, Bool.or_self]
    exact h
  · rw [hs', h.getD]
    rfl

theorem Underway.waited {r : Act} {x : r.Answer} {t t' : σ × Script.History Act.Answer σ}
    (hr : ∀ words, r ≠ .send words) (hx : (srv.Connection key).logged r t x t')
    (h : srv.Underway key value before t) : srv.Underway key value before t' := by
  obtain ⟨hstate, hlog⟩ := hx
  cases r with
  | send words => exact absurd rfl (hr words)
  | isCancelled | pause =>
    have hstate : t'.1 = t.1 := hstate
    rw [Underway, hstate, hlog]
    exact h

theorem Underway.waitOn {t : σ × Script.History Act.Answer σ}
    (h : srv.Underway key value before t) :
    (Remote.waitOn policy).Ensures (srv.Connection key).logged
      (fun _ => srv.Underway key value before) t := by
  have hasks : (Remote.waitOn policy).Asks fun r => ∀ words, r ≠ .send words := by
    refine ⟨fun _ => nofun, fun cancelled => ?_⟩
    cases cancelled with
    | true => trivial
    | false =>
      simp only [Script.done_bind, Bool.false_eq_true, if_false]
      split
      · trivial
      · exact ⟨fun _ => nofun, fun _ => trivial⟩
  exact hasks.ensures (fun _ _ _ _ hr hx h => h.waited hr hx) h

structure Replied (srv : Server σ) (key value : Octets) (before : Option Octets) (r : Reply)
    (t : σ × Script.History Act.Answer σ) : Prop where
  reply : r = .int (if srv.taken key before t.2 then 0 else 1)
  held : srv.held t.1 key = some (before.getD value)

theorem Underway.replied (h : srv.Underway key value before (s, log)) {s₁ s' : σ} {r : Reply}
    (hs₁ : srv.held s₁ key = srv.held s key)
    (hrun : srv.run [Octets.ofText "SETNX", key, value] s₁ = (r, s')) :
    srv.Replied key value before r
      (s', ⟨.send [Octets.ofText "SETNX", key, value], .ok r, s'⟩ :: log) := by
  have hreply := srv.setnx_reply key value s₁
  have hheld := srv.setnx_held key value s₁
  rw [hrun, hs₁] at hreply hheld
  rw [h.isSome] at hreply
  exact ⟨hreply, hheld.trans (congrArg some h.getD)⟩

theorem Underway.send {α : Type} {post : α → σ × Script.History Act.Answer σ → Prop}
    {f : Except StoreError Reply → Link α} {t : σ × Script.History Act.Answer σ}
    (h : srv.Underway key value before t)
    (hok : ∀ r t', srv.Replied key value before r t' →
      (f (.ok r)).Ensures (srv.Connection key).logged post t')
    (herror : ∀ e t', srv.Underway key value before t' →
      (f (.error e)).Ensures (srv.Connection key).logged post t') :
    ((Remote.send [Octets.ofText "SETNX", key, value]).bind f).Ensures
      (srv.Connection key).logged post t := by
  apply Script.ensures_logged_ask
  rintro x s' ⟨s₁, hs₁, hanswer⟩
  cases hanswer with
  | replied => exact hok _ _ (h.replied hs₁ rfl)
  | unsent e => exact herror e _ (h.failed (.inl hs₁))
  | lost e =>
    refine herror e _ (h.failed (.inr ?_))
    rw [srv.setnx_held, hs₁]

theorem Underway.attempts (made left : Nat) {t : σ × Script.History Act.Answer σ}
    (h : srv.Underway key value before t) :
    (Remote.attempts policy (Remote.send [Octets.ofText "SETNX", key, value]) made left).Ensures
      (srv.Connection key).logged
      (fun x t' => ∀ r, x = .ok r → srv.Replied key value before r t') t := by
  have hdone : ∀ r t', srv.Replied key value before r t' →
      ∀ r', Except.ok (ε := StoreError) r = .ok r' → srv.Replied key value before r' t' :=
    fun r t' hr r' hr' => Except.ok.inj hr' ▸ hr
  -- The invariant is not affected by how many attempts were made before.
  induction left generalizing made t with
  | zero =>
    refine h.send hdone fun e t' _ => ?_
    cases e <;> exact nofun
  | succ left ih =>
    refine h.send hdone fun e t' ht' => ?_
    cases e with
    | unreachable n message =>
      refine Script.ensures_bind.2 (ht'.waitOn.mono fun goesOn t₂ ht₂ => ?_)
      cases goesOn with
      | true => exact ih (made + 1) ht₂
      | false => exact nofun
    | protocol | invalidPattern | unexpectedReply | interrupted | configuration | pool =>
      exact nofun

theorem Replied.read {key : String} {r : Reply} {t : σ × Script.History Act.Answer σ}
    (h : srv.Replied (Octets.ofText key) value before r t) :
    Remote.read (.setIfAbsent key value) r =
      .ok (Claim.ofBool !srv.taken (Octets.ofText key) before t.2) := by
  rw [h.reply]
  cases srv.taken (Octets.ofText key) before t.2 <;> rfl

theorem ensures_setIfAbsent (policy : RetryPolicy) (key : String) (value : Octets) (s : σ) :
    (Remote.serve policy (.setIfAbsent key value)).Ensures
      (srv.Connection (Octets.ofText key)).logged
      (fun x t => ∀ claim, x = .ok claim →
        claim = Claim.ofBool (!srv.taken (Octets.ofText key) (srv.held s (Octets.ofText key)) t.2) ∧
        srv.held t.1 (Octets.ofText key) = some ((srv.held s (Octets.ofText key)).getD value))
      (s, []) := by
  refine Script.ensures_bind.2 (((underway_nil srv _ value s).attempts _ _).mono fun x t ht => ?_)
  cases x with
  | error e => exact nofun
  | ok r =>
    have hr := ht r rfl
    rintro claim hclaim
    exact ⟨Except.ok.inj (hclaim.symm.trans hr.read), hr.held⟩

/-- A claim is said to have come too late if the key was held before, or if a failure of an attempt
was reported after the attempt had taken effect.  The key is held then by the claim itself. -/
theorem retried_claim_existed_iff {key : String} {claim : Claim}
    (hrun : (Remote.serve policy (.setIfAbsent key value)).Runs
      (srv.Connection (Octets.ofText key)).logged (s, []) (.ok claim) (s', log)) :
    (claim = .existed ↔ (srv.held s (Octets.ofText key)).isSome = true ∨
      ∃ event ∈ log, srv.FailsLate (Octets.ofText key) event = true) ∧
    srv.held s' (Octets.ofText key) =
      some ((srv.held s (Octets.ofText key)).getD value) := by
  obtain ⟨hclaim, hheld⟩ := hrun.ensures (ensures_setIfAbsent policy key value s) claim rfl
  refine ⟨?_, hheld⟩
  rw [hclaim, taken, ← List.any_eq_true, ← Bool.or_eq_true]
  cases (srv.held s (Octets.ofText key)).isSome || log.any (srv.FailsLate (Octets.ofText key)) with
  | true => exact ⟨fun _ => rfl, fun _ => rfl⟩
  | false => exact ⟨nofun, nofun⟩

def ofClaims : Server (Octets → Option Octets) where
  held := id
  run
    | [word, key, value], s =>
      if word = Octets.ofText "SETNX" then
        (.int (if (s key).isSome then 0 else 1), Function.update s key (some ((s key).getD value)))
      else
        (.nil, s)
    | _, s => (.nil, s)
  setnx_reply key value s := by simp only [if_pos, id]
  setnx_held key value s := by simp only [if_pos, id, Function.update_self]

theorem claim_survives_a_refusal :
    ∃ s' log,
      (Remote.serve ⟨3, .ofSeconds 0⟩ (.setIfAbsent "k" [118])).Runs
        (ofClaims.Connection (Octets.ofText "k")).logged (fun _ => none, []) (.ok .created)
        (s', log) ∧
      (¬ ∃ event ∈ log, ofClaims.FailsLate (Octets.ofText "k") event = true) ∧
      ofClaims.held s' (Octets.ofText "k") = some [118] := by
  let free : Octets → Option Octets := fun _ => none
  let claimed := (ofClaims.run (words (.setIfAbsent "k" [118])) free).2
  have hrefused : ofClaims.Connection (Octets.ofText "k") (.send (words (.setIfAbsent "k" [118])))
      free (.error (.transient "connection refused")) free := ⟨free, rfl, .unsent _⟩
  have hgoes : ofClaims.Connection (Octets.ofText "k") .isCancelled free false free := rfl
  have hreplied : ofClaims.Connection (Octets.ofText "k") (.send (words (.setIfAbsent "k" [118])))
      free (.ok (.int 1)) claimed := ⟨free, rfl, answers_claim rfl [118]⟩
  have hrun : (Remote.serve ⟨3, .ofSeconds 0⟩ (.setIfAbsent "k" [118])).Runs
      (ofClaims.Connection (Octets.ofText "k")).logged (free, []) (.ok .created) (claimed, _) :=
    Script.runs_logged_ask hrefused (Script.runs_logged_ask hgoes
      (Script.runs_logged_ask hreplied (.done _ _)))
  obtain ⟨hexisted, hheld⟩ := retried_claim_existed_iff hrun
  have hcreated := mt hexisted.2 nofun
  exact ⟨claimed, _, hrun, fun hlate => hcreated (.inr hlate), hheld⟩

/-- A claim whose first attempt succeeds unseen finds the key held, by itself. -/
theorem lost_reply_loses_the_claim :
    ∃ s' log,
      ofClaims.held (fun _ => none) (Octets.ofText "k") = none ∧
      (Remote.serve ⟨3, .ofSeconds 0⟩ (.setIfAbsent "k" [118])).Runs
        (ofClaims.Connection (Octets.ofText "k")).logged (fun _ => none, []) (.ok .existed)
        (s', log) := by
  let free : Octets → Option Octets := fun _ => none
  let claimed := (ofClaims.run (words (.setIfAbsent "k" [118])) free).2
  let found := (ofClaims.run (words (.setIfAbsent "k" [118])) claimed).2
  have hlost : ofClaims.Connection (Octets.ofText "k") (.send (words (.setIfAbsent "k" [118])))
      free (.error (.transient "reply lost")) claimed := ⟨free, rfl, .lost _⟩
  have hgoes : ofClaims.Connection (Octets.ofText "k") .isCancelled claimed false claimed := rfl
  have hreplied : ofClaims.Connection (Octets.ofText "k") (.send (words (.setIfAbsent "k" [118])))
      claimed (.ok (.int 0)) found :=
    ⟨claimed, rfl, answers_claim (ofClaims.setnx_held ..) [118]⟩
  exact ⟨found, _, rfl, Script.runs_logged_ask hlost (Script.runs_logged_ask hgoes
    (Script.runs_logged_ask hreplied (.done _ _)))⟩

end Server

end SessionVault.Remote
