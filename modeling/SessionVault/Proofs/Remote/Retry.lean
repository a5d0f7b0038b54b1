import SessionVault.Trial.Timeline

/-!
How often a remote call is tried.  A failure that may pass is followed by another attempt, as long
as there is one left and nobody cancels; whatever else an attempt comes to is the result of the
call.  Calls one after the other share the time, the cancellation and the outcomes to come, and
nothing else.
-/

namespace SessionVault

namespace Remote

def RetryPolicy.ceiling (p : RetryPolicy) : Nat := max 1 p.maxAttempts.toNat

def answered (c : Command) : Except StoreError Reply → c.Reply
  | .ok r => read c r
  | .error e => .error e

def serveAll (policy : RetryPolicy) : List Command → Link (List (Σ c : Command, c.Reply))
  | [] => return []
  | c :: rest => do
    let x ← serve policy c
    return ⟨c, x⟩ :: (← serveAll policy rest)

end Remote

namespace Trial

open Remote

def Outcome.mayPass (o : Outcome) : Bool :=
  match o.result with
  | .ok _ => false
  | .error e => e.isTransient

theorem Outcome.result_of_mayPass {o : Outcome} (h : o.mayPass = true) :
    ∃ made message, o.result = .error (.unreachable made message) := by
  obtain ⟨result, takes, cancels⟩ := o
  match result, h with
  | .error (.unreachable made message), _ => exact ⟨made, message, rfl⟩

namespace Timeline

def outcome (t : Timeline) (n : Nat) : Outcome := t.outcomes.getD n t.afterLast

def begins (t : Timeline) (policy : RetryPolicy) (n : Nat) : Nat :=
  (List.range n).foldl (fun moment k => moment + (t.outcome k).takes) t.now +
    n * policy.backoff.nanoseconds

def ends (t : Timeline) (policy : RetryPolicy) (n : Nat) : Nat :=
  t.begins policy n + (t.outcome n).takes

/-- Somebody cancels before an attempt has ended, or in the pause after it. -/
def Cuts (t : Timeline) (policy : RetryPolicy) (n : Nat) : Prop :=
  t.cancelled = true ∨ (∃ k ≤ n, (t.outcome k).cancels = true) ∨
    ∃ alarm ∈ t.alarms, alarm.precedes (t.ends policy n + policy.backoff.nanoseconds) = true

/-- A call that has made some attempts and makes a number of others, `most` of them at most. -/
structure Call (policy : RetryPolicy) (words : List Octets) (made most : Nat) (t : Timeline)
    (number : Nat) (x : Except StoreError Reply) (t' : Timeline) : Prop where
  sent : t'.sent = List.replicate number words ++ t.sent
  outcomes : t'.outcomes = t.outcomes.drop number
  settled (i : Nat) : i < most → (t.outcome i).mayPass = false →
    (∀ k < i, (t.outcome k).mayPass = true ∧ ¬ t.Cuts policy k) →
    x = (t.outcome i).result ∧ number = i + 1 ∧ t'.now = t.ends policy i
  exhausted : (∀ k < most, (t.outcome k).mayPass = true) →
    (∀ k, k + 1 < most → ¬ t.Cuts policy k) →
    ∃ n message, (t.outcome (most - 1)).result = .error (.unreachable n message) ∧
      x = .error (.unreachable (made + most) message) ∧ number = most ∧
      t'.now = t.ends policy (most - 1)
  interrupted (i : Nat) : i + 1 < most → (∀ k ≤ i, (t.outcome k).mayPass = true) →
    (∀ k < i, ¬ t.Cuts policy k) → t.Cuts policy i →
    x = .error .interrupted ∧ number = i + 1
  closed : t.cancelled = true → t'.cancelled = true

inductive Calls (policy : RetryPolicy) :
    Timeline → List Command → List (Σ c : Command, c.Reply) → Timeline → Prop where
  | nil (t : Timeline) : Calls policy t [] [] t
  | cons {c : Command} {rest : List Command} {xs : List (Σ c : Command, c.Reply)} {number : Nat}
      {x : Except StoreError Reply} {t t₁ t₂ : Timeline} :
      Call policy (words c) 0 policy.ceiling t number x t₁ → Calls policy t₁ rest xs t₂ →
      Calls policy t (c :: rest) (⟨c, answered c x⟩ :: xs) t₂

def close (t : Timeline) : Timeline := { t with cancelled := true }

variable {policy : RetryPolicy} {ws : List Octets} {t : Timeline}

theorem precedes_mono {alarm : Alarm} {moment later : Moment}
    (h : alarm.precedes moment = true) (hle : moment ≤ later) : alarm.precedes later = true := by
  simp only [Alarm.precedes, Bool.or_eq_true, Bool.and_eq_true, decide_eq_true_eq] at h ⊢
  obtain hlt | ⟨hearly, heq⟩ := h
  · exact .inl (Nat.lt_of_lt_of_le hlt hle)
  · rw [heq]
    exact (Nat.lt_or_eq_of_le hle).imp_right fun hsame => ⟨hearly, hsame⟩

theorem filter_of_quiet {alarms : List Alarm} {due : Alarm → Bool}
    (h : ∀ alarm ∈ alarms, due alarm = false) : alarms.filter due = [] :=
  List.filter_eq_nil_iff.2 fun alarm ha => Bool.eq_false_iff.1 (h alarm ha)

theorem ring_of_quiet {due : Alarm → Bool} (h : ∀ alarm ∈ t.alarms, due alarm = false) :
    t.ring due = t := by
  have hlater : t.alarms.filter (not ∘ due) = t.alarms :=
    List.filter_eq_self.2 fun alarm ha => congrArg not (h alarm ha)
  simp only [ring, List.partition_eq_filter_filter, filter_of_quiet h, hlater]
  simp

theorem waitTo_of_quiet {moment : Moment}
    (h : ∀ alarm ∈ t.alarms, alarm.precedes moment = false) :
    t.waitTo moment = (true, { t with now := moment }) := by
  rw [waitTo, filter_of_quiet h, passTo, ring_of_quiet h]
  rfl

theorem cancelled_ring (t : Timeline) (due : Alarm → Bool) :
    (t.ring due).cancelled = true ↔
      t.cancelled = true ∨ ∃ alarm ∈ t.alarms, due alarm = true := by
  simp [ring, List.partition_eq_filter_filter]

theorem waitTo_of_alarm {moment : Moment} {alarm : Alarm} (ha : alarm ∈ t.alarms)
    (hp : alarm.precedes moment = true) :
    ∃ t', t.waitTo moment = (false, t') ∧ t'.sent = t.sent ∧ t'.outcomes = t.outcomes ∧
      t'.cancelled = true := by
  have hdue : alarm.moment ∈ (t.alarms.filter (·.precedes moment)).map (·.moment) :=
    List.mem_map_of_mem (List.mem_filter.2 ⟨ha, hp⟩)
  rw [waitTo]
  split
  · next hnone =>
    rw [List.min?_eq_none_iff.1 hnone] at hdue
    cases hdue
  · next first hfirst =>
    obtain ⟨earliest, hmem, hmoment⟩ := List.mem_map.1 (List.min?_mem hfirst)
    have hring : (t.ring (·.moment ≤ first)).cancelled = true :=
      (t.cancelled_ring _).2
        (.inr ⟨earliest, (List.mem_filter.1 hmem).1, decide_eq_true (Nat.le_of_eq hmoment)⟩)
    exact ⟨_, rfl, rfl, rfl, hring⟩

def tried (t : Timeline) (ws : List Octets) : Timeline := (answer (.send ws) t).2

def next (t : Timeline) (policy : RetryPolicy) (ws : List Octets) : Timeline :=
  { t with now := t.begins policy 1, outcomes := t.outcomes.tail, sent := ws :: t.sent }

theorem headD_outcomes (t : Timeline) : t.outcomes.headD t.afterLast = t.outcome 0 := by
  rw [outcome]
  cases t.outcomes <;> rfl

theorem answer_send (t : Timeline) (ws : List Octets) :
    answer (.send ws) t = (some (t.outcome 0).result, t.tried ws) := by
  rw [← t.headD_outcomes]
  rfl

theorem ends_zero (t : Timeline) (policy : RetryPolicy) :
    t.ends policy 0 = t.now + (t.outcome 0).takes := by
  simp [ends, begins]

theorem begins_succ (t : Timeline) (policy : RetryPolicy) (n : Nat) :
    t.begins policy (n + 1) = t.ends policy n + policy.backoff.nanoseconds := by
  simp only [ends, begins, List.range_succ, List.foldl_append, List.foldl_cons, List.foldl_nil,
    Nat.succ_mul]
  omega

theorem tried_eq (t : Timeline) (policy : RetryPolicy) (ws : List Octets) :
    t.tried ws =
      { t.ring (·.precedes (t.ends policy 0)) with
        now := t.ends policy 0
        outcomes := t.outcomes.tail
        sent := ws :: t.sent
        cancelled :=
          (t.ring (·.precedes (t.ends policy 0))).cancelled || (t.outcome 0).cancels } := by
  rw [ends_zero, ← t.headD_outcomes]
  rfl

theorem cancelled_tried (t : Timeline) (policy : RetryPolicy) (ws : List Octets) :
    (t.tried ws).cancelled = true ↔
      t.cancelled = true ∨ (t.outcome 0).cancels = true ∨
        ∃ alarm ∈ t.alarms, alarm.precedes (t.ends policy 0) = true := by
  rw [tried_eq t policy, Bool.or_eq_true, cancelled_ring, or_assoc]
  exact or_congr_right or_comm

theorem tried_of_not_cancelled (policy : RetryPolicy) (h : (t.tried ws).cancelled ≠ true) :
    t.tried ws =
      { t with now := t.ends policy 0, outcomes := t.outcomes.tail, sent := ws :: t.sent } := by
  rw [Ne, cancelled_tried t policy, not_or, not_or] at h
  obtain ⟨-, hcancels, halarms⟩ := h
  have hquiet : t.ring (·.precedes (t.ends policy 0)) = t :=
    ring_of_quiet fun alarm ha => Bool.eq_false_iff.2 fun hp => halarms ⟨alarm, ha, hp⟩
  rw [tried_eq t policy, hquiet, Bool.eq_false_iff.2 hcancels, Bool.or_false]

theorem not_cancelled_of_not_cuts (h : ¬ t.Cuts policy 0) : (t.tried ws).cancelled ≠ true := by
  rw [Ne, cancelled_tried t policy]
  rintro (hc | hc | ⟨alarm, ha, hp⟩)
  · exact h (.inl hc)
  · exact h (.inr (.inl ⟨0, Nat.le_refl 0, hc⟩))
  · exact h (.inr (.inr ⟨alarm, ha, precedes_mono hp (Nat.le_add_right ..)⟩))

theorem run_waitOn_of_cancelled (h : t.cancelled = true) :
    (waitOn policy).run answer t = (some false, t) := by
  simp only [waitOn, isCancelled, Script.bind_eq, Script.request, Script.ask_bind,
    Script.done_bind, Script.run, answer, h]
  rfl

theorem run_waitOn (h : t.cancelled = false) :
    (waitOn policy).run answer t =
      if policy.backoff.nanoseconds = 0 then (some true, t)
      else
        (some (t.waitTo (t.now + policy.backoff.nanoseconds)).1,
          (t.waitTo (t.now + policy.backoff.nanoseconds)).2) := by
  simp only [waitOn, isCancelled, Script.bind_eq, Script.request, Script.ask_bind,
    Script.done_bind, Script.run, answer, h, Bool.false_eq_true, if_false]
  split
  · rfl
  · simp only [pause, Script.request, Script.run, answer, h, Bool.false_eq_true, if_false]

theorem run_waitOn_of_not_cuts (h : ¬ t.Cuts policy 0) :
    (waitOn policy).run answer (t.tried ws) = (some true, t.next policy ws) := by
  have hcancelled : (t.tried ws).cancelled ≠ true := not_cancelled_of_not_cuts h
  rw [run_waitOn (Bool.eq_false_iff.2 hcancelled), tried_of_not_cancelled policy hcancelled, next,
    begins_succ]
  split
  · next hzero => rw [hzero, Nat.add_zero]
  · rw [waitTo_of_quiet fun alarm ha => ?_]
    exact Bool.eq_false_iff.2 fun hp => h (.inr (.inr ⟨alarm, ha, hp⟩))

theorem run_waitOn_of_cuts (ws : List Octets) (h : t.Cuts policy 0) :
    ∃ t', (waitOn policy).run answer (t.tried ws) = (some false, t') ∧ t'.sent = ws :: t.sent ∧
      t'.outcomes = t.outcomes.tail ∧ t'.cancelled = true := by
  by_cases hc : (t.tried ws).cancelled = true
  · have htried := t.tried_eq policy ws
    rw [run_waitOn_of_cancelled hc]
    exact ⟨_, rfl, by rw [htried], by rw [htried], hc⟩
  -- Nobody has cancelled by the end of the attempt, so somebody does in the pause.
  have htried := tried_of_not_cancelled policy hc
  rw [run_waitOn (Bool.eq_false_iff.2 hc)]
  rw [cancelled_tried t policy, not_or, not_or] at hc
  obtain ⟨hcancelled, hcancels, hearly⟩ := hc
  obtain hc | ⟨k, hk, hc⟩ | ⟨alarm, ha, hp⟩ := h
  · exact absurd hc hcancelled
  · rw [Nat.le_zero.1 hk] at hc
    exact absurd hc hcancels
  · have hpause : policy.backoff.nanoseconds ≠ 0 := by
      intro hzero
      rw [hzero, Nat.add_zero] at hp
      exact hearly ⟨alarm, ha, hp⟩
    rw [if_neg hpause, htried]
    obtain ⟨t', hwait, hsent, houtcomes, hc⟩ := waitTo_of_alarm
      (t := { t with now := t.ends policy 0, outcomes := t.outcomes.tail, sent := ws :: t.sent })
      ha hp
    exact ⟨t', by rw [hwait], hsent, houtcomes, hc⟩

theorem outcome_next (t : Timeline) (n : Nat) :
    (t.next policy ws).outcome n = t.outcome (n + 1) := by
  simp only [outcome, next, List.getD_eq_getElem?_getD, List.getElem?_tail]

theorem begins_next (t : Timeline) (n : Nat) :
    (t.next policy ws).begins policy n = t.begins policy (n + 1) := by
  induction n with
  | zero => simp [begins, next]
  | succ n ih => rw [begins_succ, begins_succ, ends, ends, ih, outcome_next]

theorem ends_next (t : Timeline) (n : Nat) :
    (t.next policy ws).ends policy n = t.ends policy (n + 1) := by
  rw [ends, begins_next, outcome_next]
  rfl

theorem cuts_next (h : ¬ t.Cuts policy 0) (n : Nat) :
    (t.next policy ws).Cuts policy n ↔ t.Cuts policy (n + 1) := by
  have hcancels : (∃ k ≤ n, ((t.next policy ws).outcome k).cancels = true) ↔
      ∃ k ≤ n + 1, (t.outcome k).cancels = true := by
    simp only [outcome_next]
    constructor
    · rintro ⟨k, hk, hc⟩
      exact ⟨k + 1, Nat.succ_le_succ hk, hc⟩
    · rintro ⟨k, hk, hc⟩
      cases k with
      | zero => exact absurd (.inr (.inl ⟨0, Nat.le_refl 0, hc⟩)) h
      | succ k => exact ⟨k, Nat.le_of_succ_le_succ hk, hc⟩
  rw [Cuts, Cuts, hcancels, ends_next]
  rfl

theorem run_send {α : Type} (f : Except StoreError Reply → Link α) :
    ((send ws).bind f).run answer t = (f (t.outcome 0).result).run answer (t.tried ws) := by
  rw [send, Script.request, Script.ask_bind, Script.run, answer_send]
  rfl

theorem run_attempts_settled {made left : Nat} (h : (t.outcome 0).mayPass = false) :
    (attempts policy (send ws) made left).run answer t =
      (some (t.outcome 0).result, t.tried ws) := by
  rw [Outcome.mayPass] at h
  cases hresult : (t.outcome 0).result with
  | ok r => cases left <;> rw [attempts, Script.bind_eq, run_send, hresult] <;> rfl
  | error e =>
    rw [hresult] at h
    cases e with
    | unreachable n message => cases h
    | protocol | invalidPattern | unexpectedReply | interrupted | configuration | pool =>
      cases left <;> rw [attempts, Script.bind_eq, run_send, hresult] <;> rfl

theorem run_attempts_last {made n : Nat} {message : String}
    (h : (t.outcome 0).result = .error (.unreachable n message)) :
    (attempts policy (send ws) made 0).run answer t =
      (some (.error (.unreachable (made + 1) message)), t.tried ws) := by
  rw [attempts, Script.bind_eq, run_send, h]
  rfl

theorem run_attempts_next {made left : Nat} (h : (t.outcome 0).mayPass = true)
    (hcuts : ¬ t.Cuts policy 0) :
    (attempts policy (send ws) made (left + 1)).run answer t =
      (attempts policy (send ws) (made + 1) left).run answer (t.next policy ws) := by
  obtain ⟨n, message, hresult⟩ := Outcome.result_of_mayPass h
  rw [attempts, Script.bind_eq, run_send, hresult]
  dsimp only
  rw [Script.bind_eq, Script.run_bind, run_waitOn_of_not_cuts hcuts]
  rfl

theorem run_attempts_cut {made left : Nat} (h : (t.outcome 0).mayPass = true)
    (hcuts : t.Cuts policy 0) :
    ∃ t', (attempts policy (send ws) made (left + 1)).run answer t =
      (some (.error .interrupted), t') ∧ t'.sent = ws :: t.sent ∧
        t'.outcomes = t.outcomes.tail ∧ t'.cancelled = true := by
  obtain ⟨n, message, hresult⟩ := Outcome.result_of_mayPass h
  obtain ⟨t', hwait, hrest⟩ := run_waitOn_of_cuts ws hcuts
  refine ⟨t', ?_, hrest⟩
  rw [attempts, Script.bind_eq, run_send, hresult]
  dsimp only
  rw [Script.bind_eq, Script.run_bind, hwait]
  rfl

variable {x : Except StoreError Reply} {t' : Timeline} {made most number : Nat}

theorem Call.of_settled (h : (t.outcome 0).mayPass = false) :
    Call policy ws made (most + 1) t 1 (t.outcome 0).result (t.tried ws) where
  sent := by rw [t.tried_eq policy]; rfl
  outcomes := by rw [t.tried_eq policy]; exact List.drop_one.symm
  settled i _ _ hbefore := by
    cases i with
    | zero => exact ⟨rfl, rfl, by rw [t.tried_eq policy]⟩
    | succ i => exact absurd (hbefore 0 (Nat.succ_pos i)).1 (by simp [h])
  exhausted hpass _ := absurd (hpass 0 (Nat.succ_pos most)) (by simp [h])
  interrupted i _ hpass := absurd (hpass 0 (Nat.zero_le i)) (by simp [h])
  closed hc := (t.cancelled_tried policy ws).2 (.inl hc)

theorem Call.of_last {n : Nat} {message : String}
    (h : (t.outcome 0).result = .error (.unreachable n message)) :
    Call policy ws made 1 t 1 (.error (.unreachable (made + 1) message)) (t.tried ws) where
  sent := by rw [t.tried_eq policy]; rfl
  outcomes := by rw [t.tried_eq policy]; exact List.drop_one.symm
  settled i hi hresult _ := by
    rw [Nat.lt_one_iff.1 hi, Outcome.mayPass, h] at hresult
    cases hresult
  exhausted _ _ := ⟨n, message, h, rfl, rfl, by rw [t.tried_eq policy]⟩
  interrupted i hi := absurd hi (by omega)
  closed hc := (t.cancelled_tried policy ws).2 (.inl hc)

theorem Call.of_cuts (h : (t.outcome 0).mayPass = true) (hcuts : t.Cuts policy 0)
    (hsent : t'.sent = ws :: t.sent) (houtcomes : t'.outcomes = t.outcomes.tail)
    (hcancelled : t'.cancelled = true) :
    Call policy ws made (most + 2) t 1 (.error .interrupted) t' where
  sent := hsent
  outcomes := houtcomes.trans List.drop_one.symm
  settled i _ hresult hbefore := by
    cases i with
    | zero => exact absurd h (by simp [hresult])
    | succ i => exact absurd hcuts (hbefore 0 (Nat.succ_pos i)).2
  exhausted _ hquiet := absurd hcuts (hquiet 0 (Nat.succ_lt_succ (Nat.succ_pos most)))
  interrupted i _ _ hbefore _ := by
    cases i with
    | zero => exact ⟨rfl, rfl⟩
    | succ i => exact absurd hcuts (hbefore 0 (Nat.succ_pos i))
  closed _ := hcancelled

theorem Call.of_next (h : (t.outcome 0).mayPass = true) (hcuts : ¬ t.Cuts policy 0)
    (hcall : Call policy ws (made + 1) (most + 1) (t.next policy ws) number x t') :
    Call policy ws made (most + 2) t (number + 1) x t' where
  sent := by
    rw [hcall.sent, List.replicate_succ', List.append_assoc]
    rfl
  outcomes := by
    rw [hcall.outcomes, next, ← List.drop_one, List.drop_drop, Nat.add_comm]
  settled i hi hresult hbefore := by
    cases i with
    | zero => exact absurd h (by simp [hresult])
    | succ i =>
      have hlater := hcall.settled i (Nat.lt_of_succ_lt_succ hi) (by rwa [outcome_next])
      simp only [outcome_next, ends_next, cuts_next hcuts] at hlater
      obtain ⟨hx, hnumber, hnow⟩ := hlater fun k hk => hbefore (k + 1) (Nat.succ_lt_succ hk)
      exact ⟨hx, congrArg (· + 1) hnumber, hnow⟩
  exhausted hpass hquiet := by
    have hlater := hcall.exhausted
    simp only [outcome_next, ends_next, cuts_next hcuts] at hlater
    obtain ⟨n, message, hlast, hx, hnumber, hnow⟩ := hlater
      (fun k hk => hpass (k + 1) (Nat.succ_lt_succ hk))
      (fun k hk => hquiet (k + 1) (Nat.succ_lt_succ hk))
    refine ⟨n, message, hlast, ?_, congrArg (· + 1) hnumber, hnow⟩
    rw [hx, Nat.add_assoc, Nat.add_comm 1]
  interrupted i hi hpass hbefore hc := by
    cases i with
    | zero => exact absurd hc hcuts
    | succ i =>
      have hlater := hcall.interrupted i (Nat.lt_of_succ_lt_succ hi)
      simp only [outcome_next, cuts_next hcuts] at hlater
      obtain ⟨hx, hnumber⟩ := hlater (fun k hk => hpass (k + 1) (Nat.succ_le_succ hk))
        (fun k hk => hbefore (k + 1) (Nat.succ_lt_succ hk)) hc
      exact ⟨hx, congrArg (· + 1) hnumber⟩
  closed := hcall.closed

theorem exists_call (policy : RetryPolicy) (ws : List Octets) (made left : Nat) (t : Timeline) :
    ∃ number x t', (attempts policy (send ws) made left).run answer t = (some x, t') ∧
      Call policy ws made (left + 1) t number x t' := by
  induction left generalizing made t with
  | zero =>
    cases hpass : (t.outcome 0).mayPass with
    | false => exact ⟨1, _, _, run_attempts_settled hpass, .of_settled hpass⟩
    | true =>
      obtain ⟨n, message, hresult⟩ := Outcome.result_of_mayPass hpass
      exact ⟨1, _, _, run_attempts_last hresult, .of_last hresult⟩
  | succ left ih =>
    cases hpass : (t.outcome 0).mayPass with
    | false => exact ⟨1, _, _, run_attempts_settled hpass, .of_settled hpass⟩
    | true =>
      by_cases hcuts : t.Cuts policy 0
      · obtain ⟨t', hrun, hsent, houtcomes, hc⟩ := run_attempts_cut hpass hcuts
        exact ⟨1, _, t', hrun, .of_cuts hpass hcuts hsent houtcomes hc⟩
      · obtain ⟨number, x, t', hrun, hcall⟩ := ih (made + 1) (t.next policy ws)
        rw [run_attempts_next hpass hcuts]
        exact ⟨number + 1, x, t', hrun, hcall.of_next hpass hcuts⟩

theorem exists_call_retry (policy : RetryPolicy) (ws : List Octets) (t : Timeline) :
    ∃ number x t', t.perform (retry policy (send ws)) = (some x, t') ∧
      Call policy ws 0 policy.ceiling t number x t' := by
  have hceiling : policy.ceiling = policy.maxAttempts.toNat - 1 + 1 := by
    rw [RetryPolicy.ceiling]
    omega
  rw [hceiling]
  exact exists_call policy ws 0 (policy.maxAttempts.toNat - 1) t

theorem perform_serve {c : Command} (h : t.perform (retry policy (send (words c))) = (some x, t')) :
    t.perform (serve policy c) = (some (answered c x), t') := by
  rw [perform] at h ⊢
  rw [serve, Script.bind_eq, Script.run_bind, h]
  cases x <;> rfl

theorem exists_calls (policy : RetryPolicy) (cs : List Command) (t : Timeline) :
    ∃ xs t', t.perform (serveAll policy cs) = (some xs, t') ∧ Calls policy t cs xs t' := by
  induction cs generalizing t with
  | nil => exact ⟨[], t, rfl, .nil t⟩
  | cons c rest ih =>
    obtain ⟨number, x, t₁, hfirst, hcall⟩ := exists_call_retry policy (words c) t
    obtain ⟨xs, t₂, hrest, hcalls⟩ := ih t₁
    refine ⟨⟨c, answered c x⟩ :: xs, t₂, ?_, .cons hcall hcalls⟩
    have hserve := perform_serve hfirst
    rw [perform] at hserve hrest ⊢
    simp only [serveAll, Script.bind_eq, Script.run_bind, hserve, hrest]
    rfl

theorem Call.number_eq_one (h : Call policy ws made most t number x t') (hmost : 0 < most)
    (hc : t.cancelled = true) : number = 1 := by
  have hnone (P : Nat → Prop) : ∀ k < 0, P k := fun k hk => absurd hk (Nat.not_lt_zero k)
  cases hpass : (t.outcome 0).mayPass with
  | false => exact (h.settled 0 hmost hpass (hnone _)).2.1
  | true =>
    have hall : ∀ k ≤ 0, (t.outcome k).mayPass = true := by
      intro k hk
      rwa [Nat.le_zero.1 hk]
    obtain hone | hmore := Nat.eq_or_lt_of_le (Nat.succ_le_of_lt hmost)
    · have hlast : ∀ k, ¬ k + 1 < most := fun k hk => by omega
      obtain ⟨_, _, _, _, hnumber, _⟩ := h.exhausted (fun k hk => hall k (by omega))
        fun k hk => absurd hk (hlast k)
      exact hnumber.trans hone.symm
    · exact (h.interrupted 0 hmore hall (hnone _) (.inl hc)).2

theorem Calls.once {cs : List Command} {xs : List (Σ c : Command, c.Reply)}
    (h : Calls policy t cs xs t') (hc : t.cancelled = true) :
    t'.sent = (cs.map words).reverse ++ t.sent ∧ t'.outcomes = t.outcomes.drop cs.length ∧
      t'.cancelled = true := by
  induction h with
  | nil t => exact ⟨rfl, rfl, hc⟩
  | cons hcall hrest ih =>
    obtain rfl := hcall.number_eq_one (Nat.le_max_left ..) hc
    obtain ⟨hsent, houtcomes, hclosed⟩ := ih (hcall.closed hc)
    refine ⟨?_, ?_, hclosed⟩
    · rw [hsent, hcall.sent]
      simp
    · rw [houtcomes, hcall.outcomes, List.drop_drop, List.length_cons, Nat.add_comm]

/-- Every call ends, after as many attempts as the policy and the moment of the cancellation allow;
so does every one of a number of calls in a row, and after a cancellation each makes one attempt. -/
theorem calls_are_tried_within_bounds (policy : RetryPolicy) (t : Timeline) :
    (∀ ws, ∃ number x t', t.perform (retry policy (send ws)) = (some x, t') ∧
      Call policy ws 0 policy.ceiling t number x t') ∧
    (∀ cs, ∃ xs t', t.perform (serveAll policy cs) = (some xs, t') ∧ Calls policy t cs xs t') ∧
    ∀ cs, ∃ xs t', t.close.perform (serveAll policy cs) = (some xs, t') ∧
      Calls policy t.close cs xs t' ∧ t'.sent = (cs.map words).reverse ++ t.sent ∧
      t'.outcomes = t.outcomes.drop cs.length := by
  refine ⟨fun ws => exists_call_retry policy ws t, fun cs => exists_calls policy cs t,
    fun cs => ?_⟩
  obtain ⟨xs, t', hrun, hcalls⟩ := exists_calls policy cs t.close
  obtain ⟨hsent, houtcomes, -⟩ := hcalls.once rfl
  exact ⟨xs, t', hrun, hcalls, hsent, houtcomes⟩

example :
    let failed : Outcome := ⟨.error (.unreachable 1 "down"), 500000000, false⟩
    let sent (early : Bool) : Nat :=
      ((Timeline.mk 0 false [⟨2500000000, early⟩] 0 [] failed []).perform
        (retry ⟨3, .ofSeconds 2⟩ (send []))).2.sent.length
    sent true = 1 ∧ sent false = 2 := by
  decide +kernel

theorem second_attempt_is_answered :
    ∃ t t' : Timeline, t.perform (retry ⟨3, .ofSeconds 2⟩ (send [])) = (some (.ok .ok), t') ∧
      t'.sent = [[], []] ∧ t'.now = 2600000000 := by
  let failed : Outcome := ⟨.error (.unreachable 1 "down"), 500000000, false⟩
  let t : Timeline := ⟨0, false, [], 0, [failed, ⟨.ok .ok, 100000000, false⟩], failed, []⟩
  obtain ⟨hcall, -, -⟩ := calls_are_tried_within_bounds ⟨3, .ofSeconds 2⟩ t
  obtain ⟨number, x, t', hrun, hcall⟩ := hcall []
  have hfirst : ∀ k < 1, (t.outcome k).mayPass = true ∧ ¬ t.Cuts ⟨3, .ofSeconds 2⟩ k := by
    intro k hk
    obtain rfl := Nat.lt_one_iff.1 hk
    refine ⟨rfl, ?_⟩
    rintro (hc | ⟨k, hk, hc⟩ | ⟨alarm, ha, -⟩)
    · cases hc
    · obtain rfl := Nat.le_zero.1 hk
      cases hc
    · cases ha
  obtain ⟨rfl, rfl, hnow⟩ := hcall.settled 1 (by decide) rfl hfirst
  have hend : t.ends ⟨3, .ofSeconds 2⟩ 1 = 2600000000 := by decide +kernel
  exact ⟨t, t', hrun, hcall.sent, hnow.trans hend⟩

end Timeline

end Trial

end SessionVault
