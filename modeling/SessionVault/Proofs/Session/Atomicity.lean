import SessionVault.Proofs.Session.Abandonment

namespace SessionVault

/-- A store of which we see the values of its keys.  A call that fails changes nothing, and a value
that is taken is held from then on. -/
structure Steady {ρ : Type} (R : Moment → Script.Rules Command.Reply ρ)
    (look : ρ → Moment → String → Option Octets) : Prop where
  failed {now : Moment} {c : Command} {t t' : ρ} {e : StoreError} :
    R now c t (.error e) t' → t' = t
  taken {now later : Moment} {key : String} {value : Octets} {t t' : ρ} :
    R now (.set key value) t (.ok ()) t' → now ≤ later → look t' later key = some value

theorem Memory.steady_serves : Steady Memory.Serves Memory.value? where
  failed {now c t t' e} h := by
    rcases h with h | ⟨-, rfl⟩
    · obtain ⟨hx, ht⟩ := Prod.mk.inj h
      cases c with
      | expire key seconds =>
        obtain ⟨found, -, he⟩ := Option.map_eq_some_iff.1 hx
        cases he
      | keys pattern => exact ht.symm
      | set | setIfAbsent | get | delete | «exists» => cases hx
    · rfl
  taken {now later key value t t'} h _ := by
    rcases h with h | ⟨⟨e, he⟩, -⟩
    · cases h
      exact (t.value?_put later key key value).trans (if_pos rfl)
    · cases he

namespace Manager

variable {ρ : Type} {R : Moment → Script.Rules Command.Reply ρ}
variable {look : ρ → Moment → String → Option Octets}

def Offered (log : Log ρ) (key : String) (value : Octets) : Prop :=
  ∃ x s, ⟨.store (.set key value), x, s⟩ ∈ log

/-- A save that has changed nothing.  The next one, unless it is told to write less, offers the
store whatever this one did. -/
structure Untouched (m : Manager) (force : Bool) (ctx ctx' : SessionContext) (t t' : ρ)
    (log : Log ρ) : Prop where
  untaken (key : String) (value : Octets) : ¬ Taken log key value
  store : t' = t
  context : ctx' = ctx
  again (key : String) (value : Octets) (next : Bool) : (force = true → next = true) →
    Offered log key value → (m.save next ctx').Owes (· = .store (.set key value))

structure Unrenewed (m : Manager) (look : ρ → Moment → String → Option Octets) (s : Session)
    (ctx ctx' : SessionContext) (hash payload : Octets) (st : Moment × ρ) (log : Log ρ) : Prop where
  hashed : s.hash = .ok hash
  encoded : s.encode ⟨hash⟩ = .ok payload
  calls : ∃ e st₁, log = [
    ⟨.store (.expire (m.key s.id) (m.effectiveTimeout s)), .error e, st⟩,
    ⟨.store (.set (m.key s.id) payload), .ok (), st₁⟩]
  held : look st.2 st.1 (m.key s.id) = some payload
  context : ctx' =
    { ctx with session := some s.resetTracking, persisted := some true, metadata := some ⟨hash⟩ }

variable {m : Manager} {ctx : SessionContext} {s : Session} {start : Moment × ρ}

theorem needsWrite_mono {hash : Octets} {force next : Bool} (hnext : force = true → next = true)
    (h : needsWrite ctx s hash force = true) : needsWrite ctx s hash next = true := by
  cases force with
  | true =>
    rw [hnext rfl]
    rfl
  | false =>
    rw [needsWrite, Bool.false_or] at h
    simp only [needsWrite, Bool.or_assoc, Bool.or_eq_true] at h ⊢
    exact .inr h

abbrev Settled (m : Manager) (look : ρ → Moment → String → Option Octets) (force : Bool)
    (ctx : SessionContext) (s : Session) (start : Moment × ρ) (r : SaveOutcome × SessionContext)
    (st : (Moment × ρ) × Log ρ) : Prop :=
  r.1 = .failed → m.Untouched force ctx r.2 start.2 st.1.2 st.2 ∨
    ∃ hash payload, m.Unrenewed look s ctx r.2 hash payload st.1 st.2

theorem untouched_of_not_offered {force : Bool} {t : ρ} {log : Log ρ}
    (h : ∀ key value, ¬ Offered log key value) : m.Untouched force ctx ctx t t log where
  untaken key value := fun ⟨s, hs⟩ => h key value ⟨_, s, hs⟩
  store := rfl
  context := rfl
  again key value _ _ ho := absurd ho (h key value)

theorem untouched_of_refused {force : Bool} {hash payload : Octets} {e : StoreError} {t : ρ}
    {st : Moment × ρ} (hs : ctx.session = some s) (hhash : s.hash = .ok hash)
    (hpayload : s.encode ⟨hash⟩ = .ok payload) (hneeds : needsWrite ctx s hash force = true) :
    m.Untouched force ctx ctx t t [⟨.store (.set (m.key s.id) payload), .error e, st⟩] where
  untaken key value := by
    rintro ⟨s, hs⟩
    cases List.mem_singleton.1 hs
  store := rfl
  context := rfl
  again key value next hnext := by
    rintro ⟨x, s, ho⟩
    cases List.mem_singleton.1 ho
    rw [save_eq hs hhash hpayload, if_pos (needsWrite_mono hnext hneeds)]
    exact .inl rfl

theorem ensures_save_settled (hR : Steady R look) (force : Bool) (hs : ctx.session = some s) :
    (m.save force ctx).Ensures (Recorded R) (m.Settled look force ctx s start) (start, []) := by
  cases hhash : s.hash with
  | error e =>
    simp only [save, hs, hhash]
    intro _
    refine .inl (untouched_of_not_offered fun key value => ?_)
    rintro ⟨x, s, ho⟩
    cases ho
  | ok hash =>
    obtain ⟨payload, hpayload⟩ := Session.exists_payload_of_hash hhash
    rw [save_eq hs hhash hpayload]
    split
    · next hneeds =>
      refine Script.ensures_logged_ask fun x st₁ hset => ?_
      cases x with
      | error e =>
        intro _
        rw [hR.failed hset.2]
        exact .inl (untouched_of_refused hs hhash hpayload hneeds)
      | ok =>
        refine Script.ensures_logged_ask fun x st₂ hexpire => ?_
        cases x with
        | ok found =>
          intro h
          cases h
        | error e =>
          refine fun _ => .inr ⟨hash, payload, hhash, hpayload, ⟨e, st₁, rfl⟩, ?_, rfl⟩
          rw [hR.failed hexpire.2]
          exact hR.taken hset.2 hexpire.1
    · refine Script.ensures_logged_ask fun x st₁ hexpire => ?_
      cases x with
      | ok found =>
        intro h
        cases h
      | error e =>
        intro _
        rw [hR.failed hexpire.2]
        refine .inl (untouched_of_not_offered fun key value => ?_)
        rintro ⟨x, s, ho⟩
        cases List.mem_singleton.1 ho

/-- A save that fails has changed nothing, neither in the store nor in what is known of the session,
and the next one offers the store whatever this one did; or the store has taken the session, holds
it, and the session counts as written. -/
theorem failed_save_is_undone_or_complete (hR : Steady R look) (m : Manager) (force : Bool)
    (ctx ctx' : SessionContext) (s : Session) (hs : ctx.session = some s)
    {start st : Moment × ρ} {log : Log ρ}
    (h : (m.save force ctx).Runs (Recorded R) (start, []) (.failed, ctx') (st, log)) :
    m.Untouched force ctx ctx' start.2 st.2 log ∨
      ∃ hash payload, m.Unrenewed look s ctx ctx' hash payload st log :=
  h.ensures (ensures_save_settled hR force hs) rfl

theorem unrenewed_session_is_held :
    ∃ ctx ctx' s st log, ctx.session = some s ∧
      (save {} false ctx).Runs (Recorded Memory.Serves) ((0, .empty), []) (.failed, ctx')
        (st, log) ∧
      ∃ hash payload, Unrenewed {} Memory.value? s ctx ctx' hash payload st log := by
  let s := Session.fresh "A" 1800 default
  let ctx : SessionContext := { id := some "A", session := some s, persisted := some false }
  obtain ⟨hash, payload, hhash, hpayload⟩ := (Session.fresh_finite "A" 1800 default).exists_payload
  have hs : ctx.session = some s := rfl
  let stored : Moment × Memory := (0, Memory.put .empty "A" payload)
  have hset : Clocked Memory.Serves (.set "A" payload) (0, .empty) (.ok ()) stored :=
    ⟨Nat.le_refl 0, .inl rfl⟩
  have hexpire : Clocked Memory.Serves (.expire "A" 1800) stored (.error .interrupted) stored :=
    ⟨Nat.le_refl 0, .inr ⟨⟨_, rfl⟩, rfl⟩⟩
  obtain ⟨log, hrun, htaken⟩ : ∃ log,
      (save {} false ctx).Runs (Recorded Memory.Serves) ((0, .empty), [])
        (.failed, ctx.saved s hash) (stored, log) ∧ Taken log "A" payload := by
    apply Exists.intro
    constructor
    · rw [save_eq hs hhash hpayload]
      refine Script.runs_logged_ask hset ?_
      exact Script.runs_logged_ask hexpire (.done _ _)
    · exact ⟨_, .tail _ (.head _)⟩
  refine ⟨ctx, _, s, stored, log, hs, hrun, ?_⟩
  have hsettled := failed_save_is_undone_or_complete Memory.steady_serves {} false _ _ s hs hrun
  exact hsettled.resolve_left fun h => h.untaken "A" payload htaken

end Manager

end SessionVault
