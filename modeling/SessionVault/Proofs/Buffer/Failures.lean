import SessionVault.Proofs.Buffer.Timed
import SessionVault.Remote.Pool

namespace SessionVault

/-- Whether an operation ends with the error that the remote store has answered.  A listing that
was refused goes by its pattern, and fails only if that is none. -/
def Command.handsOn (e : StoreError) : Command → Bool
  | .get _ | .exists _ => true
  | .keys pattern => (Glob.Pattern.ofText? pattern).isNone && e = .invalidPattern pattern
  | .set _ _ | .setIfAbsent _ _ | .expire _ _ | .delete _ => false

namespace Buffer

theorem keys_eq_error_iff {b : Buffer} {pattern : String} {e : StoreError} :
    b.keys pattern = .error e ↔ (Command.keys pattern).handsOn e = true := by
  rw [keys, Command.handsOn, Bool.and_eq_true, decide_eq_true_eq, eq_comm (a := e)]
  cases Glob.Pattern.ofText? pattern with
  | none => exact ⟨fun h => ⟨rfl, Except.error.inj h⟩, fun h => congrArg Except.error h.2⟩
  | some p => exact ⟨nofun, fun h => nomatch h.1⟩

namespace Timed

variable {ρ α : Type} {R : Moment → Script.Rules Command.Reply ρ} {n n' : Timed ρ} {log : Log ρ}
variable {e : StoreError} {c : Command} {s : Timed ρ × Log ρ}
variable {post : α → Timed ρ × Log ρ → Prop}

def failure? : Event ρ → Option StoreError
  | ⟨.remote _, .error e, _⟩ => some e
  | _ => none

def failures (log : Log ρ) : List StoreError := log.filterMap failure?

def Handles (c : Command) (x : c.Reply) (s : Timed ρ × Log ρ) : Prop :=
  ∀ e ∈ failures s.2,
    (x = .error e ↔ c.handsOn e = true) ∧ (x ≠ .error e → s.1.buffer.needsResync = true)

theorem handles_of_failures_nil {x : c.Reply} (h : failures s.2 = []) : Handles c x s := by
  intro e he
  rw [h] at he
  exact absurd he List.not_mem_nil

theorem handles_of_failures_singleton {x : c.Reply} (h : failures s.2 = [e])
    (hx : x = .error e ↔ c.handsOn e = true)
    (hflag : x ≠ .error e → s.1.buffer.needsResync = true) : Handles c x s := by
  intro e' he'
  rw [h, List.mem_singleton] at he'
  subst he'
  exact ⟨hx, hflag⟩

theorem ensures_here {step : Step} {f : step.Answer → Service α}
    (h : ∀ x s', Buffer.step s'.1.now step s.1.buffer = (some x, s'.1.buffer) →
      failures s'.2 = failures s.2 → (f x).Ensures (Recorded R) post s') :
    ((Buffer.here step).bind f).Ensures (Recorded R) post s := by
  rintro x s' ⟨⟨-, hstep, -⟩, hlog⟩
  refine h x s' hstep ?_
  rw [hlog]
  rfl

theorem ensures_startAll {f : Unit → Service α} (jobs : List Job)
    (h : ∀ s', failures s'.2 = failures s.2 → (f ()).Ensures (Recorded R) post s') :
    ((startAll jobs).bind f).Ensures (Recorded R) post s := by
  induction jobs generalizing s with
  | nil => exact h s rfl
  | cons job rest ih =>
    rintro x s' ⟨-, hlog⟩
    have hmet : failures s'.2 = failures s.2 := by
      rw [hlog]
      rfl
    exact ih fun s₂ hmet₂ => h s₂ (hmet₂.trans hmet)

theorem ensures_remote {c' : Command} {f : c'.Reply → Service α}
    (hok : ∀ a s', s'.1.buffer = s.1.buffer → failures s'.2 = failures s.2 →
      (f (.ok a)).Ensures (Recorded R) post s')
    (herror : ∀ e s', s'.1.buffer = s.1.buffer → failures s'.2 = e :: failures s.2 →
      (f (.error e)).Ensures (Recorded R) post s') :
    ((Buffer.remote c').bind f).Ensures (Recorded R) post s := by
  rintro x s' ⟨⟨-, -, hbuffer⟩, hlog⟩
  cases x with
  | ok a =>
    refine hok a s' hbuffer ?_
    rw [hlog]
    rfl
  | error e =>
    refine herror e s' hbuffer ?_
    rw [hlog]
    rfl

theorem ensures_degrade {f : Unit → Service α}
    (h : ∀ s', s'.1.buffer.needsResync = true → failures s'.2 = failures s.2 →
      (f ()).Ensures (Recorded R) post s') :
    (degrade.bind f).Ensures (Recorded R) post s :=
  ensures_here fun _ s' hstep hmet => h s' (congrArg (·.2.needsResync) hstep).symm hmet

theorem ensures_call {c' : Command} {f : c'.Reply → Service c.Reply} {answer : StoreError → c.Reply}
    (hs : failures s.2 = []) (hok : ∀ a, ∃ x, f (.ok a) = .done x)
    (herror : ∀ e, f (.error e) = degrade.bind fun _ => .done (answer e))
    (hanswer : ∀ e, answer e = .error e ↔ c.handsOn e = true) :
    ((Buffer.remote c').bind f).Ensures (Recorded R) (Handles c) s := by
  refine ensures_remote (fun a s' _ hmet => ?_) fun e s' _ hmet => ?_
  · obtain ⟨x, hx⟩ := hok a
    rw [hx]
    exact handles_of_failures_nil (hmet.trans hs)
  · rw [herror]
    refine ensures_degrade fun s₂ hflag hmet₂ => ?_
    rw [hmet, hs] at hmet₂
    exact handles_of_failures_singleton hmet₂ (hanswer e) fun _ => hflag

theorem handles_set (key : String) (value : Octets) (hs : failures s.2 = []) :
    (set key value).Ensures (Recorded R) (Handles (.set key value)) s := by
  refine ensures_here fun _ s' _ hmet => ?_
  exact ensures_call (hmet.trans hs) (fun _ => ⟨_, rfl⟩) (fun _ => rfl) fun _ => ⟨nofun, nofun⟩

theorem handles_setIfAbsent (key : String) (value : Octets) (hs : failures s.2 = []) :
    (setIfAbsent key value).Ensures (Recorded R) (Handles (.setIfAbsent key value)) s := by
  refine ensures_remote (fun claim s₁ _ hmet => ?_) fun e s₁ _ hmet => ?_
  · rw [hs] at hmet
    cases claim with
    | existed => exact handles_of_failures_nil hmet
    | created => exact ensures_here fun _ s₂ _ hmet₂ => handles_of_failures_nil (hmet₂.trans hmet)
  · rw [hs] at hmet
    -- The claim is decided here instead, which leaves the flag as it is.
    refine ensures_degrade fun s₂ hflag hmet₂ => ensures_here fun held s₃ hstep hmet₃ => ?_
    have hmet₃ := hmet₃.trans (hmet₂.trans hmet)
    have hflag₃ := (step_within rfl hstep).flag.trans hflag
    cases held with
    | true => exact handles_of_failures_singleton hmet₃ ⟨nofun, nofun⟩ fun _ => hflag₃
    | false =>
      refine ensures_here fun _ s₄ hstep₄ hmet₄ => ?_
      have hflag₄ := (congrArg (·.2.needsResync) hstep₄).symm.trans hflag₃
      exact handles_of_failures_singleton (hmet₄.trans hmet₃) ⟨nofun, nofun⟩ fun _ => hflag₄

theorem handles_expire (key : String) (seconds : UInt64) (hs : failures s.2 = []) :
    (expire key seconds).Ensures (Recorded R) (Handles (.expire key seconds)) s :=
  ensures_call hs (fun _ => ⟨_, rfl⟩) (fun _ => rfl) fun _ => ⟨nofun, nofun⟩

theorem handles_get (key : String) (hs : failures s.2 = []) :
    (get key).Ensures (Recorded R) (Handles (.get key)) s := by
  refine ensures_here fun jobs s₁ _ hmet₁ => ensures_startAll jobs fun s₂ hmet₂ => ?_
  refine ensures_here fun held s₃ _ hmet₃ => ?_
  have hmet₃ := hmet₃.trans (hmet₂.trans (hmet₁.trans hs))
  cases held with
  | some value => exact handles_of_failures_nil hmet₃
  | none =>
    exact ensures_call hmet₃ (fun _ => ⟨_, rfl⟩) (fun _ => rfl) fun _ => iff_of_true rfl rfl

theorem handles_delete (key : String) (hs : failures s.2 = []) :
    (delete key).Ensures (Recorded R) (Handles (.delete key)) s := by
  refine ensures_here fun _ s' _ hmet => ?_
  exact ensures_call (hmet.trans hs) (fun _ => ⟨_, rfl⟩) (fun _ => rfl) fun _ => ⟨nofun, nofun⟩

theorem handles_existsKey (key : String) (hs : failures s.2 = []) :
    (existsKey key).Ensures (Recorded R) (Handles (.exists key)) s := by
  refine ensures_here fun held s₁ _ hmet₁ => ?_
  rw [hs] at hmet₁
  cases held with
  | true => exact handles_of_failures_nil hmet₁
  | false =>
    refine ensures_remote (fun a s₂ _ hmet₂ => handles_of_failures_nil (hmet₂.trans hmet₁)) ?_
    intro e s₂ _ hmet₂
    rw [hmet₁] at hmet₂
    exact handles_of_failures_singleton hmet₂ (iff_of_true rfl rfl) fun h => absurd rfl h

theorem handles_matching (pattern : String) (hs : failures s.2 = []) :
    (matching pattern).Ensures (Recorded R) (Handles (.keys pattern)) s := by
  refine ensures_remote (fun a s₁ _ hmet => handles_of_failures_nil (hmet.trans hs)) ?_
  intro e s₁ _ hmet
  rw [hs] at hmet
  -- The listing of this buffer takes its place, and complains of the pattern in its own name.
  refine ensures_degrade fun s₂ hflag hmet₂ => ensures_here fun x s₃ hstep hmet₃ => ?_
  have hflag₃ := (step_within rfl hstep).flag.trans hflag
  have hx : s₂.1.buffer.keys pattern = x := Option.some.inj (congrArg Prod.fst hstep)
  rw [← hx]
  exact handles_of_failures_singleton (hmet₃.trans (hmet₂.trans hmet)) keys_eq_error_iff
    fun _ => hflag₃

theorem handles_serve (c : Command) (hs : failures s.2 = []) :
    (Buffer.serve c).Ensures (Recorded R) (Handles c) s :=
  match c with
  | .set key value => handles_set key value hs
  | .setIfAbsent key value => handles_setIfAbsent key value hs
  | .expire key seconds => handles_expire key seconds hs
  | .get key => handles_get key hs
  | .delete key => handles_delete key hs
  | .exists key => handles_existsKey key hs
  | .keys pattern => handles_matching pattern hs

/-- An operation fails with an error of the remote store exactly if it is a look-up, or a listing
with that very complaint about its pattern; otherwise the error is passed over, and the flag
raised. -/
theorem remote_error_is_handed_on_iff {x : c.Reply}
    (hrun : (Buffer.serve c).Runs (Recorded R) (n, []) x (n', log)) (he : e ∈ failures log) :
    (x = .error e ↔ c.handsOn e = true) ∧ (x ≠ .error e → n'.buffer.needsResync = true) :=
  hrun.ensures (handles_serve c rfl) e he

def refusing : Moment → Script.Rules Command.Reply Remote.Pool :=
  fun _ _ p x p' => p' = p ∧ ∃ e, p.refusal? = some e ∧ x = .error e

theorem refusing_closed {now : Moment} {p : Remote.Pool} (hp : p.closed = true) :
    refusing now c p (.error (.pool "pool is closed")) p :=
  ⟨rfl, _, if_pos hp, rfl⟩

theorem lookup_reports_the_closed_pool :
    ∃ x n' log,
      (Buffer.serve (.get "k")).Runs (Recorded refusing)
        (⟨0, .new { ttl := .ofSeconds 60 } 0, ⟨.standalone, 0, true⟩⟩, []) x (n', log) ∧
      .pool "pool is closed" ∈ failures log ∧ x = .error (.pool "pool is closed") := by
  let b : Buffer := .new { ttl := .ofSeconds 60 } 0
  let start : Timed Remote.Pool := ⟨0, b, ⟨.standalone, 0, true⟩⟩
  let flagged : Timed Remote.Pool := ⟨0, { b with needsResync := true }, ⟨.standalone, 0, true⟩⟩
  have hjobs : Acts refusing (.here .schedule) start [] start := ⟨Nat.le_refl 0, rfl, rfl⟩
  have htouch : Acts refusing (.here (.touch "k")) start none start := ⟨Nat.le_refl 0, rfl, rfl⟩
  have hget : Acts refusing (.remote (.get "k")) start (.error (.pool "pool is closed")) start :=
    ⟨Nat.le_refl 0, refusing_closed rfl, rfl⟩
  have hflag : Acts refusing (.here (.flag true)) start () flagged := ⟨Nat.le_refl 0, rfl, rfl⟩
  let log : Log Remote.Pool := [⟨.here (.flag true), (), flagged⟩,
    ⟨.remote (.get "k"), .error (.pool "pool is closed"), start⟩, ⟨.here (.touch "k"), none, start⟩,
    ⟨.here .schedule, [], start⟩]
  have hrun : (Buffer.serve (.get "k")).Runs (Recorded refusing) (start, [])
      (.error (.pool "pool is closed")) (flagged, log) :=
    Script.runs_logged_ask hjobs (Script.runs_logged_ask htouch
      (Script.runs_logged_ask hget (Script.runs_logged_ask hflag (.done _ _))))
  have hmet : .pool "pool is closed" ∈ failures log := List.mem_singleton_self _
  exact ⟨_, flagged, log, hrun, hmet, (remote_error_is_handed_on_iff hrun hmet).1.2 rfl⟩

/-- A write at a closed pool is said to have been done.  No other attempt will mend that. -/
theorem closed_pool_goes_unreported :
    ∃ n' log,
      (Buffer.serve (.set "k" [118])).Runs (Recorded refusing)
        (⟨0, .new { ttl := .ofSeconds 60 } 0, ⟨.standalone, 0, true⟩⟩, []) (.ok ()) (n', log) ∧
      .pool "pool is closed" ∈ failures log ∧
      (StoreError.pool "pool is closed").isTransient = false := by
  let b : Buffer := .new { ttl := .ofSeconds 60 } 0
  let start : Timed Remote.Pool := ⟨0, b, ⟨.standalone, 0, true⟩⟩
  let held : Timed Remote.Pool := ⟨0, b.put 0 "k" [118], ⟨.standalone, 0, true⟩⟩
  let flagged : Timed Remote.Pool :=
    ⟨0, { b.put 0 "k" [118] with needsResync := true }, ⟨.standalone, 0, true⟩⟩
  have hput : Acts refusing (.here (.put "k" [118])) start () held := ⟨Nat.le_refl 0, rfl, rfl⟩
  have hset : Acts refusing (.remote (.set "k" [118])) held (.error (.pool "pool is closed"))
      held := ⟨Nat.le_refl 0, refusing_closed rfl, rfl⟩
  have hflag : Acts refusing (.here (.flag true)) held () flagged := ⟨Nat.le_refl 0, rfl, rfl⟩
  exact ⟨flagged, _, Script.runs_logged_ask hput (Script.runs_logged_ask hset
    (Script.runs_logged_ask hflag (.done _ _))), List.mem_singleton_self _, rfl⟩

end Timed

end Buffer

end SessionVault
