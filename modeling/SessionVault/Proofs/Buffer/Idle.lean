import SessionVault.Proofs.Buffer.Timed
import SessionVault.Proofs.Store.Lapse

namespace SessionVault.Buffer.Timed

variable {ρ : Type} {R : Moment → Script.Rules Command.Reply ρ} {key : String}

def use? (key : String) : Event ρ → Option Entry
  | ⟨.here (.put other value), _, n⟩ => if other = key then some ⟨value, n.now⟩ else none
  | ⟨.here (.touch other), some value, n⟩ => if other = key then some ⟨value, n.now⟩ else none
  | _ => none

def drops (key : String) : Event ρ → Bool
  | ⟨.here (.drop other), _, _⟩ => other = key
  | _ => false

theorem drops_of_use {e : Event ρ} {entry : Entry} (h : use? key e = some entry) :
    drops key e = false := by
  match e with
  | ⟨.here (.drop _), _, _⟩ => cases h
  | ⟨.remote _, _, _⟩ | ⟨.start _, _, _⟩ | ⟨.here (.put _ _), _, _⟩ | ⟨.here (.touch _), _, _⟩
  | ⟨.here (.value _), _, _⟩ | ⟨.here (.contains _), _, _⟩ | ⟨.here (.matching _), _, _⟩
  | ⟨.here .names, _, _⟩ | ⟨.here (.flag _), _, _⟩ | ⟨.here .evict, _, _⟩
  | ⟨.here .schedule, _, _⟩ => rfl

def idleTime (c : BufferConfig) : Nat := c.ttl.nanoseconds + c.grace.nanoseconds

/-- Whether an event leaves an entry alone that it does not use.  Only a sweep may find it idle for
too long. -/
def spares (c : BufferConfig) (entry : Entry) : Event ρ → Bool
  | ⟨.here .evict, _, n⟩ => n.now - entry.accessed ≤ idleTime c
  | _ => true

theorem limit_eq {c : BufferConfig} {limit : Duration} (h : idleLimit? c = some limit) :
    limit.nanoseconds = idleTime c :=
  Duration.nanoseconds_add? h

theorem config_step {s : Step} {now : Moment} {b b' : Buffer} {x : s.Answer}
    (h : step now s b = (some x, b')) : b'.config = b.config := by
  cases s with
  | touch name =>
    rw [step_touch] at h
    cases h
    rw [touch]
    split <;> rfl
  | evict =>
    simp only [step] at h
    split at h
    · cases h
    · cases h
      rfl
  | put | value | contains | drop | matching | names | flag | schedule =>
    cases h
    rfl

theorem get?_put (b : Buffer) (now : Moment) (name key : String) (value : Octets) :
    (b.put now name value).entries.get? key =
      (if name = key then some ⟨value, now⟩ else none).or (b.entries.get? key) := by
  refine (Table.get?_insert ..).trans ?_
  split <;> rfl

theorem get?_touch (b : Buffer) (now : Moment) (name key : String) :
    (b.touch now name).2.entries.get? key =
      ((b.value? name).bind fun value => if name = key then some ⟨value, now⟩ else none).or
        (b.entries.get? key) := by
  rw [touch, Buffer.value?]
  cases b.entries.get? name with
  | none => rfl
  | some e => exact get?_put b now name key e.value

theorem filter_eq_self {α : Type} {p : α → Bool} (h : ∀ a, p a = true) (o : Option α) :
    o.filter p = o := by
  cases o with
  | none => rfl
  | some a => rw [Option.filter, if_pos (h a)]

variable {n n' : Timed ρ} {r : Act} {x : r.Answer} {entry : Entry}

theorem Acts.get? (h : Acts R r n x n') (hdrop : drops key ⟨r, x, n'⟩ = false) :
    n'.buffer.entries.get? key = (use? key ⟨r, x, n'⟩).or
      ((n.buffer.entries.get? key).filter (spares n.buffer.config · ⟨r, x, n'⟩)) := by
  have hsame (hspares : ∀ entry, spares n.buffer.config entry ⟨r, x, n'⟩ = true) :
      (n.buffer.entries.get? key).filter (spares n.buffer.config · ⟨r, x, n'⟩) =
        n.buffer.entries.get? key := filter_eq_self hspares _
  cases r with
  | start job =>
    obtain rfl : n' = n := h
    exact (hsame fun _ => rfl).symm
  | remote c => exact (congrArg (·.entries.get? key) h.2.2).trans (hsame fun _ => rfl).symm
  | here s =>
    have hstep := h.2.1
    cases s with
    | put name value =>
      rw [hsame fun _ => rfl, ← (Prod.mk.inj hstep).2]
      exact get?_put ..
    | touch name =>
      rw [step_touch] at hstep
      obtain ⟨hx, hbuffer⟩ := Prod.mk.inj hstep
      rw [hsame fun _ => rfl, ← hbuffer, get?_touch, Option.some.inj hx]
      cases x <;> rfl
    | evict =>
      simp only [step] at hstep
      split at hstep
      · cases hstep
      · next limit hlimit =>
        rw [← (Prod.mk.inj hstep).2]
        simp only [evict, Table.get?_filter, spares, limit_eq hlimit]
        rfl
    | drop name =>
      have hk : ¬ key = name := fun hk => of_decide_eq_false hdrop hk.symm
      rw [hsame fun _ => rfl, ← (Prod.mk.inj hstep).2]
      exact (Table.get?_erase ..).trans (if_neg hk)
    | value | contains | matching | names | flag | schedule =>
      rw [hsame fun _ => rfl, ← (Prod.mk.inj hstep).2]
      rfl

theorem Acts.config (h : Acts R r n x n') : n'.buffer.config = n.buffer.config := by
  cases r with
  | start job => rw [show n' = n from h]
  | remote c => rw [h.2.2]
  | here s => exact config_step h.2.1

variable {start : Timed ρ} {s s' : Timed ρ × Log ρ} {use : Event ρ} {later earlier : Log ρ}

theorem Course.config (h : Course R (start, []) s) : s.1.buffer.config = start.buffer.config := by
  induction h with
  | start => rfl
  | act _ hx ih => exact hx.1.config.trans ih
  | ended job _ ih => cases job <;> exact ih

theorem Course.get?_idle (h : Course R (start, []) s) (hlog : s.2 = later ++ use :: earlier)
    (huse : use? key use = some entry)
    (hidle : ∀ e ∈ later, use? key e = none ∧ drops key e = false) :
    s.1.buffer.entries.get? key =
      if later.all (spares start.buffer.config entry) then some entry else none := by
  induction h generalizing later with
  | start => exact absurd hlog (by simp)
  | ended job _ ih => cases job <;> exact ih hlog hidle
  | @act s s' r x hs hx ih =>
    obtain ⟨hx, hevent⟩ := hx
    rw [hevent] at hlog
    cases later with
    | nil =>
      obtain ⟨rfl, -⟩ := List.cons.inj hlog
      rw [hx.get? (drops_of_use huse), huse]
      rfl
    | cons e later =>
      obtain ⟨rfl, hrest⟩ := List.cons.inj hlog
      obtain ⟨hnone, hdrop⟩ := hidle _ List.mem_cons_self
      rw [hx.get? hdrop, hnone, ih hrest fun e he => hidle e (List.mem_cons_of_mem _ he), hs.config,
        Option.none_or, List.all_cons]
      cases later.all (spares start.buffer.config entry) with
      | true => rw [Bool.and_true, if_pos rfl, Option.filter]
      | false => rw [Bool.and_false]; rfl

/-- Nobody but this node has been asked. -/
def Local (log : Log ρ) : Prop := ∀ e ∈ log, ∀ c, e.request ≠ .remote c

def quiet : Act → Bool
  | .here .schedule | .start _ => true
  | _ => false

structure Untouched (key : String) (held : Option Entry) (s : Timed ρ × Log ρ) : Prop where
  here : Local s.2
  entry : s.1.buffer.entries.get? key = held

theorem Local.cons {e : Event ρ} {log : Log ρ} (he : ∀ c, e.request ≠ .remote c) (h : Local log) :
    Local (e :: log) :=
  List.forall_mem_cons.2 ⟨he, h⟩

variable {held : Option Entry}

theorem Untouched.quiet (hr : Timed.quiet r = true) (hx : Recorded R r s x s')
    (hs : Untouched key held s) : Untouched key held s' := by
  obtain ⟨hx, hlog⟩ := hx
  match r, x with
  | .start job, _ =>
    have hsame : s'.1 = s.1 := hx
    refine ⟨hlog ▸ hs.here.cons nofun, ?_⟩
    rw [hsame]
    exact hs.entry
  | .here .schedule, jobs =>
    have hentries : s'.1.buffer.entries = s.1.buffer.entries :=
      congrArg (·.entries) (Prod.mk.inj hx.2.1).2.symm
    refine ⟨hlog ▸ hs.here.cons nofun, ?_⟩
    rw [hentries]
    exact hs.entry

theorem Untouched.startAll (jobs : List Job) (hs : Untouched key held s) :
    (Buffer.startAll jobs).Ensures (Recorded R) (fun _ => Untouched key held) s := by
  induction jobs generalizing s with
  | nil => exact hs
  | cons job rest ih => exact fun _ _ hx => ih (hs.quiet rfl hx)

theorem Untouched.get (hs : Untouched key held s) :
    (Buffer.serve (.get key)).Ensures (Recorded R)
      (fun x s' => (∀ entry, held = some entry → x = .ok (some entry.value) ∧ Local s'.2) ∧
        (held = none → ¬ Local s'.2)) s := by
  intro jobs s₁ hschedule
  simp only [Script.done_bind, Script.bind_eq]
  refine Script.ensures_bind.2 (((hs.quiet rfl hschedule).startAll jobs).mono fun _ s₂ hs₂ => ?_)
  intro value s₃ ⟨hx, hlog⟩
  have hvalue : value = held.map (·.value) := by
    have hstep := hx.2.1
    rw [step_touch] at hstep
    rw [← hs₂.entry]
    exact (Option.some.inj (Prod.mk.inj hstep).1).symm
  have hlocal : Local s₃.2 := hlog ▸ hs₂.here.cons nofun
  cases held with
  | some entry =>
    subst hvalue
    refine ⟨fun _ he => ?_, nofun⟩
    cases he
    exact ⟨rfl, hlocal⟩
  | none =>
    subst hvalue
    intro x s₄ ⟨_, hlog⟩
    have hasked : ⟨.remote (.get key), x, s₄.1⟩ ∈ s₄.2 := hlog ▸ List.mem_cons_self
    cases x with
    | ok value => exact ⟨nofun, fun _ h => h _ hasked _ rfl⟩
    | error e =>
      intro _ s₅ ⟨_, hlog⟩
      have hasked' := List.mem_cons_of_mem ⟨.here (.flag true), (), s₅.1⟩ hasked
      exact ⟨nofun, fun _ h => h _ (hlog ▸ hasked') _ rfl⟩

theorem spares_iff (c : BufferConfig) (entry : Entry) (e : Event ρ) :
    spares c entry e = true ↔
      (e.request = .here .evict → e.state.now - entry.accessed ≤ idleTime c) := by
  match e with
  | ⟨.here .evict, _, n⟩ => simp [spares]
  | ⟨.remote _, _, _⟩ | ⟨.start _, _, _⟩ | ⟨.here (.put _ _), _, _⟩ | ⟨.here (.touch _), _, _⟩
  | ⟨.here (.value _), _, _⟩ | ⟨.here (.contains _), _, _⟩ | ⟨.here (.drop _), _, _⟩
  | ⟨.here (.matching _), _, _⟩ | ⟨.here .names, _, _⟩ | ⟨.here (.flag _), _, _⟩
  | ⟨.here .schedule, _, _⟩ => simp [spares]

/-- Since its last use an entry is served, and nobody else is asked, exactly as long as no sweep has
found it idle for longer than the time to live and the grace. -/
theorem idle_entry_is_served_iff (h : Course R (start, []) (n, later ++ use :: earlier))
    (huse : use? key use = some entry)
    (hidle : ∀ e ∈ later, use? key e = none ∧ drops key e = false)
    {x : Except StoreError (Option Octets)} {looks : Log ρ}
    (hget : (Buffer.serve (.get key)).Runs (Recorded R) (n, []) x (n', looks)) :
    (Local looks ↔ ∀ e ∈ later, e.request = .here .evict →
        e.state.now - entry.accessed ≤ idleTime start.buffer.config) ∧
      (Local looks → x = .ok (some entry.value)) := by
  have hstart : Untouched key _ (n, ([] : Log ρ)) := ⟨fun _ he => absurd he List.not_mem_nil, rfl⟩
  obtain ⟨hserved, hmissed⟩ := hget.ensures hstart.get
  have hentry := h.get?_idle rfl huse hidle
  have hspared : later.all (spares start.buffer.config entry) = true ↔
      ∀ e ∈ later, e.request = .here .evict →
        e.state.now - entry.accessed ≤ idleTime start.buffer.config := by
    simp only [List.all_eq_true, spares_iff]
  rw [← hspared]
  cases hall : later.all (spares start.buffer.config entry) with
  | true =>
    obtain ⟨hx, hlocal⟩ := hserved entry (hentry.trans (if_pos hall))
    exact ⟨⟨fun _ => rfl, fun _ => hlocal⟩, fun _ => hx⟩
  | false =>
    have hnone := hmissed (hentry.trans (if_neg (Bool.eq_false_iff.1 hall)))
    exact ⟨⟨fun h => absurd h hnone, nofun⟩, fun h => absurd h hnone⟩

def writer : Timed Memory :=
  ⟨0, .put (.new { ttl := .ofSeconds 60 } 0) 0 "a" [1], .put .empty "a" [1]⟩

def firstUse : Event Memory := ⟨.here (.put "a" [1]), (), { writer with remote := .empty }⟩

def writerLog : Log Memory := [⟨.remote (.set "a" [1]), .ok (), writer⟩, firstUse]

theorem course_writer :
    Course Memory.Serves (⟨0, .new { ttl := .ofSeconds 60 } 0, .empty⟩, [])
      (writer, writerLog) := by
  have hput : Acts Memory.Serves (.here (.put "a" [1]))
      ⟨0, .new { ttl := .ofSeconds 60 } 0, .empty⟩ () firstUse.state := ⟨Nat.le_refl 0, rfl, rfl⟩
  have hstore : Acts Memory.Serves (.remote (.set "a" [1])) firstUse.state (.ok ()) writer :=
    ⟨Nat.le_refl 0, .inl rfl, rfl⟩
  have hset : (serve (.set "a" [1])).Runs (Recorded Memory.Serves) (_, []) (.ok ())
      (writer, writerLog) :=
    Script.runs_logged_ask hput (Script.runs_logged_ask hstore (.done _ _))
  exact Course.start.runs hset

theorem swept_entry_is_missed :
    ∃ n n' log looks,
      Course Memory.Serves (⟨0, .new { ttl := .ofSeconds 60 } 0, .empty⟩, [])
        (n, log ++ [firstUse]) ∧
      use? "a" firstUse = some ⟨[1], 0⟩ ∧
      (∀ e ∈ log, use? "a" e = none ∧ drops "a" e = false) ∧
      (Buffer.serve (.get "a")).Runs (Recorded Memory.Serves) (n, []) (.error .interrupted)
        (n', looks) ∧ ¬ Local looks := by
  let swept : Timed Memory := ⟨120 * second + 1, .new { ttl := .ofSeconds 60 } 0, writer.remote⟩
  let missed : Timed Memory := { swept with buffer := { swept.buffer with needsResync := true } }
  let sweep : Event Memory := ⟨.here .evict, 1, swept⟩
  have hevict : Acts Memory.Serves (.here .evict) writer 1 swept :=
    ⟨Nat.zero_le _, by decide +kernel, rfl⟩
  have hsweep : Buffer.sweep.Runs (Recorded Memory.Serves) (writer, writerLog) 1
      (swept, sweep :: writerLog) := Script.runs_logged_ask hevict (.done _ _)
  have hcourse : Course Memory.Serves _
      (swept, [sweep, ⟨.remote (.set "a" [1]), .ok (), writer⟩] ++ [firstUse]) :=
    course_writer.runs hsweep
  have hschedule : Acts Memory.Serves (.here .schedule) swept [] swept :=
    ⟨Nat.le_refl _, by decide +kernel, rfl⟩
  have htouch : Acts Memory.Serves (.here (.touch "a")) swept none swept :=
    ⟨Nat.le_refl _, rfl, rfl⟩
  have hfail : Acts Memory.Serves (.remote (.get "a")) swept (.error .interrupted) swept :=
    ⟨Nat.le_refl _, .inr ⟨⟨_, rfl⟩, rfl⟩, rfl⟩
  have hflag : Acts Memory.Serves (.here (.flag true)) swept () missed :=
    ⟨Nat.le_refl _, rfl, rfl⟩
  obtain ⟨looks, hget⟩ : ∃ looks, (Buffer.serve (.get "a")).Runs (Recorded Memory.Serves)
      (swept, []) (.error .interrupted) (missed, looks) := by
    apply Exists.intro
    refine Script.runs_logged_ask hschedule (Script.runs_logged_ask htouch ?_)
    exact Script.runs_logged_ask hfail (Script.runs_logged_ask hflag (.done _ _))
  have hidle : ∀ e ∈ [sweep, ⟨.remote (.set "a" [1]), .ok (), writer⟩],
      use? "a" e = none ∧ drops "a" e = false := by
    simp [sweep, use?, drops]
  obtain ⟨hiff, -⟩ := idle_entry_is_served_iff hcourse rfl hidle hget
  refine ⟨swept, missed, _, looks, hcourse, rfl, hidle, hget, fun hlocal => ?_⟩
  exact absurd (hiff.1 hlocal sweep List.mem_cons_self rfl) (by decide +kernel)

/-- Two hours after its last use an entry is served that may be idle for two minutes, and the sweep
that is started by this very read finds it in use. -/
theorem long_idle_entry_is_served :
    ∃ n n' looks log,
      Course Memory.Serves (⟨0, .new { ttl := .ofSeconds 60 } 0, .empty⟩, []) (writer, writerLog) ∧
      (Buffer.serve (.get "a")).Runs (Recorded Memory.Serves) (writer, []) (.ok (some [1]))
        (n, looks) ∧
      Local looks ∧ (∀ e ∈ looks, idleTime writer.buffer.config < e.state.now - writer.now) ∧
      Buffer.sweep.Runs (Recorded Memory.Serves) (n, looks) 0 (n', log) := by
  let due : Timed Memory :=
    ⟨7200000000000, { writer.buffer with expiry := ⟨7200000000000, true⟩ }, writer.remote⟩
  let used : Timed Memory := { due with buffer := due.buffer.put 7200000000000 "a" [1] }
  have hschedule : Acts Memory.Serves (.here .schedule) writer [.expiry] due :=
    ⟨Nat.zero_le _, by decide +kernel, rfl⟩
  have hstart : Acts Memory.Serves (.start .expiry) due () due := rfl
  have htouch : Acts Memory.Serves (.here (.touch "a")) due (some [1]) used :=
    ⟨Nat.le_refl _, by decide +kernel, rfl⟩
  have hevict : Acts Memory.Serves (.here .evict) used 0 used :=
    ⟨Nat.le_refl _, by decide +kernel, rfl⟩
  have hget : (Buffer.serve (.get "a")).Runs (Recorded Memory.Serves) (writer, [])
      (.ok (some [1])) (used, [⟨.here (.touch "a"), some [1], used⟩, ⟨.start .expiry, (), due⟩,
        ⟨.here .schedule, [.expiry], due⟩]) := by
    refine Script.runs_logged_ask hschedule (Script.runs_logged_ask hstart ?_)
    exact Script.runs_logged_ask htouch (.done _ _)
  refine ⟨used, used, _, _, course_writer, hget, ?_, ?_, Script.runs_logged_ask hevict (.done _ _)⟩
  · simp [Local]
  · simp only [List.forall_mem_cons]
    decide +kernel

end SessionVault.Buffer.Timed
