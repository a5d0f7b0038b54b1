import Mathlib.Data.List.Chain
import SessionVault.Proofs.Buffer.Idle

/-!
When the maintenance jobs of a buffer are started.  A read looks at the clocks first, and starts
what is due at that moment; jobs end in any order, at any time, and in any way.
-/

namespace SessionVault.Buffer

def clock (b : Buffer) : Job → JobClock
  | .resync => b.resync
  | .expiry => b.expiry

def period (c : BufferConfig) : Job → Duration
  | .resync => c.resyncInterval
  | .expiry => c.expiryInterval

def interval (c : BufferConfig) (j : Job) : Nat := (period c j).nanoseconds

def wants (b : Buffer) : Job → Bool
  | .resync => b.needsResync
  | .expiry => true

def due (b : Buffer) (now : Moment) (j : Job) : Bool :=
  b.wants j && (b.clock j).isDue now (period b.config j)

theorem due_iff {b : Buffer} {now : Moment} {j : Job} :
    b.due now j = true ↔ b.wants j = true ∧ (b.clock j).running = false ∧
      interval b.config j ≤ now - (b.clock j).last := by
  simp [due, JobClock.isDue, interval]

theorem schedule_eq (b : Buffer) (now : Moment) :
    (b.schedule now).1 = [Job.resync, .expiry].filter (b.due now) := by
  have hresync : (b.needsResync && b.resync.isDue now b.config.resyncInterval) =
      b.due now .resync := rfl
  have hexpiry : b.expiry.isDue now b.config.expiryInterval = b.due now .expiry := rfl
  simp only [schedule, hresync, hexpiry, List.filter]
  cases b.due now .resync <;> cases b.due now .expiry <;> rfl

theorem clock_schedule (b : Buffer) (now : Moment) (j : Job) :
    (b.schedule now).2.clock j = if b.due now j then ⟨now, true⟩ else b.clock j := by
  cases j <;> rfl

theorem mem_schedule {b : Buffer} {now : Moment} {j : Job} :
    j ∈ (b.schedule now).1 ↔ b.due now j = true := by
  rw [schedule_eq, List.mem_filter, and_iff_right]
  cases j <;> simp

theorem count_schedule (b : Buffer) (now : Moment) (j : Job) :
    (b.schedule now).1.count j = (b.due now j).toNat := by
  cases h : b.due now j with
  | true =>
    rw [schedule_eq, List.count_filter h]
    cases j <;> rfl
  | false =>
    refine List.count_eq_zero.2 ?_
    rw [mem_schedule, h]
    exact Bool.false_ne_true

theorem clock_finish (b : Buffer) (j k : Job) :
    (b.finish j).clock k = { b.clock k with running := k ≠ j && (b.clock k).running } := by
  cases j <;> cases k <;> rfl

theorem clock_step {s : Step} {now : Moment} {b b' : Buffer} {x : s.Answer}
    (h : step now s b = (some x, b')) (hs : s ≠ .schedule) (j : Job) :
    b'.clock j = b.clock j := by
  cases s with
  | schedule => exact absurd rfl hs
  | touch name =>
    rw [step_touch] at h
    cases h
    rw [touch]
    split <;> cases j <;> rfl
  | evict =>
    simp only [step] at h
    split at h
    · cases h
    · cases h
      cases j <;> rfl
  | put | value | contains | drop | matching | names | flag =>
    cases h
    cases j <;> rfl

theorem Timed.Acts.now_le {ρ : Type} {R : Moment → Script.Rules Command.Reply ρ} {r : Act}
    {x : r.Answer} {n n' : Timed ρ} (h : Acts R r n x n') : n.now ≤ n'.now := by
  cases r with
  | here | remote => exact h.1
  | start => rw [show n' = n from h]

def tend : Service Unit := do
  startAll (← here .schedule)

structure Attended (ρ : Type) where
  node : Timed ρ
  starts : List (Job × Timed ρ)
  running : List Job

namespace Attended

variable {ρ : Type}

def begin (s : Attended ρ) (jobs : List Job) : Attended ρ :=
  ⟨s.node, jobs.map (·, s.node) ++ s.starts, jobs ++ s.running⟩

def note (s : Attended ρ) (r : Act) (n : Timed ρ) : Attended ρ :=
  match r with
  | .start j => { s with node := n }.begin [j]
  | _ => { s with node := n }

def Attends (R : Moment → Script.Rules Command.Reply ρ) :
    Script.Rules Act.Answer (Attended ρ) :=
  fun r s x s' => Timed.Acts R r s.node x s'.node ∧ s' = s.note r s'.node

def ended (s : Attended ρ) (j : Job) : Attended ρ :=
  { s with
    node := { s.node with buffer := s.node.buffer.finish j }
    running := s.running.erase j }

/-- Reads begin, jobs end, and anything else is done in between, by reads and jobs as well. -/
inductive Tended (R : Moment → Script.Rules Command.Reply ρ) (start : Attended ρ) :
    Attended ρ → Prop where
  | start : Tended R start start
  | read {s s' : Attended ρ} :
      Tended R start s → tend.Runs (Attends R) s () s' → Tended R start s'
  | act {s s' : Attended ρ} {r : Act} {x : r.Answer} :
      Tended R start s → Timed.quiet r = false → Attends R r s x s' → Tended R start s'
  | ended {s : Attended ρ} (j : Job) :
      Tended R start s → j ∈ s.running → Tended R start (s.ended j)

/-- When a job was started, the latest moment first; a clock that has just been made counts as a
start. -/
def moments (s : Attended ρ) (made : Moment) (j : Job) : List Moment :=
  (s.starts.filter (·.1 = j)).map (·.2.now) ++ [made]

variable {R : Moment → Script.Rules Command.Reply ρ} {s s' : Attended ρ} {made : Moment}

theorem begin_begin (s : Attended ρ) (jobs later : List Job) :
    (s.begin jobs).begin later = s.begin (later ++ jobs) := by
  simp [begin]

theorem attends_start_iff {j : Job} {x : Unit} :
    Attends R (.start j) s x s' ↔ s' = s.begin [j] := by
  constructor
  · rintro ⟨hnode : s'.node = s.node, hs'⟩
    rw [hs', hnode]
    rfl
  · rintro rfl
    exact ⟨rfl, rfl⟩

theorem runs_startAll_iff {jobs : List Job} :
    (startAll jobs).Runs (Attends R) s () s' ↔ s' = s.begin jobs.reverse := by
  induction jobs generalizing s with
  | nil =>
    constructor
    · rintro ⟨⟩
      rfl
    · rintro rfl
      exact .done _ _
  | cons j rest ih =>
    rw [List.reverse_cons, ← begin_begin, ← ih]
    constructor
    · intro hrun
      cases hrun with
      | ask hx hrest => exact attends_start_iff.1 hx ▸ hrest
    · exact fun hrest => .ask (attends_start_iff (x := ()).2 rfl) hrest

def scheduled (s : Attended ρ) (now : Moment) : Attended ρ :=
  { s with node := ⟨now, (s.node.buffer.schedule now).2, s.node.remote⟩ }

theorem attends_schedule_iff {jobs : List Job} :
    Attends R (.here .schedule) s jobs s' ↔ ∃ t, s.node.now ≤ t ∧
      jobs = (s.node.buffer.schedule t).1 ∧ s' = s.scheduled t := by
  constructor
  · rintro ⟨⟨hnow, hstep, hremote⟩, hs'⟩
    have hbuffer : (s.node.buffer.schedule s'.node.now).2 = s'.node.buffer :=
      (Prod.mk.inj hstep).2
    refine ⟨s'.node.now, hnow, (Option.some.inj (Prod.mk.inj hstep).1).symm, hs'.trans ?_⟩
    rw [scheduled, hbuffer, ← hremote]
    rfl
  · rintro ⟨t, hnow, rfl, rfl⟩
    exact ⟨⟨hnow, rfl, rfl⟩, rfl⟩

def tended (s : Attended ρ) (now : Moment) : Attended ρ :=
  (s.scheduled now).begin (s.node.buffer.schedule now).1.reverse

theorem runs_tend_iff :
    tend.Runs (Attends R) s () s' ↔ ∃ t, s.node.now ≤ t ∧ s' = s.tended t := by
  constructor
  · intro hrun
    cases hrun with
    | ask hx hrest =>
      obtain ⟨t, hnow, rfl, rfl⟩ := attends_schedule_iff.1 hx
      exact ⟨t, hnow, runs_startAll_iff.1 hrest⟩
  · rintro ⟨t, hnow, rfl⟩
    have hx : Attends R (.here .schedule) s (s.node.buffer.schedule t).1 (s.scheduled t) :=
      attends_schedule_iff.2 ⟨t, hnow, rfl, rfl⟩
    exact .ask hx (runs_startAll_iff.2 rfl)

theorem Attends.other {r : Act} {x : r.Answer} (h : Attends R r s x s')
    (hr : Timed.quiet r = false) :
    s'.starts = s.starts ∧ s'.running = s.running ∧
      ∀ j, s'.node.buffer.clock j = s.node.buffer.clock j := by
  obtain ⟨hacts, hs'⟩ := h
  cases r with
  | start j => cases hr
  | remote c =>
    rw [hs']
    exact ⟨rfl, rfl, fun j => congrArg (·.clock j) hacts.2.2⟩
  | here t =>
    have hne : t ≠ .schedule := by
      rintro rfl
      cases hr
    rw [hs']
    exact ⟨rfl, rfl, clock_step hacts.2.1 hne⟩

theorem count_tended (s : Attended ρ) (now : Moment) (j : Job) :
    (s.tended now).running.count j = (s.node.buffer.due now j).toNat + s.running.count j := by
  rw [tended, begin, List.count_append, List.count_reverse, count_schedule]
  rfl

theorem moments_begin (s : Attended ρ) (jobs : List Job) (made : Moment) (j : Job) :
    (s.begin jobs).moments made j =
      List.replicate (jobs.count j) s.node.now ++ s.moments made j := by
  have hjobs : ((jobs.map (·, s.node)).filter (·.1 = j)).map (·.2.now) =
      List.replicate (jobs.count j) s.node.now := by
    have hfilter : jobs.filter ((·.1 = j) ∘ (·, s.node)) = List.replicate (jobs.count j) j :=
      List.filter_eq j
    rw [List.filter_map, List.map_map, hfilter, List.map_replicate]
    rfl
  rw [moments, begin, List.filter_append, List.map_append, hjobs, List.append_assoc]
  rfl

theorem moments_tended (s : Attended ρ) (now made : Moment) (j : Job) :
    (s.tended now).moments made j =
      List.replicate (s.node.buffer.due now j).toNat now ++ s.moments made j := by
  rw [tended, moments_begin, List.count_reverse, count_schedule]
  rfl

structure Tallied (c : BufferConfig) (made : Moment) (s : Attended ρ) (j : Job) : Prop where
  running : s.running.count j = (s.node.buffer.clock j).running.toNat
  last : (s.moments made j).head? = some (s.node.buffer.clock j).last
  past : (s.node.buffer.clock j).last ≤ s.node.now
  spaced : (s.moments made j).IsChain fun later earlier => earlier + interval c j ≤ later

variable {c : BufferConfig} {j : Job}

theorem tallied_new {start : Timed ρ} (hstart : start.buffer = .new c start.now) :
    Tallied c start.now ⟨start, [], []⟩ j := by
  have hclock : start.buffer.clock j = ⟨start.now, false⟩ := by
    rw [hstart]
    cases j <;> rfl
  constructor
  · rw [hclock]
    rfl
  · rw [hclock]
    rfl
  · rw [hclock]
  · exact .singleton _

theorem Tallied.tended (h : Tallied c made s j) (hc : s.node.buffer.config = c) {now : Moment}
    (hnow : s.node.now ≤ now) : Tallied c made (s.tended now) j := by
  have hclock : (s.tended now).node.buffer.clock j = _ := clock_schedule s.node.buffer now j
  have hcount := count_tended s now j
  have hmoments := s.moments_tended now made j
  cases hdue : s.node.buffer.due now j with
  | false =>
    have hclock : (s.tended now).node.buffer.clock j = s.node.buffer.clock j := by
      rw [hclock, hdue, if_neg Bool.false_ne_true]
    rw [hdue, Bool.toNat_false, Nat.zero_add] at hcount
    rw [hdue, Bool.toNat_false, List.replicate_zero, List.nil_append] at hmoments
    constructor
    · rw [hcount, hclock]
      exact h.running
    · rw [hmoments, hclock]
      exact h.last
    · rw [hclock]
      exact h.past.trans hnow
    · rw [hmoments]
      exact h.spaced
  | true =>
    obtain ⟨-, hidle, hinterval⟩ := due_iff.1 hdue
    have hclock : (s.tended now).node.buffer.clock j = ⟨now, true⟩ := by
      rw [hclock, hdue, if_pos rfl]
    have hspaced : ∀ earlier ∈ (s.moments made j).head?, earlier + interval c j ≤ now := by
      rw [h.last, ← hc]
      rintro earlier ⟨⟩
      exact Nat.add_le_of_le_sub' (h.past.trans hnow) hinterval
    rw [hdue, h.running, hidle] at hcount
    rw [hdue, Bool.toNat_true, List.replicate_one] at hmoments
    constructor
    · rw [hcount, hclock]
      rfl
    · rw [hmoments, hclock]
      rfl
    · rw [hclock]
      rfl
    · rw [hmoments]
      exact List.isChain_cons.2 ⟨hspaced, h.spaced⟩

theorem Tallied.other {r : Act} {x : r.Answer} (h : Tallied c made s j) (hr : Timed.quiet r = false)
    (hx : Attends R r s x s') : Tallied c made s' j := by
  obtain ⟨hstarts, hrunning, hclock⟩ := hx.other hr
  have hmoments : s'.moments made j = s.moments made j := by rw [moments, hstarts, moments]
  constructor
  · rw [hrunning, hclock]
    exact h.running
  · rw [hmoments, hclock]
    exact h.last
  · rw [hclock]
    exact h.past.trans hx.1.now_le
  · rw [hmoments]
    exact h.spaced

theorem Tallied.ended (h : Tallied c made s j) {k : Job} (hk : k ∈ s.running) :
    Tallied c made (s.ended k) j := by
  have hclock : (s.ended k).node.buffer.clock j = _ := clock_finish s.node.buffer k j
  constructor
  · rw [hclock]
    show (s.running.erase k).count j = _
    by_cases hj : j = k
    · subst hj
      have hone : s.running.count j ≤ 1 := h.running ▸ Bool.toNat_le _
      have hpos : 0 < s.running.count j := List.count_pos_iff.2 hk
      rw [List.count_erase_self, decide_eq_false (not_not.2 rfl), Bool.false_and, Bool.toNat_false]
      omega
    · rw [List.count_erase_of_ne hj, decide_eq_true hj, Bool.true_and]
      exact h.running
  · rw [hclock]
    exact h.last
  · rw [hclock]
    exact h.past
  · exact h.spaced

structure Kept (c : BufferConfig) (made : Moment) (s : Attended ρ) : Prop where
  config : s.node.buffer.config = c
  tallied (j : Job) : Tallied c made s j
  wanted (n : Timed ρ) : (.resync, n) ∈ s.starts → n.buffer.needsResync = true

theorem Kept.tended (h : Kept c made s) {now : Moment} (hnow : s.node.now ≤ now) :
    Kept c made (s.tended now) where
  config := h.config
  tallied j := (h.tallied j).tended h.config hnow
  wanted n hn := by
    rcases List.mem_append.1 hn with hn | hn
    · obtain ⟨j, hj, hjn⟩ := List.mem_map.1 hn
      obtain ⟨rfl, rfl⟩ := Prod.mk.inj hjn
      exact (due_iff.1 (mem_schedule.1 (List.mem_reverse.1 hj))).1
    · exact h.wanted n hn

theorem Tended.kept {start : Timed ρ} (hstart : start.buffer = .new c start.now)
    (h : Tended R ⟨start, [], []⟩ s) : Kept c start.now s := by
  induction h with
  | start => exact ⟨hstart ▸ rfl, fun _ => tallied_new hstart, nofun⟩
  | read _ hrun ih =>
    obtain ⟨t, hnow, rfl⟩ := runs_tend_iff.1 hrun
    exact ih.tended hnow
  | act _ hr hx ih =>
    refine ⟨hx.1.config.trans ih.config, fun j => (ih.tallied j).other hr hx, ?_⟩
    rw [(hx.other hr).1]
    exact ih.wanted
  | ended k _ hk ih =>
    refine ⟨?_, fun j => (ih.tallied j).ended hk, ih.wanted⟩
    cases k <;> exact ih.config

def last (s : Attended ρ) (made : Moment) (j : Job) : Moment := (s.moments made j).headD made

structure Awaits (c : BufferConfig) (made : Moment) (s : Attended ρ) (now : Moment) (j : Job) :
    Prop where
  idle : j ∉ s.running
  interval : s.last made j + interval c j ≤ now
  wanted : j = .resync → s.node.buffer.needsResync = true

theorem Kept.due_iff_awaits (h : Kept c made s) {now : Moment} (hnow : s.node.now ≤ now) :
    s.node.buffer.due now j = true ↔ Awaits c made s now j := by
  have ht := h.tallied j
  have hlast : s.last made j = (s.node.buffer.clock j).last := by
    rw [last, List.headD_eq_head?_getD, ht.last, Option.getD_some]
  have hidle : (s.node.buffer.clock j).running = false ↔ j ∉ s.running := by
    rw [← List.count_eq_zero, ht.running, Bool.toNat_eq_zero]
  have hwants : s.node.buffer.wants j = true ↔ j = .resync → s.node.buffer.needsResync = true := by
    cases j <;> simp [wants]
  have hpast : s.last made j ≤ now := hlast ▸ ht.past.trans hnow
  rw [due_iff, hwants, hidle, h.config, ← hlast, Nat.le_sub_iff_add_le' hpast]
  exact ⟨fun ⟨hw, hi, hl⟩ => ⟨hi, hl, hw⟩, fun ⟨hi, hl, hw⟩ => ⟨hw, hi, hl⟩⟩

theorem exists_lookUp (key : String) :
    ∃ lookUp : Unit → Service (Except StoreError (Option Octets)),
      serve (.get key) = tend.bind lookUp ∧
        (lookUp ()).Asks fun r => Timed.quiet r = false := by
  refine ⟨_, (Script.bind_assoc ..).symm, rfl, fun value => ?_⟩
  cases value with
  | some value => trivial
  | none =>
    refine ⟨rfl, fun x => ?_⟩
    cases x with
    | ok value => trivial
    | error e => exact ⟨rfl, fun _ => trivial⟩

/-- No job runs twice at a time, and its starts are as far apart as they should be, the first from
the making of the clock.  A read starts exactly what is due, be it a job that has ended, in
whatever way. -/
theorem jobs_take_turns (R : Moment → Script.Rules Command.Reply ρ) (c : BufferConfig)
    (start : Timed ρ) (s : Attended ρ) (hstart : start.buffer = .new c start.now)
    (h : Tended R ⟨start, [], []⟩ s) :
    (∀ j, s.running.count j ≤ 1) ∧
      (∀ j, (s.moments start.now j).IsChain
        fun later earlier => earlier + interval c j ≤ later) ∧
      (∀ n, (.resync, n) ∈ s.starts → n.buffer.needsResync = true) ∧
      (∀ key, ∃ lookUp : Unit → Service (Except StoreError (Option Octets)),
        serve (.get key) = tend.bind lookUp ∧
          (lookUp ()).Asks fun r => Timed.quiet r = false) ∧
      (∀ t, s.node.now ≤ t → ∃ s', s'.node.now = t ∧ tend.Runs (Attends R) s () s') ∧
      (∀ s', tend.Runs (Attends R) s () s' → ∃ begun : List Job,
        s'.running = begun ++ s.running ∧ s'.starts = begun.map (·, s'.node) ++ s.starts ∧
          ∀ j, j ∈ begun ↔ Awaits c start.now s s'.node.now j) ∧
      ∀ j ∈ s.running, ∀ t, s.node.now ≤ t → s.last start.now j + interval c j ≤ t →
        (j = .resync → s.node.buffer.needsResync = true) →
          ∃ s', s'.node.now = t ∧ tend.Runs (Attends R) (s.ended j) () s' ∧ j ∈ s'.running := by
  have hkept := h.kept hstart
  have hone (j : Job) : s.running.count j ≤ 1 :=
    (hkept.tallied j).running ▸ Bool.toNat_le _
  have hruns {s₁ : Attended ρ} {t : Moment} (ht : s₁.node.now ≤ t) :
      tend.Runs (Attends R) s₁ () (s₁.tended t) := runs_tend_iff.2 ⟨t, ht, rfl⟩
  refine ⟨hone, fun j => (hkept.tallied j).spaced, hkept.wanted, exists_lookUp,
    fun t ht => ⟨_, rfl, hruns ht⟩, ?_, ?_⟩
  · intro s' hrun
    obtain ⟨t, ht, rfl⟩ := runs_tend_iff.1 hrun
    refine ⟨(s.node.buffer.schedule t).1.reverse, rfl, rfl, fun j => ?_⟩
    rw [List.mem_reverse, mem_schedule]
    exact hkept.due_iff_awaits ht
  · intro j hj t ht hlast hwanted
    refine ⟨_, rfl, hruns ht, ?_⟩
    have hidle : j ∉ (s.ended j).running := by
      rw [← List.count_eq_zero, ended, List.count_erase_self]
      exact Nat.sub_eq_zero_of_le (hone j)
    have hdue : (s.ended j).node.buffer.due t j = true := by
      refine ((h.ended j hj).kept hstart).due_iff_awaits ht |>.2 ⟨hidle, hlast, fun hr => ?_⟩
      cases hr
      exact hwanted rfl
    exact List.mem_append_left _ (List.mem_reverse.2 (mem_schedule.2 hdue))

theorem resync_is_started_again :
    ∃ s s', Tended Memory.Serves ⟨⟨0, .new { ttl := .ofSeconds 60 } 0, .empty⟩, [], []⟩ s ∧
      s.running = [.resync] ∧ s.moments 0 .resync = [600 * second, 0] ∧
      tend.Runs (Attends Memory.Serves) (s.ended .resync) () s' ∧ s'.node.now = 1200 * second ∧
      .resync ∈ s'.running := by
  let made : Timed Memory := ⟨0, .new { ttl := .ofSeconds 60 } 0, .empty⟩
  let flagged : Attended Memory :=
    ⟨{ made with buffer := { made.buffer with needsResync := true } }, [], []⟩
  have hflag : Attends Memory.Serves (.here (.flag true)) ⟨made, [], []⟩ () flagged :=
    ⟨⟨Nat.le_refl 0, rfl, rfl⟩, rfl⟩
  have htended : Tended Memory.Serves ⟨made, [], []⟩ (flagged.tended (600 * second)) :=
    .read (.act .start rfl hflag) (runs_tend_iff.2 ⟨600 * second, Nat.zero_le _, rfl⟩)
  have hrunning : (flagged.tended (600 * second)).running = [.resync] := by decide +kernel
  have hmoments : (flagged.tended (600 * second)).moments 0 .resync = [600 * second, 0] := by
    decide +kernel
  obtain ⟨-, -, -, -, -, -, hagain⟩ :=
    jobs_take_turns Memory.Serves { ttl := .ofSeconds 60 } made _ rfl htended
  obtain ⟨s', hnow, hrun, hstarted⟩ := hagain .resync (hrunning ▸ List.mem_singleton_self _)
    (1200 * second) (by decide +kernel) (by decide +kernel) fun _ => rfl
  exact ⟨_, s', htended, hrunning, hmoments, hrun, hnow, hstarted⟩

end Attended

end SessionVault.Buffer
