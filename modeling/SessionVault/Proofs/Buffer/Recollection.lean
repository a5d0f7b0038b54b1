import SessionVault.Proofs.Buffer.Idle
import SessionVault.Proofs.Pool

namespace SessionVault

namespace Script

variable {Req : Type} {Ans : Req → Type} {α : Type}

/-- Whatever the answers, the result tells which request of a kind has been put, if any; the list
has those that were put before. -/
def Discloses (noted : Req → Bool) (told : α → Option Req) : Script Ans α → List Req → Prop
  | .done a, l => l = (told a).toList
  | .ask r next, l => ∀ x, (next x).Discloses noted told (if noted r then r :: l else l)

theorem Asks.discloses {noted : Req → Bool} {told : α → Option Req} {p : Script Ans α}
    (h : p.Asks (noted · = false)) (htold : ∀ a, told a = none) : p.Discloses noted told [] := by
  induction p with
  | done a => rw [Discloses, htold, Option.toList_none]
  | ask r next ih =>
    intro x
    rw [h.1]
    exact ih x (h.2 x)

end Script

namespace Buffer

def Act.Belongs (k : Call) : Act → Prop
  | .here (.put key value) =>
    k = .command (.set key value) ∨ k = .command (.setIfAbsent key value)
  | .here (.touch key) => k = .command (.get key)
  | .here (.drop key) => k = .command (.delete key)
  | .here .evict => ∃ background, k = .job .expiry background
  | _ => True

def Call.change? : (k : Call) → k.Answer → Option Act
  | .command (.set key value), _ => some (.here (.put key value))
  | .command (.setIfAbsent key value), .ok .created => some (.here (.put key value))
  | .command (.delete key), _ => some (.here (.drop key))
  | .job .expiry _, _ => some (.here .evict)
  | _, _ => none

def Act.changes (r : Act) : Bool := !r.sparesValues

theorem Act.belongs_of_repairs {k : Call} {r : Act} {key : String} (h : r.repairs key = true) :
    r.Belongs k := by
  match r with
  | .here (.put _ _) | .here (.touch _) | .here (.drop _) | .here .evict => cases h
  | .here (.value _) | .here (.contains _) | .here (.matching _) | .here .names
  | .here (.flag _) | .here .schedule | .remote _ | .start _ => trivial

theorem Act.belongs_of_partOf {c : Command} {r : Act} (h : r.PartOf c) :
    r.Belongs (.command c) := by
  match r with
  | .here (.put _ _) => exact h.imp (congrArg Call.command) (congrArg Call.command)
  | .here (.touch _) | .here (.drop _) => exact congrArg Call.command h
  | .here (.value _) | .here (.contains _) | .here (.matching _) | .here .names
  | .here (.flag _) | .here .schedule | .remote _ | .start _ => trivial

theorem asks_script (order : Names → List String) (ttl : Duration) (k : Call) :
    (k.script order ttl).Asks (·.Belongs k) := by
  match k with
  | .job .resync _ =>
    exact ⟨trivial, fun _ => ⟨trivial, fun names =>
      asks_repairAll (fun _ _ => Act.belongs_of_repairs) ttl.seconds (order names) 0⟩⟩
  | .job .expiry background => exact ⟨⟨background, rfl⟩, fun _ => trivial⟩
  | .command c => exact (asks_partOf c).mono fun _ => Act.belongs_of_partOf

def Call.mayChange : Call → Bool
  | .command (.set _ _) | .command (.setIfAbsent _ _) | .command (.delete _)
  | .job .expiry _ => true
  | _ => false

theorem Act.changes_of_belongs {k : Call} {r : Act} (hk : k.mayChange = false)
    (h : r.Belongs k) : r.changes = false := by
  match r with
  | .here (.put _ _) => obtain rfl | rfl := h <;> cases hk
  | .here (.drop _) =>
    cases (show k = _ from h)
    cases hk
  | .here .evict =>
    obtain ⟨background, rfl⟩ := h
    cases hk
  | .here (.touch _) | .here (.value _) | .here (.contains _) | .here (.matching _) | .here .names
  | .here (.flag _) | .here .schedule | .remote _ | .start _ => rfl

theorem Call.change?_of_mayChange {k : Call} (hk : k.mayChange = false) (x : k.Answer) :
    k.change? x = none := by
  match k, x with
  | .command (.expire _ _), _ | .command (.get _), _ | .command (.exists _), _
  | .command (.keys _), _ | .job .resync _, _ => rfl

theorem discloses_script (order : Names → List String) (ttl : Duration) (k : Call) :
    (k.script order ttl).Discloses Act.changes k.change? [] := by
  match k with
  | .command (.set key value) =>
    intro _ x
    cases x with
    | ok => exact rfl
    | error e => exact fun _ => rfl
  | .command (.setIfAbsent key value) =>
    intro x
    cases x with
    | ok claim =>
      cases claim with
      | existed => exact rfl
      | created => exact fun _ => rfl
    | error e =>
      intro _ held
      cases held with
      | true => exact rfl
      | false => exact fun _ => rfl
  | .command (.delete key) =>
    intro _ x
    cases x with
    | ok => exact rfl
    | error e => exact fun _ => rfl
  | .job .expiry _ => exact fun _ => rfl
  | .command (.expire _ _) | .command (.get _) | .command (.exists _) | .command (.keys _)
  | .job .resync _ =>
    exact ((asks_script order ttl _).mono fun _ => Act.changes_of_belongs rfl).discloses
      (Call.change?_of_mayChange rfl)

namespace Timed

variable {ρ ι : Type} {R : Moment → Script.Rules Command.Reply ρ} {c : BufferConfig} {key : String}

inductive Mark where
  | written (value : Octets)
  | removed
  | evicted
  deriving DecidableEq

def usedAt? (key : String) (log : Log ρ) : Option Moment :=
  log.findSome? fun e => (use? key e).map (·.accessed)

def overdue (c : BufferConfig) (key : String) (log : Log ρ) (now : Moment) : Bool :=
  (usedAt? key log).any fun used => used + idleTime c < now

theorem overdue_eq {log : Log ρ} {used now : Moment} (h : usedAt? key log = some used) :
    overdue c key log now = decide (used + idleTime c < now) := by
  rw [overdue, h]
  rfl

/-- The mark that the events, the latest first, have left on a key.  A sweep evicts what has been
written and is overdue. -/
def last? (c : BufferConfig) (key : String) : Log ρ → Option Mark
  | [] => none
  | ⟨.here (.put other value), _, _⟩ :: log =>
    if other = key then some (.written value) else last? c key log
  | ⟨.here (.drop other), _, _⟩ :: log => if other = key then some .removed else last? c key log
  | ⟨.here .evict, _, n⟩ :: log =>
    match last? c key log with
    | some (.written value) =>
      some (if overdue c key log n.now then .evicted else .written value)
    | before => before
  | _ :: log => last? c key log

inductive Recalls (c : BufferConfig) (key : String) (log : Log ρ) : Option Entry → Prop where
  | written {value : Octets} {used : Moment} :
      last? c key log = some (.written value) → usedAt? key log = some used →
      Recalls c key log (some ⟨value, used⟩)
  | absent : (∀ value, last? c key log ≠ some (.written value)) → Recalls c key log none

variable {n n' : Timed ρ} {log : Log ρ} {r : Act} {x : r.Answer} {held : Option Entry}

theorem Recalls.cons {e : Event ρ} (h : Recalls c key log held)
    (hlast : last? c key (e :: log) = last? c key log) (huse : use? key e = none) :
    Recalls c key (e :: log) held := by
  have hused : usedAt? key (e :: log) = usedAt? key log := by
    rw [usedAt?, List.findSome?_cons, huse]
    rfl
  cases h with
  | written hl hu => exact .written (hlast.trans hl) (hused.trans hu)
  | absent hl => exact .absent fun value => hlast ▸ hl value

theorem usedAt?_cons_of_use {e : Event ρ} {entry : Entry} (h : use? key e = some entry) :
    usedAt? key (e :: log) = some entry.accessed := by
  rw [usedAt?, List.findSome?_cons, h]
  rfl

theorem Recalls.put (h : Recalls c key log held) (name : String) (value : Octets) {u : Unit} :
    Recalls c key (⟨.here (.put name value), u, n⟩ :: log)
      ((if name = key then some ⟨value, n.now⟩ else none).or held) := by
  by_cases hname : name = key
  · have huse : use? key ⟨.here (.put name value), u, n⟩ = some ⟨value, n.now⟩ := if_pos hname
    rw [if_pos hname, Option.some_or]
    exact .written (if_pos hname) (usedAt?_cons_of_use huse)
  · rw [if_neg hname, Option.none_or]
    exact h.cons (if_neg hname) (if_neg hname)

theorem Recalls.touch (h : Recalls c key log held) (name : String) {value : Option Octets}
    (hvalue : name = key → value = held.map (·.value)) :
    Recalls c key (⟨.here (.touch name), value, n⟩ :: log)
      ((value.bind fun value => if name = key then some ⟨value, n.now⟩ else none).or held) := by
  cases value with
  | none => exact h.cons rfl rfl
  | some value =>
    by_cases hname : name = key
    · have huse : use? key ⟨.here (.touch name), some value, n⟩ = some ⟨value, n.now⟩ :=
        if_pos hname
      rw [Option.bind_some, if_pos hname, Option.some_or]
      cases h with
      | absent _ => cases hvalue hname
      | written hl hu =>
        cases hvalue hname
        exact .written hl (usedAt?_cons_of_use huse)
    · rw [Option.bind_some, if_neg hname, Option.none_or]
      exact h.cons rfl (if_neg hname)

theorem Recalls.drop (h : Recalls c key log held) (name : String) {dropped : Bool} :
    Recalls c key (⟨.here (.drop name), dropped, n⟩ :: log)
      (if key = name then none else held) := by
  by_cases hname : key = name
  · rw [if_pos hname]
    refine .absent fun value => ?_
    rw [last?, if_pos hname.symm]
    exact nofun
  · rw [if_neg hname]
    exact h.cons (if_neg (Ne.symm hname)) rfl

theorem Recalls.evict (h : Recalls c key log held) {count : Nat} :
    Recalls c key (⟨.here .evict, count, n⟩ :: log)
      (held.filter (spares c · ⟨.here .evict, count, n⟩)) := by
  cases h with
  | absent hl =>
    refine .absent fun value => ?_
    rw [last?]
    split
    · next he => exact absurd he (hl _)
    · exact hl value
  | @written value used hl hu =>
    have hmark : last? c key (⟨.here .evict, count, n⟩ :: log) =
        some (if used + idleTime c < n.now then .evicted else .written value) := by
      rw [last?, hl]
      simp only [overdue_eq hu, decide_eq_true_eq]
    have hspares : spares c ⟨value, used⟩ (⟨.here .evict, count, n⟩ : Event ρ) = true ↔
        ¬ used + idleTime c < n.now := by
      rw [Nat.not_lt, ← Nat.sub_le_iff_le_add', spares_iff]
      exact ⟨fun hle => hle rfl, fun hle _ => hle⟩
    by_cases hidle : used + idleTime c < n.now
    · rw [Option.filter, if_neg fun h => hspares.1 h hidle]
      rw [if_pos hidle] at hmark
      exact .absent fun _ => hmark ▸ nofun
    · rw [Option.filter, if_pos (hspares.2 hidle)]
      rw [if_neg hidle] at hmark
      exact .written hmark hu

theorem Recalls.act (h : Recalls c key log (n.buffer.entries.get? key)) (hc : n.buffer.config = c)
    (hx : Acts R r n x n') : Recalls c key (⟨r, x, n'⟩ :: log) (n'.buffer.entries.get? key) := by
  cases r with
  | start job =>
    obtain rfl : n' = n := hx
    exact h.cons rfl rfl
  | remote command =>
    rw [hx.2.2]
    exact h.cons rfl rfl
  | here s =>
    have hstep := hx.2.1
    cases s with
    | put name value =>
      rw [← (Prod.mk.inj hstep).2, get?_put]
      exact h.put name value
    | touch name =>
      rw [step_touch] at hstep
      obtain ⟨hvalue, hbuffer⟩ := Prod.mk.inj hstep
      cases hvalue
      rw [← hbuffer, get?_touch]
      exact h.touch name fun hname => hname ▸ rfl
    | drop name =>
      have hentry : n'.buffer.entries.get? key =
          if key = name then none else n.buffer.entries.get? key := by
        rw [← (Prod.mk.inj hstep).2]
        exact Table.get?_erase ..
      rw [hentry]
      exact h.drop name
    | evict =>
      rw [hx.get? (show drops key _ = false from rfl), hc]
      exact h.evict
    | value | contains | matching | names | flag | schedule =>
      rw [← (Prod.mk.inj hstep).2]
      exact h.cons rfl rfl

def Noted (R : Moment → Script.Rules Command.Reply ρ) (i : ι) :
    Script.Rules Act.Answer (Timed ρ × List (ι × Event ρ)) :=
  fun r s x s' => Acts R r s.1 x s'.1 ∧ s'.2 = (i, ⟨r, x, s'.1⟩) :: s.2

abbrev Crowd (ρ : Type) (calls : ι → Call) : Type :=
  Pool Act.Answer (fun i => (calls i).Answer) (Timed ρ × List (ι × Event ρ))

/-- Calls that take turns, background jobs among them.  Jobs end, time goes by, and others use the
remote store meanwhile. -/
inductive Busy (R : Moment → Script.Rules Command.Reply ρ) (order : ι → Names → List String)
    (calls : ι → Call) (start : Timed ρ) : Crowd ρ calls → Prop where
  | start :
      Busy R order calls start
        ⟨(start, []), fun i => (calls i).script (order i) start.buffer.config.ttl⟩
  | turn {p p' : Crowd ρ calls} {i : ι} {r : Act} {x : r.Answer} :
      Busy R order calls start p → Pool.Step (Noted R i) i r x p p' → Busy R order calls start p'
  | ended {n : Timed ρ} {log : List (ι × Event ρ)} {parts : (i : ι) → Service (calls i).Answer}
      (job : Job) :
      Busy R order calls start ⟨(n, log), parts⟩ →
      Busy R order calls start ⟨({ n with buffer := n.buffer.finish job }, log), parts⟩
  | elsewhere {n : Timed ρ} {log : List (ι × Event ρ)}
      {parts : (i : ι) → Service (calls i).Answer} {now : Moment} (remote : ρ) :
      Busy R order calls start ⟨(n, log), parts⟩ → n.now ≤ now →
      Busy R order calls start ⟨(⟨now, n.buffer, remote⟩, log), parts⟩

def events (log : List (ι × Event ρ)) : Log ρ := log.map (·.2)

variable [DecidableEq ι]

def changesOf (i : ι) (log : List (ι × Event ρ)) : List Act :=
  ((log.filter (·.1 = i)).map (·.2.request)).filter Act.changes

structure Recollected (c : BufferConfig) (calls : ι → Call) (p : Crowd ρ calls) : Prop where
  config : p.shared.1.buffer.config = c
  entry (key : String) :
    Recalls c key (events p.shared.2) (p.shared.1.buffer.entries.get? key)
  belongs (i : ι) (e : Event ρ) : (i, e) ∈ p.shared.2 → e.request.Belongs (calls i)
  asks (i : ι) : (p.parts i).Asks (·.Belongs (calls i))
  discloses (i : ι) :
    (p.parts i).Discloses Act.changes (calls i).change? (changesOf i p.shared.2)

variable {order : ι → Names → List String} {calls : ι → Call} {start : Timed ρ}
variable {p p' : Crowd ρ calls}

theorem changesOf_cons_self (i : ι) (e : Event ρ) (log : List (ι × Event ρ)) :
    changesOf i ((i, e) :: log) =
      if e.request.changes then e.request :: changesOf i log else changesOf i log := by
  rw [changesOf, List.filter_cons_of_pos (by simp), List.map_cons, List.filter_cons]
  rfl

theorem changesOf_cons_of_ne {i j : ι} (h : j ≠ i) (e : Event ρ) (log : List (ι × Event ρ)) :
    changesOf i ((j, e) :: log) = changesOf i log := by
  rw [changesOf, List.filter_cons_of_neg (by simpa using h)]
  rfl

theorem Recollected.turn {i : ι} {r : Act} {x : r.Answer} (h : Recollected c calls p)
    (hstep : Pool.Step (Noted R i) i r x p p') : Recollected c calls p' := by
  obtain ⟨⟨next, hpart, hnext⟩, ⟨hacts, hlog⟩, hothers⟩ := hstep
  have hasks := h.asks i
  have hdiscloses := h.discloses i
  rw [hpart] at hasks hdiscloses
  refine ⟨hacts.config.trans h.config, fun key => ?_, fun j e he => ?_, fun j => ?_, fun j => ?_⟩
  · rw [hlog]
    exact (h.entry key).act h.config hacts
  · rw [hlog, List.mem_cons] at he
    rcases he with he | he
    · cases he
      exact hasks.1
    · exact h.belongs j e he
  · by_cases hj : j = i
    · subst hj
      rw [hnext]
      exact hasks.2 x
    · rw [hothers j hj]
      exact h.asks j
  · by_cases hj : j = i
    · subst hj
      rw [hnext, hlog, changesOf_cons_self]
      exact hdiscloses x
    · rw [hothers j hj, hlog, changesOf_cons_of_ne (Ne.symm hj)]
      exact h.discloses j

theorem Busy.recollected (hstart : start.buffer = .new c start.now)
    (h : Busy R order calls start p) : Recollected c calls p := by
  induction h with
  | start =>
    have hconfig : start.buffer.config = c := by rw [hstart, Buffer.new]
    refine ⟨hconfig, fun key => ?_, fun _ _ he => absurd he List.not_mem_nil,
      fun i => asks_script .., fun i => discloses_script ..⟩
    rw [hstart]
    exact .absent nofun
  | turn _ hstep ih => exact ih.turn hstep
  | ended job _ ih =>
    cases job <;> exact ⟨ih.config, ih.entry, ih.belongs, ih.asks, ih.discloses⟩
  | elsewhere remote _ _ ih => exact ⟨ih.config, ih.entry, ih.belongs, ih.asks, ih.discloses⟩

def prompt : Act → Bool
  | .remote _ | .here .evict => false
  | _ => true

theorem exists_prompt (R : Moment → Script.Rules Command.Reply ρ) (r : Act) (n : Timed ρ)
    (hr : prompt r = true) : ∃ x n', Acts R r n x n' := by
  match r with
  | .start job => exact ⟨(), n, rfl⟩
  | .here s =>
    have hs : ∃ x b, step n.now s n.buffer = (some x, b) := by
      cases s with
      | evict => cases hr
      | put | touch | value | contains | drop | matching | names | flag | schedule =>
        exact ⟨_, _, rfl⟩
    obtain ⟨x, b, hx⟩ := hs
    exact ⟨x, { n with buffer := b }, Nat.le_refl _, hx, rfl⟩

theorem delivers_startAll (jobs : List Job) :
    (startAll jobs).Delivers (Acts R) (prompt · = true) (fun _ n' => n' = n) n := by
  induction jobs with
  | nil => exact rfl
  | cons job rest ih =>
    refine ⟨rfl, fun _ n' hn => ?_⟩
    obtain rfl : n' = n := hn
    exact ih

def AnswersHere {α : Type} (R : Moment → Script.Rules Command.Reply ρ) (n : Timed ρ)
    (q : Service α) (a : α) : Prop :=
  q.Delivers (Acts R) (prompt · = true) (fun x _ => x = a) n ∧ ∃ n', q.Runs (Acts R) n a n'

theorem answersHere_of_delivers {α : Type} {q : Service α} {a : α}
    (h : q.Delivers (Acts R) (prompt · = true) (fun x _ => x = a) n) : AnswersHere R n q a := by
  obtain ⟨x, n', hrun⟩ := h.exists_runs (exists_prompt R)
  obtain rfl : x = a := hrun.ensures h.ensures
  exact ⟨h, n', hrun⟩

theorem delivers_get {entry : Entry} (h : n.buffer.entries.get? key = some entry) :
    (serve (.get key)).Delivers (Acts R) (prompt · = true)
      (fun x _ => x = .ok (some entry.value)) n := by
  refine ⟨rfl, fun jobs n₁ hschedule => ?_⟩
  have hentries : n₁.buffer.entries = n.buffer.entries :=
    congrArg (·.entries) (Prod.mk.inj hschedule.2.1).2.symm
  simp only [Script.done_bind, Script.bind_eq]
  refine Script.delivers_bind.2 ((delivers_startAll jobs).mono fun _ n₂ hn₂ => ?_)
  subst hn₂
  refine ⟨rfl, fun value n₃ htouch => ?_⟩
  have hstep := htouch.2.1
  rw [step_touch, Buffer.value?, hentries, h] at hstep
  cases (Prod.mk.inj hstep).1
  exact rfl

theorem delivers_exists {entry : Entry} (h : n.buffer.entries.get? key = some entry) :
    (serve (.exists key)).Delivers (Acts R) (prompt · = true) (fun x _ => x = .ok true) n := by
  refine ⟨rfl, fun held n₁ hcontains => ?_⟩
  have hstep : some (n.buffer.contains key) = some held := (Prod.mk.inj hcontains.2.1).1
  rw [contains_eq, Buffer.value?, h] at hstep
  cases hstep
  exact rfl

theorem step_evict {b : Buffer} {now : Moment} {limit : Duration}
    (hlimit : idleLimit? b.config = some limit) :
    step now .evict b = (some (b.evict now limit).1, (b.evict now limit).2) := by
  simp only [step, hlimit]

theorem runs_sweep_iff {limit : Duration} {count : Nat}
    (hlimit : idleLimit? n.buffer.config = some limit) :
    sweep.Runs (Acts R) n count n' ↔
      n.now ≤ n'.now ∧ n'.remote = n.remote ∧ n.buffer.evict n'.now limit = (count, n'.buffer) := by
  constructor
  · intro hrun
    cases hrun with
    | ask hx hrest =>
      cases hrest
      obtain ⟨hnow, hevict, hremote⟩ := hx
      rw [step_evict hlimit] at hevict
      obtain ⟨hcount, hbuffer⟩ := Prod.mk.inj hevict
      exact ⟨hnow, hremote, Prod.ext (Option.some.inj hcount) hbuffer⟩
  · rintro ⟨hnow, hremote, hevict⟩
    have hx : Acts R (.here .evict) n count n' := by
      refine ⟨hnow, ?_, hremote⟩
      rw [step_evict hlimit, hevict]
    exact .ask hx (.done _ _)

theorem Recollected.evict (h : Recollected c calls p) {limit : Duration} (now : Moment)
    (hlimit : idleLimit? c = some limit) :
    p.shared.1.buffer.evict now limit =
      ((p.shared.1.buffer.entries.filter fun key _ => overdue c key (events p.shared.2) now).size,
        { p.shared.1.buffer with
          entries := p.shared.1.buffer.entries.filter fun key _ =>
            !overdue c key (events p.shared.2) now }) := by
  have hkept : (p.shared.1.buffer.entries.filter fun _ e => now - e.accessed ≤ limit.nanoseconds) =
      p.shared.1.buffer.entries.filter fun key _ => !overdue c key (events p.shared.2) now := by
    refine Table.filter_congr fun key e he => ?_
    have hr := h.entry key
    rw [he] at hr
    cases hr with
    | @written value used hl hu =>
      rw [overdue_eq hu, limit_eq hlimit, ← decide_not]
      simp only [Nat.not_lt, Nat.sub_le_iff_le_add']
  rw [Buffer.evict, hkept, ← Table.size_filter_add, Nat.add_sub_cancel]

theorem Recalls.isSome_iff {log : Log ρ} (h : Recalls c key log held) :
    held.isSome = true ↔ ∃ value, last? c key log = some (.written value) := by
  cases h with
  | @written value used hl hu => exact ⟨fun _ => ⟨value, hl⟩, fun _ => rfl⟩
  | absent hl => exact ⟨nofun, fun ⟨value, he⟩ => absurd he (hl value)⟩

theorem Recalls.value {log : Log ρ} {value : Octets} (h : Recalls c key log held)
    (hl : last? c key log = some (.written value)) : ∃ used, held = some ⟨value, used⟩ := by
  cases h with
  | @written _ used hl' hu =>
    cases hl.symm.trans hl'
    exact ⟨used, rfl⟩
  | absent hl' => exact absurd hl (hl' value)

/-- A call that has answered has made the change of which its answer tells, and no other; one that
is under way will tell of what it has changed.  Only writes and reads use a key, and those only the
key that they name.  A key is held exactly if it was written last, it is answered from here with the
value of that write, and a sweep evicts exactly what is overdue. -/
theorem buffer_is_its_history (R : Moment → Script.Rules Command.Reply ρ)
    (order : ι → Names → List String) (calls : ι → Call) (c : BufferConfig) (start n : Timed ρ)
    (log : List (ι × Event ρ)) (parts : (i : ι) → Service (calls i).Answer)
    (hstart : start.buffer = .new c start.now)
    (h : Busy R order calls start ⟨(n, log), parts⟩) :
    (∀ i x, parts i = .done x → changesOf i log = ((calls i).change? x).toList) ∧
      (∀ i, (parts i).Discloses Act.changes (calls i).change? (changesOf i log)) ∧
      (∀ i e, (i, e) ∈ log → e.request.Belongs (calls i)) ∧
      (∀ key, n.buffer.contains key = true ↔
        ∃ value, last? c key (events log) = some (.written value)) ∧
      (∀ key value, last? c key (events log) = some (.written value) →
        AnswersHere R n (serve (.get key)) (.ok (some value)) ∧
          AnswersHere R n (serve (.exists key)) (.ok true)) ∧
      ((idleLimit? c).isSome = true → ∀ count n', sweep.Runs (Acts R) n count n' ↔
        n.now ≤ n'.now ∧ n'.remote = n.remote ∧
          count = (n.buffer.entries.filter fun key _ =>
            overdue c key (events log) n'.now).size ∧
          n'.buffer = { n.buffer with
            entries := n.buffer.entries.filter fun key _ =>
              !overdue c key (events log) n'.now }) := by
  have hr := h.recollected hstart
  refine ⟨fun i x hdone => ?_, hr.discloses, hr.belongs,
    fun key => (hr.entry key).isSome_iff, ?_, ?_⟩
  · have hdiscloses : (parts i).Discloses Act.changes (calls i).change? (changesOf i log) :=
      hr.discloses i
    rw [hdone] at hdiscloses
    exact hdiscloses
  · intro key value hlast
    obtain ⟨used, hentry⟩ := (hr.entry key).value hlast
    exact ⟨answersHere_of_delivers (delivers_get hentry),
      answersHere_of_delivers (delivers_exists hentry)⟩
  · intro hsome count n'
    obtain ⟨limit, hlimit⟩ := Option.isSome_iff_exists.1 hsome
    rw [runs_sweep_iff (hr.config ▸ hlimit), hr.evict n'.now hlimit, Prod.mk.injEq]
    constructor
    · rintro ⟨hnow, hremote, hcount, hbuffer⟩
      exact ⟨hnow, hremote, hcount.symm, hbuffer.symm⟩
    · rintro ⟨hnow, hremote, hcount, hbuffer⟩
      exact ⟨hnow, hremote, hcount.symm, hbuffer.symm⟩

theorem written_entry_is_swept_in_time :
    ∃ (n : Timed Memory) (log : List (Unit × Event Memory)),
      Busy Memory.Serves (fun _ => Table.names) (fun _ => .command (.set "a" [1]))
        ⟨0, .new { ttl := .ofSeconds 60 } 0, .empty⟩ ⟨(n, log), fun _ => .done (.ok ())⟩ ∧
      changesOf () log = [.here (.put "a" [1])] ∧
      last? { ttl := .ofSeconds 60 } "a" (events log) = some (.written [1]) ∧
      AnswersHere Memory.Serves n (serve (.get "a")) (.ok (some [1])) ∧
      (∃ n', n'.now = 120 * second ∧ sweep.Runs (Acts Memory.Serves) n 0 n') ∧
      ∃ n', n'.now = 120 * second + 1 ∧ sweep.Runs (Acts Memory.Serves) n 1 n' ∧
        n'.buffer.contains "a" = false := by
  let made : Timed Memory := ⟨0, .new { ttl := .ofSeconds 60 } 0, .empty⟩
  let log : List (Unit × Event Memory) :=
    [((), ⟨.remote (.set "a" [1]), .ok (), writer⟩), ((), firstUse)]
  have hput : Acts Memory.Serves (.here (.put "a" [1])) made () firstUse.state :=
    ⟨Nat.le_refl 0, rfl, rfl⟩
  have hstore : Acts Memory.Serves (.remote (.set "a" [1])) firstUse.state (.ok ()) writer :=
    ⟨Nat.le_refl 0, .inl rfl, rfl⟩
  obtain ⟨rest, next, hset, hrest, hnext⟩ :
      ∃ (rest : Unit → Service (Except StoreError Unit)) (next : Except StoreError Unit → _),
        serve (.set "a" [1]) = .ask (.here (.put "a" [1])) rest ∧
          rest () = .ask (.remote (.set "a" [1])) next ∧ next (.ok ()) = .done (.ok ()) :=
    ⟨_, _, rfl, rfl, rfl⟩
  have hfirst : Busy Memory.Serves (fun _ => Table.names) (fun _ : Unit => .command (.set "a" [1]))
      made ⟨(firstUse.state, [((), firstUse)]), fun _ => rest ()⟩ :=
    .turn (i := ()) (r := .here (.put "a" [1])) .start
      ⟨⟨rest, hset, rfl⟩, ⟨hput, rfl⟩, fun _ hj => absurd rfl hj⟩
  have hbusy : Busy Memory.Serves (fun _ => Table.names) (fun _ : Unit => .command (.set "a" [1]))
      made ⟨(writer, log), fun _ => .done (.ok ())⟩ :=
    .turn (i := ()) (r := .remote (.set "a" [1])) hfirst
      ⟨⟨next, hrest, hnext.symm⟩, ⟨hstore, rfl⟩, fun _ hj => absurd rfl hj⟩
  obtain ⟨hchanges, -, -, -, hserved, hsweep⟩ :=
    buffer_is_its_history Memory.Serves _ _ { ttl := .ofSeconds 60 } made _ _ _ rfl hbusy
  have hlast : last? { ttl := .ofSeconds 60 } "a" (events log) = some (.written [1]) := by
    decide +kernel
  let swept (now : Moment) : Timed Memory :=
    ⟨now, { writer.buffer with
      entries := writer.buffer.entries.filter fun key _ =>
        !overdue { ttl := .ofSeconds 60 } key (events log) now }, writer.remote⟩
  refine ⟨writer, log, hbusy, hchanges () (.ok ()) rfl, hlast, (hserved "a" [1] hlast).1,
    ⟨swept (120 * second), rfl, ?_⟩, swept (120 * second + 1), rfl, ?_, ?_⟩
  · exact (hsweep rfl 0 _).2 ⟨Nat.zero_le _, rfl, by decide +kernel, rfl⟩
  · exact (hsweep rfl 1 _).2 ⟨Nat.zero_le _, rfl, by decide +kernel, rfl⟩
  · decide +kernel

end Timed

end Buffer

end SessionVault
