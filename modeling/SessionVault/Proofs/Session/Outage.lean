import SessionVault.Proofs.Buffer.Resync
import SessionVault.Proofs.Pool
import SessionVault.Proofs.Session.Visits

/-!
Sessions on a node that buffers them, whatever becomes of the remote store.  The buffer takes every
write and is read first, so as long as the session is not evicted the remote store may answer
anything or nothing.
-/

namespace SessionVault.Buffer

variable {b b' : Buffer} {key : String} {now : Moment}

def InUse (b : Buffer) (key : String) (now : Moment) : Prop :=
  ∀ limit e, idleLimit? b.config = some limit → b.entries.get? key = some e →
    now - e.accessed ≤ limit.nanoseconds

theorem InUse.value?_evict {limit : Duration} (h : b.InUse key now)
    (hlimit : idleLimit? b.config = some limit) :
    (b.evict now limit).2.value? key = b.value? key := by
  simp only [Buffer.value?, evict, Table.get?_filter]
  cases he : b.entries.get? key with
  | none => rfl
  | some e => rw [Option.filter, if_pos (decide_eq_true (h limit e hlimit he))]

/-- Steps on a node while one key is in use.  The remote store may answer anything.  Before each
step, others may have moved the flag and the clocks of the jobs. -/
def Acts (key : String) : Script.Rules Act.Answer Buffer
  | .here s, b, x, b' => ∃ now b₀, b₀.entries = b.entries ∧ b₀.config = b.config ∧
      (s = .evict → b₀.InUse key now) ∧ step now s b₀ = (some x, b')
  | .remote _, b, _, b' => b' = b
  | .start _, b, _, b' => b' = b

def Act.sparesUsed : Act → Bool
  | .here (.put _ _) | .here (.drop _) => false
  | _ => true

theorem Acts.value? {r : Act} {x : r.Answer} (h : Acts key r b x b') (hr : r.sparesUsed = true) :
    b'.value? key = b.value? key := by
  cases r with
  | remote c => rw [h]
  | start job => rw [h]
  | here s =>
    obtain ⟨now, b₀, hentries, -, huse, hstep⟩ := h
    rw [← value?_congr hentries]
    cases s with
    | put | drop => cases hr
    | touch | value | contains | matching | names | flag | schedule =>
      exact value?_step rfl hstep key
    | evict =>
      simp only [step] at hstep
      split at hstep
      · cases hstep
      · next limit hlimit =>
        cases hstep
        exact (huse rfl).value?_evict hlimit

abbrev Held (key : String) : Script.Rules Act.Answer (Option Octets) :=
  Script.Rules.through (·.value? key) (Acts key)

variable {α : Type} {post : α → Option Octets → Prop} {v : Option Octets} {value : Octets}

theorem ensures_held_spares {r : Act} {f : r.Answer → Service α} (hr : r.sparesUsed = true)
    (h : ∀ x, (f x).Ensures (Held key) post v) :
    ((Script.request r : Service r.Answer).bind f).Ensures (Held key) post v := by
  rintro x v' ⟨b, b', hv, hv', hacts⟩
  have hsame : v' = v := hv'.symm.trans ((hacts.value? hr).trans hv)
  rw [hsame]
  exact h x

theorem ensures_held_put {f : Unit → Service α}
    (h : (f ()).Ensures (Held key) post (some value)) :
    ((here (.put key value)).bind f).Ensures (Held key) post v := by
  rintro x v' ⟨b, b', -, hv', now, b₀, -, -, -, hstep⟩
  cases hstep
  have hheld : v' = some value := hv'.symm.trans ((value?_put ..).trans (if_pos rfl))
  rw [hheld]
  exact h

theorem ensures_held_touch {f : Option Octets → Service α}
    (h : (f (some value)).Ensures (Held key) post (some value)) :
    ((here (.touch key)).bind f).Ensures (Held key) post (some value) := by
  rintro x v' ⟨b, b', hv, hv', hacts⟩
  have hsame : v' = some value := hv'.symm.trans ((hacts.value? rfl).trans hv)
  rw [hsame]
  obtain ⟨now, b₀, hentries, -, -, hstep⟩ := hacts
  rw [step_touch, (value?_congr hentries key).trans hv] at hstep
  cases hstep
  exact h

theorem ensures_held_startAll {f : Unit → Service α} (jobs : List Job)
    (h : (f ()).Ensures (Held key) post v) :
    ((startAll jobs).bind f).Ensures (Held key) post v := by
  induction jobs with
  | nil => exact h
  | cons job rest ih => exact ensures_held_spares rfl fun _ => ih

theorem ensures_held_set (key : String) (value : Octets) (v : Option Octets) :
    (set key value).Ensures (Held key) (fun x v' => x = .ok () ∧ v' = some value) v := by
  apply ensures_held_put
  apply ensures_held_spares rfl
  intro x
  cases x with
  | ok => exact ⟨rfl, rfl⟩
  | error e => exact ensures_held_spares rfl fun _ => ⟨rfl, rfl⟩

theorem ensures_held_expire (key other : String) (seconds : UInt64) (v : Option Octets) :
    (expire other seconds).Ensures (Held key) (fun _ v' => v' = v) v := by
  apply ensures_held_spares rfl
  intro x
  cases x with
  | ok => exact rfl
  | error e => exact ensures_held_spares rfl fun _ => rfl

theorem ensures_held_get (key : String) (value : Octets) :
    (get key).Ensures (Held key) (fun x v' => x = .ok (some value) ∧ v' = some value)
      (some value) := by
  apply ensures_held_spares rfl
  intro jobs
  apply ensures_held_startAll
  apply ensures_held_touch
  exact ⟨rfl, rfl⟩

def Served (key : String) : Script.Rules Command.Reply (Option Octets) :=
  fun c v x v' => (serve c).Runs (Held key) v x v'

theorem lasting_served (key : String) : Manager.Lasting (Served key) key id where
  set value v v' x h := h.ensures (ensures_held_set key value v)
  expire seconds v v' x h := h.ensures (ensures_held_expire key key seconds v)
  get value v v' x h hv := by
    cases (show v = some value from hv)
    exact h.ensures (ensures_held_get key value)

theorem ne_evict_of_serves {r : Act} {c : Command} (h : r.serves c = true) : r ≠ .here .evict := by
  rintro rfl
  cases h

def managed {β : Type} : (Nat → String) → Manager.Task β → Service β
  | _, .done a => .done a
  | ids, .ask (.store c) next => (serve c).bind fun x => managed ids (next x)
  | ids, .ask .newId next => managed (fun n => ids (n + 1)) (next (ids 0))

theorem asks_managed {β : Type} (ids : Nat → String) (p : Manager.Task β) :
    (managed ids p).Asks (· ≠ .here .evict) := by
  induction p generalizing ids with
  | done a => trivial
  | ask r next ih =>
    cases r with
    | store c =>
      have hc := (asks_serve c).mono fun _ => ne_evict_of_serves
      exact hc.bind fun x => ih x ids
    | newId => exact ih (ids 0) _

theorem ensures_managed {β σ : Type} {R : Script.Rules Act.Answer σ} {post : β → σ → Prop}
    {p : Manager.Task β} {s : σ} (ids : Nat → String)
    (h : p.Ensures (Manager.Acts fun c s x s' => (serve c).Runs R s x s') post s) :
    (managed ids p).Ensures R post s := by
  induction p generalizing ids s with
  | done a => exact h
  | ask r next ih =>
    cases r with
    | store c =>
      exact Script.ensures_bind.2 (Script.ensures_of_runs fun x s' hx => ih x ids (h x s' hx))
    | newId => exact ih (ids 0) _ (h (ids 0) s rfl)

theorem asks_runJob (order : Names → List String) (ttl : Duration) (job : Job) :
    (runJob order ttl job).Asks (·.sparesUsed) := by
  cases job with
  | resync =>
    have hspares : ∀ r : Act, r.sparesValues = true → r.sparesUsed = true := by
      intro r hr
      match r with
      | .here (.put _ _) | .here (.drop _) => cases hr
      | .here (.touch _) | .here (.value _) | .here (.contains _) | .here (.matching _)
      | .here .names | .here (.flag _) | .here .evict | .here .schedule | .remote _
      | .start _ => rfl
    exact ((asks_resyncIn order ttl).mono hspares).bind fun _ => trivial
  | expiry => exact ⟨rfl, fun _ => trivial⟩

theorem exists_answer {r : Act} (hr : r ≠ .here .evict) (b : Buffer) :
    ∃ x b', Acts key r b x b' := by
  cases r with
  | remote c => exact ⟨.error .interrupted, b, rfl⟩
  | start job => exact ⟨(), b, rfl⟩
  | here s =>
    have huse : s = .evict → b.InUse key 0 := fun h => absurd (congrArg Act.here h) hr
    cases s with
    | evict => exact absurd rfl hr
    | put | touch | value | contains | drop | matching | names | flag | schedule =>
      exact ⟨_, _, 0, b, rfl, rfl, huse, rfl⟩

open Manager (Client Visit Recalls AllStorable)

abbrev Crowd (ι : Type) : Type := Pool Act.Answer (Pool.Results ι (List Visit.Record) Unit) Buffer

/-- Whatever the remote store answers, and however its jobs come between, a buffer that does not
evict a session keeps it for its client: the client is never stuck, and each request finds the
session with the attributes and the principal that the one before has left. -/
theorem sessions_outlast_the_remote_store {ι : Type} (c : Client) (ids : Nat → String)
    (order : ι → Names → List String) (ttl : Duration) (jobs : ι → Job) (id : String) (b : Buffer)
    {p : Crowd ι}
    (h : Pool.Reaches (Acts (c.manager.key id))
      (.beside b (managed ids c.script) fun i => runJob (order i) ttl (jobs i)) p) :
    ((∃ log, p.parts none = .done log) ∨
      ∃ r x p', Pool.Step (Acts (c.manager.key id)) none r x p p') ∧
    ∀ log, p.parts none = .done log → log.head?.map (·.answer) = some (.ok (some id)) →
      c.manager.AllStorable log →
        log.length = c.visits.length + 1 ∧ log.IsChain (Recalls id) := by
  let start : Crowd ι := .beside b (managed ids c.script) fun i => runJob (order i) ttl (jobs i)
  have hothers : ∀ i, i ≠ none → (start.parts i).Asks fun r => ∀ b x b',
      Acts (c.manager.key id) r b x b' →
        b'.value? (c.manager.key id) = b.value? (c.manager.key id) := by
    intro i hi
    cases i with
    | none => exact absurd rfl hi
    | some i => exact (asks_runJob (order i) ttl (jobs i)).mono fun r hr b x b' hx => hx.value? hr
  have hclient : (start.parts none).Ensures (Held (c.manager.key id)) _ _ :=
    ensures_managed ids
      (c.ensures_script (lasting_served (c.manager.key id)) (b.value? (c.manager.key id)))
  refine ⟨?_, fun log hlog => ?_⟩
  · exact h.progress (asks_managed ids c.script) fun r hr b => exists_answer hr b
  · have hend := h.ensures hothers hclient
    rw [hlog] at hend
    exact hend

def severed : Script.Handler Act.Answer Buffer
  | .here .evict, b => (none, b)
  | .here s, b => step 0 s b
  | .remote _, b => (some (.error .interrupted), b)
  | .start _, b => (some (), b)

theorem acts_severed (key : String) (r : Act) (b : Buffer) (x : r.Answer) (b' : Buffer)
    (h : severed r b = (some x, b')) : Acts key r b x b' := by
  cases r with
  | remote c =>
    cases h
    rfl
  | start job =>
    cases h
    rfl
  | here s =>
    cases s with
    | evict => cases h
    | put | touch | value | contains | drop | matching | names | flag | schedule =>
      exact ⟨0, b, rfl, rfl, nofun, h⟩

def visitor : Client where
  manager := {}
  now := default
  requested := some "A"
  first := some [⟨.edit (.setPrincipal (some "alice")), rfl⟩]
  visits := [⟨default, [⟨.setAttribute "step" (.int64 2), rfl⟩]⟩, ⟨default, []⟩]

def isPlain (s : Session) : Bool :=
  s.attributes.entries.all (fun p => match p.2 with | .int64 _ => true | _ => false) &&
    s.body.depth < 128

theorem storable_of_isPlain {s : Session} (h : isPlain s = true) : Manager.Storable {} s := by
  rw [isPlain, Bool.and_eq_true, List.all_eq_true, decide_eq_true_eq] at h
  have hwhole : ∀ name a, s.attribute? name = some a → ∃ n, a = .int64 n := by
    intro name a ha
    have hp := h.1 (name, a) ((Table.get?_eq_some_iff _ _ _).1 ha)
    cases a with
    | int64 n => exact ⟨n, rfl⟩
    | _ => cases hp
  refine ⟨⟨fun name a ha => ?_, h.2⟩, fun name x hx => ?_⟩
  · obtain ⟨n, rfl⟩ := hwhole name a ha
    exact ⟨⟨.int64, rfl, rfl⟩, trivial⟩
  · obtain ⟨n, hn⟩ := hwhole name _ hx
    cases hn

def isPlainLog (id : String) (log : List Visit.Record) : Bool :=
  log.head?.map (·.answer) = some (.ok (some id)) && log.all fun r => r.left.all isPlain

theorem allStorable_of_isPlainLog {id : String} {log : List Visit.Record}
    (h : isPlainLog id log = true) :
    log.head?.map (·.answer) = some (.ok (some id)) ∧ Manager.AllStorable {} log := by
  rw [isPlainLog, Bool.and_eq_true, decide_eq_true_eq, List.all_eq_true] at h
  refine ⟨h.1, fun r hr s hs => storable_of_isPlain ?_⟩
  have hplain := h.2 r hr
  rw [hs] at hplain
  exact hplain

theorem visitor_is_served_all_along :
    ∃ p log, Pool.Reaches (Acts (visitor.manager.key "A"))
        (.beside (Buffer.new { ttl := .ofSeconds 60 } 0) (managed (fun _ => "") visitor.script)
          fun _ : Unit => runJob Table.names (.ofSeconds 60) .resync) p ∧
      p.parts none = .done log ∧ log.head?.map (·.answer) = some (.ok (some "A")) ∧
      visitor.manager.AllStorable log ∧ log.length = 3 ∧ log.IsChain (Recalls "A") := by
  let b : Buffer := Buffer.new { ttl := .ofSeconds 60 } 0
  let client : Service (List Visit.Record) := managed (fun _ => "") visitor.script
  let start : Crowd Unit := .beside b client fun _ => runJob Table.names (.ofSeconds 60) .resync
  have hclient : ((client.run severed b).1.any (isPlainLog "A")) = true := by decide +kernel
  have hjob : ((runJob Table.names (.ofSeconds 60) .resync).run severed
      (client.run severed b).2).1.isSome = true := by
    decide +kernel
  match hrun : client.run severed b with
  | (none, _) =>
    rw [hrun] at hclient
    cases hclient
  | (some log, b₁) =>
    rw [hrun] at hclient hjob
    match hrun' : (runJob Table.names (.ofSeconds 60) .resync).run severed b₁ with
    | (none, _) =>
      rw [hrun'] at hjob
      cases hjob
    | (some (), b₂) =>
      obtain ⟨hcreated, hstorable⟩ := allStorable_of_isPlainLog hclient
      let p₁ : Crowd Unit := ⟨b₁, Function.update start.parts none (.done log)⟩
      let p₂ : Crowd Unit := ⟨b₂, Function.update p₁.parts (some ()) (.done ())⟩
      have h₁ : Pool.Reaches (Acts (visitor.manager.key "A")) start p₁ :=
        Pool.reaches_of_runs start none (f := .done) (Script.runs_of_run (acts_severed _) hrun)
          (Script.bind_done _).symm
      have h₂ : Pool.Reaches (Acts (visitor.manager.key "A")) p₁ p₂ :=
        Pool.reaches_of_runs p₁ (some ()) (f := .done)
          (Script.runs_of_run (acts_severed _) hrun') (Script.bind_done _).symm
      have h : Pool.Reaches (Acts (visitor.manager.key "A")) start p₂ := h₁.trans h₂
      have hend : p₂.parts none = .done log := rfl
      obtain ⟨-, hlog⟩ :=
        sessions_outlast_the_remote_store visitor (fun _ => "") (fun _ => Table.names)
          (.ofSeconds 60) (fun _ => .resync) "A" b h
      obtain ⟨hlength, hchain⟩ := hlog log hend hcreated hstorable
      exact ⟨p₂, log, h, hend, hcreated, hstorable, hlength, hchain⟩

end SessionVault.Buffer
