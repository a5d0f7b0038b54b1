import SessionVault.Buffer.Service
import SessionVault.Proofs.Script
import SessionVault.Proofs.Store.Contents

/-!
A buffered store forgets no write: as long as the flag for missed writes is down, the remote store
holds whatever is held here, with the same values.
-/

namespace SessionVault.Buffer

theorem value?_put (b : Buffer) (now : Moment) (key other : String) (value : Octets) :
    (b.put now key value).value? other = if key = other then some value else b.value? other := by
  simp only [Buffer.value?, Buffer.put, Table.get?_insert]
  split <;> rfl

theorem value?_drop (b : Buffer) (key other : String) :
    (b.drop key).value? other = if other = key then none else b.value? other := by
  simp only [Buffer.value?, Buffer.drop, Table.get?_erase]
  split <;> rfl

theorem step_touch (b : Buffer) (now : Moment) (key : String) :
    step now (.touch key) b = (some (b.value? key), (b.touch now key).2) := by
  simp only [step, touch, Buffer.value?]
  cases b.entries.get? key <;> rfl

theorem value?_congr {b b' : Buffer} (h : b'.entries = b.entries) (key : String) :
    b'.value? key = b.value? key := by
  rw [Buffer.value?, h, Buffer.value?]

theorem contains_eq (b : Buffer) (key : String) : b.contains key = (b.value? key).isSome := by
  rw [Buffer.value?, Option.isSome_map]
  rfl

structure Within (b' b : Buffer) : Prop where
  flag : b'.needsResync = b.needsResync
  value {key : String} {value : Octets} : b'.value? key = some value → b.value? key = some value

theorem Within.refl (b : Buffer) : b.Within b := ⟨rfl, id⟩

theorem within_drop (b : Buffer) (key : String) : (b.drop key).Within b := by
  refine ⟨rfl, fun {other value} h => ?_⟩
  rw [value?_drop] at h
  split at h
  · cases h
  · exact h

theorem value?_touch (b : Buffer) (now : Moment) (key other : String) :
    (b.touch now key).2.value? other = b.value? other := by
  rw [touch]
  split
  · rfl
  · next e he =>
    rw [value?_put]
    split
    · next hk => rw [← hk, Buffer.value?, he, Option.map_some]
    · rfl

theorem within_touch (b : Buffer) (now : Moment) (key : String) : (b.touch now key).2.Within b := by
  refine ⟨?_, fun {other value} h => b.value?_touch now key other ▸ h⟩
  rw [touch]
  split <;> rfl

theorem within_evict (b : Buffer) (now : Moment) (limit : Duration) :
    (b.evict now limit).2.Within b := by
  refine ⟨rfl, fun {key value} h => ?_⟩
  simp only [Buffer.value?, evict, Table.get?_filter, Option.map_eq_some_iff,
    Option.filter_eq_some_iff] at h ⊢
  obtain ⟨e, he, hv⟩ := h
  exact ⟨e, he.1, hv⟩

def Step.onlyDrops : Step → Bool
  | .put _ _ | .flag _ => false
  | _ => true

theorem step_within {s : Step} {now : Moment} {b b' : Buffer} {x : s.Answer}
    (hs : s.onlyDrops = true) (h : step now s b = (some x, b')) : b'.Within b := by
  cases s with
  | put | flag => cases hs
  | touch key =>
    cases h
    exact within_touch b now key
  | value | contains | matching | names =>
    cases h
    exact .refl b
  | drop key =>
    cases h
    exact within_drop b key
  | evict =>
    simp only [step] at h
    split at h
    · cases h
    · cases h
      exact within_evict b now _
  | schedule =>
    cases h
    exact ⟨rfl, id⟩

structure Node where
  buffer : Buffer
  store : Contents

namespace Node

/-- What the parts of a buffered operation do.  The remote store answers or fails; a job that is
started runs at another time. -/
def Acts : Script.Rules Act.Answer Node
  | .here s, n, x, n' =>
    (∃ now, step now s n.buffer = (some x, n'.buffer)) ∧ n'.store = n.store
  | .remote c, n, x, n' => Contents.Serves c n.store x n'.store ∧ n'.buffer = n.buffer
  | .start _, n, _, n' => n' = n

def Mirrors (n : Node) (key : String) : Prop :=
  ∀ value, n.buffer.value? key = some value → n.store.get? key = some value

/-- Unless the flag is raised, the remote store lacks at most some values that are yet to come. -/
def Covered (n : Node) (pending : List String) : Prop :=
  n.buffer.needsResync = true ∨ ∀ key, key ∉ pending → n.Mirrors key

variable {n n' : Node} {b : Buffer} {t : Contents} {key : String} {pending : List String}
variable {α : Type} {post : α → Node → Prop}

theorem ensures_here {s : Step} {f : s.Answer → Service α}
    (h : ∀ now x b, step now s n.buffer = (some x, b) → (f x).Ensures Acts post ⟨b, n.store⟩) :
    ((here s).bind f).Ensures Acts post n := by
  intro x n' hx
  obtain ⟨⟨now, hstep⟩, hstore⟩ := hx
  have hf := h now x n'.buffer hstep
  rw [← hstore] at hf
  exact hf

theorem ensures_remote {c : Command} {f : c.Reply → Service α}
    (hanswer : (f (n.store.answer c).1).Ensures Acts post ⟨n.buffer, (n.store.answer c).2⟩)
    (hfail : ∀ e, (f (.error e)).Ensures Acts post n) :
    ((remote c).bind f).Ensures Acts post n := by
  intro x n' hx
  obtain ⟨hserves, hbuffer⟩ := hx
  obtain ⟨b, t⟩ := n'
  cases hbuffer
  cases hserves with
  | answered => exact hanswer
  | failed e => exact hfail e

theorem Covered.flagged (h : n.buffer.needsResync = true) : n.Covered pending := .inl h

theorem ensures_degrade {f : Unit → Service α}
    (h : (f ()).Ensures Acts post ⟨{ n.buffer with needsResync := true }, n.store⟩) :
    (degrade.bind f).Ensures Acts post n := by
  apply ensures_here
  intro now x b hb
  cases hb
  exact h

theorem covered_degrade (a : α) :
    (degrade.bind fun _ => .done a).Ensures Acts (fun _ n' => n'.Covered pending) n :=
  ensures_degrade (.flagged rfl)

theorem Covered.within (h : n.Covered pending) (hb : b.Within n.buffer) :
    Covered ⟨b, n.store⟩ pending := by
  cases h with
  | inl h => exact .inl (hb.flag.trans h)
  | inr h => exact .inr fun key hk value hv => h key hk value (hb.value hv)

theorem Covered.answer {c : Command} (h : n.Covered pending) :
    Covered ⟨n.buffer, (n.store.answer c).2⟩ (c.key :: pending) := by
  cases h with
  | inl h => exact .inl h
  | inr h =>
    refine .inr fun key hk value hv => ?_
    rw [List.mem_cons, not_or] at hk
    exact (Contents.get?_answer_of_ne hk.1).trans (h key hk.2 value hv)

theorem Covered.put (h : n.Covered pending) (now : Moment) (key : String) (value : Octets) :
    Covered ⟨n.buffer.put now key value, n.store⟩ (key :: pending) := by
  cases h with
  | inl h => exact .inl h
  | inr h =>
    refine .inr fun other hk v hv => ?_
    rw [List.mem_cons, not_or] at hk
    rw [value?_put, if_neg (Ne.symm hk.1)] at hv
    exact h other hk.2 v hv

theorem Covered.settle (h : n.Covered pending) (key : String) {rest : List String}
    (hk : n.Mirrors key) (hrest : ∀ other ∈ pending, other = key ∨ other ∈ rest) : n.Covered rest := by
  cases h with
  | inl h => exact .inl h
  | inr h =>
    refine .inr fun other ho => ?_
    by_cases he : other = key
    · exact he ▸ hk
    · exact h other fun hm => (hrest other hm).elim he ho

theorem Covered.store (h : n.Covered pending) (now : Moment) (key : String) (value : Octets) :
    Covered ⟨n.buffer.put now key value, n.store.insert key value⟩ pending := by
  have hc := (h.put now key value).answer (c := .set key value)
  refine hc.settle key ?_ (by simp [Command.key])
  intro v hv
  rw [value?_put, if_pos rfl] at hv
  cases hv
  exact Table.get?_insert_self _ _ _

abbrev Keeps (p : Service α) : Prop :=
  ∀ n : Node, n.Covered [] → p.Ensures Acts (fun _ n' => n'.Covered []) n

theorem keeps_set (key : String) (value : Octets) : Keeps (set key value) := by
  intro n h
  apply ensures_here
  intro now x b hb
  cases hb
  apply ensures_remote
  · exact h.store now key value
  · exact fun e => covered_degrade _

theorem keeps_setIfAbsent (key : String) (value : Octets) : Keeps (setIfAbsent key value) := by
  intro n h
  apply ensures_remote
  · simp only [Contents.answer]
    cases n.store.contains key with
    | true => exact h
    | false =>
      apply ensures_here
      intro now x b hb
      cases hb
      exact h.store now key value
  · intro e
    apply ensures_degrade
    apply ensures_here
    intro now held b hb
    have hflag := (step_within rfl hb).flag
    cases held with
    | true => exact .flagged hflag
    | false =>
      apply ensures_here
      intro now x b' hb'
      cases hb'
      exact .flagged hflag

theorem keeps_expire (key : String) (seconds : UInt64) : Keeps (expire key seconds) := by
  intro n h
  apply ensures_remote
  · exact h
  · exact fun e => covered_degrade _

theorem keeps_startAll {f : Unit → Service α} (jobs : List Job) (hf : Keeps (f ())) :
    Keeps ((startAll jobs).bind f) := by
  induction jobs with
  | nil => exact hf
  | cons job rest ih =>
    intro n h x n' hx
    cases hx
    exact ih n h

theorem keeps_get (key : String) : Keeps (get key) := by
  intro n h
  apply ensures_here
  intro now jobs b hb
  have hc := h.within (step_within rfl hb)
  refine keeps_startAll jobs ?_ _ hc
  intro n h
  apply ensures_here
  intro now value b hb
  have hc := h.within (step_within rfl hb)
  cases value with
  | some value => exact hc
  | none =>
    apply ensures_remote
    · exact hc
    · exact fun e => covered_degrade _

theorem keeps_delete (key : String) : Keeps (delete key) := by
  intro n h
  apply ensures_here
  intro now held b hb
  cases hb
  apply ensures_remote
  · have hc := (h.within (within_drop n.buffer key)).answer (c := .delete key)
    refine hc.settle key ?_ (by simp [Command.key])
    intro v hv
    rw [value?_drop, if_pos rfl] at hv
    cases hv
  · exact fun e => covered_degrade _

theorem keeps_existsKey (key : String) : Keeps (existsKey key) := by
  intro n h
  apply ensures_here
  intro now held b hb
  have hc := h.within (step_within rfl hb)
  cases held with
  | true => exact hc
  | false =>
    apply ensures_remote
    · exact hc
    · exact fun e => hc

theorem keeps_matching (pattern : String) : Keeps (matching pattern) := by
  intro n h
  have hheld : (degrade.bind fun _ => here (.matching pattern)).Ensures Acts
      (fun _ n' => n'.Covered []) n := by
    apply ensures_degrade
    apply ensures_here
    intro now x b hb
    exact .flagged (step_within rfl hb).flag
  apply ensures_remote
  -- A bad pattern is refused by the remote store, and then it is tried here.
  · cases (n.store.answer (.keys pattern)).1 with
    | ok names => exact h
    | error e => exact hheld
  · exact fun e => hheld

theorem keeps_serve (c : Command) : Keeps (serve c) := by
  cases c with
  | set key value => exact keeps_set key value
  | setIfAbsent key value => exact keeps_setIfAbsent key value
  | expire key seconds => exact keeps_expire key seconds
  | get key => exact keeps_get key
  | delete key => exact keeps_delete key
  | «exists» key => exact keeps_existsKey key
  | keys pattern => exact keeps_matching pattern

theorem mirrors_of_value?_eq_none (h : n.buffer.value? key = none) : n.Mirrors key := by
  intro value hv
  rw [h] at hv
  cases hv

theorem ensures_repair {ttl : UInt64} {value : Octets} (passes : Nat)
    (h : n.Covered (key :: pending)) (hv : n.buffer.value? key = some value) :
    (repair key ttl (passes + 1) value).Ensures Acts
      (fun r n' => r = .ok () → n'.Covered pending) n := by
  apply ensures_remote
  · have hm : Mirrors ⟨n.buffer, n.store.insert key value⟩ key := by
      intro v hk
      rw [hv] at hk
      cases hk
      exact Table.get?_insert_self _ _ _
    have hc : Covered ⟨n.buffer, n.store.insert key value⟩ pending :=
      (h.answer (c := .set key value)).settle key hm (by simp [Command.key])
    apply ensures_remote
    · apply ensures_here
      intro now x b hb
      cases hb
      simp only [hv]
      exact fun _ => hc
    · exact fun e => nofun
  · exact fun e => nofun

theorem ensures_repairKey {ttl : UInt64} (h : n.Covered (key :: pending)) :
    (repairKey key ttl).Ensures Acts
      (fun r n' => ∀ held, r = .ok held → n'.Covered pending) n := by
  apply ensures_here
  intro now x b hb
  cases hb
  cases hv : n.buffer.value? key with
  | none => exact fun _ _ => h.settle key (mirrors_of_value?_eq_none hv) (by simp)
  | some value =>
    refine Script.ensures_bind.2 ((ensures_repair 2 h hv).mono ?_)
    intro r n' hr
    cases r with
    | error e => exact fun _ => nofun
    | ok => exact fun _ _ => hr rfl

theorem ensures_repairAll {ttl : UInt64} (written : Nat) (h : n.Covered pending) :
    (repairAll ttl written pending).Ensures Acts (fun _ n' => n'.Covered []) n := by
  induction pending generalizing n written with
  | nil => exact h
  | cons key rest ih =>
    refine Script.ensures_bind.2 ((ensures_repairKey h).mono ?_)
    intro r n' hr
    cases r with
    | ok held =>
      cases held with
      | true => exact ih (written + 1) (hr true rfl)
      | false => exact ih written (hr false rfl)
    | error e =>
      apply ensures_here
      intro now x b hb
      cases hb
      exact .flagged rfl

theorem value?_of_not_mem_names {b : Buffer} (h : key ∉ (b.entries.map fun _ => ()).names) :
    b.value? key = none := by
  rw [Table.mem_names_iff, Table.contains_map, Table.contains] at h
  simpa [Buffer.value?] using h

theorem keeps_resyncIn {order : Names → List String}
    (horder : ∀ names : Names, ∀ name ∈ names.names, name ∈ order names) (ttl : Duration) :
    Keeps (resyncIn order ttl) := by
  intro n _
  apply ensures_here
  intro now x b hb
  cases hb
  apply ensures_here
  intro now names b hb
  cases hb
  apply ensures_repairAll
  refine .inr fun key hk => ?_
  exact mirrors_of_value?_eq_none (value?_of_not_mem_names fun hname => hk (horder _ key hname))

theorem keeps_sweep : Keeps sweep := by
  intro n h
  apply ensures_here
  intro now x b hb
  exact h.within (step_within rfl hb)

/-- The states that a buffered store gets into when its operations and jobs run one at a time. -/
inductive Reaches (start : Node) : Node → Prop where
  | start : Reaches start start
  | command {n n' : Node} (c : Command) (reply : c.Reply) :
      Reaches start n → (serve c).Runs Acts n reply n' → Reaches start n'
  | resync {n n' : Node} (order : Names → List String)
      (horder : ∀ names : Names, ∀ name ∈ names.names, name ∈ order names) (ttl : Duration)
      (written : Nat) :
      Reaches start n → (resyncIn order ttl).Runs Acts n written n' → Reaches start n'
  | sweep {n n' : Node} (dropped : Nat) :
      Reaches start n → sweep.Runs Acts n dropped n' → Reaches start n'
  | ended {n : Node} (job : Job) :
      Reaches start n → Reaches start { n with buffer := n.buffer.finish job }

theorem covered_new (config : BufferConfig) (now : Moment) (t : Contents) :
    Covered ⟨Buffer.new config now, t⟩ [] :=
  .inr fun _ _ _ => nofun

theorem within_finish (b : Buffer) (job : Job) : (b.finish job).Within b := by
  cases job <;> exact ⟨rfl, id⟩

theorem Reaches.covered {start : Node} (h : Reaches start n) (hs : start.Covered []) :
    n.Covered [] := by
  induction h with
  | start => exact hs
  | command c reply _ hrun ih => exact hrun.ensures (keeps_serve c _ ih)
  | resync order horder ttl written _ hrun ih =>
    exact hrun.ensures (keeps_resyncIn horder ttl _ ih)
  | sweep dropped _ hrun ih => exact hrun.ensures (keeps_sweep _ ih)
  | ended job _ ih => exact ih.within (within_finish _ job)

/-- No write that the remote store missed is forgotten. -/
theorem missed_writes_are_flagged (config : BufferConfig) (now : Moment) (t : Contents)
    (h : Reaches ⟨Buffer.new config now, t⟩ n) :
    n.buffer.needsResync = true ∨
      ∀ key value, n.buffer.value? key = some value → n.store.get? key = some value := by
  cases h.covered (covered_new config now t) with
  | inl hflag => exact .inl hflag
  | inr hall => exact .inr fun key => hall key (by simp)

theorem missed_write_is_mended :
    ∃ n, Reaches ⟨Buffer.new { ttl := .ofSeconds 60 } 0, .empty⟩ n ∧ n.buffer.needsResync = false ∧
      n.buffer.value? "a" = some [1] ∧
      (n.buffer.needsResync = true ∨
        ∀ key value, n.buffer.value? key = some value → n.store.get? key = some value) := by
  let start : Node := ⟨Buffer.new { ttl := .ofSeconds 60 } 0, .empty⟩
  let held : Node := ⟨start.buffer.put 5 "a" [1], .empty⟩
  let missed : Node := ⟨{ held.buffer with needsResync := true }, .empty⟩
  let mended : Node := ⟨held.buffer, .insert .empty "a" [1]⟩
  have hput : Acts (.here (.put "a" [1])) start () held := ⟨⟨5, rfl⟩, rfl⟩
  have hmiss : Acts (.remote (.set "a" [1])) held (.error .interrupted) held := ⟨.failed _, rfl⟩
  have hraise : Acts (.here (.flag true)) held () missed := ⟨⟨5, rfl⟩, rfl⟩
  have hset : (serve (.set "a" [1])).Runs Acts start (.ok ()) missed :=
    .ask hput (.ask hmiss (.ask hraise (.done _ _)))
  have hlower : Acts (.here (.flag false)) missed () held := ⟨⟨6, rfl⟩, rfl⟩
  have hnames : Acts (.here .names) held (.insert .empty "a" ()) held := ⟨⟨6, rfl⟩, rfl⟩
  have hlook : Acts (.here (.value "a")) held (some [1]) held := ⟨⟨6, rfl⟩, rfl⟩
  have hwrite : Acts (.remote (.set "a" [1])) held (.ok ()) mended := ⟨.answered, rfl⟩
  have hrenew : Acts (.remote (.expire "a" 60)) mended (.ok true) mended := ⟨.answered, rfl⟩
  have hsame : Acts (.here (.value "a")) mended (some [1]) mended := ⟨⟨6, rfl⟩, rfl⟩
  have hresync : (resyncIn Table.names (.ofSeconds 60)).Runs Acts missed 1 mended :=
    .ask hlower (.ask hnames (.ask hlook (.ask hwrite (.ask hrenew (.ask hsame (.done _ _))))))
  have h : Reaches start mended :=
    .resync Table.names (fun _ _ => id) (.ofSeconds 60) 1 (.command _ _ .start hset) hresync
  exact ⟨mended, h, rfl, rfl, missed_writes_are_flagged _ _ _ h⟩

end Node

end SessionVault.Buffer
