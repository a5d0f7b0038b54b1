import SessionVault.Proofs.Buffer.Removal
import SessionVault.Proofs.Pool

namespace SessionVault.Buffer

def Act.sets (key : String) : Act → Bool
  | .remote (.set other _) => other = key
  | _ => false

def Act.deletes (key : String) : Act → Bool
  | .remote (.delete other) => other = key
  | _ => false

def Act.drops (key : String) : Act → Bool
  | .here (.drop other) => other = key
  | _ => false

theorem Act.writes_of_sets {r : Act} {key : String} (h : r.sets key = true) :
    r.writes key = true := by
  match r with
  | .remote (.set _ _) => exact h

def Act.reveals (key : String) : (r : Act) → r.Answer → Bool
  | .here (.value other), some _ => other = key
  | _, _ => false

namespace Node

abbrev Log : Type := Script.History Act.Answer Node

def Attended : Script.Rules Act.Answer Node
  | .here s, n, x, n' =>
    (∃ now, step now s n.buffer = (some x, n'.buffer)) ∧ n'.store = n.store
  | .remote c, n, x, n' => n.store.answer c = (x, n'.store) ∧ n'.buffer = n.buffer
  | .start _, n, _, n' => n' = n

/-- A value of the key was seen here before all deletions. -/
def Seized (key : String) (log : Log) : Prop :=
  ∃ later look earlier, log = later ++ look :: earlier ∧
    look.request.reveals key look.answer = true ∧ earlier.any (·.request.drops key) = false

/-- The key was written to the remote store after all deletions, because of a value that was seen
here before all of them. -/
def Overtaken (key : String) (log : Log) : Prop :=
  ∃ later write earlier, log = later ++ write :: earlier ∧
    write.request.sets key = true ∧ later.any (·.request.deletes key) = false ∧ Seized key earlier

variable {key : String} {log : Log} {n n' : Node}

theorem seized_cons {e : Script.Event Act.Answer Node} :
    Seized key (e :: log) ↔
      e.request.reveals key e.answer = true ∧ log.any (·.request.drops key) = false ∨
        Seized key log := by
  constructor
  · rintro ⟨later, look, earlier, hlog, h⟩
    obtain ⟨rfl, hrest⟩ | ⟨later, rfl, hrest⟩ := List.cons_eq_append_iff.1 hlog
    · obtain ⟨rfl, rfl⟩ := List.cons.inj hrest
      exact .inl h
    · exact .inr ⟨later, look, earlier, hrest, h⟩
  · rintro (h | ⟨later, look, earlier, rfl, h⟩)
    · exact ⟨[], e, log, rfl, h⟩
    · exact ⟨e :: later, look, earlier, rfl, h⟩

theorem overtaken_cons {e : Script.Event Act.Answer Node} :
    Overtaken key (e :: log) ↔
      e.request.sets key = true ∧ Seized key log ∨
        e.request.deletes key = false ∧ Overtaken key log := by
  constructor
  · rintro ⟨later, write, earlier, hlog, hset, hlater, hseized⟩
    obtain ⟨rfl, hrest⟩ | ⟨later, rfl, hrest⟩ := List.cons_eq_append_iff.1 hlog
    · obtain ⟨rfl, rfl⟩ := List.cons.inj hrest
      exact .inl ⟨hset, hseized⟩
    · rw [List.any_cons, Bool.or_eq_false_iff] at hlater
      exact .inr ⟨hlater.1, later, write, earlier, hrest, hset, hlater.2, hseized⟩
  · rintro (⟨hset, hseized⟩ | ⟨he, later, write, earlier, rfl, hset, hlater, hseized⟩)
    · exact ⟨[], e, log, rfl, hset, rfl, hseized⟩
    · refine ⟨e :: later, write, earlier, rfl, hset, ?_, hseized⟩
      rw [List.any_cons, he, hlater, Bool.or_self]

structure Traced (key : String) (s : Node × Log) : Prop where
  here : s.2.any (·.request.drops key) = true → s.1.buffer.value? key = none
  there : s.2.any (·.request.deletes key) = true →
    ((s.1.store.get? key).isSome = true ↔ Overtaken key s.2)

theorem traced_nil (key : String) (n : Node) : Traced key (n, []) := ⟨nofun, nofun⟩

variable {r : Act} {x : r.Answer}

theorem Attended.value?_of_drops (hx : Attended r n x n') (hr : r.drops key = true) :
    n'.buffer.value? key = none := by
  match r, hr with
  | .here (.drop other), hr =>
    obtain ⟨⟨now, hstep⟩, -⟩ := hx
    have hbuffer : n.buffer.drop other = n'.buffer := congrArg Prod.snd hstep
    rw [← hbuffer, value?_drop, if_pos (of_decide_eq_true hr).symm]

theorem Attended.value?_of_none (hx : Attended r n x n')
    (hr : r.writes key = true → r.sets key = true) (hnone : n.buffer.value? key = none) :
    n'.buffer.value? key = none := by
  cases r with
  | start job =>
    obtain rfl : n' = n := hx
    exact hnone
  | remote c => exact (congrArg (·.value? key) hx.2).trans hnone
  | here s =>
    obtain ⟨⟨now, hstep⟩, -⟩ := hx
    exact value?_step_of_not_writes (Bool.eq_false_iff.2 fun h => nomatch hr h) hstep hnone

theorem Attended.isSome_get? (hx : Attended r n x n')
    (hr : r.writes key = true → r.sets key = true) :
    (n'.store.get? key).isSome =
      (r.sets key || !r.deletes key && (n.store.get? key).isSome) := by
  cases r with
  | start job =>
    obtain rfl : n' = n := hx
    rfl
  | here s =>
    rw [hx.2]
    rfl
  | remote c =>
    have hstore : (n.store.answer c).2 = n'.store := congrArg Prod.snd hx.1
    rw [← hstore]
    cases c with
    | set other value =>
      change ((n.store.insert other value).get? key).isSome =
        (decide (other = key) || (n.store.get? key).isSome)
      rw [Table.get?_insert]
      by_cases hk : other = key <;> simp [hk]
    | setIfAbsent other value =>
      have hk : other ≠ key := fun h => nomatch hr (decide_eq_true h)
      exact congrArg Option.isSome (Contents.get?_answer_of_ne (Ne.symm hk))
    | delete other =>
      change ((n.store.erase other).get? key).isSome =
        (!decide (other = key) && (n.store.get? key).isSome)
      rw [Table.get?_erase]
      by_cases hk : key = other
      · simp [hk]
      · simp [hk, Ne.symm hk]
    | expire | get | «exists» | keys => rfl

theorem Traced.act {s s' : Node × Log} (hs : Traced key s) (hx : Attended.logged r s x s')
    (hr : r.writes key = true → r.sets key = true) (hseized : r.sets key = true → Seized key s.2) :
    Traced key s' := by
  obtain ⟨n, log⟩ := s
  obtain ⟨n', log'⟩ := s'
  obtain ⟨hx, hlog⟩ := hx
  obtain rfl : log' = ⟨r, x, n'⟩ :: log := hlog
  refine ⟨fun hdrops => ?_, fun hdeletes => ?_⟩
  · rw [List.any_cons, Bool.or_eq_true] at hdrops
    cases hdrops with
    | inl h => exact hx.value?_of_drops h
    | inr h => exact hx.value?_of_none hr (hs.here h)
  · -- The record and the remote store go by the same rule, the latest act first.
    rw [overtaken_cons, hx.isSome_get? hr, Bool.or_eq_true, Bool.and_eq_true, Bool.not_eq_true']
    refine or_congr ⟨fun h => ⟨h, hseized h⟩, And.left⟩ (and_congr_right fun hkept => ?_)
    rw [List.any_cons, hkept, Bool.false_or] at hdeletes
    exact hs.there hdeletes

theorem Traced.seized {s s' : Node × Log} (hs : Traced key s) (hx : Attended.logged r s x s')
    (hr : r.reveals key x = true) : Seized key s'.2 := by
  obtain ⟨hx, hlog⟩ := hx
  rw [hlog, seized_cons]
  refine .inl ⟨hr, Bool.eq_false_iff.2 fun hdrops => ?_⟩
  match r, x, hr with
  | .here (.value other), some value, hr =>
    obtain ⟨⟨now, hstep⟩, -⟩ := hx
    have hvalue : s.1.buffer.value? other = some value :=
      Option.some.inj (congrArg Prod.fst hstep)
    rw [of_decide_eq_true hr, hs.here hdrops] at hvalue
    cases hvalue

end Node

variable {key : String}

theorem Act.sets_of_repairs {r : Act} {other : String} (h : r.repairs other = true)
    (hw : r.writes key = true) : r.sets key = true := by
  match r with
  | .remote (.set _ _) => exact hw
  | .here (.put _ _) | .remote (.setIfAbsent _ _) => cases h

theorem awaits_repairKey (key other : String) (ttl : UInt64) :
    (repairKey other ttl).Awaits (fun r x => r.reveals key x = true)
      (fun r => r.writes key = true) := by
  by_cases hk : other = key
  · refine ⟨nofun, fun x => ?_⟩
    cases x with
    | none => exact .inr trivial
    -- Whatever the passes that follow write, a value of the key has been seen.
    | some value => exact .inl (decide_eq_true hk)
  · refine Script.Asks.awaits ((asks_repairKey other ttl).mono fun r hr => ?_)
    exact Bool.eq_false_iff.1 (Act.writes_of_repairs hk hr)

theorem awaits_repairAll (key : String) (ttl : UInt64) (keys : List String) (written : Nat) :
    (repairAll ttl written keys).Awaits (fun r x => r.reveals key x = true)
      (fun r => r.writes key = true) := by
  induction keys generalizing written with
  | nil => trivial
  | cons other rest ih =>
    refine (awaits_repairKey key other ttl).bind fun x => ?_
    cases x with
    | error e => exact ⟨nofun, fun _ => .inr trivial⟩
    | ok held => cases held <;> exact ih _

theorem awaits_resyncIn (order : Names → List String) (ttl : Duration) (key : String) :
    (resyncIn order ttl).Awaits (fun r x => r.reveals key x = true)
      (fun r => r.writes key = true) :=
  ⟨nofun, fun _ => .inr ⟨nofun, fun names => .inr (awaits_repairAll key ttl.seconds (order names) 0)⟩⟩

theorem asks_resyncIn_sets (order : Names → List String) (ttl : Duration) (key : String) :
    (resyncIn order ttl).Asks fun r => r.writes key = true → r.sets key = true :=
  ⟨nofun, fun _ => ⟨nofun, fun names =>
    asks_repairAll (fun _ _ => Act.sets_of_repairs) ttl.seconds (order names) 0⟩⟩

theorem asks_serve_spares {c : Command} (hc : c.writes key = false) :
    (serve c).Asks fun r => ¬ r.writes key = true :=
  (asks_serve c).mono fun _ h => Bool.eq_false_iff.1 (Act.writes_of_serves hc h)

theorem owes_delete {c : Command} (hc : c = .delete key) :
    (serve c).Owes (·.deletes key = true) := by
  subst hc
  exact .inr fun _ => .inl (decide_eq_true rfl)

namespace Node

variable {ι : Type} {commands : ι → Command}

abbrev Returns (commands : ι → Command) : Option ι → Type
  | none => Nat
  | some i => (commands i).Reply

abbrev Throng (commands : ι → Command) : Type := Pool Act.Answer (Returns commands) (Node × Log)

def throng (s : Node × Log) (resync : Service Nat)
    (operations : (i : ι) → Service (commands i).Reply) : Throng commands where
  shared := s
  parts
    | none => resync
    | some i => operations i

structure Behaves (key : String) (commands : ι → Command) (i : Option ι)
    (p : Service (Returns commands i)) (s : Node × Log) : Prop where
  plain : p.Asks fun r => r.writes key = true → r.sets key = true
  awaits : Seized key s.2 ∨
    p.Awaits (fun r x => r.reveals key x = true) (fun r => r.writes key = true)
  deletes (j : ι) : i = some j → commands j = .delete key →
    s.2.any (·.request.deletes key) = true ∨ p.Owes (·.deletes key = true)

theorem behaves_throng (hcommands : ∀ i, (commands i).writes key = false) (n : Node)
    (order : Names → List String) (ttl : Duration) (i : Option ι) :
    Behaves key commands i
      ((throng (n, []) (resyncIn order ttl) fun i => serve (commands i)).parts i) (n, []) := by
  cases i with
  | none => exact ⟨asks_resyncIn_sets order ttl key, .inr (awaits_resyncIn order ttl key), nofun⟩
  | some i =>
    have hspares := asks_serve_spares (hcommands i)
    refine ⟨hspares.mono fun _ h hw => absurd hw h, .inr hspares.awaits, ?_⟩
    rintro j ⟨⟩ hi
    exact .inr (owes_delete hi)

theorem Behaves.own {i : Option ι} {next : r.Answer → Service (Returns commands i)}
    {s s' : Node × Log} (hx : Attended.logged r s x s') (hs : Traced key s)
    (h : Behaves key commands i (.ask r next) s) :
    Traced key s' ∧ Behaves key commands i (next x) s' := by
  have hlog : s'.2 = ⟨r, x, s'.1⟩ :: s.2 := hx.2
  have hseized (hset : r.sets key = true) : Seized key s.2 :=
    h.awaits.resolve_right fun hawaits => hawaits.1 (Act.writes_of_sets hset)
  refine ⟨hs.act hx h.plain.1 hseized, h.plain.2 x, ?_, fun j hj hdelete => ?_⟩
  · obtain hbefore | hawaits := h.awaits
    · rw [hlog, seized_cons]
      exact .inl (.inr hbefore)
    · exact (hawaits.2 x).imp_left (hs.seized hx)
  · rw [hlog, List.any_cons, Bool.or_eq_true]
    obtain hbefore | howes | howes := h.deletes j hj hdelete
    · exact .inl (.inr hbefore)
    · exact .inl (.inl howes)
    · exact .inr (howes x)

theorem Behaves.others {i : Option ι} {p : Service (Returns commands i)} {s s' : Node × Log}
    (hx : Attended.logged r s x s') (h : Behaves key commands i p s) :
    Behaves key commands i p s' := by
  have hlog : s'.2 = ⟨r, x, s'.1⟩ :: s.2 := hx.2
  refine ⟨h.plain, h.awaits.imp_left fun hbefore => ?_, fun j hj hdelete => ?_⟩
  · rw [hlog, seized_cons]
    exact .inr hbefore
  · refine (h.deletes j hj hdelete).imp_left fun hbefore => ?_
    rw [hlog, List.any_cons, hbefore, Bool.or_true]

/-- Beside a resync a key may be deleted, though not written.  Once a deletion has ended, the remote
store holds the key if and only if the resync has written it after all deletions, because of a value
that it had seen before all of them. -/
theorem deleted_key_is_revived_iff (hcommands : ∀ i, (commands i).writes key = false)
    {n : Node} {order : Names → List String} {ttl : Duration} {p : Throng commands}
    (h : Pool.Reaches Attended.logged
      (throng (n, []) (resyncIn order ttl) fun i => serve (commands i)) p)
    (i : ι) (hi : commands i = .delete key) {x : (commands i).Reply}
    (hdone : p.parts (some i) = .done x) :
    (p.shared.1.store.get? key).isSome = true ↔ Overtaken key p.shared.2 := by
  obtain ⟨htraced, hbehaves⟩ := h.keeps (Traced key) (Behaves key commands)
    (fun _ _ _ _ _ _ hx hs h => h.own hx hs) (fun _ _ _ _ _ _ hx h => h.others hx)
    ⟨traced_nil key n, behaves_throng hcommands n order ttl⟩
  have hdeleted := (hbehaves (some i)).deletes i rfl hi
  rw [hdone] at hdeleted
  exact htraced.there (hdeleted.resolve_right id)

theorem reaches_ask_resync {next : r.Answer → Service Nat}
    {operations : (i : ι) → Service (commands i).Reply} {p : Throng commands}
    (hx : Attended r n x n')
    (h : Pool.Reaches Attended.logged (throng (n', ⟨r, x, n'⟩ :: log) (next x) operations) p) :
    Pool.Reaches Attended.logged (throng (n, log) (.ask r next) operations) p := by
  refine .head ⟨none, r, x, ?_⟩ h
  refine ⟨⟨next, rfl, rfl⟩, ⟨hx, rfl⟩, fun j hj => ?_⟩
  cases j with
  | none => contradiction
  | some => rfl

theorem reaches_ask_operation {c : Command} {resync : Service Nat}
    {next : r.Answer → Service c.Reply} {p : Throng fun _ : Unit => c} (hx : Attended r n x n')
    (h : Pool.Reaches Attended.logged
      (throng (n', ⟨r, x, n'⟩ :: log) resync fun _ => next x) p) :
    Pool.Reaches Attended.logged (throng (n, log) resync fun _ => .ask r next) p := by
  refine .head ⟨some (), r, x, ?_⟩ h
  refine ⟨⟨next, rfl, rfl⟩, ⟨hx, rfl⟩, fun j hj => ?_⟩
  cases j with
  | none => rfl
  | some => contradiction

theorem ended_throng {s : Node × Log} {count : Nat} {replies : (i : ι) → (commands i).Reply}
    (i : Option ι) :
    ∃ x, (throng s (.done count) fun i => .done (replies i)).parts i = .done x := by
  cases i with
  | none => exact ⟨count, rfl⟩
  | some i => exact ⟨replies i, rfl⟩

theorem key_deleted_after_a_resync_is_gone :
    ∃ p : Throng fun _ : Unit => .delete "k",
      Pool.Reaches Attended.logged
        (throng (⟨(Buffer.new { ttl := .ofSeconds 60 } 0).put 0 "k" [118], .empty⟩, [])
          (resyncIn Table.names (.ofSeconds 60)) fun _ => serve (.delete "k")) p ∧
      (∀ i, ∃ x, p.parts i = .done x) ∧ p.shared.1.store.get? "k" = none := by
  let held : Node := ⟨(Buffer.new { ttl := .ofSeconds 60 } 0).put 0 "k" [118], .empty⟩
  let stored : Node := ⟨held.buffer, .insert .empty "k" [118]⟩
  let dropped : Node := ⟨Buffer.new { ttl := .ofSeconds 60 } 0, .insert .empty "k" [118]⟩
  let gone : Node := ⟨dropped.buffer, .empty⟩
  have hlower : Attended (.here (.flag false)) held () held := ⟨⟨0, rfl⟩, rfl⟩
  have hnames : Attended (.here .names) held (.insert .empty "k" ()) held := ⟨⟨0, rfl⟩, rfl⟩
  have hlook : Attended (.here (.value "k")) held (some [118]) held := ⟨⟨0, rfl⟩, rfl⟩
  have hset : Attended (.remote (.set "k" [118])) held (.ok ()) stored := ⟨rfl, rfl⟩
  have hexpire : Attended (.remote (.expire "k" 60)) stored (.ok true) stored := ⟨rfl, rfl⟩
  have hsame : Attended (.here (.value "k")) stored (some [118]) stored := ⟨⟨0, rfl⟩, rfl⟩
  have hdrop : Attended (.here (.drop "k")) stored true dropped := ⟨⟨0, rfl⟩, rfl⟩
  have hdelete : Attended (.remote (.delete "k")) dropped (.ok 1) gone := ⟨rfl, rfl⟩
  have hreaches : ∃ log, Pool.Reaches Attended.logged
      (throng (held, []) (resyncIn Table.names (.ofSeconds 60)) fun _ : Unit => serve (.delete "k"))
      (throng (gone, ⟨.remote (.delete "k"), .ok 1, gone⟩ :: log) (.done 1)
        fun _ => .done (.ok 1)) :=
    ⟨_, reaches_ask_resync hlower <| reaches_ask_resync hnames <| reaches_ask_resync hlook <|
      reaches_ask_resync hset <| reaches_ask_resync hexpire <| reaches_ask_resync hsame <|
      reaches_ask_operation hdrop <| reaches_ask_operation hdelete .refl⟩
  obtain ⟨log, hreaches⟩ := hreaches
  have hrevived := deleted_key_is_revived_iff (fun _ => rfl) hreaches () rfl rfl
  refine ⟨_, hreaches, ended_throng, ?_⟩
  rw [← Option.not_isSome_iff_eq_none, hrevived, throng, overtaken_cons]
  rintro (⟨h, -⟩ | ⟨h, -⟩) <;> cases h

/-- A resync writes a key that is deleted just after the resync has looked at it. -/
theorem resync_revives_a_deleted_key :
    ∃ p : Throng fun _ : Unit => .delete "k",
      Pool.Reaches Attended.logged
        (throng (⟨(Buffer.new { ttl := .ofSeconds 60 } 0).put 0 "k" [118], .empty⟩, [])
          (resyncIn Table.names (.ofSeconds 60)) fun _ => serve (.delete "k")) p ∧
      (∀ i, ∃ x, p.parts i = .done x) ∧ p.shared.1.store.get? "k" = some [118] := by
  let held : Node := ⟨(Buffer.new { ttl := .ofSeconds 60 } 0).put 0 "k" [118], .empty⟩
  let dropped : Node := ⟨Buffer.new { ttl := .ofSeconds 60 } 0, .empty⟩
  let revived : Node := ⟨dropped.buffer, .insert .empty "k" [118]⟩
  have hlower : Attended (.here (.flag false)) held () held := ⟨⟨0, rfl⟩, rfl⟩
  have hnames : Attended (.here .names) held (.insert .empty "k" ()) held := ⟨⟨0, rfl⟩, rfl⟩
  have hlook : Attended (.here (.value "k")) held (some [118]) held := ⟨⟨0, rfl⟩, rfl⟩
  have hdrop : Attended (.here (.drop "k")) held true dropped := ⟨⟨0, rfl⟩, rfl⟩
  have hdelete : Attended (.remote (.delete "k")) dropped (.ok 0) dropped := ⟨rfl, rfl⟩
  have hset : Attended (.remote (.set "k" [118])) dropped (.ok ()) revived := ⟨rfl, rfl⟩
  have hexpire : Attended (.remote (.expire "k" 60)) revived (.ok true) revived := ⟨rfl, rfl⟩
  have hnone : Attended (.here (.value "k")) revived none revived := ⟨⟨0, rfl⟩, rfl⟩
  have hreaches : ∃ log, Pool.Reaches Attended.logged
      (throng (held, []) (resyncIn Table.names (.ofSeconds 60)) fun _ : Unit => serve (.delete "k"))
      (throng (revived, log) (.done 1) fun _ => .done (.ok 0)) :=
    ⟨_, reaches_ask_resync hlower <| reaches_ask_resync hnames <| reaches_ask_resync hlook <|
      reaches_ask_operation hdrop <| reaches_ask_operation hdelete <| reaches_ask_resync hset <|
      reaches_ask_resync hexpire <| reaches_ask_resync hnone .refl⟩
  obtain ⟨log, hreaches⟩ := hreaches
  exact ⟨_, hreaches, ended_throng, rfl⟩

end Node

end SessionVault.Buffer
