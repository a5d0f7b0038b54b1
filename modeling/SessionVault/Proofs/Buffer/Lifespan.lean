import SessionVault.Proofs.Buffer.Timed
import SessionVault.Proofs.Session.Manager
import SessionVault.Proofs.Store.Lifetime
import SessionVault.Settings.Resolve

namespace SessionVault

namespace Memory

variable {m m' : Memory} {now : Moment} {name key : String} {seconds : UInt64}

theorem get?_expire_of_ne (m : Memory) (now : Moment) (seconds : UInt64) (h : key ≠ name) :
    (m.expire now name seconds).2.entries.get? key = m.entries.get? key := by
  rw [expire]
  split
  · rfl
  · split
    · rfl
    · exact Table.get?_insert_of_ne h

theorem remaining?_of_deadline {value : Octets} {deadline : Moment}
    (h : m.entries.get? key = some ⟨value, some deadline⟩) (now : Moment) :
    m.remaining? now key = if now < deadline then some (deadline - now) else none := by
  simp only [remaining?, live?, h, Option.filter, Entry.isLive, decide_eq_true_eq]
  split <;> rfl

theorem remaining?_pos {r : Nat} (h : m.remaining? now key = some r) : 0 < r := by
  obtain ⟨deadline, hdeadline, rfl⟩ := Option.map_eq_some_iff.1 h
  obtain ⟨e, he, hd⟩ := Option.bind_eq_some_iff.1 hdeadline
  have hlive := (Option.filter_eq_some_iff.1 he).2
  rw [Entry.isLive, hd] at hlive
  exact Nat.sub_pos_of_lt (of_decide_eq_true hlive)

end Memory

theorem SessionSettings.effectiveTimeout_le_iff (s : SessionSettings) (maxInactive : UInt64) :
    s.effectiveTimeout maxInactive ≤ s.effectiveTimeout 0 ↔
      maxInactive ≤ s.effectiveTimeout 0 := by
  have hmax (a b : UInt64) : max a b = if a ≤ b then b else a := rfl
  simp only [effectiveTimeout, hmax]
  grind

theorem Settings.ttl_bufferConfig (s : Settings) :
    s.bufferConfig.ttl = .ofSeconds (s.session.effectiveTimeout 0) := by
  have hmax (a b : UInt64) : max a b = if a ≤ b then b else a := rfl
  have hzero (a : UInt64) : 0 ≤ a := UInt64.le_iff_toNat_le.2 (Nat.zero_le _)
  simp only [bufferConfig, SessionSettings.effectiveTimeout, hmax 0, hzero, if_true]

namespace Buffer.Timed

variable {n n' : Timed Memory} {ttl : UInt64} {name key : String} {value : Octets}
variable {since : Moment} {pending : List String}

/-- Since a moment, the remote store was given the value, with its whole time to live. -/
def Renewed (ttl : UInt64) (key : String) (value : Octets) (since : Moment) (n : Timed Memory) :
    Prop :=
  ∃ t, since ≤ t ∧ t ≤ n.now ∧
    n.remote.entries.get? key = some ⟨value, some (t + (Duration.ofSeconds ttl).nanoseconds)⟩

structure Repairs (ttl : UInt64) (name : String) (value : Octets) (n n' : Timed Memory) : Prop where
  now : n.now ≤ n'.now
  buffer : n'.buffer = n.buffer
  renewed : Renewed ttl name value n.now n'
  others {key : String} : key ≠ name →
    n'.remote.entries.get? key = n.remote.entries.get? key

theorem ensures_repair_renews (passes : Nat) (hv : n.buffer.value? name = some value) :
    (repair name ttl (passes + 1) value).Ensures (Acts Memory.Answers)
      (fun r n' => r = .ok () ∧ Repairs ttl name value n n') n := by
  intro x n₁ ⟨hle₁, hset, hbuffer₁⟩
  obtain ⟨hx, hput⟩ := Prod.mk.inj hset
  cases Option.some.inj hx
  intro x n₂ ⟨hle₂, hexpire, hbuffer₂⟩
  obtain ⟨⟨found, rfl⟩, hm⟩ := hexpire.expire
  intro current n₃ ⟨hle₃, hvalue, hremote₃⟩
  obtain ⟨hcurrent, hbuffer₃⟩ := Prod.mk.inj hvalue
  have hbuffer : n₃.buffer = n.buffer := hbuffer₃.symm.trans (hbuffer₂.trans hbuffer₁)
  have hsame : current = some value := by
    rw [← hv, ← hbuffer, ← hbuffer₃]
    exact (Option.some.inj hcurrent).symm
  subst hsame
  simp only [Script.done_bind, if_pos]
  refine ⟨rfl, Nat.le_trans hle₁ (Nat.le_trans hle₂ hle₃), hbuffer, ?_, ?_⟩
  · refine ⟨n₂.now, Nat.le_trans hle₁ hle₂, hle₃, ?_⟩
    rw [hremote₃]
    have hanswer : Memory.answer n₂.now (.expire name ttl) (n.remote.put name value) =
        (some (.ok found), n₂.remote) := hput ▸ hexpire
    exact Memory.answer_expire_put hanswer
  · intro key hk
    rw [hremote₃, hm, Memory.get?_expire_of_ne _ _ _ hk, ← hput]
    exact Table.get?_insert_of_ne hk

structure Renewing (ttl : UInt64) (key : String) (value : Octets) (since : Moment)
    (pending : List String) (n : Timed Memory) : Prop where
  held : n.buffer.value? key = some value
  now : since ≤ n.now
  visited : key ∈ pending ∨ Renewed ttl key value since n

theorem Renewing.here {s : Step} {x : s.Answer} (hx : Acts Memory.Answers (.here s) n x n')
    (hs : (Act.here s).sparesValues = true) (h : Renewing ttl key value since pending n) :
    Renewing ttl key value since pending n' := by
  obtain ⟨hle, hstep, hremote⟩ := hx
  refine ⟨(value?_step hs hstep key).trans h.held, Nat.le_trans h.now hle, ?_⟩
  refine h.visited.imp_right fun ⟨t, hsince, ht, hentry⟩ => ?_
  rw [← hremote] at hentry
  exact ⟨t, hsince, Nat.le_trans ht hle, hentry⟩

theorem ensures_repairKey_renewing
    (h : Renewing ttl key value since (name :: pending) n) :
    (repairKey name ttl).Ensures (Acts Memory.Answers)
      (fun r n' => (∃ held, r = .ok held) ∧ Renewing ttl key value since pending n') n := by
  intro x n₁ hvalue
  have h₁ := h.here hvalue rfl
  obtain ⟨hx, hbuffer⟩ := Prod.mk.inj hvalue.2.1
  cases x with
  | none =>
    have hk : key ≠ name := by
      rintro rfl
      exact nomatch h.held.symm.trans (Option.some.inj hx)
    exact ⟨⟨false, rfl⟩, h₁.held, h₁.now, h₁.visited.imp_left (List.mem_of_ne_of_mem hk)⟩
  | some current =>
    have hv : n₁.buffer.value? name = some current := by
      rw [← hbuffer]
      exact Option.some.inj hx
    simp only [Script.done_bind, Script.bind_eq]
    refine Script.ensures_bind.2 ((ensures_repair_renews 2 hv).mono ?_)
    rintro r n₂ ⟨rfl, hrepairs⟩
    refine ⟨⟨true, rfl⟩, hrepairs.buffer ▸ h₁.held, Nat.le_trans h₁.now hrepairs.now, ?_⟩
    by_cases hk : key = name
    · subst hk
      obtain rfl : current = value := Option.some.inj (hv.symm.trans h₁.held)
      obtain ⟨t, hsince, ht, hentry⟩ := hrepairs.renewed
      exact .inr ⟨t, Nat.le_trans h₁.now hsince, ht, hentry⟩
    · refine h₁.visited.imp (List.mem_of_ne_of_mem hk) ?_
      rintro ⟨t, hsince, ht, hentry⟩
      exact ⟨t, hsince, Nat.le_trans ht hrepairs.now, (hrepairs.others hk).trans hentry⟩

theorem ensures_repairAll_renewing (written : Nat)
    (h : Renewing ttl key value since pending n) :
    (repairAll ttl written pending).Ensures (Acts Memory.Answers)
      (fun _ n' => Renewing ttl key value since [] n') n := by
  induction pending generalizing n written with
  | nil => exact h
  | cons name rest ih =>
    refine Script.ensures_bind.2 ((ensures_repairKey_renewing h).mono ?_)
    rintro r n₁ ⟨⟨held, rfl⟩, h₁⟩
    cases held <;> exact ih _ h₁

theorem ensures_resyncIn_renews {order : Names → List String} {ttl : Duration}
    (horder : ∀ names : Names, ∀ name ∈ names.names, name ∈ order names)
    (hv : n.buffer.value? key = some value) :
    (resyncIn order ttl).Ensures (Acts Memory.Answers)
      (fun _ n' => Renewed ttl.seconds key value n.now n') n := by
  intro _ n₁ hflag names n₂ hnames
  have hheld : n₁.buffer.value? key = some value := (value?_step rfl hflag.2.1 key).trans hv
  have hlisted : key ∈ names.names := by
    rw [← Option.some.inj (Prod.mk.inj hnames.2.1).1]
    refine Decidable.by_contra fun hk => ?_
    exact nomatch (Node.value?_of_not_mem_names hk).symm.trans hheld
  have h : Renewing ttl.seconds key value n.now (order names) n :=
    ⟨hv, Nat.le_refl _, .inl (horder names key hlisted)⟩
  refine (ensures_repairAll_renewing 0 ((h.here hflag rfl).here hnames rfl)).mono ?_
  exact fun _ _ h' => h'.visited.resolve_left List.not_mem_nil

theorem Renewed.keeps_iff {r : Nat} (h : Renewed ttl key value n.now n') (hnow : n'.now = n.now)
    (hr : 0 < r) :
    (∃ r', r ≤ r' ∧ n'.remote.remaining? n'.now key = some r') ↔
      r ≤ (Duration.ofSeconds ttl).nanoseconds := by
  obtain ⟨t, hsince, ht, hentry⟩ := h
  obtain rfl : t = n'.now := Nat.le_antisymm ht (hnow ▸ hsince)
  rw [Memory.remaining?_of_deadline hentry]
  constructor
  · rintro ⟨r', hle, hr'⟩
    split at hr'
    · cases hr'
      rwa [Nat.add_sub_cancel_left] at hle
    · cases hr'
  · intro hle
    rw [if_pos (Nat.lt_add_of_pos_right (Nat.lt_of_lt_of_le hr hle)), Nat.add_sub_cancel_left]
    exact ⟨_, hle, rfl⟩

abbrev Served : Script.Rules Command.Reply (Timed Memory) :=
  fun c n x n' => (serve c).Runs (Acts Memory.Answers) n x n'

theorem ensures_set_stored (key : String) (value : Octets) (n : Timed Memory) :
    (serve (.set key value)).Ensures (Acts Memory.Answers)
      (fun _ n' => n'.buffer.value? key = some value ∧ ∃ m, n'.remote = Memory.put m key value)
      n := by
  intro _ n₁ ⟨_, hput, _⟩ x n₂ ⟨_, hset, hbuffer⟩
  obtain ⟨hx, hremote⟩ := Prod.mk.inj hset
  cases Option.some.inj hx
  refine ⟨?_, n₁.remote, hremote.symm⟩
  rw [hbuffer, ← (Prod.mk.inj hput).2]
  exact (value?_put ..).trans (if_pos rfl)

theorem ensures_expire_stored {m : Memory} (seconds : UInt64)
    (hheld : n.buffer.value? key = some value) (hremote : n.remote = m.put key value) :
    (serve (.expire key seconds)).Ensures (Acts Memory.Answers)
      (fun _ n' => n'.buffer.value? key = some value ∧
        n'.remote.entries.get? key =
          some ⟨value, some (n'.now + (Duration.ofSeconds seconds).nanoseconds)⟩) n := by
  intro x n₁ ⟨_, hexpire, hbuffer⟩
  obtain ⟨⟨found, rfl⟩, -⟩ := hexpire.expire
  have hanswer : Memory.answer n₁.now (.expire key seconds) (m.put key value) =
      (some (.ok found), n₁.remote) := hremote ▸ hexpire
  exact ⟨hbuffer ▸ hheld, Memory.answer_expire_put hanswer⟩

theorem ensures_save_stored {m : Manager} {s : Session} {ctx : SessionContext} {force : Bool}
    (hs : ctx.session = some s) (n : Timed Memory) :
    (m.save force ctx).Ensures (Manager.Acts Served)
      (fun r n' => r.1 = .written → ∃ payload, n'.buffer.value? (m.key s.id) = some payload ∧
        n'.remote.entries.get? (m.key s.id) =
          some ⟨payload,
            some (n'.now + (Duration.ofSeconds (m.effectiveTimeout s)).nanoseconds)⟩) n := by
  apply Manager.ensures_save hs
  · exact nofun
  · intro hash payload _ _ x n₁ hset
    obtain ⟨hheld, t, hremote⟩ := hset.ensures (ensures_set_stored (m.key s.id) payload n)
    cases x with
    | error e => exact nofun
    | ok =>
      apply Manager.ensures_renew
      intro x n₂ hexpire _
      exact ⟨payload, hexpire.ensures (ensures_expire_stored _ hheld hremote)⟩
  · apply Manager.ensures_renew
    intro x n₁ _
    cases x <;> exact nofun

/-- After a resync all of whose calls are answered, every value that is held here has the time to
live of the buffer in the remote store.  So a key that had some time left has as much, if the resync
takes no time, exactly if that was no more than the time to live of the buffer; and a session that
was written just before keeps its timeout exactly if it does not ask for more than the settings
give to one that asks for nothing. -/
theorem resync_keeps_life_iff (order : Names → List String)
    (horder : ∀ names : Names, ∀ name ∈ names.names, name ∈ order names) {n n' : Timed Memory}
    {written : Nat}
    (hrun : (resyncIn order n.buffer.config.ttl).Runs (Acts Memory.Answers) n written n') :
    (∀ key value, n.buffer.value? key = some value →
        Renewed n.buffer.config.ttl.seconds key value n.now n') ∧
      (n'.now = n.now → ∀ key r, n.buffer.contains key = true →
        n.remote.remaining? n.now key = some r →
        ((∃ r', r ≤ r' ∧ n'.remote.remaining? n'.now key = some r') ↔
          r ≤ (Duration.ofSeconds n.buffer.config.ttl.seconds).nanoseconds)) ∧
      (n'.now = n.now → ∀ (settings : Settings) (m : Manager) (s : Session)
        (ctx ctx' : SessionContext) (force : Bool) (n₀ : Timed Memory),
        n.buffer.config = settings.bufferConfig → m.settings = settings.session →
        ctx.session = some s → m.effectiveTimeout s ≠ 0 →
        (m.save force ctx).Runs (Manager.Acts Served) n₀ (.written, ctx') n →
        n.remote.remaining? n.now (m.key s.id) =
          some (Duration.ofSeconds (m.effectiveTimeout s)).nanoseconds ∧
        ((∃ r', (Duration.ofSeconds (m.effectiveTimeout s)).nanoseconds ≤ r' ∧
            n'.remote.remaining? n'.now (m.key s.id) = some r') ↔
          s.maxInactive ≤ m.settings.effectiveTimeout 0)) := by
  have hrenewed : ∀ key value, n.buffer.value? key = some value →
      Renewed n.buffer.config.ttl.seconds key value n.now n' :=
    fun key value hv => hrun.ensures (ensures_resyncIn_renews horder hv)
  refine ⟨hrenewed, fun hnow key r hheld hr => ?_, ?_⟩
  · rw [contains_eq] at hheld
    obtain ⟨value, hv⟩ := Option.isSome_iff_exists.1 hheld
    exact (hrenewed key value hv).keeps_iff hnow (Memory.remaining?_pos hr)
  · intro hnow settings m s ctx ctx' force n₀ hconfig hsettings hs htimeout hsave
    have httl : n.buffer.config.ttl.seconds = m.settings.effectiveTimeout 0 := by
      rw [hconfig, hsettings, settings.ttl_bufferConfig, Duration.seconds_ofSeconds]
    obtain ⟨payload, hheld, hentry⟩ := hsave.ensures (ensures_save_stored hs n₀) rfl
    have hpos : 0 < (Duration.ofSeconds (m.effectiveTimeout s)).nanoseconds :=
      Duration.ofSeconds_pos htimeout
    refine ⟨?_, ?_⟩
    · rw [Memory.remaining?_of_deadline hentry, if_pos (Nat.lt_add_of_pos_right hpos),
        Nat.add_sub_cancel_left]
    · rw [(hrenewed _ payload hheld).keeps_iff hnow hpos, httl,
        Duration.ofSeconds_le_iff]
      exact m.settings.effectiveTimeout_le_iff s.maxInactive

theorem runs_resync_single {b : Buffer} {mem : Memory} {now t deadline : Moment} {key : String}
    {value : Octets} {ttl : Duration} (hb : b.entries = Table.empty.insert key ⟨value, t⟩)
    (hlater : Moment.later? now ttl.seconds = some deadline) :
    (resyncIn Table.names ttl).Runs (Acts Memory.Answers) ⟨now, b, mem⟩ 1
      ⟨now, { b with needsResync := false },
        ⟨(mem.put key value).entries.insert key ⟨value, some deadline⟩⟩⟩ := by
  let lowered : Buffer := { b with needsResync := false }
  let stored : Memory := mem.put key value
  let renewed : Memory := ⟨stored.entries.insert key ⟨value, some deadline⟩⟩
  have hvalue : lowered.value? key = some value := by
    rw [Buffer.value?, show lowered.entries = b.entries from rfl, hb, Table.get?_insert_self]
    rfl
  have hlist : lowered.entries.map (fun _ => ()) = Table.empty.insert key () := by
    rw [show lowered.entries = b.entries from rfl, hb]
    rfl
  have hlower : Acts Memory.Answers (.here (.flag false)) ⟨now, b, mem⟩ () ⟨now, lowered, mem⟩ :=
    ⟨Nat.le_refl now, rfl, rfl⟩
  have hnames : Acts Memory.Answers (.here .names) ⟨now, lowered, mem⟩
      (Table.empty.insert key ()) ⟨now, lowered, mem⟩ :=
    ⟨Nat.le_refl now, congrArg (some · , lowered) hlist, rfl⟩
  have hlook (remote : Memory) : Acts Memory.Answers (.here (.value key)) ⟨now, lowered, remote⟩
      (some value) ⟨now, lowered, remote⟩ :=
    ⟨Nat.le_refl now, congrArg (some ·, lowered) hvalue, rfl⟩
  have hset : Acts Memory.Answers (.remote (.set key value)) ⟨now, lowered, mem⟩ (.ok ())
      ⟨now, lowered, stored⟩ := ⟨Nat.le_refl now, rfl, rfl⟩
  have hexpire : Acts Memory.Answers (.remote (.expire key ttl.seconds)) ⟨now, lowered, stored⟩
      (.ok true) ⟨now, lowered, renewed⟩ :=
    ⟨Nat.le_refl now, Memory.answer_expire_later mem key value hlater, rfl⟩
  refine .ask hlower (.ask hnames (.ask (hlook mem) (.ask hset (.ask hexpire ?_))))
  refine .ask (hlook renewed) ?_
  simp only [Script.done_bind, if_pos]
  exact .done _ _

theorem value_gains_time :
    ∃ n n' : Timed Memory,
      (resyncIn Table.names n.buffer.config.ttl).Runs (Acts Memory.Answers) n 1 n' ∧
      (∀ names : Names, ∀ name ∈ names.names, name ∈ names.names) ∧
      n.remote.remaining? n.now "a" = some 30000000000 ∧
      ∃ r', 30000000000 ≤ r' ∧ n'.remote.remaining? n'.now "a" = some r' := by
  let n : Timed Memory := ⟨0, .put (.new { ttl := .ofSeconds 60 } 0) 0 "a" [1],
    ⟨Table.empty.insert "a" ⟨[1], some 30000000000⟩⟩⟩
  have hlater : Moment.later? 0 (Duration.ofSeconds 60).seconds = some 60000000000 := by
    decide +kernel
  have hrun : (resyncIn Table.names n.buffer.config.ttl).Runs (Acts Memory.Answers) n 1 _ :=
    runs_resync_single rfl hlater
  have horder : ∀ names : Names, ∀ name ∈ names.names, name ∈ names.names := fun _ _ => id
  obtain ⟨-, hkeeps, -⟩ := resync_keeps_life_iff Table.names horder hrun
  have hr : n.remote.remaining? n.now "a" = some 30000000000 := by decide +kernel
  exact ⟨n, _, hrun, horder, hr, (hkeeps rfl "a" 30000000000 rfl hr).2 (by decide +kernel)⟩

/-- A session that may be inactive for two hours has half an hour left after a resync of a buffer
for sessions of the default kind. -/
theorem long_session_is_cut_short :
    ∃ ctx n n',
      (Manager.save {} true { session := some (Session.fresh "A" 7200 default) }).Runs
        (Manager.Acts Served) ⟨0, .new { ttl := .ofSeconds 1800 } 0, .empty⟩ (.written, ctx) n ∧
      n.remote.remaining? n.now "A" = some 7200000000000 ∧
      (resyncIn Table.names n.buffer.config.ttl).Runs (Acts Memory.Answers) n 1 n' ∧
      n'.now = n.now ∧ n'.remote.remaining? n'.now "A" = some 1800000000000 := by
  obtain ⟨hash, payload, hhash, hpayload⟩ := (Session.fresh_finite "A" 7200 default).exists_payload
  let start : Timed Memory := ⟨0, .new { ttl := .ofSeconds 1800 } 0, .empty⟩
  let held : Timed Memory := { start with buffer := start.buffer.put 0 "A" payload }
  let stored : Timed Memory := { held with remote := .put .empty "A" payload }
  let saved : Timed Memory :=
    { held with remote := ⟨stored.remote.entries.insert "A" ⟨payload, some 7200000000000⟩⟩ }
  have hlate : Moment.later? 0 7200 = some 7200000000000 := by decide +kernel
  have hput : Acts Memory.Answers (.here (.put "A" payload)) start () held :=
    ⟨Nat.le_refl 0, rfl, rfl⟩
  have hset : Acts Memory.Answers (.remote (.set "A" payload)) held (.ok ()) stored :=
    ⟨Nat.le_refl 0, rfl, rfl⟩
  have hexpire : Acts Memory.Answers (.remote (.expire "A" 7200)) stored (.ok true) saved :=
    ⟨Nat.le_refl 0, Memory.answer_expire_later .empty "A" payload hlate, rfl⟩
  have hwrite : Served (.set "A" payload) start (.ok ()) stored := .ask hput (.ask hset (.done _ _))
  have hrenew : Served (.expire "A" 7200) stored (.ok true) saved := .ask hexpire (.done _ _)
  let ctx : SessionContext := { session := some (Session.fresh "A" 7200 default) }
  have hsave : (Manager.save {} true ctx).Runs (Manager.Acts Served) start
      (.written, ctx.saved (Session.fresh "A" 7200 default) hash) saved := by
    rw [Manager.save_eq rfl hhash hpayload]
    exact .ask hwrite (.ask hrenew (.done _ _))
  have hlater : Moment.later? 0 (Duration.ofSeconds 1800).seconds = some 1800000000000 := by
    decide +kernel
  have hresync : (resyncIn Table.names (.ofSeconds 1800)).Runs (Acts Memory.Answers) saved 1 _ :=
    runs_resync_single rfl hlater
  refine ⟨_, saved, _, hsave, ?_, hresync, rfl, ?_⟩
  · exact Memory.remaining?_of_deadline (Table.get?_insert_self ..) 0
  · exact Memory.remaining?_of_deadline (Table.get?_insert_self ..) 0

end Buffer.Timed

end SessionVault
