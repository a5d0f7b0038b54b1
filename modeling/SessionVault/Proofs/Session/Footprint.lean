import SessionVault.Proofs.Session.Abandonment
import SessionVault.Proofs.Session.Mutation

/-!
Which entries of a store the operations of a session manager change.  What an operation has changed
is read off the record of its calls: an entry that none of the answers speaks of stays as it is, with
its value and its deadline.  This holds all along, so also for an operation that is torn down.
-/

namespace SessionVault

def Command.changes? : (c : Command) → c.Reply → Option String
  | .set key _, .ok _ => some key
  | .setIfAbsent key _, .ok .created => some key
  | .expire key _, .ok true => some key
  | .delete key, .ok _ => some key
  | _, _ => none

namespace Memory

variable {m m' : Memory} {now later : Moment} {key name : String}

theorem Entry.isLive_of_later {e : Entry} (hle : now ≤ later) (h : e.isLive later = true) :
    e.isLive now = true := by
  rw [e.isLive_eq] at h ⊢
  cases hd : e.deadline with
  | none => rfl
  | some deadline =>
    rw [hd] at h
    exact decide_eq_true (Nat.lt_of_le_of_lt hle (of_decide_eq_true h))

theorem live?_liveEntries (m : Memory) (key : String) (hle : now ≤ later) :
    live? ⟨m.liveEntries now⟩ later key = m.live? later key := by
  rw [live?, live?, liveEntries, Table.get?_filter, Option.filter_filter]
  congr 1
  funext e
  cases hl : e.isLive later with
  | false => rw [Bool.and_false]
  | true => rw [Entry.isLive_of_later hle hl, Bool.and_true]

theorem live?_read_later (m : Memory) (name key : String) (hle : now ≤ later) :
    (m.read now name).2.live? later key = m.live? later key := by
  rw [read]
  split
  · rfl
  · split
    · rfl
    · exact m.live?_liveEntries key hle

theorem live?_insert_of_ne {e : Entry} (h : name ≠ key) :
    live? ⟨m.entries.insert name e⟩ later key = m.live? later key := by
  rw [live?_insert, if_neg h]

theorem live?_answer {c : Command} {x : c.Reply} (h : Memory.answer now c m = (some x, m'))
    (hc : c.changes? x ≠ some key) (hle : now ≤ later) :
    m'.live? later key = m.live? later key := by
  cases c with
  | set name value =>
    cases h
    exact live?_insert_of_ne fun hk => hc (congrArg some hk)
  | setIfAbsent name value =>
    simp only [answer, putIfAbsent] at h
    split at h
    · cases h
      rfl
    · cases h
      exact live?_insert_of_ne fun hk => hc (congrArg some hk)
  | expire name seconds =>
    simp only [answer, expire] at h
    split at h
    · cases h
      rfl
    · split at h
      · cases h
      · cases h
        exact live?_insert_of_ne fun hk => hc (congrArg some hk)
  | delete name =>
    cases h
    rw [live?_erase, if_neg]
    exact fun hk => hc (congrArg some hk.symm)
  | get name | «exists» name =>
    cases h
    exact m.live?_read_later name key hle
  | keys pattern =>
    obtain ⟨-, rfl⟩ := Prod.mk.inj h
    rfl

theorem Serves.live?_eq {c : Command} {x : c.Reply} (h : Serves now c m x m')
    (hc : c.changes? x ≠ some key) (hle : now ≤ later) :
    m'.live? later key = m.live? later key := by
  rcases h with h | ⟨-, rfl⟩
  · exact live?_answer h hc hle
  · rfl

end Memory

namespace Manager

variable {ρ α : Type} {log : Log ρ} {m : Manager} {ctx : SessionContext} {key : String}

def Changed (log : Log ρ) (key : String) : Prop :=
  ∃ c x s, ⟨.store c, x, s⟩ ∈ log ∧ c.changes? x = some key

abbrev Calling : Script.Rules Request.Answer ((Moment × Memory) × Log Memory) :=
  Recorded Memory.Serves

def Intact (touched : Log Memory → String → Prop) (start : Moment × Memory)
    (st : (Moment × Memory) × Log Memory) : Prop :=
  ∀ key, ¬ touched st.2 key → ∀ later, st.1.1 ≤ later →
    st.1.2.live? later key = start.2.live? later key

def ChangesOnly (touched : Log Memory → String → Prop) (start : Moment × Memory) (p : Task α) :
    Prop :=
  p.Sustains Calling (Intact touched start) (fun _ => Intact touched start) (start, [])

theorem changed_cons {e : Script.Event Request.Answer (Moment × ρ)} :
    Changed (e :: log) key ↔
      (∃ c x s, e = ⟨.store c, x, s⟩ ∧ c.changes? x = some key) ∨ Changed log key := by
  simp only [Changed, List.mem_cons, or_and_right, exists_or, eq_comm]

theorem not_changed_nil : ¬ Changed ([] : Log ρ) key :=
  fun ⟨_, _, _, he, _⟩ => List.not_mem_nil he

theorem Intact.mono {touched touched' : Log Memory → String → Prop} {start : Moment × Memory}
    {st : (Moment × Memory) × Log Memory} (h : Intact touched start st)
    (ht : ∀ key, touched st.2 key → touched' st.2 key) : Intact touched' start st :=
  fun key hk => h key fun hc => hk (ht key hc)

theorem Intact.step {start : Moment × Memory} {r : Request} {x : r.Answer}
    {st st' : (Moment × Memory) × Log Memory} (hx : Calling r st x st')
    (h : Intact Changed start st) : Intact Changed start st' := by
  obtain ⟨s, log⟩ := st
  obtain ⟨s', log'⟩ := st'
  obtain ⟨hx, hlog⟩ := hx
  obtain rfl : log' = ⟨r, x, s'⟩ :: log := hlog
  intro key hk later hle
  rw [changed_cons, not_or] at hk
  obtain ⟨hlast, hbefore⟩ := hk
  cases r with
  | newId =>
    cases hx
    exact h key hbefore later hle
  | store c =>
    obtain ⟨hclock, hserves⟩ := hx
    have hchanges : c.changes? x ≠ some key := fun hc => hlast ⟨c, x, s', rfl, hc⟩
    have hkept := hserves.live?_eq hchanges hle
    exact hkept.trans (h key hbefore later (Nat.le_trans hclock hle))

theorem changesOnly_changed (start : Moment × Memory) (p : Task α) :
    ChangesOnly Changed start p := by
  have hasks : p.Asks fun _ => True := Script.asks_of_forall (fun _ => trivial) p
  exact hasks.sustains (fun _ _ _ _ _ hx h => h.step hx) fun _ _ _ _ => rfl

def Request.MayChange (r : Request) (key : String) : Prop :=
  ∃ c x, r = .store c ∧ c.changes? x = some key

theorem changesOnly_of_asks {touched : String → Prop} {p : Task α} (start : Moment × Memory)
    (h : p.Asks fun r => ∀ key, r.MayChange key → touched key) :
    ChangesOnly (fun _ => touched) start p := by
  have hrecord : p.Sustains Calling (fun st => ∀ key, Changed st.2 key → touched key)
      (fun _ st => ∀ key, Changed st.2 key → touched key) (start, []) := by
    refine h.sustains ?_ fun key hk => absurd hk not_changed_nil
    rintro r ⟨s, log⟩ x ⟨s', log'⟩ hr ⟨hx, hlog⟩ hlogged key hk
    obtain rfl : log' = ⟨r, x, s'⟩ :: log := hlog
    rcases changed_cons.1 hk with ⟨c, x, s, he, hc⟩ | hk
    · cases he
      exact hr key ⟨c, x, rfl, hc⟩
    · exact hlogged key hk
  refine ((changesOnly_changed start p).and hrecord).mono ?_ ?_
  · exact fun st hst => hst.1.mono hst.2
  · exact fun _ st hst => hst.1.mono hst.2

def Request.Writes (key : String) (r : Request) : Prop :=
  (∃ payload, r = .store (.set key payload)) ∨ ∃ seconds, r = .store (.expire key seconds)

theorem Request.Writes.eq_of_mayChange {r : Request} {key key' : String} (h : r.Writes key)
    (hc : r.MayChange key') : key' = key := by
  obtain ⟨c, x, hr, hc⟩ := hc
  rcases h with ⟨payload, rfl⟩ | ⟨seconds, rfl⟩
  · cases hr
    cases x with
    | error e => cases hc
    | ok => exact (Option.some.inj hc).symm
  · cases hr
    match x with
    | .error e => cases hc
    | .ok false => cases hc
    | .ok true => exact (Option.some.inj hc).symm

theorem Request.eq_of_mayChange_delete {key key' : String}
    (hc : (Request.store (.delete key)).MayChange key') : key' = key := by
  obtain ⟨c, x, hr, hc⟩ := hc
  cases hr
  cases x with
  | error e => cases hc
  | ok count => exact (Option.some.inj hc).symm

theorem Request.not_mayChange_get {key key' : String} :
    ¬ (Request.store (.get key)).MayChange key' := by
  rintro ⟨c, x, hr, hc⟩
  cases hr
  cases hc

theorem asks_renew (m : Manager) (s : Session) (outcome : SaveOutcome) :
    (m.renew s outcome).Asks (Request.Writes (m.key s.id)) := by
  refine ⟨.inr ⟨_, rfl⟩, fun x => ?_⟩
  cases x <;> trivial

theorem asks_save {s : Session} (hs : ctx.session = some s) (force : Bool) :
    (m.save force ctx).Asks (Request.Writes (m.key s.id)) := by
  simp only [save, hs]
  cases s.hash with
  | error e => trivial
  | ok hash =>
    dsimp only
    split
    · cases s.encode ⟨hash⟩ with
      | error e => trivial
      | ok payload =>
        refine ⟨.inl ⟨payload, rfl⟩, fun x => ?_⟩
        cases x with
        | error e => trivial
        | ok => exact (m.asks_renew s .written).bind fun _ => trivial
    · exact (m.asks_renew s .unchanged).bind fun _ => trivial

theorem asks_saveChange {s : Session} (hs : ctx.session = some s) (changed : Bool) :
    (m.saveChange changed ctx).Asks (Request.Writes (m.key s.id)) := by
  rw [saveChange]
  split
  · exact (asks_save hs true).bind fun _ => trivial
  · trivial

theorem asks_setAttribute {s : Session} (hs : ctx.session = some s) (name : String)
    (value : Attribute) : (m.setAttribute name value ctx).Asks (Request.Writes (m.key s.id)) := by
  simp only [setAttribute, hs]
  split
  · trivial
  · have hid : (s.setAttribute name value).2.id = s.id :=
      Session.Edit.id_apply (.setAttribute name value) s
    rw [← hid]
    exact (asks_saveChange rfl _).bind fun _ => trivial

theorem asks_removeAttribute {s : Session} (hs : ctx.session = some s) (name : String) :
    (m.removeAttribute name ctx).Asks (Request.Writes (m.key s.id)) := by
  simp only [removeAttribute, hs]
  have hid : (s.removeAttribute name).2.id = s.id := rfl
  rw [← hid]
  exact (asks_saveChange rfl true).bind fun _ => trivial

theorem asks_remove (m : Manager) (s : Session) :
    (m.remove s).Asks (· = .store (.delete (m.key s.id))) := by
  refine ⟨rfl, fun x => ?_⟩
  cases x <;> trivial

theorem asks_afterRequest_valid {s : Session} (hs : ctx.session = some s) (hv : s.valid = true) :
    (m.afterRequest ctx).Asks (Request.Writes (m.key s.id)) := by
  simp only [afterRequest, hs, hv, if_true]
  exact (asks_save hs _).bind fun _ => trivial

theorem asks_afterRequest_invalid {s : Session} (hs : ctx.session = some s)
    (hv : s.valid = false) :
    (m.afterRequest ctx).Asks (· = .store (.delete (m.key s.id))) := by
  simp only [afterRequest, hs, hv]
  exact (m.asks_remove s).bind fun _ => trivial

theorem afterRequest_eq (m : Manager) (ctx : SessionContext) :
    ∃ (α : Type) (p : Task α), m.afterRequest ctx = p.bind fun _ => .done .empty := by
  rw [afterRequest]
  cases ctx.session with
  | none => exact ⟨Unit, .done (), rfl⟩
  | some s =>
    dsimp only
    split
    · exact ⟨_, _, rfl⟩
    · exact ⟨_, _, rfl⟩

def SoleClaim (log : Log ρ) (key : String) : Prop :=
  Claimed log key ∧ ∀ other, Claimed log other → other = key

def Refused (m : Manager) (requested : Option String) (log : Log ρ) :
    Except SessionError (Option String) → Prop
  | .ok (some _) => False
  | .ok none => ∃ id s, requested = some id ∧
      ⟨.store (.setIfAbsent (m.key id) placeholder), .ok .existed, s⟩ ∈ log
  | .error (.store e) => ∃ key s, ⟨.store (.setIfAbsent key placeholder), .error e, s⟩ ∈ log
  | .error e => requested = none ∧ e = .claimExhausted maxClaims

/-- At most one key was claimed, and no other changed. -/
structure Bids (log : Log ρ) (bid : Option String) : Prop where
  claimed (key : String) : Claimed log key ↔ bid = some key
  changed (key : String) : Changed log key → Claimed log key

def Untaken (m : Manager) (requested : Option String) (log : Log ρ) : Prop :=
  ∀ id s, requested = some id →
    ⟨.store (.setIfAbsent (m.key id) placeholder), .ok .existed, s⟩ ∉ log

variable {bid : Option String} {e : Script.Event Request.Answer (Moment × ρ)} {s : Moment × ρ}
variable {requested : Option String}

theorem Bids.soleClaim (h : Bids log bid) (hk : Changed log key) : SoleClaim log key := by
  have hclaimed := h.changed key hk
  refine ⟨hclaimed, fun other hother => ?_⟩
  exact Option.some.inj (((h.claimed other).1 hother).symm.trans ((h.claimed key).1 hclaimed))

theorem bids_nil : Bids ([] : Log ρ) none where
  claimed _ := ⟨fun ⟨_, he⟩ => absurd he List.not_mem_nil, nofun⟩
  changed _ hk := absurd hk not_changed_nil

theorem Bids.pass (h : Bids log bid)
    (hclaims : ∀ key s, e ≠ ⟨.store (.setIfAbsent key placeholder), .ok .created, s⟩)
    (hchanges : ∀ c x s key, e = ⟨.store c, x, s⟩ → c.changes? x = some key → bid = some key) :
    Bids (e :: log) bid where
  claimed key := by
    rw [claimed_cons, ← h.claimed key, or_iff_right]
    exact fun ⟨s, he⟩ => hclaims key s he
  changed key hk := by
    rw [claimed_cons]
    rcases changed_cons.1 hk with ⟨c, x, s, he, hc⟩ | hk
    · exact .inr ((h.claimed key).2 (hchanges c x s key he hc))
    · exact .inr (h.changed key hk)

theorem Bids.propose (h : Bids log bid) (id : String) : Bids (⟨.newId, id, s⟩ :: log) bid :=
  h.pass (fun _ _ => nofun) fun _ _ _ _ => nofun

theorem Bids.refuse {x : Except StoreError Claim} (h : Bids log bid) (hx : x ≠ .ok .created) :
    Bids (⟨.store (.setIfAbsent key placeholder), x, s⟩ :: log) bid := by
  refine h.pass ?_ ?_
  · rintro other s he
    cases he
    exact hx rfl
  · rintro c x s other he hc
    cases he
    match x, hx with
    | .error e, _ => cases hc
    | .ok .existed, _ => cases hc

theorem Bids.claim (h : Bids log none) :
    Bids (⟨.store (.setIfAbsent key placeholder), .ok .created, s⟩ :: log) (some key) where
  claimed other := by
    rw [claimed_cons, h.claimed other]
    constructor
    · rintro (⟨s, he⟩ | he)
      · cases he
        rfl
      · cases he
    · intro he
      cases he
      exact .inl ⟨s, rfl⟩
  changed other hk := by
    rw [claimed_cons]
    rcases changed_cons.1 hk with ⟨c, x, s, he, hc⟩ | hk
    · cases he
      cases hc
      exact .inl ⟨s, rfl⟩
    · exact .inr (h.changed other hk)

theorem Bids.write {r : Request} {x : r.Answer} (h : Bids log (some key)) (hr : r.Writes key) :
    Bids (⟨r, x, s⟩ :: log) (some key) := by
  refine h.pass ?_ ?_
  · rintro other s he
    rcases hr with ⟨payload, rfl⟩ | ⟨seconds, rfl⟩ <;> cases he
  · rintro c x s other he hc
    cases he
    exact congrArg some (hr.eq_of_mayChange ⟨c, x, rfl, hc⟩).symm

theorem Untaken.write {r : Request} {x : r.Answer} (h : m.Untaken requested log)
    (hr : r.Writes key) : m.Untaken requested (⟨r, x, s⟩ :: log) := by
  intro id s' hid he
  rcases List.mem_cons.1 he with he | he
  · rcases hr with ⟨payload, rfl⟩ | ⟨seconds, rfl⟩ <;> cases he
  · exact h id s' hid he

def Decided (m : Manager) (requested : Option String) (log : Log ρ) :
    Except SessionError (Option String) → Prop
  | .ok (some id) => Bids log (some (m.key id)) ∧ m.Untaken requested log
  | x => Bids log none ∧ m.Refused requested log x

abbrev Bidding (st : (Moment × Memory) × Log Memory) : Prop := ∃ bid, Bids st.2 bid

variable {st : Moment × Memory} {record : Log Memory}

theorem sustains_logged_ask {r : Request} {next : r.Answer → Task α}
    {inv : (Moment × Memory) × Log Memory → Prop}
    {post : α → (Moment × Memory) × Log Memory → Prop} (hinv : inv (st, record))
    (h : ∀ x s', (next x).Sustains Calling inv post (s', ⟨r, x, s'⟩ :: record)) :
    (Script.ask r next).Sustains Calling inv post (st, record) := by
  refine ⟨hinv, ?_⟩
  rintro x ⟨s', log'⟩ ⟨-, hlog⟩
  obtain rfl : log' = ⟨r, x, s'⟩ :: record := hlog
  exact h x s'

theorem sustains_claimNew (attempts : Nat) (hbids : Bids record none) :
    (m.claimNew attempts).Sustains Calling Bidding
      (fun x st => m.Decided none st.2 (x.map some)) (st, record) := by
  induction attempts generalizing st record with
  | zero => exact ⟨hbids, rfl, rfl⟩
  | succ attempts ih =>
    refine sustains_logged_ask ⟨_, hbids⟩ fun id s₁ => ?_
    have hbids : Bids (⟨.newId, id, s₁⟩ :: record) none := hbids.propose id
    refine sustains_logged_ask ⟨_, hbids⟩ fun x s₂ => ?_
    match x with
    | .ok .created => exact ⟨hbids.claim, fun _ _ => nofun⟩
    | .ok .existed => exact ih (hbids.refuse nofun)
    | .error e => exact ⟨hbids.refuse nofun, _, s₂, List.mem_cons_self⟩

theorem sustains_claim (m : Manager) (requested : Option String) (start : Moment × Memory) :
    (m.claim requested).Sustains Calling Bidding
      (fun x st => m.Decided requested st.2 x) (start, []) := by
  cases requested with
  | some id =>
    refine sustains_logged_ask ⟨_, bids_nil⟩ fun x s => ?_
    match x with
    | .ok .created =>
      refine ⟨bids_nil.claim, fun id' s' _ he => ?_⟩
      have hlast := List.mem_singleton.1 he
      simp at hlast
    | .ok .existed => exact ⟨bids_nil.refuse nofun, id, s, rfl, List.mem_cons_self⟩
    | .error e => exact ⟨bids_nil.refuse nofun, _, s, List.mem_cons_self⟩
  | none =>
    refine Script.sustains_bind.2 ((sustains_claimNew maxClaims bids_nil).mono ?_ ?_)
    · exact fun _ h => h
    · intro x s h
      cases x <;> exact h

theorem asks_establish (m : Manager) (now : Instant) (ctx : SessionContext) (id : String) :
    (m.establish now ctx (.ok (some id))).Asks (Request.Writes (m.key id)) := by
  let bound : SessionContext :=
    { id := some id
      session := some (Session.fresh id (m.settings.effectiveTimeout 0) now)
      persisted := some false
      metadata := some Metadata.empty }
  have hs : bound.session = some (Session.fresh id (m.settings.effectiveTimeout 0) now) := rfl
  refine (asks_save (m := m) hs true).bind ?_
  rintro ⟨outcome, ctx⟩
  cases outcome with
  | failed => exact ⟨.inr ⟨_, rfl⟩, fun _ => trivial⟩
  | written | unchanged => trivial

theorem ensures_establish_ok {σ : Type} {R : Script.Rules Request.Answer σ} {t : σ}
    (m : Manager) (now : Instant) (ctx : SessionContext) (id : String) :
    (m.establish now ctx (.ok (some id))).Ensures R (fun r _ => ∃ answer, r.1 = .ok answer) t := by
  refine Script.ensures_bind.2 (Script.ensures_of_forall _ _ ?_)
  rintro ⟨outcome, ctx⟩ t
  cases outcome with
  | failed => exact fun _ _ _ => ⟨_, rfl⟩
  | written | unchanged => exact ⟨_, rfl⟩

def Settles (m : Manager) (requested : Option String) (ctx : SessionContext)
    (r : Creation.Result) (log : Log ρ) : Prop :=
  (m.Refused requested log r.1 ↔ ∀ key, ¬ Claimed log key) ∧
    (m.Refused requested log r.1 → r.2 = ctx)

theorem Settles.of_refused {x : Except SessionError (Option String)} (hbids : Bids log none)
    (h : m.Refused requested log x) : m.Settles requested ctx (x, ctx) log := by
  have hnone : ∀ key, ¬ Claimed log key := fun key hk => nomatch (hbids.claimed key).1 hk
  exact ⟨⟨fun _ => hnone, fun _ => h⟩, fun _ => rfl⟩

theorem Settles.of_bids {r : Creation.Result} (hbids : Bids log (some key))
    (huntaken : m.Untaken requested log) (hr : ∃ answer, r.1 = .ok answer) :
    m.Settles requested ctx r log := by
  have hclaimed : Claimed log key := (hbids.claimed key).2 rfl
  have hnot : ¬ m.Refused requested log r.1 := by
    obtain ⟨answer, hr⟩ := hr
    rw [hr]
    cases answer with
    | some id => exact False.elim
    | none => exact fun ⟨id, s, hid, he⟩ => huntaken id s hid he
  exact ⟨⟨fun h => absurd h hnot, fun h => absurd hclaimed (h key)⟩, fun h => absurd h hnot⟩

theorem sustains_establish {x : Except SessionError (Option String)} (now : Instant)
    (h : m.Decided requested record x) :
    (m.establish now ctx x).Sustains Calling Bidding
      (fun r st => Bidding st ∧ m.Settles requested ctx r st.2) (st, record) := by
  match x, h with
  | .error e, h => exact ⟨⟨_, h.1⟩, .of_refused h.1 h.2⟩
  | .ok none, h => exact ⟨⟨_, h.1⟩, .of_refused h.1 h.2⟩
  | .ok (some id), h =>
    have hkept : (m.establish now ctx (.ok (some id))).Sustains Calling
        (fun st => Bids st.2 (some (m.key id)) ∧ m.Untaken requested st.2)
        (fun _ st => Bids st.2 (some (m.key id)) ∧ m.Untaken requested st.2) (st, record) := by
      refine (m.asks_establish now ctx id).sustains ?_ h
      rintro r ⟨s, log⟩ x ⟨s', log'⟩ hr ⟨-, hlog⟩ ⟨hbids, huntaken⟩
      obtain rfl : log' = ⟨r, x, s'⟩ :: log := hlog
      exact ⟨hbids.write hr, huntaken.write hr⟩
    refine (hkept.and (m.ensures_establish_ok now ctx id).sustains).mono ?_ ?_
    · exact fun st hst => ⟨_, hst.1.1⟩
    · exact fun r st hst => ⟨⟨_, hst.1.1⟩, .of_bids hst.1.1 hst.1.2 hst.2⟩

theorem sustains_create (m : Manager) (now : Instant) (requested : Option String)
    (ctx : SessionContext) (start : Moment × Memory) :
    (m.create now requested ctx).Sustains Calling Bidding
      (fun r st => Bidding st ∧ m.Settles requested ctx r st.2) (start, []) := by
  rw [create_eq]
  refine Script.sustains_bind.2 ((m.sustains_claim requested start).mono (fun _ h => h) ?_)
  exact fun x st h => sustains_establish now h

def KeepsToBound (m : Manager) (ctx : SessionContext) (start : Moment × Memory) (p : Task α) :
    Prop :=
  ChangesOnly (fun _ key => ∃ s, ctx.session = some s ∧ key = m.key s.id) start p ∧
    (ctx.session = none → ∃ a, p = .done a)

theorem keepsToBound_of_asks {p : Task α} (start : Moment × Memory)
    (hnone : ctx.session = none → ∃ a, p = .done a)
    (h : ∀ s, ctx.session = some s → p.Asks fun r => ∀ key, r.MayChange key → key = m.key s.id) :
    m.KeepsToBound ctx start p := by
  refine ⟨changesOnly_of_asks start ?_, hnone⟩
  cases hs : ctx.session with
  | none =>
    obtain ⟨a, rfl⟩ := hnone hs
    trivial
  | some s => exact (h s hs).mono fun r hr key hk => ⟨s, rfl, hr key hk⟩

theorem Request.Writes.mayChange {r : Request} (h : r.Writes key) :
    ∀ other, r.MayChange other → other = key :=
  fun _ hc => h.eq_of_mayChange hc

theorem changesOnly_find (m : Manager) (now : Instant) (id : String) (ctx : SessionContext)
    (start : Moment × Memory) : ChangesOnly (fun _ _ => False) start (m.find now id ctx) := by
  apply changesOnly_of_asks
  by_cases hid : ctx.id = some id
  · rw [find, if_pos hid]
    trivial
  · rw [find_eq hid]
    exact ⟨fun key hk => Request.not_mayChange_get hk, fun _ => trivial⟩

theorem changesOnly_remove (m : Manager) (s : Session) (start : Moment × Memory) :
    ChangesOnly (fun _ key => key = m.key s.id) start (m.remove s) := by
  refine changesOnly_of_asks start ((m.asks_remove s).mono ?_)
  rintro r rfl key hk
  exact Request.eq_of_mayChange_delete hk

theorem keepsToBound_save (m : Manager) (force : Bool) (ctx : SessionContext)
    (start : Moment × Memory) : m.KeepsToBound ctx start (m.save force ctx) := by
  apply keepsToBound_of_asks
  · intro hs
    rw [save, hs]
    exact ⟨_, rfl⟩
  · exact fun s hs => (asks_save hs force).mono fun _ hr => hr.mayChange

theorem keepsToBound_setAttribute (m : Manager) (name : String) (value : Attribute)
    (ctx : SessionContext) (start : Moment × Memory) :
    m.KeepsToBound ctx start (m.setAttribute name value ctx) := by
  apply keepsToBound_of_asks
  · intro hs
    rw [setAttribute, hs]
    exact ⟨_, rfl⟩
  · exact fun s hs => (asks_setAttribute hs name value).mono fun _ hr => hr.mayChange

theorem keepsToBound_removeAttribute (m : Manager) (name : String) (ctx : SessionContext)
    (start : Moment × Memory) : m.KeepsToBound ctx start (m.removeAttribute name ctx) := by
  apply keepsToBound_of_asks
  · intro hs
    rw [removeAttribute, hs]
    exact ⟨_, rfl⟩
  · exact fun s hs => (asks_removeAttribute hs name).mono fun _ hr => hr.mayChange

theorem keepsToBound_afterRequest (m : Manager) (ctx : SessionContext)
    (start : Moment × Memory) : m.KeepsToBound ctx start (m.afterRequest ctx) := by
  apply keepsToBound_of_asks
  · intro hs
    rw [afterRequest, hs]
    exact ⟨_, rfl⟩
  · intro s hs
    cases hv : s.valid with
    | true => exact (asks_afterRequest_valid hs hv).mono fun _ hr => hr.mayChange
    | false =>
      refine (asks_afterRequest_invalid hs hv).mono ?_
      rintro r rfl key hk
      exact Request.eq_of_mayChange_delete hk

theorem changesOnly_create (m : Manager) (now : Instant) (requested : Option String)
    (ctx : SessionContext) (start : Moment × Memory) :
    ChangesOnly SoleClaim start (m.create now requested ctx) := by
  have hbids := m.sustains_create now requested ctx start
  refine ((changesOnly_changed start _).and hbids).mono ?_ ?_
  · rintro st ⟨hintact, bid, hbids⟩
    exact hintact.mono fun _ hk => hbids.soleClaim hk
  · rintro r st ⟨hintact, ⟨bid, hbids⟩, -⟩
    exact hintact.mono fun _ hk => hbids.soleClaim hk

theorem run_afterRequest {σ : Type} {h : Script.Handler Request.Answer σ}
    (hh : ∀ r t, (h r t).1.isSome = true) (m : Manager) (ctx : SessionContext) (t : σ) :
    ((m.afterRequest ctx).run h t).1 = some .empty := by
  obtain ⟨α, p, hp⟩ := m.afterRequest_eq ctx
  have hsome := Script.isSome_run hh p t
  rw [hp, Script.run_bind]
  split
  · rfl
  · next hnone =>
    rw [hnone] at hsome
    cases hsome

/-- Whatever is stored, and whichever calls fail, an operation on a session changes no entry but
that of the one key it is about, and one that finds a session changes none.  A creation that gets no
id leaves its context as it is, and the end of a request leaves it empty. -/
theorem operations_keep_to_one_key (m : Manager) (now : Instant) (ctx : SessionContext)
    (start : Moment × Memory) :
    (∀ id, ChangesOnly (fun _ _ => False) start (m.find now id ctx)) ∧
    (∀ force, m.KeepsToBound ctx start (m.save force ctx)) ∧
    (∀ name value, m.KeepsToBound ctx start (m.setAttribute name value ctx)) ∧
    (∀ name, m.KeepsToBound ctx start (m.removeAttribute name ctx)) ∧
    m.KeepsToBound ctx start (m.afterRequest ctx) ∧
    (∀ s, ChangesOnly (fun _ key => key = m.key s.id) start (m.remove s)) ∧
    (∀ requested, ChangesOnly SoleClaim start (m.create now requested ctx)) ∧
    (∀ requested r s log,
      (m.create now requested ctx).Runs Calling (start, []) r (s, log) →
        (m.Refused requested log r.1 ↔ ∀ key, ¬ Claimed log key) ∧
        (m.Refused requested log r.1 → r.2 = ctx)) ∧
    (∀ s, ctx.session = some s → s.valid = true →
      (m.afterRequest ctx).Asks (Request.Writes (m.key s.id))) ∧
    (∀ s, ctx.session = some s → s.valid = false →
      (m.afterRequest ctx).Asks (· = .store (.delete (m.key s.id)))) ∧
    ∀ {σ : Type} (h : Script.Handler Request.Answer σ) (t : σ),
      (∀ r t, (h r t).1.isSome = true) → ((m.afterRequest ctx).run h t).1 = some .empty := by
  refine ⟨?finds, ?saves, ?sets, ?removes, ?ends, ?deletes, ?creates, ?refuses, ?valid, ?invalid,
    ?clears⟩
  case finds => exact fun id => m.changesOnly_find now id ctx start
  case saves => exact fun force => m.keepsToBound_save force ctx start
  case sets => exact fun name value => m.keepsToBound_setAttribute name value ctx start
  case removes => exact fun name => m.keepsToBound_removeAttribute name ctx start
  case ends => exact m.keepsToBound_afterRequest ctx start
  case deletes => exact fun s => m.changesOnly_remove s start
  case creates => exact fun requested => m.changesOnly_create now requested ctx start
  case refuses =>
    intro requested r s log hrun
    exact (hrun.ensures (m.sustains_create now requested ctx start).ensures).2
  case valid => exact fun s hs hv => asks_afterRequest_valid hs hv
  case invalid => exact fun s hs hv => asks_afterRequest_invalid hs hv
  case clears => exact fun h t hh => run_afterRequest hh m ctx t

def leaving : SessionContext :=
  { id := some "B", session := some (Session.fresh "B" 1800 default).invalidate }

def refusing : Script.Handler Request.Answer Unit
  | .store _, t => (some (.error (.transient "refused")), t)
  | .newId, t => (some "A", t)

theorem taken_id_is_left_alone :
    ∃ r s log, (create {} default (some "A") leaving).Runs Calling
        ((0, Memory.empty.put "A" [1]), []) r (s, log) ∧
      Refused {} (some "A") log r.1 ∧ r.2 = leaving ∧
      s.2.live? s.1 "A" = some ⟨[1], none⟩ ∧
      (afterRequest {} leaving).Asks (· = .store (.delete "B")) ∧
      ((afterRequest {} leaving).run refusing ()).1 = some .empty := by
  let start : Moment × Memory := (0, Memory.empty.put "A" [1])
  obtain ⟨-, -, -, -, -, -, hcreates, hrefuses, -, hinvalid, hclears⟩ :=
    operations_keep_to_one_key {} default leaving start
  have hlive : start.2.live? 0 "A" = some ⟨[1], none⟩ := by decide +kernel
  have htaken : Clocked Memory.Serves (.setIfAbsent "A" placeholder) start (.ok .existed) start :=
    ⟨Nat.le_refl 0, .inl rfl⟩
  have hrun : (create {} default (some "A") leaving).Runs Calling (start, [])
      (.ok none, leaving)
      (start, [⟨.store (.setIfAbsent "A" placeholder), .ok .existed, start⟩]) := by
    rw [create_eq]
    exact Script.runs_logged_ask htaken (.done _ _)
  have hrefused : Refused {} (some "A")
      [⟨.store (.setIfAbsent "A" placeholder), .ok .existed, start⟩] (.ok none) :=
    ⟨"A", start, rfl, List.mem_singleton.2 rfl⟩
  obtain ⟨hiff, hctx⟩ := hrefuses (some "A") _ _ _ hrun
  have hintact := hrun.ensures (hcreates (some "A")).ensures
  have hkept := hintact "A" (fun h => hiff.1 hrefused "A" h.1) 0 (Nat.le_refl 0)
  refine ⟨_, start, _, hrun, hrefused, hctx hrefused, hkept.trans hlive, ?_, ?_⟩
  · exact hinvalid _ rfl rfl
  · refine hclears refusing () fun r t => ?_
    cases r <;> rfl

end Manager

end SessionVault
