import SessionVault.Proofs.History
import SessionVault.Proofs.Session.Mutation
import SessionVault.Proofs.Session.Visits

namespace SessionVault

theorem Moment.isSome_later?_mono {now now' : Moment} {seconds : UInt64} (hle : now ≤ now')
    (h : (later? now' seconds).isSome = true) : (later? now seconds).isSome = true := by
  obtain ⟨deadline, h⟩ := Option.isSome_iff_exists.1 h
  simp only [later?, Option.ite_none_right_eq_some] at h
  rw [later?_eq_some (Nat.lt_of_le_of_lt (Nat.add_le_add_right hle _) h.1)]
  rfl

namespace Memory

def ticking (clock : Nat → Moment) : Script.Handler Manager.Request.Answer (Nat × Memory)
  | .store c, (n, m) =>
    let (x, m) := Memory.answer (clock n) c m
    (x, (n + 1, m))
  | .newId, s => (some "", s)

theorem isSome_answer {now : Moment} {c : Command} (m : Memory)
    (h : ∀ key seconds, c = .expire key seconds → (Moment.later? now seconds).isSome = true) :
    (Memory.answer now c m).1.isSome = true := by
  cases c with
  | expire key seconds =>
    obtain ⟨deadline, hlater⟩ := Option.isSome_iff_exists.1 (h key seconds rfl)
    simp only [answer, expire, hlater]
    split <;> rfl
  | set | setIfAbsent | get | delete | «exists» | keys => rfl

theorem answer_expire_put_none {now : Moment} {seconds : UInt64} (m : Memory) (key : String)
    (value : Octets) (h : Moment.later? now seconds = none) :
    Memory.answer now (.expire key seconds) (m.put key value) = (none, m.put key value) := by
  have hlive : (m.put key value).live? now key = some ⟨value, none⟩ :=
    live?_eq_some (Table.get?_insert_self _ _ _) rfl
  simp only [answer, expire, hlive, h, Option.map_none]

end Memory

theorem SessionSettings.effectiveTimeout_idem (s : SessionSettings) (x : UInt64) :
    s.effectiveTimeout (s.effectiveTimeout x) = s.effectiveTimeout x := by
  have hmax (a b : UInt64) : max a b = if a ≤ b then b else a := rfl
  simp only [effectiveTimeout, hmax]
  grind

theorem Session.Edit.maxInactive_apply (e : Edit) (s : Session) :
    (e.apply s).maxInactive = s.maxInactive := by
  cases e with
  | setAttribute name value =>
    rw [apply, Session.setAttribute]
    split <;> rfl
  | removeAttribute | setPrincipal | markDirty | invalidate => rfl

namespace Session

def without (s : Session) : List String → Session
  | [] => s
  | name :: rest => (s.removeAttribute name).2.without rest

theorem maxInactive_without (s : Session) (names : List String) :
    (s.without names).maxInactive = s.maxInactive := by
  induction names generalizing s with
  | nil => rfl
  | cons name rest ih => exact ih (s.removeAttribute name).2

theorem attribute?_without (s : Session) (names : List String) (name : String) :
    (s.without names).attribute? name = if name ∈ names then none else s.attribute? name := by
  induction names generalizing s with
  | nil => rfl
  | cons first rest ih =>
    have herase : (s.removeAttribute first).2.attribute? name =
        if name = first then none else s.attribute? name := Table.get?_erase ..
    rw [without, ih, herase]
    by_cases hrest : name ∈ rest <;> by_cases hfirst : name = first <;> simp [hrest, hfirst]

theorem finite_without_names (s : Session) : (s.without s.attributes.names).Finite := by
  intro name x hx
  rw [attribute?_without] at hx
  split at hx
  · cases hx
  · next hn => exact absurd ((Table.mem_names_iff _ _).2 (Option.isSome_of_mem hx)) hn

end Session

namespace Manager

theorem effectiveTimeout_loaded (m : Manager) (now : Instant) (id : String) (s : Session) :
    m.effectiveTimeout (m.loaded now id s) = m.effectiveTimeout s :=
  m.settings.effectiveTimeout_idem s.maxInactive

variable {m : Manager} {ctx : SessionContext} {s : Session} {T : Moment}

def Move.ends : Move → Bool
  | .save _ | .afterRequest => true
  | _ => false

def request (m : Manager) (now : Instant) (id : String) (changes : List Change) (last : Move) :
    Task SessionContext := do
  let (_, ctx) ← m.find now id .empty
  let ctx ← m.performAll changes ctx
  last.perform m ctx

def InTime (m : Manager) (T : Moment) (ctx : SessionContext) : Prop :=
  ∀ s, ctx.session = some s → (Moment.later? T (m.effectiveTimeout s)).isSome = true

/-- The deadline that a request sets, if any, can be counted up to a moment. -/
def Request.InTime (T : Moment) (r : Request) : Prop :=
  ∀ key seconds, r = .store (.expire key seconds) → (Moment.later? T seconds).isSome = true

theorem inTime_of_unbound (h : ctx.session = none) : m.InTime T ctx := by
  intro s hs
  rw [h] at hs
  cases hs

theorem inTime_some (hs : ctx.session = some s)
    (h : (Moment.later? T (m.effectiveTimeout s)).isSome = true) : m.InTime T ctx := by
  intro s' hs'
  cases hs.symm.trans hs'
  exact h

theorem yields_renew (h : (Moment.later? T (m.effectiveTimeout s)).isSome = true)
    (outcome : SaveOutcome) :
    (m.renew s outcome).Yields (Request.InTime T) fun _ => True := by
  refine ⟨fun key seconds hr => ?_, fun x => ?_⟩
  · cases hr
    exact h
  · cases x <;> trivial

theorem yields_save (h : m.InTime T ctx) (force : Bool) :
    (m.save force ctx).Yields (Request.InTime T) fun r => m.InTime T r.2 := by
  rw [save]
  cases hs : ctx.session with
  | none => exact h
  | some s =>
    have hrenew (outcome : SaveOutcome) := yields_renew (h s hs) outcome
    dsimp only
    cases s.hash with
    | error e => exact h
    | ok hash =>
      dsimp only
      split
      · cases s.encode ⟨hash⟩ with
        | error e => exact h
        | ok payload =>
          refine ⟨fun key seconds hr => ?_, fun x => ?_⟩
          · cases hr
          · cases x with
            | error e => exact h
            | ok =>
              show ((m.renew s .written).bind fun outcome =>
                .done (outcome, ctx.saved s hash)).Yields _ _
              refine Script.yields_bind.2 ((hrenew .written).mono fun _ _ => ?_)
              exact inTime_some rfl (h s hs)
      · exact Script.yields_bind.2 ((hrenew .unchanged).mono fun _ _ => h)

theorem yields_saveChange (h : m.InTime T ctx) (changed : Bool) :
    (m.saveChange changed ctx).Yields (Request.InTime T) (m.InTime T) := by
  rw [saveChange]
  split
  · exact Script.yields_bind.2 (yields_save h true)
  · exact h

theorem InTime.edit (h : m.InTime T ctx) (hs : ctx.session = some s) (e : Session.Edit) :
    m.InTime T { ctx with session := some (e.apply s) } := by
  refine inTime_some rfl ?_
  rw [effectiveTimeout, e.maxInactive_apply]
  exact h s hs

theorem yields_perform {v : Move} (hv : v.changes = true ∨ v.ends = true)
    (h : m.InTime T ctx) :
    (v.perform m ctx).Yields (Request.InTime T) (m.InTime T) := by
  cases v with
  | create | find => rcases hv with hv | hv <;> cases hv
  | save force => exact Script.yields_bind.2 (yields_save h force)
  | edit e =>
    cases hs : ctx.session with
    | none =>
      simp only [Move.perform, hs]
      exact inTime_of_unbound rfl
    | some s =>
      simp only [Move.perform, hs]
      exact h.edit hs e
  | setAttribute name value =>
    refine Script.yields_bind.2 ?_
    rw [setAttribute]
    cases hs : ctx.session with
    | none => exact h
    | some s =>
      dsimp only
      split
      · exact h.edit hs .markDirty
      · exact Script.yields_bind.2 (yields_saveChange (h.edit hs (.setAttribute name value)) _)
  | removeAttribute name =>
    refine Script.yields_bind.2 ?_
    rw [removeAttribute]
    cases hs : ctx.session with
    | none => exact h
    | some s => exact Script.yields_bind.2 (yields_saveChange (h.edit hs (.removeAttribute name)) _)
  | afterRequest =>
    have hempty : m.InTime T .empty := inTime_of_unbound rfl
    rw [Move.perform, afterRequest]
    cases hs : ctx.session with
    | none => exact hempty
    | some s =>
      dsimp only
      split
      · exact Script.yields_bind.2 ((yields_save h _).mono fun _ _ => hempty)
      · refine ⟨fun key seconds hr => ?_, fun x => ?_⟩
        · cases hr
        · cases x <;> exact hempty

theorem yields_performAll (changes : List Change) (h : m.InTime T ctx) :
    (m.performAll changes ctx).Yields (Request.InTime T) (m.InTime T) := by
  induction changes generalizing ctx with
  | nil => exact h
  | cons v rest ih =>
    exact Script.yields_bind.2 ((yields_perform (.inl v.2) h).mono fun _ h => ih h)

variable {clock : Nat → Moment}

theorem isSome_ticking (hclock : ∀ n, clock n ≤ T) {r : Request} (hr : r.InTime T)
    (st : Nat × Memory) : (Memory.ticking clock r st).1.isSome = true := by
  cases r with
  | newId => rfl
  | store c =>
    refine Memory.isSome_answer _ fun key seconds hc => ?_
    exact Moment.isSome_later?_mono (hclock _) (hr key seconds (congrArg Request.store hc))

theorem run_find (m : Manager) (now : Instant) (id : String) (mem : Memory) (n : Nat) :
    (m.find now id .empty).run (Memory.ticking clock) (n, mem) =
      (some (m.found now id .empty (.ok (mem.value? (clock n) (m.key id)))),
        (n + 1, (mem.read (clock n) (m.key id)).2)) := by
  have hid : SessionContext.empty.id ≠ some id := nofun
  rw [find_eq hid, Memory.value?, ← (mem.read_eq (clock n) (m.key id)).1]
  rfl

theorem inTime_found {now : Instant} {id : String} {value : Option Octets}
    (h : ∀ data s metadata, value = some data → Session.decode m.registry data = .ok (s, metadata) →
      (Moment.later? T (m.effectiveTimeout s)).isSome = true) :
    m.InTime T (m.found now id .empty (.ok value)).2 := by
  cases value with
  | none => exact inTime_of_unbound rfl
  | some data =>
    rw [found]
    split
    · cases m.settings.nullSession <;> exact inTime_of_unbound rfl
    · cases hdecode : Session.decode m.registry data with
      | error e => exact inTime_of_unbound rfl
      | ok r =>
        obtain ⟨s, metadata⟩ := r
        refine inTime_some rfl ?_
        rw [effectiveTimeout_loaded]
        exact h data s metadata rfl hdecode

def strip (names : List String) : List Change :=
  names.map fun name => ⟨.edit (.removeAttribute name), rfl⟩

theorem performAll_strip (m : Manager) (names : List String) (hs : ctx.session = some s) :
    m.performAll (strip names) ctx = .done { ctx with session := some (s.without names) } := by
  induction names generalizing ctx s with
  | nil =>
    rw [Session.without, ← hs]
    rfl
  | cons name rest ih =>
    rw [strip, List.map_cons, performAll]
    simp only [Move.perform, hs]
    exact ih rfl

theorem run_save_none (hs : ctx.session = some s) (hf : s.Finite) (mem : Memory) (n : Nat)
    (h : Moment.later? (clock (n + 1)) (m.effectiveTimeout s) = none) :
    ((m.save true ctx).run (Memory.ticking clock) (n, mem)).1 = none := by
  obtain ⟨hash, payload, hhash, hpayload⟩ := hf.exists_payload
  rw [save_eq hs hhash hpayload, if_pos (needsWrite_forced ctx s hash)]
  have hexpire : Memory.ticking clock (.store (.expire (m.key s.id) (m.effectiveTimeout s)))
      (n + 1, mem.put (m.key s.id) payload) = (none, (n + 2, mem.put (m.key s.id) payload)) := by
    simp only [Memory.ticking, Memory.answer_expire_put_none mem (m.key s.id) payload h]
  have hset : Memory.ticking clock (.store (.set (m.key s.id) payload)) (n, mem) =
      (some (.ok ()), (n + 1, mem.put (m.key s.id) payload)) := rfl
  rw [ask, Script.request, Script.ask_bind, Script.run, hset]
  dsimp only [Script.done_bind]
  rw [renew, ask, Script.request, Script.bind_eq, Script.ask_bind, Script.ask_bind, Script.run,
    hexpire]

theorem run_request_none {now : Instant} {id : String} {mem : Memory} {data : Octets}
    {metadata : Metadata} (names : List String)
    (hdata : mem.value? (clock 0) (m.key id) = some data)
    (hdecode : Session.decode m.registry data = .ok (s, metadata))
    (hf : ((m.loaded now id s).without names).Finite)
    (h : Moment.later? (clock 2) (m.effectiveTimeout s) = none) :
    ((m.request now id (strip names) (.save true)).run (Memory.ticking clock) (0, mem)).1 =
      none := by
  have hne := Session.ne_placeholder_of_decode hdecode
  let bound : SessionContext := ⟨some id, some (m.loaded now id s), some true, some metadata⟩
  have hfind : (m.find now id .empty).run (Memory.ticking clock) (0, mem) =
      (some (.ok (some id), bound), (1, (mem.read (clock 0) (m.key id)).2)) := by
    rw [run_find, hdata, found_decoded hne hdecode]
  rw [request, Script.bind_eq, Script.run_bind, hfind]
  dsimp only
  let left := (m.loaded now id s).without names
  have hs : ({ bound with session := some left } : SessionContext).session = some left := rfl
  have htimeout : m.effectiveTimeout left = m.effectiveTimeout s := by
    rw [effectiveTimeout, Session.maxInactive_without]
    exact m.effectiveTimeout_loaded now id s
  rw [← htimeout] at h
  have hsave := run_save_none hs hf (mem.read (clock 0) (m.key id)).2 1 h
  rw [Script.bind_eq, performAll_strip m names rfl, Script.done_bind]
  simp only [Move.perform, Script.bind_eq, Script.run_bind]
  split
  · next hrun =>
    rw [hrun] at hsave
    cases hsave
  · rfl

theorem isSome_run_request {now : Instant} {id : String} {mem : Memory} {last : Move}
    (changes : List Change) (hclock : ∀ n, clock n ≤ T) (hlast : last.ends = true)
    (h : ∀ data s metadata, mem.value? (clock 0) (m.key id) = some data →
      Session.decode m.registry data = .ok (s, metadata) →
        (Moment.later? T (m.effectiveTimeout s)).isSome = true) :
    ((m.request now id changes last).run (Memory.ticking clock) (0, mem)).1.isSome = true := by
  rw [request, Script.bind_eq, Script.run_bind, run_find]
  dsimp only
  have hfound : m.InTime T (m.found now id .empty (.ok (mem.value? (clock 0) (m.key id)))).2 :=
    inTime_found h
  have hrest := Script.yields_bind.2 ((yields_performAll changes hfound).mono fun ctx h =>
    yields_perform (v := last) (.inr hlast) h)
  obtain ⟨ctx, st, hrun, -⟩ := hrest.exists_run (fun r st hr => isSome_ticking hclock hr st) _
  rw [Script.bind_eq, hrun]
  rfl

/-- What is stored under the key of an id brings down no request that finds it, changes the session
and saves it or ends, exactly if all that time the session could be given its time to live. -/
theorem no_request_is_aborted_iff (m : Manager) (now : Instant) (id : String) (mem : Memory)
    {t T : Moment} (hle : t ≤ T) :
    (∀ clock changes last, (∀ n n', n ≤ n' → clock n ≤ clock n') → clock 0 = t →
        (∀ n, clock n ≤ T) → last.ends = true →
        ((m.request now id changes last).run (Memory.ticking clock) (0, mem)).1.isSome = true) ↔
      ∀ data s metadata, mem.value? t (m.key id) = some data →
        Session.decode m.registry data = .ok (s, metadata) →
          (Moment.later? T (m.effectiveTimeout s)).isSome = true := by
  constructor
  · intro h data s metadata hdata hdecode
    -- The session is found at the first moment, stripped of what cannot be encoded, and saved at
    -- the last one.
    let clock (n : Nat) : Moment := if n = 0 then t else T
    let names := s.attributes.names
    have hclock : ∀ n n', n ≤ n' → clock n ≤ clock n' := by
      intro n n' hn
      simp only [clock]
      split <;> split
      · exact Nat.le_refl t
      · exact hle
      · omega
      · exact Nat.le_refl T
    have hlatest : ∀ n, clock n ≤ T := by
      intro n
      simp only [clock]
      split
      · exact hle
      · exact Nat.le_refl T
    have hends := h clock (strip names) (.save true) hclock rfl hlatest rfl
    refine Option.isSome_iff_ne_none.2 fun hnone => ?_
    have hfinite : ((m.loaded now id s).without names).Finite :=
      (m.loaded now id s).finite_without_names
    have haborted : ((m.request now id (strip names) (.save true)).run (Memory.ticking clock)
        (0, mem)).1 = none := run_request_none names hdata hdecode hfinite hnone
    rw [haborted] at hends
    cases hends
  · intro h clock changes last _ hstart hlatest hlast
    subst hstart
    exact isSome_run_request changes hlatest hlast h

theorem decode_fresh {interval : UInt64} {hash payload : Octets}
    (h : (Session.fresh "A" interval default).encode ⟨hash⟩ = .ok payload)
    (hdepth : (Session.fresh "A" interval default).body.depth ≤ Json.maxDepth) :
    Session.decode Registry.standard payload =
      .ok ((Session.fresh "A" interval default).resetTracking, ⟨hash⟩) := by
  have hr : (Session.fresh "A" interval default).Readable Registry.standard :=
    fun _ a ha => nomatch (show none = some a from ha)
  rw [Session.decode_encode hr h, if_pos hdepth]

theorem guest_is_served :
    ∃ hash payload, guest.encode ⟨hash⟩ = .ok payload ∧ 0 ≤ 1000000000000000 ∧
      ∀ clock changes last, (∀ n n', n ≤ n' → clock n ≤ clock n') → clock 0 = 0 →
        (∀ n, clock n ≤ 1000000000000000) → last.ends = true →
        ((request {} default "A" changes last).run (Memory.ticking clock)
          (0, holding payload)).1.isSome = true := by
  obtain ⟨hash, payload, -, hpayload⟩ := (Session.fresh_finite "A" 1800 default).exists_payload
  refine ⟨hash, payload, hpayload, Nat.zero_le _, ?_⟩
  have hiff := no_request_is_aborted_iff {} default "A" (holding payload)
    (Nat.zero_le 1000000000000000)
  refine hiff.2 fun data s metadata hdata hdecode => ?_
  have hheld : (holding payload).value? 0 (key {} "A") = some payload :=
    congrArg (Option.map Memory.Entry.value) (live?_holding payload)
  cases hheld.symm.trans hdata
  cases (decode_fresh hpayload (by decide +kernel)).symm.trans hdecode
  decide +kernel

/-- A session that may stay unused for ever brings down whoever finds and saves it. -/
theorem endless_session_aborts_the_request :
    ∃ hash payload,
      (Session.fresh "A" 18446744073709551615 default).encode ⟨hash⟩ = .ok payload ∧
      ((request {} default "A" [] (.save true)).run (Memory.ticking fun _ => 0)
        (0, Memory.empty.put "A" payload)).1 = none := by
  obtain ⟨hash, payload, -, hpayload⟩ :=
    (Session.fresh_finite "A" 18446744073709551615 default).exists_payload
  have hheld : (Memory.empty.put "A" payload).value? 0 "A" = some payload :=
    (Memory.value?_put ..).trans (if_pos rfl)
  have hdecode := decode_fresh hpayload (by decide +kernel)
  refine ⟨hash, payload, hpayload, run_request_none [] hheld hdecode nofun ?_⟩
  decide +kernel

end Manager

end SessionVault
