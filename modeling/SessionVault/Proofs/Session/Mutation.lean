import SessionVault.Proofs.Session.Renewal
import SessionVault.Proofs.Store.Lapse

namespace SessionVault

namespace Session

inductive Mutation where
  | edit (e : Edit)
  | setMaxInactive (seconds : UInt64)

def Mutation.apply : Mutation → Session → Session
  | .edit e, s => e.apply s
  | .setMaxInactive seconds, s => s.setMaxInactive seconds

def mutate (s : Session) (changes : List Mutation) : Session :=
  changes.foldl (fun s c => c.apply s) s

def SameContent (s' s : Session) : Prop :=
  s'.attributes = s.attributes ∧ s'.principal = s.principal

variable {s : Session}

theorem Edit.id_apply (e : Edit) (s : Session) : (e.apply s).id = s.id := by
  cases e with
  | setAttribute name value =>
    rw [apply, Session.setAttribute]
    split <;> rfl
  | removeAttribute | setPrincipal | markDirty | invalidate => rfl

theorem Edit.noted (e : Edit) (s : Session) :
    (e.apply s).isDirty = true ∨
      (e.apply s).isDirty = s.isDirty ∧ (e.apply s).SameContent s := by
  cases e with
  | setAttribute name value =>
    obtain hset | ⟨s', hset, -, -, hdirty⟩ := s.setAttribute_cases name value
    · rw [apply, hset]
      exact .inr ⟨rfl, rfl, rfl⟩
    · rw [apply, hset]
      exact .inl hdirty
  | removeAttribute | setPrincipal | markDirty => exact .inl rfl
  | invalidate => exact .inr ⟨rfl, rfl, rfl⟩

theorem Mutation.noted (c : Mutation) (s : Session) :
    (c.apply s).isDirty = true ∨
      (c.apply s).isDirty = s.isDirty ∧ (c.apply s).SameContent s := by
  cases c with
  | edit e => exact e.noted s
  | setMaxInactive seconds => exact .inr ⟨rfl, rfl, rfl⟩

theorem id_mutate (s : Session) (changes : List Mutation) : (s.mutate changes).id = s.id := by
  induction changes generalizing s with
  | nil => rfl
  | cons c rest ih =>
    refine (ih (c.apply s)).trans ?_
    cases c with
    | edit e => exact e.id_apply s
    | setMaxInactive seconds => rfl

theorem mutate_noted (changes : List Mutation) (s : Session) :
    (s.mutate changes).isDirty = true ∨
      (s.mutate changes).isDirty = s.isDirty ∧ (s.mutate changes).SameContent s := by
  induction changes generalizing s with
  | nil => exact .inr ⟨rfl, rfl, rfl⟩
  | cons c rest ih =>
    obtain hdirty | ⟨hsame, ha, hp⟩ := ih (c.apply s)
    · exact .inl hdirty
    obtain hdirty | ⟨hsame', ha', hp'⟩ := c.noted s
    · exact .inl (hsame.trans hdirty)
    · exact .inr ⟨hsame.trans hsame', ha.trans ha', hp.trans hp'⟩

end Session

namespace Memory

theorem clocked_of_timed {c : Command} {st st' : Moment × Memory} {x : c.Reply}
    (h : Timed c st x st') : Clocked Serves c st x st' :=
  ⟨h.1, .inl h.2⟩

end Memory

namespace Manager

variable {m : Manager} {ctx : SessionContext} {s : Session}

def Remembers (m : Manager) (s : Session)
    (r : Except SessionError (Option String) × SessionContext) : Prop :=
  r.1 = .ok (some s.id) ∧ ∃ s', r.2.session = some s' ∧ s'.SameContent s ∧
    s'.maxInactive = m.effectiveTimeout s

/-- What a key holds after a save that is not forced, unless that has lapsed. -/
def Keeps (m : Manager) (s : Session) (held : Option Octets)
    (outcome : SaveOutcome) (st : Moment × Memory) : Prop :=
  (outcome = .written → ∃ metadata payload, s.encode metadata = .ok payload ∧
    AtMost (st.2.value? st.1 (m.key s.id)) (some payload)) ∧
  (outcome = .unchanged → s.isDirty = false ∧ AtMost (st.2.value? st.1 (m.key s.id)) held)

theorem ensures_save_keeps (hs : ctx.session = some s) (st : Moment × Memory) {held : Option Octets}
    (hheld : AtMost (st.2.value? st.1 (m.key s.id)) held) :
    (m.save false ctx).Ensures (Acts Memory.Timed) (fun r st' => m.Keeps s held r.1 st') st := by
  have hrenew {value : Option Octets} {st st' : Moment × Memory} {x : Except StoreError Bool}
      (hvalue : AtMost (st.2.value? st.1 (m.key s.id)) value)
      (hx : Memory.Timed (.expire (m.key s.id) (m.effectiveTimeout s)) st x st') :
      AtMost (st'.2.value? st'.1 (m.key s.id)) value := by
    have hafter := Memory.lapsing_serves.clocked (Memory.clocked_of_timed hx) hvalue
    cases x <;> exact hafter
  apply ensures_save_cases hs
  · exact ⟨nofun, nofun⟩
  · intro hash payload _ hpayload x st₁ hset
    cases x with
    | error e => exact ⟨nofun, nofun⟩
    | ok =>
      have hstored := Memory.lapsing_serves.clocked (Memory.clocked_of_timed hset) hheld
      rw [Command.after_set] at hstored
      apply ensures_renew
      intro x st₂ hexpire
      have hkept := hrenew hstored hexpire
      cases x with
      | error e => exact ⟨nofun, nofun⟩
      | ok => exact ⟨fun _ => ⟨⟨hash⟩, payload, hpayload, hkept⟩, nofun⟩
  · intro hash _ hneeds
    apply ensures_renew
    intro x st₁ hexpire
    have hkept := hrenew hheld hexpire
    cases x with
    | error e => exact ⟨nofun, nofun⟩
    | ok => exact ⟨nofun, fun _ => ⟨(unchanged_of_not_needsWrite hneeds).2, hkept⟩⟩

theorem remembers_encoded_iff {fresh : SessionContext} {now : Instant} {id : String}
    {metadata : Metadata} {payload : Octets} (hid : s.id = id) (hr : s.Readable m.registry)
    (h : s.encode metadata = .ok payload) :
    m.Remembers s (m.found now id fresh (.ok (some payload))) ↔ s.body.depth < 128 := by
  subst hid
  rw [found_encoded hr h]
  by_cases hd : s.body.depth < 128
  · simp only [hd, iff_true]
    exact ⟨rfl, _, rfl, ⟨rfl, rfl⟩, rfl⟩
  · simp only [hd, iff_false]
    exact nofun

theorem remembers_found_iff {fresh : SessionContext} {now now' : Instant} {id : String}
    {data : Octets} {stored : Session} {metadata : Metadata} {changes : List Session.Mutation}
    (hdata : data ≠ placeholder) (hdecode : Session.decode m.registry data = .ok (stored, metadata))
    (hclean : ((m.loaded now id stored).mutate changes).isDirty = false) :
    m.Remembers ((m.loaded now id stored).mutate changes)
        (m.found now' id fresh (.ok (some data))) ↔
      m.effectiveTimeout ((m.loaded now id stored).mutate changes) =
        (m.loaded now id stored).maxInactive := by
  have hid := Session.id_mutate (m.loaded now id stored) changes
  have hsame : ((m.loaded now id stored).mutate changes).SameContent (m.loaded now id stored) := by
    -- A clean session is one of which nothing that is stored has changed.
    obtain hdirty | ⟨-, hsame⟩ := Session.mutate_noted changes (m.loaded now id stored)
    · exact nomatch hdirty.symm.trans hclean
    · exact hsame
  rw [found_decoded hdata hdecode]
  constructor
  · rintro ⟨-, s', hs', -, hinterval⟩
    cases hs'
    exact hinterval.symm
  · intro hinterval
    refine ⟨congrArg (Except.ok ∘ some) hid.symm, _, rfl, ⟨hsame.1.symm, hsame.2.symm⟩, ?_⟩
    exact hinterval.symm

/-- A session that was found and changed is saved without force, and that does not fail.  As long as
its key is live, whoever finds it afresh finds it as it was changed, if it was written and its body
nests fewer than 128 levels; if it was not written, only if the interval has come to the same. -/
theorem changed_session_is_remembered_iff (m : Manager) (id : String)
    (ctx₀ ctx ctx' fresh : SessionContext) (now now' : Instant) (s₀ : Session)
    (changes : List Session.Mutation) (outcome : SaveOutcome) {t₀ t₁ t₂ t₃ : Moment}
    {mem₀ mem₁ mem₂ : Memory} (hctx₀ : ctx₀.id ≠ some id) (hfresh : fresh.id ≠ some id)
    (hfind : (m.find now id ctx₀).Runs (Acts Memory.Timed) (t₀, mem₀) (.ok (some id), ctx)
      (t₁, mem₁))
    (hs₀ : ctx.session = some s₀) (hr : (s₀.mutate changes).Readable m.registry)
    (hsave : (m.save false { ctx with session := some (s₀.mutate changes) }).Runs
      (Acts Memory.Timed) (t₁, mem₁) (outcome, ctx') (t₂, mem₂))
    (houtcome : outcome ≠ .failed) (hle : t₂ ≤ t₃)
    (hlive : (mem₂.live? t₃ (m.key id)).isSome = true) :
    (∃ r mem₃, (m.find now' id fresh).Runs (Acts Memory.Timed) (t₂, mem₂) r (t₃, mem₃)) ∧
      ∀ r mem₃, (m.find now' id fresh).Runs (Acts Memory.Timed) (t₂, mem₂) r (t₃, mem₃) →
        (m.Remembers (s₀.mutate changes) r ↔
          outcome = .written ∧ (s₀.mutate changes).body.depth < 128 ∨
          outcome = .unchanged ∧ m.effectiveTimeout (s₀.mutate changes) = s₀.maxInactive) := by
  obtain ⟨x, hget, hx⟩ := (runs_find_iff hctx₀).1 hfind
  obtain ⟨data, stored, metadata, rfl, hdata, hdecode, rfl⟩ := found_eq_some hx.symm
  cases hs₀
  have hid : ((m.loaded now id stored).mutate changes).id = id := Session.id_mutate _ changes
  have hheld : some data = mem₁.value? t₁ (m.key id) :=
    Memory.lapsing_serves.got (Memory.clocked_of_timed hget).2
  obtain ⟨e, he⟩ := Option.isSome_iff_exists.1 hlive
  have hvalue : mem₂.value? t₃ (m.key id) = some e.value :=
    congrArg (Option.map Memory.Entry.value) he
  have hruns : ∀ r mem₃, (m.find now' id fresh).Runs (Acts Memory.Timed) (t₂, mem₂) r (t₃, mem₃) ↔
      r = m.found now' id fresh (.ok (some e.value)) ∧ mem₃ = mem₂ :=
    fun r mem₃ => runs_find_live_iff hfresh he hle
  -- What is still live at the end is what the save has left.
  have hlasts {value : Option Octets} (h : AtMost (mem₂.value? t₂ (m.key id)) value) :
      some e.value = value := by
    have hlater := (mem₂.value?_later (m.key id) hle).trans h
    rw [hvalue] at hlater
    exact hlater.resolve_left nofun
  have hkeeps := hsave.ensures (ensures_save_keeps rfl (t₁, mem₁) (.inr (hid ▸ hheld.symm)))
  rw [Keeps, hid] at hkeeps
  refine ⟨⟨_, mem₂, (hruns _ mem₂).2 ⟨rfl, rfl⟩⟩, fun r mem₃ hrun => ?_⟩
  obtain ⟨rfl, -⟩ := (hruns r mem₃).1 hrun
  cases outcome with
  | failed => exact absurd rfl houtcome
  | written =>
    obtain ⟨metadata', payload, hpayload, hput⟩ := hkeeps.1 rfl
    rw [hlasts hput, remembers_encoded_iff hid hr hpayload]
    simp
  | unchanged =>
    obtain ⟨hclean, hkept⟩ := hkeeps.2 rfl
    rw [hlasts hkept, remembers_found_iff hdata hdecode hclean]
    simp

def guest : Session := Session.fresh "A" 1800 default

def holding (payload : Octets) : Memory := ⟨Table.empty.insert "A" ⟨payload, some 1800000000000⟩⟩

theorem found_guest {hash payload : Octets} (h : guest.encode ⟨hash⟩ = .ok payload) :
    found {} default "A" .empty (.ok (some payload)) =
      (.ok (some "A"),
        SessionContext.saved { id := some "A" } (loaded {} default "A" guest) hash) := by
  have hr : guest.Readable Registry.standard := fun _ a ha => nomatch (show none = some a from ha)
  have hfound : found {} default guest.id .empty (.ok (some payload)) = _ := found_encoded hr h
  have hdepth : guest.body.depth < 128 := by decide +kernel
  rw [if_pos hdepth] at hfound
  exact hfound

theorem live?_holding (payload : Octets) :
    (holding payload).live? 0 (key {} "A") = some ⟨payload, some 1800000000000⟩ :=
  Memory.live?_eq_some (Table.get?_insert_self _ _ _) rfl

theorem runs_find_guest {hash payload : Octets} (h : guest.encode ⟨hash⟩ = .ok payload) :
    (find {} default "A" .empty).Runs (Acts Memory.Timed) (0, holding payload)
      (.ok (some "A"), SessionContext.saved { id := some "A" } (loaded {} default "A" guest) hash)
      (0, holding payload) := by
  have hempty : SessionContext.empty.id ≠ some "A" := nofun
  rw [runs_find_live_iff hempty (live?_holding payload) (Nat.le_refl 0)]
  exact ⟨(found_guest h).symm, rfl⟩

theorem signed_in_guest_is_remembered :
    ∃ ctx ctx' s₀ s mem mem',
      (find {} default "A" .empty).Runs (Acts Memory.Timed) (0, mem) (.ok (some "A"), ctx)
        (0, mem) ∧
      ctx.session = some s₀ ∧
      s = s₀.mutate [.edit (.setPrincipal (some "ada")), .setMaxInactive 7200] ∧
      (save {} false { ctx with session := some s }).Runs (Acts Memory.Timed) (0, mem)
        (.written, ctx') (0, mem') ∧
      (∃ r mem'', (find {} default "A" .empty).Runs (Acts Memory.Timed) (0, mem') r
        (7199999999999, mem'')) ∧
      ∀ r mem'', (find {} default "A" .empty).Runs (Acts Memory.Timed) (0, mem') r
        (7199999999999, mem'') → Remembers {} s r := by
  obtain ⟨hash, payload, -, hpayload⟩ := (Session.fresh_finite "A" 1800 default).exists_payload
  let s₀ := loaded {} default "A" guest
  let s := s₀.mutate [.edit (.setPrincipal (some "ada")), .setMaxInactive 7200]
  let ctx := SessionContext.saved { id := some "A" } s₀ hash
  have hfind : (find {} default "A" .empty).Runs (Acts Memory.Timed) (0, holding payload)
      (.ok (some "A"), ctx) (0, holding payload) := runs_find_guest hpayload
  have hs : ({ ctx with session := some s } : SessionContext).session = some s := rfl
  have hr : s.Readable Registry.standard := fun _ a ha => nomatch (show none = some a from ha)
  have hlater : Moment.later? 0 (effectiveTimeout {} s) = some 7200000000000 := by decide +kernel
  obtain ⟨ctx', mem', hsave⟩ :=
    exists_save_needed {} false hs nofun (fun _ => rfl) hlater (holding payload)
  obtain ⟨metadata, stored, -, hentry⟩ := hsave.ensures (ensures_save_stored hs _) rfl
  have hlt : 7199999999999 < 0 + (Duration.ofSeconds (effectiveTimeout {} s)).nanoseconds := by
    decide +kernel
  have hlive : (mem'.live? 7199999999999 (key {} "A")).isSome = true :=
    Option.isSome_iff_exists.2 ⟨_, Memory.live?_of_lt hentry hlt⟩
  have hempty : SessionContext.empty.id ≠ some "A" := nofun
  have hdepth : s.body.depth < 128 := by decide +kernel
  obtain ⟨hrun, hremembers⟩ := changed_session_is_remembered_iff {} "A" .empty ctx ctx' .empty
    default default s₀ [.edit (.setPrincipal (some "ada")), .setMaxInactive 7200] .written hempty
    hempty hfind rfl hr hsave nofun (Nat.zero_le _) hlive
  exact ⟨ctx, ctx', s₀, s, holding payload, mem', hfind, rfl, rfl, hsave, hrun,
    fun r mem'' h => (hremembers r mem'' h).2 (.inl ⟨rfl, hdepth⟩)⟩

/-- A guest who only stays longer is saved and forgotten: the interval is the old one. -/
theorem longer_interval_is_lost :
    ∃ ctx ctx' s₀ mem mem',
      (find {} default "A" .empty).Runs (Acts Memory.Timed) (0, mem) (.ok (some "A"), ctx)
        (0, mem) ∧
      ctx.session = some s₀ ∧
      (save {} false { ctx with session := some (s₀.mutate [.setMaxInactive 7200]) }).Runs
        (Acts Memory.Timed) (0, mem) (.unchanged, ctx') (0, mem') ∧
      (∃ r mem'', (find {} default "A" .empty).Runs (Acts Memory.Timed) (0, mem') r (0, mem'')) ∧
      ∀ r mem'', (find {} default "A" .empty).Runs (Acts Memory.Timed) (0, mem') r (0, mem'') →
        ¬ Remembers {} (s₀.mutate [.setMaxInactive 7200]) r := by
  obtain ⟨hash, payload, hhash, hpayload⟩ := (Session.fresh_finite "A" 1800 default).exists_payload
  let s₀ := loaded {} default "A" guest
  let s := s₀.mutate [.setMaxInactive 7200]
  have hlater : Moment.later? 0 (effectiveTimeout {} s) = some 7200000000000 := by decide +kernel
  let kept : Memory := ⟨(holding payload).entries.insert "A" ⟨payload, some 7200000000000⟩⟩
  have hkept : kept.live? 0 (key {} "A") = some ⟨payload, some 7200000000000⟩ :=
    Memory.live?_eq_some (Table.get?_insert_self _ _ _) rfl
  have hsave : (save {} false (SessionContext.saved { id := some "A" } s hash)).Runs
      (Acts Memory.Timed) (0, holding payload)
      (.unchanged, SessionContext.saved { id := some "A" } s hash) (0, kept) :=
    runs_save_saved _ hhash (Nat.le_refl 0)
      (Memory.answer_expire_live (live?_holding payload) hlater)
  have hempty : SessionContext.empty.id ≠ some "A" := nofun
  have hruns : ∀ r mem'', (find {} default "A" .empty).Runs (Acts Memory.Timed) (0, kept) r
      (0, mem'') ↔ r = found {} default "A" .empty (.ok (some payload)) ∧ mem'' = kept :=
    fun r mem'' => runs_find_live_iff hempty hkept (Nat.le_refl 0)
  refine ⟨_, _, s₀, holding payload, kept, runs_find_guest hpayload, rfl, hsave,
    ⟨_, kept, (hruns _ kept).2 ⟨rfl, rfl⟩⟩, fun r mem'' hrun hremembers => ?_⟩
  obtain ⟨rfl, -⟩ := (hruns r mem'').1 hrun
  rw [found_guest hpayload] at hremembers
  obtain ⟨-, s', hs', -, hinterval⟩ := hremembers
  cases hs'
  revert hinterval
  decide +kernel

end Manager

end SessionVault
