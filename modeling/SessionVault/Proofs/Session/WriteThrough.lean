import SessionVault.Proofs.Session.Mutation
import SessionVault.Proofs.Session.Visits

namespace SessionVault

namespace Memory

def Ageless : Script.Rules Command.Reply (Moment × Memory)
  | c, (t, m), x, (t', m') => t ≤ t' ∧ m.AllLive t' ∧ Memory.answer t' c m = (some x, m')

variable {c : Command} {st st' : Moment × Memory} {x : c.Reply}

theorem Ageless.contents (h : Ageless c st x st') :
    st.2.contents.answer c = (x, st'.2.contents) :=
  h.2.1.answer h.2.2

end Memory

namespace Manager

/-- A session was created or found, and since then attributes of it were set and removed, over a
store that no one else uses. -/
inductive Edited (m : Manager) (s₀ : Session) : SessionContext → Moment × Memory → Prop where
  | created {now : Instant} {requested : Option String} {id : String}
      {ctx₀ ctx : SessionContext} {st₀ st : Moment × Memory} :
      (m.create now requested ctx₀).Runs (Acts Memory.Ageless) st₀ (.ok (some id), ctx) st →
      ctx.session = some s₀ → Edited m s₀ ctx st
  | found {now : Instant} {id id' : String} {ctx₀ ctx : SessionContext}
      {st₀ st : Moment × Memory} :
      ctx₀.id ≠ some id →
      (m.find now id ctx₀).Runs (Acts Memory.Ageless) st₀ (.ok (some id'), ctx) st →
      ctx.session = some s₀ → Edited m s₀ ctx st
  | set {ctx ctx' : SessionContext} {st st' : Moment × Memory} (name : String) (value : Attribute)
      {changed : Bool} :
      Edited m s₀ ctx st →
      (m.setAttribute name value ctx).Runs (Acts Memory.Ageless) st (changed, ctx') st' →
      Edited m s₀ ctx' st'
  | remove {ctx ctx' : SessionContext} {st st' : Moment × Memory} (name : String)
      {existed : Bool} :
      Edited m s₀ ctx st →
      (m.removeAttribute name ctx).Runs (Acts Memory.Ageless) st (existed, ctx') st' →
      Edited m s₀ ctx' st'

def Untracked (m : Manager) (s₀ s : Session) : Prop :=
  ∀ name, m.settings.trackingKey = some name →
    s.attribute? name = none ∨ s.attribute? name = s₀.attribute? name

def Follows (m : Manager) (s₀ : Session) (ctx : SessionContext) (t : Contents) : Prop :=
  ∃ s, ctx.session = some s ∧ s.id = s₀.id ∧ m.Untracked s₀ s ∧
    (m.Storable s → m.Reflects s (t.get? (m.key s.id)))

variable {m : Manager} {ctx : SessionContext} {s₀ s s' : Session} {st : Moment × Memory}

theorem untracked_self : m.Untracked s s := fun _ _ => .inr rfl

theorem Untracked.insert {name : String} {value : Attribute} (h : m.Untracked s₀ s)
    (hname : m.settings.trackingKey ≠ some name)
    (hs : s'.attributes = s.attributes.insert name value) : m.Untracked s₀ s' := by
  intro other hother
  have hne : other ≠ name := fun he => hname (he ▸ hother)
  have hkept : s'.attribute? other = s.attribute? other := by
    rw [Session.attribute?, hs, Table.get?_insert_of_ne hne]
    rfl
  rw [hkept]
  exact h other hother

theorem Untracked.erase {name : String} (h : m.Untracked s₀ s)
    (hs : s'.attributes = s.attributes.erase name) : m.Untracked s₀ s' := by
  intro other hother
  rw [Session.attribute?, hs, Table.get?_erase]
  split
  · exact .inl rfl
  · exact h other hother

theorem save_of_not_finite (hs : ctx.session = some s) (h : ¬ s.Finite) (force : Bool) :
    m.save force ctx = .done (.failed, ctx) := by
  rw [Session.finite_iff] at h
  obtain ⟨e, he⟩ := Option.ne_none_iff_exists'.1 h
  simp only [save, hs, Session.hash, he]
  rfl

theorem ensures_renew_ageless {outcome : SaveOutcome} :
    (m.renew s outcome).Ensures (Acts Memory.Ageless)
      (fun _ st' => st'.2.contents = st.2.contents) st :=
  ensures_renew fun _ _ hx => (congrArg Prod.snd hx.contents).symm

theorem ensures_save_follows (hs : ctx.session = some s) (hid : s.id = s₀.id)
    (hu : m.Untracked s₀ s) :
    (m.save true ctx).Ensures (Acts Memory.Ageless)
      (fun r st' => m.Follows s₀ r.2 st'.2.contents) st := by
  by_cases hfinite : s.Finite
  · obtain ⟨hash, payload, hhash, hpayload⟩ := hfinite.exists_payload
    rw [save_eq hs hhash hpayload, if_pos (needsWrite_forced ctx s hash)]
    refine ensures_ask.2 fun x st₁ hx => ?_
    obtain ⟨rfl, hput : _ = st₁.2.contents⟩ := Prod.ext_iff.1 hx.contents
    refine Script.ensures_bind.2 (ensures_renew_ageless.mono fun _ st₂ hkept => ?_)
    refine ⟨s.resetTracking, rfl, hid, hu, fun hstorable => ?_⟩
    have hheld : st₂.2.contents.get? (m.key s.id) = some payload := by
      rw [hkept, ← hput]
      exact Table.get?_insert_self _ _ _
    rw [show m.key s.resetTracking.id = m.key s.id from rfl, hheld]
    exact reflects_of_encode (s := s) hstorable.1 hpayload
  · rw [save_of_not_finite hs hfinite]
    exact ⟨s, hs, hid, hu, fun hstorable => absurd hstorable.2 hfinite⟩

theorem ensures_saveChange_follows (hpolicy : m.settings.policies.saveOnChange = true)
    (hs : ctx.session = some s) (hid : s.id = s₀.id) (hu : m.Untracked s₀ s) :
    (m.saveChange true ctx).Ensures (Acts Memory.Ageless)
      (fun ctx' st' => m.Follows s₀ ctx' st'.2.contents) st := by
  simp only [saveChange, hpolicy]
  exact Script.ensures_bind.2 (ensures_save_follows hs hid hu)

theorem ensures_setAttribute_follows (hpolicy : m.settings.policies.saveOnChange = true)
    (name : String) (value : Attribute) (h : m.Follows s₀ ctx st.2.contents) :
    (m.setAttribute name value ctx).Ensures (Acts Memory.Ageless)
      (fun r st' => m.Follows s₀ r.2 st'.2.contents) st := by
  obtain ⟨s, hs, hid, hu, hheld⟩ := h
  simp only [setAttribute, hs]
  split
  · -- The tracking key marks the session, and the mark is no part of what is stored.
    exact ⟨s.markDirty, rfl, hid, hu, hheld⟩
  · next hname =>
    refine Script.ensures_bind.2 ?_
    cases hholds : s.holds name value with
    | true =>
      rw [Session.setAttribute_of_holds hholds]
      exact ⟨s, rfl, hid, hu, hheld⟩
    | false =>
      rw [Session.setAttribute_of_not_holds hholds]
      exact ensures_saveChange_follows hpolicy rfl hid (hu.insert hname rfl)

theorem ensures_removeAttribute_follows (hpolicy : m.settings.policies.saveOnChange = true)
    (name : String) (h : m.Follows s₀ ctx st.2.contents) :
    (m.removeAttribute name ctx).Ensures (Acts Memory.Ageless)
      (fun r st' => m.Follows s₀ r.2 st'.2.contents) st := by
  obtain ⟨s, hs, hid, hu, -⟩ := h
  simp only [removeAttribute, hs]
  exact Script.ensures_bind.2 (ensures_saveChange_follows hpolicy rfl hid (hu.erase rfl))

theorem ensures_establish_follows (now : Instant) (claimed : Except SessionError (Option String)) :
    (m.establish now ctx claimed).Ensures (Acts Memory.Ageless) (fun r st' =>
      ∀ id, r.1 = .ok (some id) → ∃ s, m.Follows s r.2 st'.2.contents) st := by
  match claimed with
  | .error e => exact nofun
  | .ok none => exact nofun
  | .ok (some id) =>
    refine Script.ensures_bind.2 ((ensures_save_follows rfl rfl untracked_self).mono ?_)
    rintro ⟨outcome, ctx'⟩ st' hfollows
    cases outcome with
    | failed => exact fun _ _ _ => nofun
    | written | unchanged => exact fun _ _ => ⟨_, hfollows⟩

theorem ensures_create_follows (now : Instant) (requested : Option String) :
    (m.create now requested ctx).Ensures (Acts Memory.Ageless) (fun r st' =>
      ∀ id, r.1 = .ok (some id) → ∃ s, m.Follows s r.2 st'.2.contents) st := by
  rw [create_eq]
  refine Script.ensures_bind.2 (Script.ensures_of_forall _ _ fun claimed st' => ?_)
  exact ensures_establish_follows now claimed

theorem found_follows {now : Instant} {id id' : String} {x : Except StoreError (Option Octets)}
    {t t' : Contents} {ctx' : SessionContext} (hx : t.answer (.get (m.key id)) = (x, t'))
    (h : m.found now id ctx x = (.ok (some id'), ctx')) : ∃ s, m.Follows s ctx' t' := by
  obtain ⟨payload, stored, metadata, rfl, -, hdecode, rfl⟩ := found_eq_some h
  obtain ⟨hheld, rfl⟩ := Prod.mk.inj hx
  refine ⟨m.loaded now id stored, _, rfl, rfl, untracked_self, fun _ => ?_⟩
  exact ⟨payload, stored, metadata, Except.ok.inj hheld, hdecode, rfl, rfl⟩

theorem Follows.rebase {t : Contents} (h : m.Follows s ctx t) (hs : ctx.session = some s₀) :
    m.Follows s₀ ctx t := by
  obtain ⟨s', hs', -, -, hheld⟩ := h
  cases hs.symm.trans hs'
  exact ⟨s₀, hs, rfl, untracked_self, hheld⟩

theorem Edited.follows (hpolicy : m.settings.policies.saveOnChange = true)
    (h : m.Edited s₀ ctx st) : m.Follows s₀ ctx st.2.contents := by
  induction h with
  | created hrun hs =>
    obtain ⟨s, hfollows⟩ := hrun.ensures (ensures_create_follows _ _) _ rfl
    exact hfollows.rebase hs
  | found hid hrun hs =>
    obtain ⟨x, hx, hfound⟩ := (runs_find_iff hid).1 hrun
    obtain ⟨s, hfollows⟩ := found_follows hx.contents hfound.symm
    exact hfollows.rebase hs
  | set name value _ hrun ih =>
    exact hrun.ensures (ensures_setAttribute_follows hpolicy name value ih)
  | remove name _ hrun ih =>
    exact hrun.ensures (ensures_removeAttribute_follows hpolicy name ih)

theorem exists_save_ageless {t deadline : Moment} (hs : ctx.session = some s) (hle : st.1 ≤ t)
    (hfinite : s.Finite) (hlive : st.2.AllLive t)
    (hlater : Moment.later? t (m.effectiveTimeout s) = some deadline) :
    ∃ hash mem, (m.save true ctx).Runs (Acts Memory.Ageless) st (.written, ctx.saved s hash)
      (t, mem) := by
  obtain ⟨hash, payload, hhash, hpayload⟩ := hfinite.exists_payload
  let put := st.2.put (m.key s.id) payload
  have hset : Acts Memory.Ageless (.store (.set (m.key s.id) payload)) st (.ok ()) (t, put) :=
    ⟨hle, hlive, rfl⟩
  have hexpire : Acts Memory.Ageless (.store (.expire (m.key s.id) (m.effectiveTimeout s)))
      (t, put) (.ok true) (t, ⟨put.entries.insert (m.key s.id) ⟨payload, some deadline⟩⟩) :=
    ⟨Nat.le_refl t, hlive.put _ _, Memory.answer_expire_later st.2 _ payload hlater⟩
  rw [save_eq hs hhash hpayload]
  exact ⟨hash, _, .ask hset (.ask hexpire (.done _ _))⟩

theorem exists_saveChange {t deadline : Moment} (changed : Bool) (hs : ctx.session = some s)
    (hle : st.1 ≤ t) (hlive : st.2.AllLive t)
    (hlater : Moment.later? t (m.effectiveTimeout s) = some deadline) :
    ∃ ctx' st', (m.saveChange changed ctx).Runs (Acts Memory.Ageless) st ctx' st' := by
  rw [saveChange]
  split
  · by_cases hfinite : s.Finite
    · obtain ⟨hash, mem, hsave⟩ := exists_save_ageless hs hle hfinite hlive hlater
      exact ⟨_, _, hsave.bind (.done _ _)⟩
    · rw [save_of_not_finite hs hfinite]
      exact ⟨_, _, .done _ _⟩
  · exact ⟨_, _, .done _ _⟩

theorem exists_setAttribute {t deadline : Moment} (name : String) (value : Attribute)
    (hs : ctx.session = some s) (hle : st.1 ≤ t) (hlive : st.2.AllLive t)
    (hlater : Moment.later? t (m.effectiveTimeout s) = some deadline) :
    ∃ r st', (m.setAttribute name value ctx).Runs (Acts Memory.Ageless) st r st' := by
  simp only [setAttribute, hs]
  split
  · exact ⟨_, _, .done _ _⟩
  · have htimeout : m.effectiveTimeout (s.setAttribute name value).2 = m.effectiveTimeout s := by
      rw [Session.setAttribute]
      split <;> rfl
    have hset : ({ ctx with session := some (s.setAttribute name value).2 } :
        SessionContext).session = some (s.setAttribute name value).2 := rfl
    obtain ⟨ctx', st', hrun⟩ := exists_saveChange (m := m) (s.setAttribute name value).1 hset hle
      hlive (htimeout ▸ hlater)
    exact ⟨_, _, hrun.bind (.done _ _)⟩

theorem exists_removeAttribute {t deadline : Moment} (name : String)
    (hs : ctx.session = some s) (hle : st.1 ≤ t) (hlive : st.2.AllLive t)
    (hlater : Moment.later? t (m.effectiveTimeout s) = some deadline) :
    ∃ r st', (m.removeAttribute name ctx).Runs (Acts Memory.Ageless) st r st' := by
  simp only [removeAttribute, hs]
  have hremoved : ({ ctx with session := some (s.removeAttribute name).2 } :
      SessionContext).session = some (s.removeAttribute name).2 := rfl
  obtain ⟨ctx', st', hrun⟩ := exists_saveChange (m := m) true hremoved hle hlive hlater
  exact ⟨_, _, hrun.bind (.done _ _)⟩

/-- Where changes are saved at once, the store holds the attributes of the session after every call
that sets or removes one, and nothing is ever added under the tracking key.  Every such call ends
while no deadline comes. -/
theorem changes_are_in_the_store_at_once (m : Manager) (s₀ : Session) (ctx : SessionContext)
    (st : Moment × Memory) (hpolicy : m.settings.policies.saveOnChange = true)
    (h : m.Edited s₀ ctx st) :
    ∃ s, ctx.session = some s ∧ s.id = s₀.id ∧
      (s.Readable m.registry → s.body.depth < 128 → s.Finite →
        ∃ payload stored metadata, st.2.contents.get? (m.key s.id) = some payload ∧
          Session.decode m.registry payload = .ok (stored, metadata) ∧
          stored.attributes = s.attributes) ∧
      (∀ name, m.settings.trackingKey = some name →
        s.attribute? name = none ∨ s.attribute? name = s₀.attribute? name) ∧
      ∀ t, st.1 ≤ t → st.2.AllLive t → (Moment.later? t (m.effectiveTimeout s)).isSome = true →
        (∀ name value, ∃ r st',
          (m.setAttribute name value ctx).Runs (Acts Memory.Ageless) st r st') ∧
        ∀ name, ∃ r st', (m.removeAttribute name ctx).Runs (Acts Memory.Ageless) st r st' := by
  obtain ⟨s, hs, hid, huntracked, hheld⟩ := h.follows hpolicy
  refine ⟨s, hs, hid, fun hreadable hdepth hfinite => ?_, huntracked, fun t hle hlive hlater => ?_⟩
  · obtain ⟨payload, stored, metadata, hpayload, hdecode, hattributes, -⟩ :=
      hheld ⟨⟨hreadable, hdepth⟩, hfinite⟩
    exact ⟨payload, stored, metadata, hpayload, hdecode, hattributes⟩
  · obtain ⟨deadline, hdeadline⟩ := Option.isSome_iff_exists.1 hlater
    exact ⟨fun name value => exists_setAttribute name value hs hle hlive hdeadline,
      fun name => exists_removeAttribute name hs hle hlive hdeadline⟩

def prompt : Manager :=
  { settings := { policies := { saveOnChange := true }, trackingKey := some "touch" } }

theorem allLive_holding (payload : Octets) : (holding payload).AllLive 0 := by
  intro key e he
  rw [holding, Table.get?_insert] at he
  split at he
  · cases he
    rfl
  · cases he

theorem edited_guest {hash payload : Octets} (h : guest.encode ⟨hash⟩ = .ok payload) :
    prompt.Edited (prompt.loaded default "A" guest)
      (SessionContext.saved { id := some "A" } (prompt.loaded default "A" guest) hash)
      (0, holding payload) := by
  have hempty : SessionContext.empty.id ≠ some "A" := nofun
  have hget : Memory.Ageless (.get (prompt.key "A")) (0, holding payload) (.ok (some payload))
      (0, holding payload) :=
    ⟨Nat.le_refl 0, allLive_holding payload, Memory.answer_get_live (live?_holding payload)⟩
  exact .found hempty ((runs_find_iff hempty).2 ⟨_, hget, (found_guest h).symm⟩) rfl

theorem tea_is_in_the_store :
    ∃ s₀ ctx st, prompt.settings.policies.saveOnChange = true ∧
      prompt.settings.trackingKey = some "touch" ∧ prompt.Edited s₀ ctx st ∧
      ∃ s payload stored metadata, ctx.session = some s ∧
        s.attribute? "cart" = some (.text "tea") ∧ s.attribute? "touch" = none ∧
        st.2.contents.get? (prompt.key s.id) = some payload ∧
        Session.decode prompt.registry payload = .ok (stored, metadata) ∧
        stored.attribute? "cart" = some (.text "tea") := by
  obtain ⟨hash, payload, -, hpayload⟩ := (Session.fresh_finite "A" 1800 default).exists_payload
  let s₀ := prompt.loaded default "A" guest
  let s := (s₀.markDirty.setAttribute "cart" (.text "tea")).2
  let marked : SessionContext :=
    { SessionContext.saved { id := some "A" } s₀ hash with session := some s₀.markDirty }
  have hmarked : prompt.Edited s₀ marked (0, holding payload) :=
    .set "touch" (.bool true) (edited_guest hpayload) (.done _ _)
  have hcart (name : String) (a : Attribute) (ha : s.attribute? name = some a) :
      a = .text "tea" := by
    have hs : s.attributes = Table.empty.insert "cart" (.text "tea") := rfl
    rw [Session.attribute?, hs, Table.get?_insert] at ha
    split at ha
    · exact (Option.some.inj ha).symm
    · cases ha
  have hfinite : s.Finite := fun name x hx => nomatch hcart name _ hx
  have hreadable : s.Readable Registry.standard := by
    intro name a ha
    cases hcart name a ha
    exact ⟨⟨.text, rfl, rfl⟩, trivial⟩
  have hlater : Moment.later? 0 (prompt.effectiveTimeout s) = some 1800000000000 := by decide +kernel
  have hs : ({ marked with session := some s } : SessionContext).session = some s := rfl
  obtain ⟨hash', mem, hsave⟩ :
      ∃ hash mem, (prompt.save true { marked with session := some s }).Runs (Acts Memory.Ageless)
        (0, holding payload) (.written, SessionContext.saved marked s hash) (0, mem) :=
    exists_save_ageless hs (Nat.le_refl 0) hfinite (allLive_holding payload) hlater
  have hchange : (prompt.saveChange true { marked with session := some s }).Runs
      (Acts Memory.Ageless) (0, holding payload) (SessionContext.saved marked s hash') (0, mem) :=
    hsave.bind (.done _ _)
  have hset : (prompt.setAttribute "cart" (.text "tea") marked).Runs (Acts Memory.Ageless)
      (0, holding payload) (true, SessionContext.saved marked s hash') (0, mem) :=
    hchange.bind (.done _ _)
  have hedited := hmarked.set "cart" _ hset
  obtain ⟨s', hs', -, hheld, -, -⟩ :=
    changes_are_in_the_store_at_once prompt s₀ _ _ rfl hedited
  cases hs'
  obtain ⟨payload', stored, metadata, hget, hdecode, hattributes⟩ :=
    hheld hreadable (by decide +kernel) hfinite
  have hstored : stored.attribute? "cart" = some (.text "tea") := by
    rw [Session.attribute?, hattributes]
    rfl
  exact ⟨s₀, _, _, rfl, rfl, hedited, _, payload', stored, metadata, rfl, rfl, rfl, hget, hdecode,
    hstored⟩

end Manager

end SessionVault
