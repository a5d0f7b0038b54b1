import SessionVault.Proofs.Session.Upkeep
import SessionVault.Proofs.Trial.Faulty

namespace SessionVault

namespace Manager

variable {m : Manager} {ctx : SessionContext} {s : Session} {t t' : Contents}

/-- The context knows the id of its session, and whether the store has it. -/
def Coherent (m : Manager) (ctx : SessionContext) (t : Contents) : Prop :=
  ∀ s, ctx.session = some s → ctx.id = some s.id ∧
    (m.Accepts s → ctx.persisted = some true → s.isDirty = false →
      m.Reflects s (t.get? (m.key s.id)))

theorem coherent_of_unbound (h : ctx.session = none) : m.Coherent ctx t := by
  intro s hs
  rw [h] at hs
  cases hs

theorem Coherent.upkept (h : m.Coherent ctx t) (hs : ctx.session = some s) :
    m.Upkept s.id s.valid ctx (t.get? (m.key s.id)) :=
  ⟨s, hs, rfl, rfl, (h s hs).1, (h s hs).2⟩

theorem Upkept.coherent {id : String} {valid : Bool}
    (h : m.Upkept id valid ctx (t.get? (m.key id))) : m.Coherent ctx t := by
  obtain ⟨s, hs, rfl, -, hid, hstored⟩ := h
  intro s' hs'
  cases hs.symm.trans hs'
  exact ⟨hid, hstored⟩

theorem retains_contents (key : String) : Retains Contents.Serves key (·.get? key) where
  set value t t' x h := by
    cases h with
    | answered => exact Table.get?_insert_self ..
    | failed e => rfl
  expire seconds t t' x h := by
    cases h <;> rfl

theorem Coherent.mono (h : m.Coherent ctx t)
    (ht : ∀ key value, t.get? key = some value → t'.get? key = some value) :
    m.Coherent ctx t' := by
  intro s hs
  refine ⟨(h s hs).1, fun ha hp hd => ?_⟩
  obtain ⟨payload, stored, metadata, hget, hrest⟩ := (h s hs).2 ha hp hd
  exact ⟨payload, stored, metadata, ht _ _ hget, hrest⟩

theorem ensures_save_coherent {force : Bool} (h : m.Coherent ctx t) :
    (m.save force ctx).Ensures (Acts Contents.Serves) (fun r t' => m.Coherent r.2 t') t := by
  cases hs : ctx.session with
  | none =>
    simp only [save, hs]
    exact h
  | some s =>
    have hR := retains_contents (m.key s.id)
    exact (ensures_save_upkept hR (h.upkept hs)).mono fun _ _ h' => h'.coherent

theorem Coherent.claimed (h : m.Coherent ctx t) (key : String) (value : Octets) :
    m.Coherent ctx (t.answer (.setIfAbsent key value)).2 := by
  apply h.mono
  intro other v hv
  simp only [Contents.answer]
  split
  · exact hv
  · next hc =>
    by_cases hk : other = key
    · rw [Table.contains, ← hk, hv] at hc
      exact absurd rfl hc
    · exact (Table.get?_insert_of_ne hk).trans hv

theorem ensures_setIfAbsent_coherent {key : String} {value : Octets} {α : Type}
    {f : Except StoreError Claim → Task α} {post : α → Contents → Prop} (h : m.Coherent ctx t)
    (hf : ∀ x t', m.Coherent ctx t' → (f x).Ensures (Acts Contents.Serves) post t') :
    ((ask (.setIfAbsent key value)).bind f).Ensures (Acts Contents.Serves) post t := by
  refine ensures_ask.2 ?_
  intro x t' hx
  cases hx with
  | answered => exact hf _ _ (h.claimed key value)
  | failed e => exact hf _ _ h

theorem ensures_claimNew_coherent (attempts : Nat) (h : m.Coherent ctx t) :
    (m.claimNew attempts).Ensures (Acts Contents.Serves) (fun _ t' => m.Coherent ctx t') t := by
  induction attempts generalizing t with
  | zero => exact h
  | succ attempts ih =>
    intro id t' ht
    cases ht
    apply ensures_setIfAbsent_coherent h
    intro x t' h'
    cases x with
    | error e => exact h'
    | ok claim =>
      cases claim with
      | created => exact h'
      | existed => exact ih h'

theorem ensures_claim_coherent (requested : Option String) (h : m.Coherent ctx t) :
    (m.claim requested).Ensures (Acts Contents.Serves) (fun _ t' => m.Coherent ctx t') t := by
  cases requested with
  | some id =>
    apply ensures_setIfAbsent_coherent h
    intro x t' h'
    cases x with
    | error e => exact h'
    | ok claim => cases claim <;> exact h'
  | none =>
    refine Script.ensures_bind.2 ((ensures_claimNew_coherent maxClaims h).mono ?_)
    intro x t' h'
    cases x <;> exact h'

theorem ensures_create_coherent (now : Instant) (requested : Option String)
    (h : m.Coherent ctx t) :
    (m.create now requested ctx).Ensures (Acts Contents.Serves)
      (fun r t' => m.Coherent r.2 t') t := by
  refine Script.ensures_bind.2 ((ensures_claim_coherent requested h).mono ?_)
  intro x t' h'
  cases x with
  | error e => exact h'
  | ok claimed =>
    cases claimed with
    | none => exact h'
    | some id =>
      have hbound : m.Coherent
          { id := some id
            session := some (Session.fresh id (m.settings.effectiveTimeout 0) now)
            persisted := some false
            metadata := some Metadata.empty } t' := by
        intro s hs
        cases hs
        exact ⟨rfl, fun _ => nofun⟩
      refine Script.ensures_bind.2 ((ensures_save_coherent hbound).mono ?_)
      intro r t'' hr
      obtain ⟨outcome, ctx'⟩ := r
      cases outcome with
      -- The claim is given up again, and the context is left unbound.
      | failed =>
        intro x t''' _
        exact coherent_of_unbound rfl
      | written => exact hr
      | unchanged => exact hr

theorem coherent_found {id : String} (now : Instant) (h : m.Coherent ctx t) :
    m.Coherent (m.found now id ctx (.ok (t.get? (m.key id)))).2 t := by
  cases hget : t.get? (m.key id) with
  | none => exact coherent_of_unbound rfl
  | some data =>
    simp only [found]
    split
    · split
      · exact h
      · exact coherent_of_unbound rfl
    · split
      · next stored metadata hdecode =>
        intro s hs
        cases hs
        exact ⟨rfl, fun _ _ _ => ⟨data, stored, metadata, hget, hdecode, rfl, rfl⟩⟩
      · exact coherent_of_unbound rfl

theorem ensures_find_coherent (now : Instant) (id : String) (h : m.Coherent ctx t) :
    (m.find now id ctx).Ensures (Acts Contents.Serves) (fun r t' => m.Coherent r.2 t') t := by
  by_cases hid : ctx.id = some id
  · rw [find, if_pos hid]
    exact h
  · rw [find_eq hid, ensures_ask]
    intro x t' hx
    cases hx with
    | answered => exact coherent_found now h
    | failed e => exact coherent_of_unbound rfl

theorem ensures_change_coherent {v : Move} (hv : v.changes = true) (h : m.Coherent ctx t) :
    (v.perform m ctx).Ensures (Acts Contents.Serves) m.Coherent t := by
  cases hs : ctx.session with
  | some s =>
    have hR := retains_contents (m.key s.id)
    exact (ensures_perform_upkept hv hR (h.upkept hs)).mono fun _ _ h' => h'.coherent
  | none =>
    cases v with
    | create | find | afterRequest => cases hv
    | save force => exact Script.ensures_bind.2 (ensures_save_coherent h)
    | setAttribute name value =>
      simp only [Move.perform, setAttribute, hs]
      exact h
    | removeAttribute name =>
      simp only [Move.perform, removeAttribute, hs]
      exact h
    | edit e => exact coherent_of_unbound (by rw [hs]; rfl)

theorem coherent_invalidate (h : m.Coherent ctx t) :
    m.Coherent { ctx with session := ctx.session.map Session.invalidate } t := by
  intro s' hs'
  obtain ⟨s, hs, rfl⟩ := Option.map_eq_some_iff.1 hs'
  exact h s hs

theorem ensures_afterRequest_coherent :
    (m.afterRequest ctx).Ensures (Acts Contents.Serves) m.Coherent t := by
  have hempty : ∀ t, m.Coherent SessionContext.empty t := fun _ => coherent_of_unbound rfl
  rw [afterRequest]
  cases ctx.session with
  | none => exact hempty t
  | some s =>
    dsimp only
    split
    · exact Script.ensures_bind.2 (Script.ensures_of_forall _ _ fun _ t' => hempty t')
    · exact Script.ensures_bind.2 (Script.ensures_of_forall _ _ fun _ t' => hempty t')

theorem ensures_perform_coherent (v : Move) (h : m.Coherent ctx t) :
    (v.perform m ctx).Ensures (Acts Contents.Serves) m.Coherent t := by
  cases v with
  | create now requested => exact Script.ensures_bind.2 (ensures_create_coherent now requested h)
  | find now id => exact Script.ensures_bind.2 (ensures_find_coherent now id h)
  | setAttribute | removeAttribute | save => exact ensures_change_coherent rfl h
  | afterRequest => exact ensures_afterRequest_coherent
  | edit e =>
    cases e with
    | invalidate => exact coherent_invalidate h
    | setAttribute | removeAttribute | setPrincipal | markDirty =>
      exact ensures_change_coherent rfl h

/-- The contexts, each with its store, that a new context gets into. -/
inductive Reaches {σ : Type} (m : Manager) (R : Script.Rules Command.Reply σ) (start : σ) :
    SessionContext → σ → Prop where
  | start : Reaches m R start .empty start
  | move {ctx ctx' : SessionContext} {t t' : σ} (v : Move) :
      Reaches m R start ctx t → (v.perform m ctx).Runs (Acts R) t ctx' t' →
      Reaches m R start ctx' t'

theorem Reaches.coherent (h : Reaches m Contents.Serves t ctx t') : m.Coherent ctx t' := by
  induction h with
  | start => exact coherent_of_unbound rfl
  | move v _ hrun ih => exact hrun.ensures (ensures_perform_coherent v ih)

theorem Reaches.map {σ τ : Type} {R : Script.Rules Command.Reply σ}
    {R' : Script.Rules Command.Reply τ} {start end' : σ} (view : σ → τ)
    (hR : ∀ c t x t', R c t x t' → R' c (view t) x (view t')) (h : Reaches m R start ctx end') :
    Reaches m R' (view start) ctx (view end') := by
  have hacts : ∀ r t x t', Acts R r t x t' → Acts R' r (view t) x (view t') := by
    intro r t x t' hx
    cases r with
    | store c => exact hR c t x t' hx
    | newId => exact congrArg view hx
  induction h with
  | start => exact .start
  | move v _ hrun ih => exact .move v ih (hrun.map view hacts)

open Trial in
/-- Over a store that fails at will, the context of a bound session has its id; and when the session
counts as persisted and unchanged, the store holds its attributes and its principal. -/
theorem unchanged_session_is_stored (m : Manager) (start f : FaultyStore) (ctx : SessionContext)
    (s : Session) (h : Reaches m FaultyStore.Serves start ctx f) (hs : ctx.session = some s) :
    ctx.id = some s.id ∧
      (s.Readable m.registry → s.body.depth < 128 →
        ctx.persisted = some true → s.isDirty = false →
        ∃ payload stored metadata,
          f.memory.contents.get? (m.settings.keyPrefix ++ s.id) = some payload ∧
          Session.decode m.registry payload = .ok (stored, metadata) ∧
          stored.attributes = s.attributes ∧ stored.principal = s.principal) := by
  have hview := h.map (fun f => f.memory.contents) fun c f x f' hx => hx.contents
  obtain ⟨hid, hstored⟩ := hview.coherent s hs
  exact ⟨hid, fun hr hd => hstored ⟨hr, hd⟩⟩

open Trial in
theorem found_session_is_stored :
    ∃ start f ctx s, Reaches { registry := Session.shopRegistry } FaultyStore.Serves start ctx f ∧
      ctx.session = some s ∧ s.Readable Session.shopRegistry ∧ s.body.depth < 128 ∧
      ctx.persisted = some true ∧ s.isDirty = false ∧ ctx.id = some s.id ∧
      ∃ payload stored metadata, f.memory.contents.get? ("" ++ s.id) = some payload ∧
        Session.decode Session.shopRegistry payload = .ok (stored, metadata) ∧
        stored.attributes = s.attributes ∧ stored.principal = s.principal := by
  let m : Manager := { registry := Session.shopRegistry }
  let s : Session := m.loaded default "A" Session.shopping.resetTracking
  have hr : s.Readable Session.shopRegistry := Session.shopping_readable
  have hdepth : s.body.depth < 128 := by decide
  obtain ⟨hash, payload, -, hpayload⟩ := Session.shopping_finite.exists_payload
  let start : FaultyStore := .ofMemory (.put .empty (m.key "A") payload)
  let ctx : SessionContext :=
    { id := some "A", session := some s, persisted := some true, metadata := some ⟨hash⟩ }
  have hlive : start.memory.AllLive 0 := Memory.allLive_empty.put _ _
  have hentry : start.memory.contents.get? (m.key "A") = some payload := by
    have hput : start.memory.contents = _ := Memory.contents_put .empty (m.key "A") payload
    rw [hput]
    exact Table.get?_insert_self _ _ _
  have hget : FaultyStore.Serves (.get (m.key "A")) start (.ok (some payload))
      { start with reached := 1 } := hentry ▸ FaultyStore.serves_get hlive (m.key "A")
  have hfound : m.found default "A" .empty (.ok (some payload)) = (.ok (some "A"), ctx) := by
    have h : m.found default "A" .empty (.ok (some payload)) = _ :=
      found_encoded Session.shopping_readable hpayload
    rw [if_pos (by decide)] at h
    exact h
  have hnone : SessionContext.empty.id ≠ some "A" := (Option.some_ne_none _).symm
  have hfind : (Move.perform m (.find default "A") .empty).Runs (Acts FaultyStore.Serves) start ctx
      { start with reached := 1 } :=
    .bind ((runs_find_iff hnone).2 ⟨_, hget, hfound.symm⟩) (.done _ _)
  have hrefused : (m.save true ctx).Runs (Acts FaultyStore.Serves) { start with reached := 1 }
      (.failed, ctx) { start with failing := true, reached := 2 } := by
    have hf : s.Finite := Session.shopping_finite
    have hs : ctx.session = some s := rfl
    obtain ⟨hash', payload', hhash, hencoded⟩ := hf.exists_payload
    have hset := FaultyStore.serves_failure (f := { start with reached := 1 }) hlive
      (.set (m.key "A") payload')
    simp only [save, hs, hhash, hencoded]
    exact .ask hset (.done _ _)
  have hsave : (Move.perform m (.save true) ctx).Runs (Acts FaultyStore.Serves)
      { start with reached := 1 } ctx { start with failing := true, reached := 2 } :=
    .bind hrefused (.done _ _)
  have hreach : Reaches m FaultyStore.Serves start ctx { start with failing := true, reached := 2 } :=
    .move _ (.move _ .start hfind) hsave
  obtain ⟨hid, hstored⟩ := unchanged_session_is_stored m start _ ctx s hreach rfl
  exact ⟨start, _, ctx, s, hreach, rfl, hr, hdepth, rfl, rfl, hid, hstored hr hdepth rfl rfl⟩

end Manager

end SessionVault
