import SessionVault.Proofs.Session.Manager

namespace SessionVault

theorem Table.isEmpty_insert {α : Type} (t : Table α) (name : String) (value : α) :
    (t.insert name value).isEmpty = false := by
  have h := t.get?_insert_self name value
  cases he : (t.insert name value).isEmpty with
  | false => rfl
  | true =>
    rw [Table.isEmpty, List.isEmpty_iff] at he
    rw [Table.get?, he] at h
    cases h

namespace Session

inductive Edit where
  | setAttribute (name : String) (value : Attribute)
  | removeAttribute (name : String)
  | setPrincipal (principal : Option String)
  | markDirty
  | invalidate

def Edit.apply : Edit → Session → Session
  | .setAttribute name value, s => (s.setAttribute name value).2
  | .removeAttribute name, s => (s.removeAttribute name).2
  | .setPrincipal principal, s => s.setPrincipal principal
  | .markDirty, s => s.markDirty
  | .invalidate, s => s.invalidate

theorem isDirty_of_changed {s : Session} (h : s.changed.isEmpty = false) : s.isDirty = true := by
  rw [isDirty, h]
  exact Bool.or_true _

theorem setAttribute_of_holds {s : Session} {name : String} {value : Attribute}
    (h : s.holds name value = true) : s.setAttribute name value = (false, s) := if_pos h

theorem setAttribute_of_not_holds {s : Session} {name : String} {value : Attribute}
    (h : s.holds name value = false) :
    s.setAttribute name value = (true, { s with
      attributes := s.attributes.insert name value
      changed := s.changed.insert name () }) :=
  if_neg (Bool.eq_false_iff.1 h)

theorem setAttribute_cases (s : Session) (name : String) (value : Attribute) :
    s.setAttribute name value = (false, s) ∨
      ∃ s', s.setAttribute name value = (true, s') ∧ s'.id = s.id ∧ s'.valid = s.valid ∧
        s'.isDirty = true := by
  rw [setAttribute]
  split
  · exact .inl rfl
  · exact .inr ⟨_, rfl, rfl, rfl, isDirty_of_changed (Table.isEmpty_insert _ _ _)⟩

end Session

namespace Manager

inductive Move where
  | create (now : Instant) (requested : Option String)
  | find (now : Instant) (id : String)
  | setAttribute (name : String) (value : Attribute)
  | removeAttribute (name : String)
  | save (force : Bool)
  | afterRequest
  | edit (e : Session.Edit)

def Move.perform (m : Manager) : Move → SessionContext → Task SessionContext
  | .create now requested, ctx => do
    return (← m.create now requested ctx).2
  | .find now id, ctx => do
    return (← m.find now id ctx).2
  | .setAttribute name value, ctx => do
    return (← m.setAttribute name value ctx).2
  | .removeAttribute name, ctx => do
    return (← m.removeAttribute name ctx).2
  | .save force, ctx => do
    return (← m.save force ctx).2
  | .afterRequest, ctx => m.afterRequest ctx
  | .edit e, ctx => return { ctx with session := ctx.session.map e.apply }

def Move.changes : Move → Bool
  | .setAttribute _ _ | .removeAttribute _ | .save _ => true
  | .edit .invalidate => false
  | .edit _ => true
  | .create _ _ | .find _ _ | .afterRequest => false

variable {σ : Type} {R : Script.Rules Command.Reply σ} {look : σ → Option Octets} {t : σ}
variable {m : Manager} {ctx : SessionContext} {s : Session} {id : String} {valid : Bool}
variable {held : Option Octets}

/-- A store of which we see what it holds under one key.  It holds the value written last, and
renewing the time to live changes nothing of that. -/
structure Retains (R : Script.Rules Command.Reply σ) (key : String) (look : σ → Option Octets) :
    Prop where
  set (value : Octets) (t t' : σ) (x : (Command.set key value).Reply) :
    R (.set key value) t x t' →
    look t' = match x with
      | .ok _ => some value
      | .error _ => look t
  expire (seconds : UInt64) (t t' : σ) (x : (Command.expire key seconds).Reply) :
    R (.expire key seconds) t x t' → look t' = look t

def Accepts (m : Manager) (s : Session) : Prop :=
  s.Readable m.registry ∧ s.body.depth < 128

def Reflects (m : Manager) (s : Session) (held : Option Octets) : Prop :=
  ∃ payload stored metadata, held = some payload ∧
    Session.decode m.registry payload = .ok (stored, metadata) ∧
    stored.attributes = s.attributes ∧ stored.principal = s.principal

/-- The context has bound the session of an id, and knows whether the key holds it. -/
def Upkept (m : Manager) (id : String) (valid : Bool) (ctx : SessionContext)
    (held : Option Octets) : Prop :=
  ∃ s, ctx.session = some s ∧ s.id = id ∧ s.valid = valid ∧ ctx.id = some id ∧
    (m.Accepts s → ctx.persisted = some true → s.isDirty = false → m.Reflects s held)

theorem upkept_of_dirty (s : Session) (hid : s.id = id) (hvalid : s.valid = valid)
    (hctx : ctx.id = some id) (hd : s.isDirty = true) :
    m.Upkept id valid { ctx with session := some s } held :=
  ⟨s, rfl, hid, hvalid, hctx, fun _ _ hc => absurd hd (by rw [hc]; exact Bool.false_ne_true)⟩

theorem reflects_of_encode {metadata : Metadata} {payload : Octets} (ha : m.Accepts s)
    (h : s.encode metadata = .ok payload) : m.Reflects s (some payload) := by
  have hdecode := Session.decode_encode ha.1 h
  have hmax : s.body.depth ≤ Json.maxDepth := Nat.le_of_lt_succ ha.2
  rw [if_pos hmax] at hdecode
  exact ⟨payload, s.resetTracking, metadata, rfl, hdecode, rfl, rfl⟩

theorem ensures_renew_retains {outcome : SaveOutcome} {post : SaveOutcome → σ → Prop}
    (hR : Retains R (m.key s.id) look) (h : ∀ outcome t', look t' = look t → post outcome t') :
    (m.renew s outcome).Ensures (Acts R) post t := by
  apply ensures_renew
  intro x t' hx
  exact h _ t' (hR.expire _ _ _ _ hx)

theorem ensures_save_upkept {force : Bool} (hR : Retains R (m.key id) look)
    (h : m.Upkept id valid ctx (look t)) :
    (m.save force ctx).Ensures (Acts R) (fun r t' => m.Upkept id valid r.2 (look t')) t := by
  obtain ⟨s, hs, rfl, hvalid, hid, hstored⟩ := h
  have hstay {t' : σ} (ht : look t' = look t) : m.Upkept s.id valid ctx (look t') :=
    ht ▸ ⟨s, hs, rfl, hvalid, hid, hstored⟩
  apply ensures_save hs (hstay rfl)
  · intro hash payload _ hpayload x t' hx
    have hlook := hR.set _ _ _ _ hx
    cases x with
    | error e => exact hstay hlook
    | ok =>
      refine ensures_renew_retains hR fun outcome t'' ht => ?_
      refine ⟨s.resetTracking, rfl, rfl, hvalid, hid, fun ha _ _ => ?_⟩
      rw [ht, hlook]
      exact reflects_of_encode ha hpayload
  · exact ensures_renew_retains hR fun outcome t' ht => hstay ht

theorem ensures_saveChange_upkept (changed : Bool) (hR : Retains R (m.key id) look)
    (h : m.Upkept id valid ctx (look t)) :
    (m.saveChange changed ctx).Ensures (Acts R)
      (fun ctx' t' => m.Upkept id valid ctx' (look t')) t := by
  rw [saveChange]
  split
  · exact Script.ensures_bind.2 (ensures_save_upkept hR h)
  · exact h

theorem Upkept.edit (h : m.Upkept id valid ctx held) (hs : ctx.session = some s)
    (e : Session.Edit) (he : (Move.edit e).changes = true) :
    m.Upkept id valid { ctx with session := some (e.apply s) } held := by
  obtain ⟨s', hs', hid, hvalid, hctx, hstored⟩ := h
  cases hs.symm.trans hs'
  cases e with
  | setAttribute name value =>
    rcases s.setAttribute_cases name value with hset | ⟨s', hset, hid', hvalid', hd⟩
    · rw [Session.Edit.apply, hset]
      exact ⟨s, rfl, hid, hvalid, hctx, hstored⟩
    · rw [Session.Edit.apply, hset]
      exact upkept_of_dirty s' (hid'.trans hid) (hvalid'.trans hvalid) hctx hd
  | removeAttribute name => exact upkept_of_dirty (s.removeAttribute name).2 hid hvalid hctx rfl
  | setPrincipal principal => exact upkept_of_dirty (s.setPrincipal principal) hid hvalid hctx rfl
  | markDirty => exact upkept_of_dirty s.markDirty hid hvalid hctx rfl
  | invalidate => cases he

theorem ensures_perform_upkept {v : Move} (hv : v.changes = true)
    (hR : Retains R (m.key id) look) (h : m.Upkept id valid ctx (look t)) :
    (v.perform m ctx).Ensures (Acts R) (fun ctx' t' => m.Upkept id valid ctx' (look t')) t := by
  have ⟨s, hs, _⟩ := h
  cases v with
  | create | find | afterRequest => cases hv
  | save force => exact Script.ensures_bind.2 (ensures_save_upkept hR h)
  | edit e =>
    have he := h.edit hs e hv
    simp only [Move.perform, hs]
    exact he
  | setAttribute name value =>
    refine Script.ensures_bind.2 ?_
    simp only [setAttribute, hs]
    split
    · exact h.edit hs .markDirty rfl
    · exact Script.ensures_bind.2
        (ensures_saveChange_upkept _ hR (h.edit hs (.setAttribute name value) rfl))
  | removeAttribute name =>
    refine Script.ensures_bind.2 ?_
    simp only [removeAttribute, hs]
    exact Script.ensures_bind.2
      (ensures_saveChange_upkept true hR (h.edit hs (.removeAttribute name) rfl))

end Manager

end SessionVault
