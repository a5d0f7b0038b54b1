import Mathlib.Data.List.Chain
import SessionVault.Proofs.Session.Upkeep

namespace SessionVault

theorem Session.decode_placeholder (r : Registry) :
    decode r Manager.placeholder = .error (.shortHash 1853189228 0) := rfl

theorem Session.ne_placeholder_of_decode {r : Registry} {payload : Octets} {s : Session}
    {metadata : Metadata} (h : decode r payload = .ok (s, metadata)) :
    payload ≠ Manager.placeholder := by
  rintro rfl
  rw [decode_placeholder] at h
  cases h

namespace Manager

abbrev Change : Type := { v : Move // v.changes = true }

structure Visit where
  now : Instant
  changes : List Change

structure Visit.Record where
  answer : Except SessionError (Option String)
  found : Option Session
  left : Option Session

def performAll (m : Manager) : List Change → SessionContext → Task SessionContext
  | [], ctx => return ctx
  | v :: rest, ctx => do
    performAll m rest (← v.1.perform m ctx)

def leave (m : Manager) (changes : List Change) (ctx : SessionContext) : Task (Option Session) := do
  let ctx ← m.performAll changes ctx
  let _ ← m.afterRequest ctx
  return ctx.session

def visit (m : Manager) (id : String) (v : Visit) : Task Visit.Record := do
  let (answer, ctx) ← m.find v.now id .empty
  let left ← m.leave v.changes ctx
  return ⟨answer, ctx.session, left⟩

def visitAll (m : Manager) (id : String) : List Visit → Task (List Visit.Record)
  | [] => return []
  | v :: rest => do
    let r ← m.visit id v
    return r :: (← m.visitAll id rest)

structure Client where
  manager : Manager
  now : Instant
  requested : Option String
  first : Option (List Change)
  visits : List Visit

def Client.leaveFirst (c : Client) (ctx : SessionContext) : Task (Option Session) :=
  match c.first with
  | none => return ctx.session
  | some changes => c.manager.leave changes ctx

def Client.script (c : Client) : Task (List Visit.Record) := do
  match ← c.manager.create c.now c.requested .empty with
  | (.ok (some id), ctx) =>
    let left ← c.leaveFirst ctx
    let later ← c.manager.visitAll id c.visits
    return ⟨.ok (some id), ctx.session, left⟩ :: later
  | (answer, ctx) => return [⟨answer, ctx.session, none⟩]

def Storable (m : Manager) (s : Session) : Prop := m.Accepts s ∧ s.Finite

def Recalls (id : String) (before after : Visit.Record) : Prop :=
  after.answer = .ok (some id) ∧ ∃ s found, before.left = some s ∧ after.found = some found ∧
    found.id = id ∧ found.attributes = s.attributes ∧ found.principal = s.principal

/-- A store that takes every value for a key and gives it back, whatever it does with other keys. -/
structure Lasting {σ : Type} (R : Script.Rules Command.Reply σ) (key : String)
    (look : σ → Option Octets) : Prop where
  set (value : Octets) (t t' : σ) (x : (Command.set key value).Reply) :
    R (.set key value) t x t' → x = .ok () ∧ look t' = some value
  expire (seconds : UInt64) (t t' : σ) (x : (Command.expire key seconds).Reply) :
    R (.expire key seconds) t x t' → look t' = look t
  get (value : Octets) (t t' : σ) (x : (Command.get key).Reply) :
    R (.get key) t x t' → look t = some value → x = .ok (some value) ∧ look t' = some value

variable {σ : Type} {R : Script.Rules Command.Reply σ} {look : σ → Option Octets} {t : σ}
variable {m : Manager} {ctx : SessionContext} {s : Session} {id : String}

theorem Lasting.retains {key : String} (h : Lasting R key look) : Retains R key look where
  set value t t' x hx := by
    obtain ⟨rfl, hlook⟩ := h.set value t t' x hx
    exact hlook
  expire := h.expire

theorem ensures_find_reflected (now : Instant) (hR : Lasting R (m.key id) look)
    (h : m.Reflects s (look t)) :
    (m.find now id .empty).Ensures (Acts R) (fun r t' => r.1 = .ok (some id) ∧
      m.Upkept id true r.2 (look t') ∧ ∃ found, r.2.session = some found ∧ found.id = id ∧
        found.attributes = s.attributes ∧ found.principal = s.principal) t := by
  obtain ⟨payload, stored, metadata, hlook, hdecode, hattributes, hprincipal⟩ := h
  have hne := Session.ne_placeholder_of_decode hdecode
  rw [find_eq (Option.some_ne_none _).symm, ensures_ask]
  intro x t' hx
  obtain ⟨rfl, hlook'⟩ := hR.get payload t t' x hx hlook
  have hfound : m.found now id .empty (.ok (some payload)) = (.ok (some id),
      ⟨some id, some (m.loaded now id stored), some true, some metadata⟩) := by
    simp only [found, if_neg hne, hdecode]
  rw [hfound]
  refine ⟨rfl, ?_, m.loaded now id stored, rfl, rfl, hattributes, hprincipal⟩
  refine ⟨m.loaded now id stored, rfl, rfl, rfl, rfl, fun _ _ _ => ?_⟩
  exact ⟨payload, stored, metadata, hlook', hdecode, rfl, rfl⟩

theorem ensures_performAll_upkept {valid : Bool} (changes : List Change)
    (hR : Lasting R (m.key id) look) (h : m.Upkept id valid ctx (look t)) :
    (m.performAll changes ctx).Ensures (Acts R)
      (fun ctx' t' => m.Upkept id valid ctx' (look t')) t := by
  induction changes generalizing ctx t with
  | nil => exact h
  | cons v rest ih =>
    refine Script.ensures_bind.2 ((ensures_perform_upkept v.2 hR.retains h).mono ?_)
    intro ctx' t' h'
    exact ih h'

theorem ensures_afterRequest_reflects (hR : Lasting R (m.key id) look)
    (h : m.Upkept id true ctx (look t)) (hs : ctx.session = some s) (hstorable : m.Storable s) :
    (m.afterRequest ctx).Ensures (Acts R) (fun _ t' => m.Reflects s (look t')) t := by
  obtain ⟨s', hs', rfl, hvalid, -, hstored⟩ := h
  cases hs.symm.trans hs'
  obtain ⟨hash, payload, hhash, hpayload⟩ := hstorable.2.exists_payload
  simp only [afterRequest, hs, hvalid, if_true]
  refine Script.ensures_bind.2 ?_
  rw [save_eq hs hhash hpayload]
  split
  · refine ensures_ask.2 fun x t' hx => ?_
    obtain ⟨rfl, hlook⟩ := hR.set payload t t' x hx
    refine Script.ensures_bind.2 (ensures_renew_retains hR.retains fun outcome t'' ht => ?_)
    show m.Reflects s (look t'')
    rw [ht, hlook]
    exact reflects_of_encode hstorable.1 hpayload
  · next hclean =>
    obtain ⟨hpersisted, hdirty⟩ := unchanged_of_not_needsWrite hclean
    refine Script.ensures_bind.2 (ensures_renew_retains hR.retains fun outcome t' ht => ?_)
    show m.Reflects s (look t')
    rw [ht]
    exact hstored hstorable.1 hpersisted hdirty

def Leaves (m : Manager) (left : Option Session) (held : Option Octets) : Prop :=
  ∃ s, left = some s ∧ (m.Storable s → m.Reflects s held)

theorem ensures_leave (changes : List Change) (hR : Lasting R (m.key id) look)
    (h : m.Upkept id true ctx (look t)) :
    (m.leave changes ctx).Ensures (Acts R) (fun left t' => m.Leaves left (look t')) t := by
  refine Script.ensures_bind.2 ((ensures_performAll_upkept changes hR h).mono ?_)
  intro ctx' t' h'
  have ⟨s, hs, _⟩ := h'
  refine Script.ensures_bind.2 ?_
  by_cases hstorable : m.Storable s
  · refine (ensures_afterRequest_reflects hR h' hs hstorable).mono fun _ t'' hstored => ?_
    exact ⟨s, hs, fun _ => hstored⟩
  · exact Script.ensures_of_forall _ _ fun _ t'' => ⟨s, hs, fun hs' => absurd hs' hstorable⟩

theorem ensures_visit {before : Visit.Record} (v : Visit) (hR : Lasting R (m.key id) look)
    (hs : before.left = some s) (h : m.Reflects s (look t)) :
    (m.visit id v).Ensures (Acts R)
      (fun r t' => Recalls id before r ∧ m.Leaves r.left (look t')) t := by
  refine Script.ensures_bind.2 ((ensures_find_reflected v.now hR h).mono ?_)
  rintro ⟨answer, ctx⟩ t' ⟨hanswer, hupkept, found, hfound, hrecall⟩
  refine Script.ensures_bind.2 ((ensures_leave v.changes hR hupkept).mono ?_)
  intro left t'' hleft
  exact ⟨⟨hanswer, s, found, hs, hfound, hrecall⟩, hleft⟩

def AllStorable (m : Manager) (log : List Visit.Record) : Prop :=
  ∀ r ∈ log, ∀ s, r.left = some s → m.Storable s

theorem ensures_visitAll (before : Visit.Record) (visits : List Visit)
    (hR : Lasting R (m.key id) look) (h : m.Leaves before.left (look t)) :
    (m.visitAll id visits).Ensures (Acts R) (fun log _ =>
      m.AllStorable (before :: log) →
        log.length = visits.length ∧ (before :: log).IsChain (Recalls id)) t := by
  induction visits generalizing before t with
  | nil => exact fun _ => ⟨rfl, .singleton before⟩
  | cons v rest ih =>
    obtain ⟨s, hs, hstored⟩ := h
    by_cases hstorable : m.Storable s
    · refine Script.ensures_bind.2 ((ensures_visit v hR hs (hstored hstorable)).mono ?_)
      rintro r t' ⟨hrecall, hleaves⟩
      refine Script.ensures_bind.2 ((ih r hleaves).mono ?_)
      intro log t'' hlog hall
      obtain ⟨hlength, hchain⟩ := hlog fun r' hr' => hall r' (List.mem_cons_of_mem _ hr')
      exact ⟨congrArg (· + 1) hlength, .cons_cons hrecall hchain⟩
    · refine Script.ensures_of_forall _ _ fun log _ hall => ?_
      exact absurd (hall before List.mem_cons_self s hs) hstorable

theorem ensures_establish {α : Type} {now : Instant} {other : String} {post : α → σ → Prop}
    {f : Except SessionError (Option String) × SessionContext → Task α}
    (hR : Lasting R (m.key id) look)
    (hdone : ∀ ctx t', (other = id → m.Upkept id true ctx (look t') ∧
      m.Leaves ctx.session (look t')) → (f (.ok (some other), ctx)).Ensures (Acts R) post t')
    (hfail : ∀ ctx t', (f (.ok none, ctx)).Ensures (Acts R) post t') :
    ((m.establish now .empty (.ok (some other))).bind f).Ensures (Acts R) post t := by
  obtain ⟨hash, payload, hhash, hpayload⟩ :=
    (Session.fresh_finite other (m.settings.effectiveTimeout 0) now).exists_payload
  rw [establish_eq rfl hhash hpayload, Script.bind_assoc]
  refine ensures_ask.2 fun x t₁ hx => ?_
  rw [Script.bind_assoc]
  cases x with
  | error e => exact fun _ t₂ _ => hfail _ t₂
  | ok =>
    refine Script.ensures_bind.2 (ensures_renew fun x t₂ hx' => ?_)
    cases x with
    | error e => exact fun _ t₃ _ => hfail _ t₃
    | ok found =>
      refine hdone _ t₂ fun hother => ?_
      subst hother
      obtain ⟨-, hlook⟩ := hR.set payload t t₁ _ hx
      have hheld : look t₂ = some payload := (hR.expire _ t₁ t₂ _ hx').trans hlook
      rw [hheld]
      refine ⟨⟨_, rfl, rfl, rfl, rfl, fun ha _ _ => ?_⟩, _, rfl, fun hs => ?_⟩
      · exact reflects_of_encode ha hpayload
      · exact reflects_of_encode hs.1 hpayload

theorem Client.ensures_leaveFirst (c : Client) (hR : Lasting R (c.manager.key id) look)
    (h : c.manager.Upkept id true ctx (look t)) (hleaves : c.manager.Leaves ctx.session (look t)) :
    (c.leaveFirst ctx).Ensures (Acts R) (fun left t' => c.manager.Leaves left (look t')) t := by
  rw [leaveFirst]
  cases c.first with
  | none => exact hleaves
  | some changes => exact ensures_leave changes hR h

theorem Client.ensures_script (c : Client) (hR : Lasting R (c.manager.key id) look) (t : σ) :
    c.script.Ensures (Acts R) (fun log _ => log.head?.map (·.answer) = some (.ok (some id)) →
      c.manager.AllStorable log →
        log.length = c.visits.length + 1 ∧ log.IsChain (Recalls id)) t := by
  rw [Client.script, create_eq, Script.bind_eq, Script.bind_assoc]
  refine Script.ensures_bind.2 (Script.ensures_of_forall _ _ fun r t => ?_)
  match r with
  | .error e => exact nofun
  | .ok none => exact nofun
  | .ok (some other) =>
    apply ensures_establish hR
    · intro ctx t' hdone
      by_cases hother : other = id
      · obtain ⟨hupkept, hleaves⟩ := hdone hother
        subst hother
        refine Script.ensures_bind.2 ((c.ensures_leaveFirst hR hupkept hleaves).mono ?_)
        intro left t'' hleft
        refine Script.ensures_bind.2 ?_
        have hlater := ensures_visitAll ⟨.ok (some other), ctx.session, left⟩ c.visits hR hleft
        refine hlater.mono fun later _ h _ hall => ?_
        obtain ⟨hlength, hchain⟩ := h hall
        exact ⟨congrArg (· + 1) hlength, hchain⟩
      · refine Script.ensures_bind.2 (Script.ensures_of_forall _ _ fun left _ => ?_)
        refine Script.ensures_bind.2 (Script.ensures_of_forall _ _ fun later _ => ?_)
        intro hhead
        cases hhead
        exact absurd rfl hother
    · exact fun ctx t' => nofun

end Manager

end SessionVault
