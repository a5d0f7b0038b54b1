import SessionVault.Proofs.Script
import SessionVault.Proofs.Session.Payload
import SessionVault.Session.Manager

namespace SessionVault

def SessionContext.saved (ctx : SessionContext) (s : Session) (hash : Octets) : SessionContext :=
  { ctx with session := some s.resetTracking, persisted := some true, metadata := some ⟨hash⟩ }

namespace Session

theorem encode_ne_placeholder {s : Session} {metadata : Metadata} {payload : Octets}
    (h : s.encode metadata = .ok payload) : payload ≠ Manager.placeholder := by
  obtain ⟨-, -, rfl⟩ := encode_eq_ok_iff.1 h
  intro he
  have hl : (Octets.ofWord (UInt32.ofNat metadata.hash.length) ++ metadata.hash ++
      s.body.print).length = 4 := by
    rw [he]
    decide +kernel
  have hw : (Octets.ofWord (UInt32.ofNat metadata.hash.length)).length = 4 := rfl
  rw [List.length_append, List.length_append, hw, body, Json.print] at hl
  simp only [List.cons_append, List.length_cons] at hl
  omega

theorem fresh_finite (id : String) (maxInactive : UInt64) (now : Instant) :
    (fresh id maxInactive now).Finite := nofun

end Session

namespace Manager

variable {σ α : Type} {m : Manager} {ctx : SessionContext} {s : Session}

/-- The requests of a manager over a store that answers by rules.  Any id may be proposed. -/
def Acts (R : Script.Rules Command.Reply σ) : Script.Rules Request.Answer σ
  | .store c => R c
  | .newId => fun t _ t' => t' = t

variable {R : Script.Rules Command.Reply σ} {t : σ}

theorem ensures_ask {c : Command} {f : c.Reply → Task α} {post : α → σ → Prop} :
    ((ask c).bind f).Ensures (Acts R) post t ↔
      ∀ x t', R c t x t' → (f x).Ensures (Acts R) post t' :=
  Iff.rfl

theorem ensures_renew {outcome : SaveOutcome} {post : SaveOutcome → σ → Prop}
    (h : ∀ x t', R (.expire (m.key s.id) (m.effectiveTimeout s)) t x t' →
      post (match x with | .ok _ => outcome | .error _ => .failed) t') :
    (m.renew s outcome).Ensures (Acts R) post t := by
  rw [renew, Script.bind_eq, ensures_ask]
  intro x t' hx
  cases x with
  | ok found => exact h _ t' hx
  | error e => exact h _ t' hx

theorem ensures_save_cases {force : Bool} {post : SaveOutcome × SessionContext → σ → Prop}
    (hs : ctx.session = some s) (hstuck : post (.failed, ctx) t)
    (hwrite : ∀ hash payload, s.hash = .ok hash → s.encode ⟨hash⟩ = .ok payload →
      ∀ x t', R (.set (m.key s.id) payload) t x t' →
        match x with
        | .error _ => post (.failed, ctx) t'
        | .ok _ => (m.renew s .written).Ensures (Acts R)
            (fun outcome => post (outcome, ctx.saved s hash)) t')
    (hrenew : ∀ hash, s.hash = .ok hash → ¬ needsWrite ctx s hash force = true →
      (m.renew s .unchanged).Ensures (Acts R) (fun outcome => post (outcome, ctx)) t) :
    (m.save force ctx).Ensures (Acts R) post t := by
  simp only [save, hs]
  cases hhash : s.hash with
  | error e => exact hstuck
  | ok hash =>
    dsimp only
    split
    · cases hpayload : s.encode ⟨hash⟩ with
      | error e => exact hstuck
      | ok payload =>
        refine ensures_ask.2 ?_
        intro x t' hx
        have hw := hwrite hash payload hhash hpayload x t' hx
        cases x with
        | error e => exact hw
        | ok => exact Script.ensures_bind.2 hw
    · next hneeds => exact Script.ensures_bind.2 (hrenew hash hhash hneeds)

theorem ensures_save {force : Bool} {post : SaveOutcome × SessionContext → σ → Prop}
    (hs : ctx.session = some s) (hstuck : post (.failed, ctx) t)
    (hwrite : ∀ hash payload, s.hash = .ok hash → s.encode ⟨hash⟩ = .ok payload →
      ∀ x t', R (.set (m.key s.id) payload) t x t' →
        match x with
        | .error _ => post (.failed, ctx) t'
        | .ok _ => (m.renew s .written).Ensures (Acts R)
            (fun outcome => post (outcome, ctx.saved s hash)) t')
    (hrenew : (m.renew s .unchanged).Ensures (Acts R) (fun outcome => post (outcome, ctx)) t) :
    (m.save force ctx).Ensures (Acts R) post t :=
  ensures_save_cases hs hstuck hwrite fun _ _ _ => hrenew

theorem needsWrite_forced (ctx : SessionContext) (s : Session) (hash : Octets) :
    needsWrite ctx s hash true = true := rfl

theorem unchanged_of_not_needsWrite {hash : Octets} {force : Bool}
    (h : ¬ needsWrite ctx s hash force = true) : ctx.persisted = some true ∧ s.isDirty = false := by
  simp only [needsWrite, Bool.not_eq_true, Bool.or_eq_false_iff, bne_eq_false_iff_eq] at h
  exact ⟨h.1.2, h.1.1.2⟩

theorem save_eq {force : Bool} {hash payload : Octets} (hs : ctx.session = some s)
    (hhash : s.hash = .ok hash) (hpayload : s.encode ⟨hash⟩ = .ok payload) :
    m.save force ctx =
      if needsWrite ctx s hash force then
        (ask (.set (m.key s.id) payload)).bind fun x =>
          match x with
          | .error _ => .done (.failed, ctx)
          | .ok _ => (m.renew s .written).bind fun outcome => .done (outcome, ctx.saved s hash)
      else (m.renew s .unchanged).bind fun outcome => .done (outcome, ctx) := by
  simp only [save, hs, hhash, hpayload]
  rfl

theorem save_of_not_needsWrite {hash : Octets} (hs : ctx.session = some s)
    (hhash : s.hash = .ok hash) (hneeds : needsWrite ctx s hash false = false) :
    m.save false ctx = (m.renew s .unchanged).bind fun outcome => .done (outcome, ctx) := by
  simp only [save, hs, hhash, hneeds]
  rfl

theorem needsWrite_saved (ctx : SessionContext) (s : Session) (hash : Octets) :
    needsWrite (ctx.saved s hash) s.resetTracking hash false = false := by
  simp [needsWrite, SessionContext.saved]

def establish (m : Manager) (now : Instant) (ctx : SessionContext) :
    Except SessionError (Option String) →
      Task (Except SessionError (Option String) × SessionContext)
  | .error e => .done (.error e, ctx)
  | .ok none => .done (.ok none, ctx)
  | .ok (some id) => do
    let timeout := m.settings.effectiveTimeout 0
    let bound : SessionContext :=
      { id := some id
        session := some (Session.fresh id timeout now)
        persisted := some false
        metadata := some Metadata.empty }
    match ← m.save true bound with
    | (.failed, _) =>
      let _ ← ask (.expire (m.key id) timeout)
      return (.ok none, SessionContext.empty)
    | (_, ctx) => return (.ok (some id), ctx)

theorem establish_eq {now : Instant} {id : String} {hash payload : Octets}
    (hs : s = Session.fresh id (m.settings.effectiveTimeout 0) now) (hhash : s.hash = .ok hash)
    (hpayload : s.encode ⟨hash⟩ = .ok payload) :
    m.establish now ctx (.ok (some id)) =
      (ask (.set (m.key id) payload)).bind fun x =>
        (match x with
          | .error _ => Script.done SaveOutcome.failed
          | .ok _ => m.renew s .written).bind fun outcome =>
          match outcome with
          | .failed =>
            (ask (.expire (m.key id) (m.settings.effectiveTimeout 0))).bind fun _ =>
              .done (.ok none, .empty)
          | _ => .done (.ok (some id), SessionContext.saved { id := some id } s hash) := by
  subst hs
  simp only [establish]
  rw [save_eq rfl hhash hpayload]
  refine congrArg (Script.ask _) (funext fun x => ?_)
  cases x with
  | error e => rfl
  | ok => exact congrArg (Script.ask _) (funext fun x => by cases x <;> rfl)

theorem create_eq (m : Manager) (now : Instant) (requested : Option String)
    (ctx : SessionContext) :
    m.create now requested ctx = (m.claim requested).bind (m.establish now ctx) := by
  rw [create, Script.bind_eq]
  congr 1

def found (m : Manager) (now : Instant) (id : String) (ctx : SessionContext) :
    Except StoreError (Option Octets) → Except SessionError (Option String) × SessionContext
  | .error _ | .ok none => (.ok none, .unbound none)
  | .ok (some data) =>
    if data = placeholder then
      match m.settings.nullSession with
      | .error => (.error (.nullSession id), ctx)
      | .absent => (.ok none, .unbound none)
    else
      match Session.decode m.registry data with
      | .ok (s, metadata) =>
        (.ok (some id),
          { id := some id
            session := some (m.loaded now id s)
            persisted := some true
            metadata := some metadata })
      | .error _ => (.ok none, .unbound (some id))

theorem found_decoded {now : Instant} {id : String} {data : Octets} {metadata : Metadata}
    (hdata : data ≠ placeholder) (hdecode : Session.decode m.registry data = .ok (s, metadata)) :
    m.found now id ctx (.ok (some data)) =
      (.ok (some id), ⟨some id, some (m.loaded now id s), some true, some metadata⟩) := by
  simp only [found, if_neg hdata, hdecode]

theorem found_eq_some {now : Instant} {id id' : String} {ctx' : SessionContext}
    {x : Except StoreError (Option Octets)} (h : m.found now id ctx x = (.ok (some id'), ctx')) :
    ∃ data s metadata, x = .ok (some data) ∧ data ≠ placeholder ∧
      Session.decode m.registry data = .ok (s, metadata) ∧
      ctx' = ⟨some id, some (m.loaded now id s), some true, some metadata⟩ := by
  unfold found at h
  split at h
  · cases h
  · cases h
  · next data =>
    split at h
    · split at h <;> cases h
    · next hne =>
      split at h
      · next s metadata hdecode =>
        cases h
        exact ⟨data, s, metadata, rfl, hne, hdecode, rfl⟩
      · cases h

theorem find_eq {now : Instant} {id : String} (h : ctx.id ≠ some id) :
    m.find now id ctx = (ask (.get (m.key id))).bind fun x => .done (m.found now id ctx x) := by
  rw [find, if_neg h, Script.bind_eq]
  congr 1
  funext x
  cases x with
  | error e => rfl
  | ok value =>
    cases value with
    | none => rfl
    | some data =>
      simp only [found]
      by_cases hd : data = placeholder
      · rw [if_pos hd, if_pos hd]
        cases m.settings.nullSession <;> rfl
      · rw [if_neg hd, if_neg hd]
        cases Session.decode m.registry data <;> rfl

theorem runs_find_iff {now : Instant} {id : String} {t' : σ}
    {r : Except SessionError (Option String) × SessionContext} (h : ctx.id ≠ some id) :
    (m.find now id ctx).Runs (Acts R) t r t' ↔
      ∃ x, R (.get (m.key id)) t x t' ∧ r = m.found now id ctx x := by
  rw [find_eq h]
  exact Script.runs_request_done

theorem found_encoded {now : Instant} {metadata : Metadata} {payload : Octets} (hr : s.Readable m.registry)
    (h : s.encode metadata = .ok payload) :
    m.found now s.id ctx (.ok (some payload)) =
      if s.body.depth < 128 then
        (.ok (some s.id),
          { id := some s.id
            session := some (m.loaded now s.id s.resetTracking)
            persisted := some true
            metadata := some metadata })
      else (.ok none, .unbound (some s.id)) := by
  simp only [found, if_neg (Session.encode_ne_placeholder h), Session.decode_encode hr h]
  by_cases hd : s.body.depth < 128
  · have hmax : s.body.depth ≤ Json.maxDepth := Nat.le_of_lt_succ hd
    rw [if_pos hd, if_pos hmax]
  · have hmax : ¬ s.body.depth ≤ Json.maxDepth := fun hle => hd (Nat.lt_succ_of_le hle)
    rw [if_neg hd, if_neg hmax]

end Manager

end SessionVault
