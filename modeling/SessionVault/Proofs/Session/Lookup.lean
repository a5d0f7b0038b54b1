import SessionVault.Proofs.History
import SessionVault.Proofs.Session.Visits
import SessionVault.Proofs.Store.Lifetime

namespace SessionVault.Manager

variable {σ : Type} {R : Script.Rules Command.Reply σ} {m : Manager} {now : Instant} {id : String}
variable {ctx : SessionContext} {data : Octets} {stored s : Session} {metadata : Metadata}

structure Restored (m : Manager) (now : Instant) (id : String) (data : Octets) (stored : Session)
    (metadata : Metadata) (s : Session) : Prop where
  decoded : Session.decode m.registry data = .ok (stored, metadata)
  hash : metadata.hash = (data.drop 4).take (Octets.toNat (data.take 4))
  id : s.id = id
  created : s.created = stored.created
  accessed : s.accessed = now
  maxInactive : s.maxInactive = m.effectiveTimeout stored
  isNew : s.isNew = false
  valid : s.valid = true
  principal : s.principal = stored.principal
  attributes : s.attributes = stored.attributes
  dirty : s.dirty = false
  changed : s.changed = .empty

/-- What a search comes to, by the answer of the store. -/
inductive Lookup (m : Manager) (now : Instant) (id : String) (ctx : SessionContext) :
    Except StoreError (Option Octets) → Except SessionError (Option String) × SessionContext →
      Prop where
  | failed (e : StoreError) : Lookup m now id ctx (.error e) (.ok none, .unbound none)
  | absent : Lookup m now id ctx (.ok none) (.ok none, .unbound none)
  | claimed : m.settings.nullSession = .error →
      Lookup m now id ctx (.ok (some placeholder)) (.error (.nullSession id), ctx)
  | concealed : m.settings.nullSession = .absent →
      Lookup m now id ctx (.ok (some placeholder)) (.ok none, .unbound none)
  | restored {data : Octets} {stored s : Session} {metadata : Metadata} :
      Restored m now id data stored metadata s →
      Lookup m now id ctx (.ok (some data))
        (.ok (some id),
          { id := some id, session := some s, persisted := some true, metadata := some metadata })
  | unreadable {data : Octets} {e : PayloadError} : data ≠ placeholder →
      Session.decode m.registry data = .error e →
      Lookup m now id ctx (.ok (some data)) (.ok none, .unbound (some id))

theorem restored_loaded (h : Session.decode m.registry data = .ok (stored, metadata)) :
    Restored m now id data stored metadata (m.loaded now id stored) :=
  ⟨h, (Session.parts_of_decode h).2.1, rfl, rfl, rfl, rfl, rfl, rfl, rfl, rfl, rfl, rfl⟩

theorem Restored.eq_loaded (h : Restored m now id data stored metadata s) :
    s = m.loaded now id stored := by
  obtain ⟨-, -, rfl, hcreated, rfl, hmax, hnew, hvalid, hprincipal, hattributes, hdirty,
    hchanged⟩ := h
  cases s
  simp_all [loaded]

theorem lookup_iff {x : Except StoreError (Option Octets)}
    {r : Except SessionError (Option String) × SessionContext} :
    m.Lookup now id ctx x r ↔ r = m.found now id ctx x := by
  constructor
  · intro h
    cases h with
    | failed e => rfl
    | absent => rfl
    | claimed hpolicy => simp [found, hpolicy]
    | concealed hpolicy => simp [found, hpolicy]
    | restored h =>
      rw [found_decoded (Session.ne_placeholder_of_decode h.decoded) h.decoded, h.eq_loaded]
    | unreadable hne hdecode => simp [found, hne, hdecode]
  · rintro rfl
    unfold found
    split
    · exact .failed _
    · exact .absent
    · next data =>
      split
      · next hdata =>
        rw [hdata]
        split
        · next hpolicy => exact .claimed hpolicy
        · next hpolicy => exact .concealed hpolicy
      · next hne =>
        split
        · next hdecode => exact .restored (restored_loaded hdecode)
        · next hdecode => exact .unreadable hne hdecode

theorem existsUnique_lookup (x : Except StoreError (Option Octets)) :
    ∃! r, m.Lookup now id ctx x r :=
  ⟨m.found now id ctx x, lookup_iff.2 rfl, fun _ => lookup_iff.1⟩

theorem runs_logged_find_iff {t t' : σ} {log : Script.History Request.Answer σ}
    {r : Except SessionError (Option String) × SessionContext} (hid : ctx.id ≠ some id) :
    (m.find now id ctx).Runs (Acts R).logged (t, []) r (t', log) ↔
      ∃ x, R (.get (m.key id)) t x t' ∧ log = [⟨.store (.get (m.key id)), x, t'⟩] ∧
        m.Lookup now id ctx x r := by
  rw [find_eq hid]
  refine Script.runs_request_done.trans (exists_congr fun x => ?_)
  rw [lookup_iff]
  exact and_assoc

theorem Lookup.error {x : Except StoreError (Option Octets)} {e : SessionError}
    {ctx' : SessionContext} (h : m.Lookup now id ctx x (.error e, ctx')) :
    e = .nullSession id ∧ ctx' = ctx ∧ x = .ok (some placeholder) ∧
      m.settings.nullSession = .error := by
  cases h with
  | claimed hpolicy => exact ⟨rfl, rfl, rfl, hpolicy⟩

/-- A search for the session that is bound asks nothing of the store.  Any other asks for one value,
and every answer of the store, whatever octets it may hold, has one result; the only error is that
of an id that is claimed, which no stored session is taken for. -/
theorem search_is_settled_by_one_answer (R : Script.Rules Command.Reply σ) (m : Manager)
    (now : Instant) (id : String) (ctx : SessionContext) :
    (ctx.id = some id → m.find now id ctx = .done (.ok (ctx.session.map (·.id)), ctx)) ∧
    (ctx.id ≠ some id → ∀ t r t' log,
      (m.find now id ctx).Runs (Acts R).logged (t, []) r (t', log) ↔
        ∃ x, R (.get (m.key id)) t x t' ∧ log = [⟨.store (.get (m.key id)), x, t'⟩] ∧
          m.Lookup now id ctx x r) ∧
    (∀ x, ∃! r, m.Lookup now id ctx x r) ∧
    (∀ x e ctx', m.Lookup now id ctx x (.error e, ctx') →
      e = .nullSession id ∧ ctx' = ctx ∧ x = .ok (some placeholder) ∧
        m.settings.nullSession = .error) ∧
    ∀ (s : Session) metadata payload, s.encode metadata = .ok payload → payload ≠ placeholder := by
  refine ⟨fun hid => ?_, fun hid t r t' log => runs_logged_find_iff hid, existsUnique_lookup,
    fun x e ctx' => Lookup.error, fun s metadata payload => Session.encode_ne_placeholder⟩
  rw [find, if_pos hid]
  rfl

theorem claimed_id_is_reported :
    ∃ (m : Manager) (ctx : SessionContext) (s : Session) (mem : Memory)
      (log : Script.History Request.Answer Memory),
      ctx.session = some s ∧ ctx.id ≠ some "A" ∧ mem.live? 0 "A" = some ⟨placeholder, none⟩ ∧
      (m.find default "A" ctx).Runs (Acts (Memory.Answers 0)).logged (mem, [])
        (.error (.nullSession "A"), ctx) (mem, log) := by
  let m : Manager := { settings := { nullSession := .error } }
  let s := Session.fresh "B" 1800 default
  let ctx : SessionContext := { id := some "B", session := some s }
  have hid : ctx.id ≠ some "A" := by decide
  let mem : Memory := Memory.put .empty "A" placeholder
  have hlive : mem.live? 0 "A" = some ⟨placeholder, none⟩ :=
    Memory.live?_eq_some (Table.get?_insert_self ..) rfl
  have hget : Memory.Answers 0 (.get "A") mem (.ok (some placeholder)) mem :=
    Memory.answer_get_live hlive
  obtain ⟨-, hsearch, -⟩ := search_is_settled_by_one_answer (Memory.Answers 0) m default "A" ctx
  exact ⟨m, ctx, s, mem, _, rfl, hid, hlive, (hsearch hid _ _ _ _).2 ⟨_, hget, rfl, .claimed rfl⟩⟩

end SessionVault.Manager
