import SessionVault.Proofs.Session.Abort

namespace SessionVault.Manager

open Script (History)

def Repeats (m : Manager) (s : Session) : Move → Prop
  | .setAttribute name value => m.settings.trackingKey ≠ some name ∧ s.holds name value = true
  | .edit (.setAttribute name value) => s.holds name value = true
  | _ => False

def saveEach (m : Manager) : List (List Change) → SessionContext → Task (List SaveOutcome)
  | [], _ => return []
  | changes :: rest, ctx => do
    let (outcome, ctx) ← m.save false (← m.performAll changes ctx)
    return outcome :: (← m.saveEach rest ctx)

variable {σ : Type}

def Succeeds (R : Script.Rules Command.Reply σ) (c : Command) : Prop :=
  ∀ t x t', R c t x t' → ∃ a, x = .ok a

def Answered (R : Script.Rules Command.Reply σ) (c : Command) : Prop :=
  ∀ t, ∃ x t', R c t x t'

def Request.Saves (m : Manager) (s : Session) (payload : Octets) (r : Request) : Prop :=
  r = .store (.set (m.key s.id) payload) ∨
    r = .store (.expire (m.key s.id) (m.effectiveTimeout s))

/-- The context is as it was left when a session was found with the hash of its attributes in front
of it. -/
def FoundIntact (m : Manager) (R : Script.Rules Command.Reply σ) (ctx : SessionContext) : Prop :=
  ∃ now id before answer t t' data stored metadata,
    (m.find now id before).Runs (Acts R).logged (t, []) (answer, ctx)
      (t', [⟨.store (.get (m.key id)), .ok (some data), t'⟩]) ∧
    Session.decode m.registry data = .ok (stored, metadata) ∧ stored.hash = .ok metadata.hash

structure Renewals (m : Manager) (s : Session) (payload : Octets) (writes : Bool) (number : Nat)
    (outcomes : List SaveOutcome) (log : History Request.Answer σ) : Prop where
  outcomes : outcomes =
    (if writes then .written else .unchanged) :: List.replicate (number - 1) .unchanged
  requests : log.map (·.request) =
    List.replicate number (.store (.expire (m.key s.id) (m.effectiveTimeout s))) ++
      if writes then [.store (.set (m.key s.id) payload)] else []

variable {R : Script.Rules Command.Reply σ} {t : σ} {log : History Request.Answer σ}
variable {m : Manager} {ctx : SessionContext} {s : Session} {hash payload : Octets}

theorem perform_of_repeats {v : Move} (hs : ctx.session = some s) (h : m.Repeats s v) :
    v.perform m ctx = .done ctx := by
  have hctx : { ctx with session := some s } = ctx := by rw [← hs]
  cases v with
  | setAttribute name value =>
    obtain ⟨hkey, hholds⟩ := h
    simp only [Move.perform, setAttribute, hs, if_neg hkey, Session.setAttribute_of_holds hholds,
      hctx]
    rfl
  | edit e =>
    cases e with
    | setAttribute name value =>
      have hedit : Session.Edit.apply (.setAttribute name value) s = s :=
        congrArg Prod.snd (Session.setAttribute_of_holds h)
      simp only [Move.perform, hs, Option.map_some, hedit, hctx]
      rfl
    | removeAttribute | setPrincipal | markDirty | invalidate => exact h.elim
  | create | find | removeAttribute | save | afterRequest => exact h.elim

theorem performAll_of_repeats {changes : List Change} (hs : ctx.session = some s)
    (h : ∀ v ∈ changes, m.Repeats s v.1) : m.performAll changes ctx = .done ctx := by
  induction changes with
  | nil => rfl
  | cons v rest ih =>
    rw [performAll, perform_of_repeats hs (h v (.head _))]
    exact ih fun v hv => h v (.tail _ hv)

theorem delivers_renew {α : Type} {outcome : SaveOutcome} {f : SaveOutcome → Task α}
    {post : α → σ × History Request.Answer σ → Prop}
    (hexpire : Succeeds R (.expire (m.key s.id) (m.effectiveTimeout s)))
    (h : ∀ e t', e.request = .store (.expire (m.key s.id) (m.effectiveTimeout s)) →
      (f outcome).Delivers (Acts R).logged (Request.Saves m s payload) post (t', e :: log)) :
    ((m.renew s outcome).bind f).Delivers (Acts R).logged (Request.Saves m s payload) post
      (t, log) := by
  refine Script.delivers_logged_ask (.inr rfl) fun x t' hx => ?_
  obtain ⟨found, rfl⟩ := hexpire t x t' hx
  exact h _ t' rfl

theorem delivers_saveEach_unchanged (payload : Octets) (gaps : List (List Change)) (t : σ)
    (log : History Request.Answer σ) (hs : ctx.session = some s) (hhash : s.hash = .ok hash)
    (hneeds : needsWrite ctx s hash false = false)
    (hgaps : ∀ changes ∈ gaps, ∀ v ∈ changes, m.Repeats s v.1)
    (hexpire : Succeeds R (.expire (m.key s.id) (m.effectiveTimeout s))) :
    (m.saveEach gaps ctx).Delivers (Acts R).logged (Request.Saves m s payload)
      (fun outcomes st => outcomes = List.replicate gaps.length .unchanged ∧
        st.2.map (·.request) =
          List.replicate gaps.length (.store (.expire (m.key s.id) (m.effectiveTimeout s))) ++
            log.map (·.request)) (t, log) := by
  induction gaps generalizing t log with
  | nil => exact ⟨rfl, rfl⟩
  | cons changes rest ih =>
    simp only [saveEach, Script.bind_eq, performAll_of_repeats hs (hgaps changes (.head _)),
      Script.done_bind, save_of_not_needsWrite hs hhash hneeds, Script.bind_assoc]
    refine delivers_renew hexpire fun e t' he => ?_
    refine Script.delivers_bind.2 ((ih t' (e :: log) fun c hc => hgaps c (.tail _ hc)).mono ?_)
    rintro outcomes ⟨t'', log'⟩ ⟨rfl, hrequests⟩
    refine ⟨rfl, ?_⟩
    rw [hrequests, List.map_cons, he, List.length_cons, List.replicate_succ', List.append_assoc]
    rfl

theorem delivers_saveEach {first : List Change} {rest : List (List Change)}
    (hs : ctx.session = some s) (hhash : s.hash = .ok hash)
    (hpayload : s.encode ⟨hash⟩ = .ok payload)
    (hgaps : ∀ changes ∈ first :: rest, ∀ v ∈ changes, m.Repeats s v.1)
    (hset : Succeeds R (.set (m.key s.id) payload))
    (hexpire : Succeeds R (.expire (m.key s.id) (m.effectiveTimeout s))) (t : σ) :
    (m.saveEach (first :: rest) ctx).Delivers (Acts R).logged (Request.Saves m s payload)
      (fun outcomes st => Renewals m s payload (needsWrite ctx s hash false) (rest.length + 1)
        outcomes st.2) (t, []) := by
  cases hneeds : needsWrite ctx s hash false with
  | false =>
    have hall := delivers_saveEach_unchanged payload (first :: rest) t [] hs hhash hneeds hgaps
      hexpire
    exact hall.mono fun outcomes st h => ⟨h.1, h.2⟩
  | true =>
    simp only [saveEach, Script.bind_eq, performAll_of_repeats hs (hgaps first (.head _)),
      Script.done_bind, save_eq hs hhash hpayload, hneeds, if_true, Script.bind_assoc]
    refine Script.delivers_logged_ask (.inl rfl) fun x t₁ hx => ?_
    obtain ⟨-, rfl⟩ := hset t x t₁ hx
    simp only [Script.bind_assoc, Script.done_bind]
    refine delivers_renew hexpire fun e t₂ he => ?_
    have hsaved : (ctx.saved s hash).session = some s.resetTracking := rfl
    refine Script.delivers_bind.2 ((delivers_saveEach_unchanged payload rest t₂ _ hsaved
      hhash (needsWrite_saved ctx s hash) (fun c hc => hgaps c (.tail _ hc)) hexpire).mono ?_)
    rintro outcomes ⟨t', log'⟩ ⟨rfl, hrequests⟩
    refine ⟨rfl, hrequests.trans ?_⟩
    rw [List.map_cons, he, List.replicate_succ', List.append_assoc]
    rfl

theorem FoundIntact.needsWrite_eq_false (h : m.FoundIntact R ctx) (hs : ctx.session = some s)
    (hhash : s.hash = .ok hash) : needsWrite ctx s hash false = false := by
  obtain ⟨now, id, before, answer, t, t', data, stored, metadata, hrun, hdecode, hstored⟩ := h
  by_cases hid : before.id = some id
  · rw [find, if_pos hid] at hrun
    cases hrun
  rw [find_eq hid] at hrun
  obtain ⟨x, ⟨-, hlog⟩, hctx⟩ := Script.runs_request_done.1 hrun
  cases hlog
  rw [found_decoded (Session.ne_placeholder_of_decode hdecode) hdecode] at hctx
  cases hctx
  cases hs
  cases hhash.symm.trans hstored
  have hclean : (m.loaded now id stored).isDirty = false := rfl
  simp [needsWrite, hclean]

/-- Of any number of saves in a row, with nothing between them but attributes set to the values that
they have, at most the first one writes, and each of them renews the time to live once.  None
writes if the session has just been found with the hash of its attributes. -/
theorem saves_in_a_row_write_once (R : Script.Rules Command.Reply σ) (m : Manager)
    (ctx : SessionContext) (s : Session) (hs : ctx.session = some s) (hf : s.Finite)
    (first : List Change) (rest : List (List Change))
    (hgaps : ∀ changes ∈ first :: rest, ∀ v ∈ changes, m.Repeats s v.1)
    (hset : ∀ payload, Succeeds R (.set (m.key s.id) payload))
    (hexpire : Succeeds R (.expire (m.key s.id) (m.effectiveTimeout s))) (t : σ) :
    ∃ hash payload, s.hash = .ok hash ∧ s.encode ⟨hash⟩ = .ok payload ∧
      (m.FoundIntact R ctx → needsWrite ctx s hash false = false) ∧
      (∀ outcomes t' log,
        (m.saveEach (first :: rest) ctx).Runs (Acts R).logged (t, []) outcomes (t', log) →
          Renewals m s payload (needsWrite ctx s hash false) (rest.length + 1) outcomes log) ∧
      (Answered R (.set (m.key s.id) payload) →
        Answered R (.expire (m.key s.id) (m.effectiveTimeout s)) →
        ∃ outcomes st, (m.saveEach (first :: rest) ctx).Runs (Acts R).logged (t, []) outcomes
          st) := by
  obtain ⟨hash, payload, hhash, hpayload⟩ := hf.exists_payload
  have hdelivers := delivers_saveEach hs hhash hpayload hgaps (hset payload) hexpire t
  refine ⟨hash, payload, hhash, hpayload, fun h => h.needsWrite_eq_false hs hhash, ?_, ?_⟩
  · exact fun outcomes t' log hrun => hrun.ensures hdelivers.ensures
  · intro hsets hrenews
    refine hdelivers.exists_runs ?_
    rintro r ⟨t, log⟩ (rfl | rfl)
    · exact Script.exists_logged (hsets t)
    · exact Script.exists_logged (hrenews t)

example : ({ Session.fresh "A" 1800 default with
      attributes := ⟨[("zero", .float 0)], by decide⟩ } : Session).holds "zero" (.float (-0)) =
    true := by
  decide +kernel

theorem answered_expire {now : Moment} {seconds : UInt64} (key : String)
    (h : (Moment.later? now seconds).isSome = true) :
    Answered (Memory.Answers now) (.expire key seconds) := by
  intro mem
  have hanswered : (Memory.answer now (.expire key seconds) mem).1.isSome = true := by
    refine Memory.isSome_answer mem ?_
    rintro _ _ ⟨⟩
    exact h
  obtain ⟨x, hx⟩ := Option.isSome_iff_exists.1 hanswered
  exact ⟨x, _, Prod.ext hx rfl⟩

open Session in
theorem found_session_is_not_written :
    ∃ (ctx : SessionContext) (s : Session) (gap : List Change) (mem mem' : Memory)
      (outcomes : List SaveOutcome) (log : History Request.Answer Memory),
      FoundIntact { registry := shopRegistry } (Memory.Answers 0) ctx ∧ ctx.session = some s ∧
      gap.length = 1 ∧
      (saveEach { registry := shopRegistry } [[], gap] ctx).Runs (Acts (Memory.Answers 0)).logged
        (mem, []) outcomes (mem', log) ∧
      outcomes = [.unchanged, .unchanged] ∧
      log.map (·.request) = [.store (.expire "A" 1800), .store (.expire "A" 1800)] := by
  let m : Manager := { registry := shopRegistry }
  obtain ⟨hash, payload, hhash, hpayload⟩ := shopping_finite.exists_payload
  have hdecode : Session.decode m.registry payload = .ok (shopping.resetTracking, ⟨hash⟩) :=
    (decode_encode shopping_readable hpayload).trans (if_pos (by decide))
  let mem : Memory := Memory.put .empty "A" payload
  let s := m.loaded default "A" shopping.resetTracking
  let ctx : SessionContext := ⟨some "A", some s, some true, some ⟨hash⟩⟩
  have hs : ctx.session = some s := rfl
  have hfound : m.FoundIntact (Memory.Answers 0) ctx := by
    refine ⟨default, "A", .empty, .ok (some "A"), mem, mem, payload, _, _, ?_, hdecode, hhash⟩
    have hget : Memory.Answers 0 (.get "A") mem (.ok (some payload)) mem :=
      Memory.answer_get_live (Memory.live?_eq_some (Table.get?_insert_self ..) rfl)
    rw [find_eq (Option.some_ne_none _).symm,
      ← found_decoded (Session.encode_ne_placeholder hpayload) hdecode]
    exact Script.runs_logged_ask hget (.done _ _)
  let gap : List Change := [⟨.edit (.setAttribute "visits" (.int64 (-3))), rfl⟩]
  have hgaps : ∀ changes ∈ [[], gap], ∀ v ∈ changes, m.Repeats s v.1 := by
    intro changes hc v hv
    simp only [List.mem_cons, List.not_mem_nil, or_false] at hc
    rcases hc with rfl | rfl
    · cases hv
    · rw [List.mem_singleton.1 hv]
      exact (by decide : s.holds "visits" (.int64 (-3)) = true)
  have hset (payload : Octets) : Succeeds (Memory.Answers 0) (.set "A" payload) := by
    intro mem x mem' h
    cases h
    exact ⟨_, rfl⟩
  have hlater : (Moment.later? 0 1800).isSome = true := by decide +kernel
  obtain ⟨hash', payload', -, -, hnone, hall, hexists⟩ :=
    saves_in_a_row_write_once (Memory.Answers 0) m ctx s hs shopping_finite [] [gap] hgaps hset
      (fun mem x mem' h => h.expire.1) mem
  obtain ⟨outcomes, ⟨mem', log⟩, hrun⟩ :=
    hexists (fun mem => ⟨_, _, rfl⟩) (answered_expire "A" hlater)
  have hrenewals := hall outcomes mem' log hrun
  rw [hnone hfound] at hrenewals
  exact ⟨ctx, s, gap, mem, mem', outcomes, log, hfound, hs, rfl, hrun, hrenewals.outcomes,
    hrenewals.requests⟩

end SessionVault.Manager
