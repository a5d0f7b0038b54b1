import SessionVault.Proofs.Session.Coherence
import SessionVault.Proofs.Session.Recall

namespace SessionVault

namespace Memory

variable {m m' : Memory} {now : Moment} {key : String} {seconds : UInt64}

theorem live?_of_answer_expire {x : Except StoreError Bool} (h0 : seconds ≠ 0)
    (h : Memory.answer now (.expire key seconds) m = (some x, m')) :
    m'.live? now key = (m.live? now key).map fun e =>
      { e with deadline := some (now + (Duration.ofSeconds seconds).nanoseconds) } := by
  simp only [answer, expire] at h
  cases hl : m.live? now key with
  | none =>
    simp only [hl] at h
    cases h
    exact hl
  | some e =>
    simp only [hl] at h
    split at h
    · cases h
    · next deadline hd =>
      cases h
      rw [← Moment.eq_of_later? hd, Option.map_some]
      refine live?_eq_some (Table.get?_insert_self _ _ _) (decide_eq_true ?_)
      rw [Moment.eq_of_later? hd]
      exact Nat.lt_add_of_pos_right (Duration.ofSeconds_pos h0)

end Memory

namespace Manager

variable {m : Manager} {ctx ctx' : SessionContext} {s : Session} {hash : Octets}

theorem ensures_save_unchanged {force : Bool} (hs : ctx.session = some s)
    (h0 : m.effectiveTimeout s ≠ 0) (st : Moment × Memory) :
    (m.save force ctx).Ensures (Acts Memory.Timed)
      (fun r st' => r.1 = .unchanged →
        st'.2.live? st'.1 (m.key s.id) = (st.2.live? st'.1 (m.key s.id)).map fun e =>
          { e with
            deadline := some (st'.1 + (Duration.ofSeconds (m.effectiveTimeout s)).nanoseconds) })
      st := by
  apply ensures_save hs
  · exact nofun
  · intro hash payload _ _ x st₁ _
    cases x with
    | error e => exact nofun
    | ok =>
      apply ensures_renew
      intro x st₂ _
      cases x <;> exact nofun
  · apply ensures_renew
    intro x st' hx _
    exact Memory.live?_of_answer_expire h0 hx.2

/-- A save that answers that nothing changed leaves the session in the store, with all its time to
live before it, exactly if the session was still there. -/
theorem unchanged_session_lives_iff (m : Manager) (s : Session) (ctx ctx' : SessionContext)
    (force : Bool) {t t' : Moment} {mem mem' : Memory} (hs : ctx.session = some s)
    (htimeout : m.effectiveTimeout s ≠ 0)
    (hsave : (m.save force ctx).Runs (Acts Memory.Timed) (t, mem) (.unchanged, ctx') (t', mem')) :
    (mem'.remaining? t' (m.key s.id) =
          some (Duration.ofSeconds (m.effectiveTimeout s)).nanoseconds ↔
        (mem.live? t' (m.key s.id)).isSome = true) ∧
      (mem'.live? t' (m.key s.id)).map (·.value) = (mem.live? t' (m.key s.id)).map (·.value) := by
  have hlive := hsave.ensures (ensures_save_unchanged hs htimeout (t, mem)) rfl
  dsimp only at hlive
  rw [Memory.remaining?, hlive]
  cases mem.live? t' (m.key s.id) with
  | none => simp
  | some e => simp

theorem ensures_save_saved {σ : Type} {R : Script.Rules Command.Reply σ} {t : σ} {force : Bool}
    (hs : ctx.session = some s) :
    (m.save force ctx).Ensures (Acts R)
      (fun r _ => r.1 = .written → ∃ hash, s.hash = .ok hash ∧ r.2 = ctx.saved s hash) t := by
  apply ensures_save hs
  · exact nofun
  · intro hash payload hhash _ x t' _
    cases x with
    | error e => exact nofun
    | ok =>
      refine Script.ensures_of_forall _ _ fun outcome _ _ => ?_
      exact ⟨hash, hhash, rfl⟩
  · apply ensures_renew
    intro x t' _
    cases x <;> exact nofun

theorem save_saved (hhash : s.hash = .ok hash) :
    m.save false (ctx.saved s hash) =
      (m.renew s.resetTracking .unchanged).bind fun outcome => .done (outcome, ctx.saved s hash) := by
  have hs : (ctx.saved s hash).session = some s.resetTracking := rfl
  have hreset : s.resetTracking.hash = .ok hash := hhash
  exact save_of_not_needsWrite hs hreset (needsWrite_saved ctx s hash)

theorem runs_save_saved (ctx : SessionContext) {t t' : Moment} {mem mem' : Memory} {found : Bool}
    (hhash : s.hash = .ok hash) (hle : t ≤ t')
    (h : Memory.answer t' (.expire (m.key s.id) (m.effectiveTimeout s)) mem =
      (some (.ok found), mem')) :
    (m.save false (ctx.saved s hash)).Runs (Acts Memory.Timed) (t, mem)
      (.unchanged, ctx.saved s hash) (t', mem') := by
  rw [save_saved hhash]
  have hexpire : Acts Memory.Timed (.store (.expire (m.key s.id) (m.effectiveTimeout s))) (t, mem)
      (.ok found) (t', mem') := ⟨hle, h⟩
  exact .ask hexpire (.done _ _)

theorem exists_create (m : Manager) (id : String) (now : Instant) {t deadline : Moment}
    (mem : Memory) (hfree : mem.live? t (m.key id) = none)
    (hlater : Moment.later? t
      (m.effectiveTimeout (Session.fresh id (m.settings.effectiveTimeout 0) now)) = some deadline) :
    ∃ ctx hash payload mem',
      (Session.fresh id (m.settings.effectiveTimeout 0) now).hash = .ok hash ∧
      (m.create now (some id) .empty).Runs (Acts Memory.Timed) (t, mem)
        (.ok (some id),
          SessionContext.saved ctx (Session.fresh id (m.settings.effectiveTimeout 0) now) hash)
        (t, mem') ∧
      mem'.entries.get? (m.key id) = some ⟨payload, some deadline⟩ := by
  let s := Session.fresh id (m.settings.effectiveTimeout 0) now
  let bound : SessionContext :=
    { id := some id, session := some s, persisted := some false, metadata := some Metadata.empty }
  have hs : bound.session = some s := rfl
  obtain ⟨ctx', mem', hsave⟩ := exists_save_written m hs (Session.fresh_finite _ _ _) hlater
    (mem.put (m.key id) placeholder)
  obtain ⟨hash, hhash, hsaved⟩ := hsave.ensures (ensures_save_saved hs) rfl
  obtain ⟨-, payload, -, hentry⟩ := hsave.ensures (ensures_save_stored hs _) rfl
  have hclaim : (m.claim (some id)).Runs (Acts Memory.Timed) (t, mem) (.ok (some id))
      (t, mem.put (m.key id) placeholder) := by
    have hset : Acts Memory.Timed (.store (.setIfAbsent (m.key id) placeholder)) (t, mem)
        (.ok .created) (t, mem.put (m.key id) placeholder) := by
      refine ⟨Nat.le_refl t, ?_⟩
      simp only [Memory.answer, Memory.putIfAbsent, hfree]
      rfl
    exact .ask hset (.done _ _)
  refine ⟨bound, hash, payload, mem', hhash, ?_, ?_⟩
  · rw [create_eq, ← hsaved]
    exact hclaim.bind (hsave.bind (.done _ _))
  · rw [Moment.eq_of_later? hlater]
    exact hentry

theorem exists_created :
    ∃ ctx hash payload mem,
      Reaches {} Memory.Timed (0, .empty)
        (SessionContext.saved ctx (Session.fresh "A" 1800 default) hash) (0, mem) ∧
      (Session.fresh "A" 1800 default).hash = .ok hash ∧
      mem.entries.get? "A" = some ⟨payload, some 1800000000000⟩ := by
  have hlater : Moment.later? 0 1800 = some 1800000000000 := by decide +kernel
  obtain ⟨ctx, hash, payload, mem, hhash, hrun, hentry⟩ :=
    exists_create {} "A" default .empty rfl hlater
  have hmove : (Move.perform {} (.create default (some "A")) .empty).Runs (Acts Memory.Timed)
      (0, .empty) (SessionContext.saved ctx (Session.fresh "A" 1800 default) hash) (0, mem) :=
    hrun.bind (.done _ _)
  exact ⟨ctx, hash, payload, mem, .move _ .start hmove, hhash, hentry⟩

theorem created_session_is_renewed :
    ∃ ctx s mem mem', Reaches {} Memory.Timed (0, .empty) ctx (0, mem) ∧
      ctx.session = some s ∧ effectiveTimeout {} s ≠ 0 ∧
      (save {} false ctx).Runs (Acts Memory.Timed) (0, mem) (.unchanged, ctx) (1799999999999, mem') ∧
      mem'.remaining? 1799999999999 (key {} s.id) =
        some (Duration.ofSeconds (effectiveTimeout {} s)).nanoseconds := by
  obtain ⟨ctx, hash, payload, mem, hreach, hhash, hentry⟩ := exists_created
  have hlive : mem.live? 1799999999999 "A" = some ⟨payload, some 1800000000000⟩ :=
    Memory.live?_eq_some hentry rfl
  have hlater : Moment.later? 1799999999999 1800 = some 3599999999999 := by decide +kernel
  have hexpire : Memory.answer 1799999999999 (.expire "A" 1800) mem =
      (some (.ok true), ⟨mem.entries.insert "A" ⟨payload, some 3599999999999⟩⟩) := by
    simp only [Memory.answer, Memory.expire, hlive, hlater, Option.map_some]
  have hsave := runs_save_saved (m := {}) ctx hhash (Nat.zero_le 1799999999999) hexpire
  have htimeout : effectiveTimeout {} (Session.fresh "A" 1800 default).resetTracking ≠ 0 := by
    decide +kernel
  obtain ⟨hiff, -⟩ := unchanged_session_lives_iff {} _ _ _ false rfl htimeout hsave
  refine ⟨_, _, mem, _, hreach, rfl, htimeout, hsave, hiff.2 ?_⟩
  exact congrArg Option.isSome hlive

/-- A session whose time is over counts as unchanged, and is not in the store. -/
theorem lapsed_session_counts_as_unchanged :
    ∃ ctx s mem mem', Reaches {} Memory.Timed (0, .empty) ctx (0, mem) ∧
      ctx.session = some s ∧ effectiveTimeout {} s ≠ 0 ∧
      (save {} false ctx).Runs (Acts Memory.Timed) (0, mem) (.unchanged, ctx) (1800000000000, mem') ∧
      mem'.live? 1800000000000 (key {} s.id) = none := by
  obtain ⟨ctx, hash, payload, mem, hreach, hhash, hentry⟩ := exists_created
  have hlive : mem.live? 1800000000000 "A" = none := by
    rw [Memory.live?, hentry]
    rfl
  have hexpire : Memory.answer 1800000000000 (.expire "A" 1800) mem = (some (.ok false), mem) := by
    simp only [Memory.answer, Memory.expire, hlive, Option.map_some]
  have hsave := runs_save_saved (m := {}) ctx hhash (Nat.zero_le 1800000000000) hexpire
  exact ⟨_, _, mem, mem, hreach, rfl, by decide +kernel, hsave, hlive⟩

end Manager

end SessionVault
