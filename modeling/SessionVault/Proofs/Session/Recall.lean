import SessionVault.Proofs.Session.Manager
import SessionVault.Proofs.Store.Lifetime

namespace SessionVault

namespace Manager

variable {m : Manager} {ctx : SessionContext} {s : Session} {force : Bool} {now : Instant}

def Stored (m : Manager) (s : Session) (st : Moment × Memory) : Prop :=
  ∃ metadata payload, s.encode metadata = .ok payload ∧
    st.2.entries.get? (m.key s.id) =
      some ⟨payload, some (st.1 + (Duration.ofSeconds (m.effectiveTimeout s)).nanoseconds)⟩

theorem ensures_save_stored (hs : ctx.session = some s) (st : Moment × Memory) :
    (m.save force ctx).Ensures (Acts Memory.Timed)
      (fun r st' => r.1 = .written → m.Stored s st') st := by
  apply ensures_save hs
  · exact nofun
  · intro hash payload _ hpayload x st₁ hset
    obtain ⟨t₁, m₁⟩ := st₁
    obtain ⟨-, hput⟩ := hset
    cases hput
    apply ensures_renew
    intro x st₂ hexpire _
    exact ⟨⟨hash⟩, payload, hpayload, Memory.answer_expire_put hexpire.2⟩
  · apply ensures_renew
    intro x st₁ _
    cases x <;> exact nofun

theorem runs_find_live_iff {id : String} {t t' : Moment} {mem mem' : Memory} {e : Memory.Entry}
    {r : Except SessionError (Option String) × SessionContext} (hid : ctx.id ≠ some id)
    (he : mem.live? t' (m.key id) = some e) (hle : t ≤ t') :
    (m.find now id ctx).Runs (Acts Memory.Timed) (t, mem) r (t', mem') ↔
      r = m.found now id ctx (.ok (some e.value)) ∧ mem' = mem := by
  have hanswer := Memory.answer_get_live he
  refine (runs_find_iff hid).trans ⟨?_, ?_⟩
  · rintro ⟨x, ⟨-, hx⟩, rfl⟩
    rw [hanswer] at hx
    cases hx
    exact ⟨rfl, rfl⟩
  · rintro ⟨hr, rfl⟩
    exact ⟨.ok (some e.value), ⟨hle, hanswer⟩, hr⟩

theorem runs_find_timed_iff {id : String} {data : Octets} {t t' deadline : Moment}
    {mem mem' : Memory} {r : Except SessionError (Option String) × SessionContext}
    (hid : ctx.id ≠ some id) (hentry : mem.entries.get? (m.key id) = some ⟨data, some deadline⟩)
    (hle : t ≤ t') (hlt : t' < deadline) :
    (m.find now id ctx).Runs (Acts Memory.Timed) (t, mem) r (t', mem') ↔
      r = m.found now id ctx (.ok (some data)) ∧ mem' = mem :=
  runs_find_live_iff hid (Memory.live?_of_lt hentry hlt) hle

def Finds (s : Session) (r : Except SessionError (Option String) × SessionContext) : Prop :=
  r.1 = .ok (some s.id) ∧ ∃ s', r.2.session = some s' ∧ s'.id = s.id ∧ s'.created = s.created ∧
    s'.principal = s.principal ∧ s'.attributes = s.attributes

theorem finds_found_iff {metadata : Metadata} {payload : Octets} (hr : s.Readable m.registry)
    (h : s.encode metadata = .ok payload) :
    Finds s (m.found now s.id ctx (.ok (some payload))) ↔ s.body.depth < 128 := by
  rw [found_encoded hr h]
  by_cases hd : s.body.depth < 128
  · simp only [hd, iff_true]
    exact ⟨rfl, _, rfl, rfl, rfl, rfl, rfl⟩
  · simp only [hd, iff_false]
    exact nofun

theorem Stored.finds_iff {t t' : Moment} {mem : Memory} (h : m.Stored s (t, mem)) (now : Instant)
    (hr : s.Readable m.registry) (hle : t ≤ t')
    (hlt : t' < t + (Duration.ofSeconds (m.effectiveTimeout s)).nanoseconds) :
    (∃ r mem', (m.find now s.id .empty).Runs (Acts Memory.Timed) (t, mem) r (t', mem')) ∧
      ∀ r mem', (m.find now s.id .empty).Runs (Acts Memory.Timed) (t, mem) r (t', mem') →
        (Finds s r ↔ s.body.depth < 128) := by
  obtain ⟨metadata, payload, hpayload, hentry⟩ := h
  have hid : SessionContext.empty.id ≠ some s.id := nofun
  have hruns : ∀ r mem', (m.find now s.id .empty).Runs (Acts Memory.Timed) (t, mem) r (t', mem') ↔
      r = m.found now s.id .empty (.ok (some payload)) ∧ mem' = mem :=
    fun r mem' => runs_find_timed_iff hid hentry hle hlt
  refine ⟨⟨_, mem, (hruns _ mem).2 ⟨rfl, rfl⟩⟩, fun r mem' hrun => ?_⟩
  obtain ⟨rfl, -⟩ := (hruns r mem').1 hrun
  exact finds_found_iff hr hpayload

theorem exists_save_needed (m : Manager) (force : Bool) (hs : ctx.session = some s) (hf : s.Finite)
    (hneeds : ∀ hash, needsWrite ctx s hash force = true) {t deadline : Moment}
    (hlater : Moment.later? t (m.effectiveTimeout s) = some deadline) (mem : Memory) :
    ∃ ctx' mem', (m.save force ctx).Runs (Acts Memory.Timed) (t, mem) (.written, ctx')
      (t, mem') := by
  obtain ⟨hash, payload, hhash, hpayload⟩ := hf.exists_payload
  let stored := mem.put (m.key s.id) payload
  let kept : Memory := ⟨stored.entries.insert (m.key s.id) ⟨payload, some deadline⟩⟩
  have hset : Acts Memory.Timed (.store (.set (m.key s.id) payload)) (t, mem) (.ok ())
      (t, stored) := ⟨Nat.le_refl t, rfl⟩
  have hexpire : Acts Memory.Timed (.store (.expire (m.key s.id) (m.effectiveTimeout s)))
      (t, stored) (.ok true) (t, kept) :=
    ⟨Nat.le_refl t, Memory.answer_expire_later mem _ _ hlater⟩
  refine ⟨ctx.saved s hash, kept, ?_⟩
  rw [save_eq hs hhash hpayload, if_pos (hneeds hash)]
  exact .ask hset (.ask hexpire (.done _ _))

theorem exists_save_written (m : Manager) (hs : ctx.session = some s) (hf : s.Finite)
    {t deadline : Moment} (hlater : Moment.later? t (m.effectiveTimeout s) = some deadline)
    (mem : Memory) :
    ∃ ctx' mem', (m.save true ctx).Runs (Acts Memory.Timed) (t, mem) (.written, ctx') (t, mem') :=
  exists_save_needed m true hs hf (needsWrite_forced ctx s) hlater mem

/-- Within its time to live a saved session is found, with all that it holds, exactly if its body
nests fewer than 128 levels. -/
theorem saved_session_is_found_iff (m : Manager) (s : Session) (ctx ctx' : SessionContext)
    (force : Bool) (now : Instant) {st : Moment × Memory} {t t' : Moment} {mem : Memory}
    (hs : ctx.session = some s) (hr : s.Readable m.registry)
    (hsave : (m.save force ctx).Runs (Acts Memory.Timed) st (.written, ctx') (t, mem))
    (hle : t ≤ t') (hlt : t' < t + (Duration.ofSeconds (m.effectiveTimeout s)).nanoseconds) :
    (∃ r mem', (m.find now s.id .empty).Runs (Acts Memory.Timed) (t, mem) r (t', mem')) ∧
      ∀ r mem', (m.find now s.id .empty).Runs (Acts Memory.Timed) (t, mem) r (t', mem') →
        (Finds s r ↔ s.body.depth < 128) := by
  have hstored : m.Stored s (t, mem) := hsave.ensures (ensures_save_stored hs st) rfl
  exact hstored.finds_iff now hr hle hlt

theorem shopping_is_found :
    ∃ ctx' mem,
      (save { registry := Session.shopRegistry } true { session := some Session.shopping }).Runs
        (Acts Memory.Timed) (0, .empty) (.written, ctx') (0, mem) ∧
      (∃ r mem', (find { registry := Session.shopRegistry } default "A" .empty).Runs
        (Acts Memory.Timed) (0, mem) r (1799999999999, mem')) ∧
      ∀ r mem', (find { registry := Session.shopRegistry } default "A" .empty).Runs
        (Acts Memory.Timed) (0, mem) r (1799999999999, mem') → Finds Session.shopping r := by
  let m : Manager := { registry := Session.shopRegistry }
  have hs : ({ session := some Session.shopping } : SessionContext).session = some Session.shopping :=
    rfl
  have hlater : Moment.later? 0 (m.effectiveTimeout Session.shopping) = some 1800000000000 := by
    decide +kernel
  have hlt :
      1799999999999 < 0 + (Duration.ofSeconds (m.effectiveTimeout Session.shopping)).nanoseconds := by
    decide +kernel
  have hdepth : Session.shopping.body.depth < 128 := by decide
  obtain ⟨ctx', mem, hsave⟩ := exists_save_written m hs Session.shopping_finite hlater .empty
  obtain ⟨hrun, hfinds⟩ := saved_session_is_found_iff m Session.shopping _ ctx' true default hs
    Session.shopping_readable hsave (Nat.zero_le _) hlt
  exact ⟨ctx', mem, hsave, hrun, fun r mem' h => (hfinds r mem' h).2 hdepth⟩

def nested : Nat → Json
  | 0 => .array []
  | n + 1 => .array [nested n]

theorem ascending_nested : (n : Nat) → (nested n).Ascending
  | 0 => trivial
  | n + 1 => ⟨ascending_nested n, trivial⟩

theorem legible_nested : (n : Nat) → (nested n).Legible
  | 0 => trivial
  | n + 1 => ⟨legible_nested n, trivial⟩

def deep : Session :=
  { Session.fresh "A" 1800 default with
    attributes := ⟨[("v", .json (nested 124) (ascending_nested 124))], by decide⟩ }

theorem deep_readable : deep.Readable Registry.standard := by
  intro name a ha
  have hm := (Table.get?_eq_some_iff _ _ _).1 ha
  simp only [deep, List.mem_cons, Prod.mk.injEq, List.not_mem_nil, or_false] at hm
  obtain ⟨-, rfl⟩ := hm
  exact ⟨⟨.json, rfl, rfl⟩, legible_nested 124⟩

theorem deep_finite : deep.Finite := by
  intro name x hx
  have hm := (Table.get?_eq_some_iff _ _ _).1 hx
  simp only [deep, List.mem_cons, Prod.mk.injEq, List.not_mem_nil, or_false] at hm
  cases hm.2

theorem later?_deep : Moment.later? 0 (effectiveTimeout {} deep) = some 1800000000000 := by
  decide +kernel

/-- A session whose body nests 128 levels is written, and not found a second later. -/
theorem deep_session_is_lost :
    deep.Readable Registry.standard ∧ ∃ ctx' mem,
      (save {} true { session := some deep }).Runs (Acts Memory.Timed) (0, .empty)
        (.written, ctx') (0, mem) ∧
      (∃ r mem', (find {} default "A" .empty).Runs (Acts Memory.Timed) (0, mem) r (1000000000, mem')) ∧
      ∀ r mem', (find {} default "A" .empty).Runs (Acts Memory.Timed) (0, mem) r (1000000000, mem') →
        ¬ Finds deep r := by
  have hs : ({ session := some deep } : SessionContext).session = some deep := rfl
  have hdepth : ¬ deep.body.depth < 128 := by decide +kernel
  obtain ⟨ctx', mem, hsave⟩ := exists_save_written {} hs deep_finite later?_deep .empty
  have hstored : Stored {} deep (0, mem) := hsave.ensures (ensures_save_stored hs _) rfl
  have hlt : 1000000000 < 0 + (Duration.ofSeconds (effectiveTimeout {} deep)).nanoseconds := by
    decide +kernel
  obtain ⟨hrun, hfinds⟩ := hstored.finds_iff default deep_readable (Nat.zero_le 1000000000) hlt
  exact ⟨deep_readable, ctx', mem, hsave, hrun,
    fun r mem' h hr => hdepth ((hfinds r mem' h).1 hr)⟩

end Manager

end SessionVault
