import SessionVault.Proofs.History
import SessionVault.Proofs.Session.Claims
import SessionVault.Proofs.Store.Lapse
import SessionVault.Proofs.Store.Lifetime
import SessionVault.Proofs.Trial.Faulty

namespace SessionVault.Manager

open Creation (Hold)
open Trial (FaultyStore)

variable {ρ : Type} {R : Moment → Script.Rules Command.Reply ρ}
variable {look : ρ → Moment → String → Option Octets}

def Creation.Hold.value (h : Hold) (key : String) (before : Option Octets) : Option Octets :=
  match h.content? with
  | some (other, value) => if other = key then some value else before
  | none => before

abbrev Log (ρ : Type) : Type := Script.History Request.Answer (Moment × ρ)

abbrev Recorded (R : Moment → Script.Rules Command.Reply ρ) :
    Script.Rules Request.Answer ((Moment × ρ) × Log ρ) :=
  (Acts (Clocked R)).logged

def Claimed (log : Log ρ) (key : String) : Prop :=
  ∃ s, ⟨.store (.setIfAbsent key placeholder), .ok .created, s⟩ ∈ log

def Taken (log : Log ρ) (key : String) (value : Octets) : Prop :=
  ∃ s, ⟨.store (.set key value), .ok (), s⟩ ∈ log

/-- What is held after a call was held before it, or is the placeholder of a key that it claimed. -/
def LeavesNothing (look : ρ → Moment → String → Option Octets) (s s' : Moment × ρ) (log : Log ρ) :
    Prop :=
  ∀ key value, look s'.2 s'.1 key = some value →
    Claimed log key ∧ value = placeholder ∨ ¬ Claimed log key ∧ look s.2 s.1 key = some value

structure Progress (look : ρ → Moment → String → Option Octets) (start : Moment × ρ) (h : Hold)
    (s : (Moment × ρ) × Log ρ) : Prop where
  content (key : String) :
    AtMost (look s.1.2 s.1.1 key) (h.value key (look start.2 start.1 key))
  claimed (key : String) : Claimed s.2 key ↔ ∃ value, h.content? = some (key, value)
  taken (key : String) (value : Octets) : Taken s.2 key value ↔ h = .written key value

variable {start s s' : Moment × ρ} {log : Log ρ} {h h' : Hold} {m : Manager}

theorem claimed_cons {e : Script.Event Request.Answer (Moment × ρ)} {key : String} :
    Claimed (e :: log) key ↔
      (∃ s, e = ⟨.store (.setIfAbsent key placeholder), .ok .created, s⟩) ∨ Claimed log key := by
  simp only [Claimed, List.mem_cons, exists_or, eq_comm]

theorem taken_cons {e : Script.Event Request.Answer (Moment × ρ)} {key : String} {value : Octets} :
    Taken (e :: log) key value ↔
      (∃ s, e = ⟨.store (.set key value), .ok (), s⟩) ∨ Taken log key value := by
  simp only [Taken, List.mem_cons, exists_or, eq_comm]

theorem progress_start (start : Moment × ρ) : Progress look start .nothing (start, []) where
  content _ := .inr rfl
  claimed _ := ⟨fun ⟨_, he⟩ => absurd he List.not_mem_nil, fun ⟨_, he⟩ => nomatch he⟩
  taken _ _ := ⟨fun ⟨_, he⟩ => absurd he List.not_mem_nil, nofun⟩

theorem Progress.propose (hp : Progress look start h (s, log)) (id : String) :
    Progress look start h (s, ⟨.newId, id, s⟩ :: log) where
  content := hp.content
  claimed key := by
    rw [claimed_cons, ← hp.claimed key, or_iff_right]
    exact fun ⟨_, he⟩ => nomatch he
  taken key value := by
    rw [taken_cons, ← hp.taken key value, or_iff_right]
    exact fun ⟨_, he⟩ => nomatch he

theorem Progress.stay (hR : Lapsing R look) {c : Command} {x : c.Reply}
    (hp : Progress look start h (s, log)) (hx : Clocked R c s x s')
    (hafter : ∀ key held, c.after key x held = held) :
    Progress look start h (s', ⟨.store c, x, s'⟩ :: log) where
  content key := (hR.clocked hx (hp.content key)).trans (.inr (hafter key _))
  claimed key := by
    rw [claimed_cons, ← hp.claimed key, or_iff_right]
    rintro ⟨s, he⟩
    cases he
    exact nomatch (if_pos rfl).symm.trans (hafter key none)
  taken key value := by
    rw [taken_cons, ← hp.taken key value, or_iff_right]
    rintro ⟨s, he⟩
    cases he
    exact nomatch (if_pos rfl).symm.trans (hafter key none)

theorem Progress.claim (hR : Lapsing R look) {key : String}
    (hp : Progress look start .nothing (s, log))
    (hx : Clocked R (.setIfAbsent key placeholder) s (.ok .created) s') :
    Progress look start (.claimed key)
      (s', ⟨.store (.setIfAbsent key placeholder), .ok .created, s'⟩ :: log) where
  content other := hR.clocked hx (hp.content other)
  claimed other := by
    rw [claimed_cons, hp.claimed other]
    constructor
    · rintro (⟨s, he⟩ | ⟨value, he⟩)
      · cases he
        exact ⟨placeholder, rfl⟩
      · cases he
    · rintro ⟨value, he⟩
      cases he
      exact .inl ⟨s', rfl⟩
  taken other value := by
    rw [taken_cons, hp.taken other value]
    exact ⟨fun he => he.elim (fun ⟨_, he⟩ => nomatch he) nofun, nofun⟩

theorem Progress.write (hR : Lapsing R look) {key : String} {payload : Octets}
    (hp : Progress look start (.claimed key) (s, log))
    (hx : Clocked R (.set key payload) s (.ok ()) s') :
    Progress look start (.written key payload)
      (s', ⟨.store (.set key payload), .ok (), s'⟩ :: log) where
  content other := by
    refine (hR.clocked hx (hp.content other)).trans (.inr ?_)
    simp only [Command.after, Hold.value, Hold.content?]
    split <;> rfl
  claimed other := by
    rw [claimed_cons, hp.claimed other]
    constructor
    · rintro (⟨s, he⟩ | ⟨value, he⟩)
      · cases he
      · cases he
        exact ⟨payload, rfl⟩
    · rintro ⟨value, he⟩
      cases he
      exact .inr ⟨placeholder, rfl⟩
  taken other value := by
    rw [taken_cons, hp.taken other value]
    constructor
    · rintro (⟨s, he⟩ | he)
      · cases he
        rfl
      · cases he
    · intro he
      cases he
      exact .inl ⟨s', rfl⟩

def Encodes (m : Manager) (now : Instant) (key : String) (payload : Octets) : Prop :=
  ∃ id hash, key = m.key id ∧
    (Session.fresh id (m.settings.effectiveTimeout 0) now).encode ⟨hash⟩ = .ok payload

def Creation.Hold.ofClaim (m : Manager) : Except SessionError (Option String) → Hold
  | .ok (some id) => .claimed (m.key id)
  | .ok none | .error _ => .nothing

variable {α : Type} {now : Instant} {ctx : SessionContext}
variable {post : α → (Moment × ρ) × Log ρ → Prop}

theorem ensures_setIfAbsent_progress (hR : Lapsing R look) {id : String}
    {f : Except StoreError Claim → Task α} (hp : Progress look start .nothing (s, log))
    (hcreated : ∀ s', Progress look start (.claimed (m.key id)) s' →
      (f (.ok .created)).Ensures (Recorded R) post s')
    (hrefused : ∀ x s', x ≠ .ok .created → Progress look start .nothing s' →
      (f x).Ensures (Recorded R) post s') :
    ((ask (.setIfAbsent (m.key id) placeholder)).bind f).Ensures (Recorded R) post (s, log) := by
  refine Script.ensures_logged_ask fun x s' hx => ?_
  by_cases hc : x = .ok .created
  · subst hc
    exact hcreated _ (hp.claim hR hx)
  · refine hrefused x _ hc (hp.stay hR hx fun key held => ?_)
    match x, hc with
    | .ok .existed, _ => rfl
    | .error e, _ => rfl

theorem ensures_claimNew_progress (hR : Lapsing R look) (attempts : Nat)
    (hp : Progress look start .nothing (s, log)) :
    (m.claimNew attempts).Ensures (Recorded R)
      (fun x => Progress look start (Hold.ofClaim m (x.map some))) (s, log) := by
  induction attempts generalizing s log with
  | zero => exact hp
  | succ attempts ih =>
    refine Script.ensures_logged_ask fun id s' hs => ?_
    cases hs
    refine ensures_setIfAbsent_progress hR (hp.propose id) (fun _ h => h) fun x s' hc h => ?_
    match x, hc with
    | .ok .existed, _ => exact ih h
    | .error e, _ => exact h

theorem ensures_claim_progress (hR : Lapsing R look) (requested : Option String)
    (hp : Progress look start .nothing (s, log)) :
    (m.claim requested).Ensures (Recorded R)
      (fun x => Progress look start (Hold.ofClaim m x)) (s, log) := by
  cases requested with
  | some id =>
    refine ensures_setIfAbsent_progress hR hp (fun _ h => h) fun x s' hc h => ?_
    match x, hc with
    | .ok .existed, _ => exact h
    | .error e, _ => exact h
  | none =>
    refine Script.ensures_bind.2 ((ensures_claimNew_progress hR maxClaims hp).mono ?_)
    intro x s' h
    cases x <;> exact h

abbrev GivenUp (look : ρ → Moment → String → Option Octets) (m : Manager) (now : Instant)
    (start : Moment × ρ) (r : Creation.Result) (s : (Moment × ρ) × Log ρ) : Prop :=
  (∀ id, r.1 ≠ .ok (some id)) → ∃ h, Progress look start h s ∧
    ∀ key payload, h = .written key payload → m.Encodes now key payload

theorem ensures_giveUp (hR : Lapsing R look) {key : String} {seconds : UInt64}
    (hp : Progress look start h (s, log))
    (hh : ∀ key payload, h = .written key payload → m.Encodes now key payload) :
    ((ask (.expire key seconds)).bind fun _ =>
        (.done (.ok none, .empty) : Task Creation.Result)).Ensures
      (Recorded R) (GivenUp look m now start) (s, log) := by
  refine Script.ensures_logged_ask fun x s' hx _ => ⟨h, hp.stay hR hx fun _ _ => ?_, hh⟩
  cases x <;> rfl

theorem ensures_establish_progress (hR : Lapsing R look)
    {x : Except SessionError (Option String)}
    (hp : Progress look start (Hold.ofClaim m x) (s, log)) :
    (m.establish now ctx x).Ensures (Recorded R) (GivenUp look m now start) (s, log) := by
  match x with
  | .error e => exact fun _ => ⟨.nothing, hp, nofun⟩
  | .ok none => exact fun _ => ⟨.nothing, hp, nofun⟩
  | .ok (some id) =>
    obtain ⟨hash, payload, hhash, hpayload⟩ :=
      (Session.fresh_finite id (m.settings.effectiveTimeout 0) now).exists_payload
    have hencodes : m.Encodes now (m.key id) payload := ⟨id, hash, rfl, hpayload⟩
    rw [establish_eq rfl hhash hpayload]
    refine Script.ensures_logged_ask fun x s₁ hset => ?_
    cases x with
    | error e =>
      have hstay : Progress look start (.claimed (m.key id)) (s₁, _) :=
        hp.stay hR hset fun _ _ => rfl
      exact ensures_giveUp hR hstay nofun
    | ok =>
      have hwritten := hp.write hR hset
      refine Script.ensures_logged_ask fun x s₂ hexpire => ?_
      cases x with
      | ok found => exact fun hr => absurd rfl (hr id)
      | error e =>
        have hstay : Progress look start (.written (m.key id) payload) (s₂, _) :=
          hwritten.stay hR hexpire fun _ _ => rfl
        refine ensures_giveUp hR hstay fun key value he => ?_
        cases he
        exact hencodes

theorem ensures_create_progress (hR : Lapsing R look) (m : Manager) (now : Instant)
    (requested : Option String) (ctx : SessionContext) (start : Moment × ρ) :
    (m.create now requested ctx).Ensures (Recorded R) (GivenUp look m now start) (start, []) := by
  rw [create_eq]
  have hclaim := ensures_claim_progress (m := m) hR requested (progress_start start)
  exact Script.ensures_bind.2 (hclaim.mono fun _ _ hp => ensures_establish_progress hR hp)

theorem Progress.claimed_unique {key key' : String} (hp : Progress look start h (s, log))
    (hk : Claimed log key) (hk' : Claimed log key') : key = key' := by
  obtain ⟨value, hk⟩ := (hp.claimed key).1 hk
  obtain ⟨value', hk'⟩ := (hp.claimed key').1 hk'
  cases hk.symm.trans hk'
  rfl

theorem Progress.content_of_not_claimed {key : String} (hp : Progress look start h (s, log))
    (hk : ¬ Claimed log key) : AtMost (look s.2 s.1 key) (look start.2 start.1 key) := by
  refine (hp.content key).trans (.inr ?_)
  rw [Hold.value]
  split
  · next other value hh =>
    rw [if_neg]
    rintro rfl
    exact hk ((hp.claimed other).2 ⟨value, hh⟩)
  · rfl

theorem Progress.content_of_claimed {key : String} (hp : Progress look start h (s, log))
    (hk : Claimed log key) (htaken : ∀ value, ¬ Taken log key value) :
    AtMost (look s.2 s.1 key) (some placeholder) := by
  refine (hp.content key).trans (.inr ?_)
  obtain ⟨value, hh⟩ := (hp.claimed key).1 hk
  cases h with
  | nothing => cases hh
  | claimed other =>
    cases hh
    exact if_pos rfl
  | written other payload =>
    cases hh
    exact absurd ((hp.taken key value).2 rfl) (htaken value)

theorem Progress.content_of_taken {key : String} {value : Octets}
    (hp : Progress look start h (s, log)) (ht : Taken log key value) :
    Claimed log key ∧ AtMost (look s.2 s.1 key) (some value) := by
  obtain rfl := (hp.taken key value).1 ht
  exact ⟨(hp.claimed key).2 ⟨value, rfl⟩, (hp.content key).trans (.inr (if_pos rfl))⟩

/-- A creation that answers no session leaves nothing but the placeholder of its one claim, exactly
if the store has taken no value for it, or what it has taken has lapsed; and all that it can have
taken is the session that was given up. -/
theorem abandoned_creation_leaves_nothing_iff (hR : Lapsing R look) (m : Manager) (now : Instant)
    (requested : Option String) (ctx : SessionContext) {s s' : Moment × ρ} {r : Creation.Result}
    {log : Log ρ} (hrun : (m.create now requested ctx).Runs (Recorded R) (s, []) r (s', log))
    (hr : ∀ id, r.1 ≠ .ok (some id)) :
    (LeavesNothing look s s' log ↔
        ∀ key value, Taken log key value → look s'.2 s'.1 key = none) ∧
      (∀ key value, Taken log key value → m.Encodes now key value) ∧
      ∀ key key', Claimed log key → Claimed log key' → key = key' := by
  obtain ⟨h, hp, hencodes⟩ := hrun.ensures (ensures_create_progress hR m now requested ctx s) hr
  have htaken : ∀ key value, Taken log key value → m.Encodes now key value :=
    fun key value ht => hencodes key value ((hp.taken key value).1 ht)
  refine ⟨⟨fun hleaves key value ht => ?_, fun hlapsed key value hv => ?_⟩, htaken,
    fun _ _ => hp.claimed_unique⟩
  · obtain ⟨hclaimed, hcontent⟩ := hp.content_of_taken ht
    refine hcontent.resolve_right fun hv => ?_
    rcases hleaves key value hv with ⟨-, hplaceholder⟩ | ⟨hfree, -⟩
    · obtain ⟨id, hash, -, hencode⟩ := htaken key value ht
      exact Session.encode_ne_placeholder hencode hplaceholder
    · exact hfree hclaimed
  · by_cases hclaimed : Claimed log key
    · have hnone : ∀ value, ¬ Taken log key value :=
        fun w ht => nomatch (hlapsed key w ht).symm.trans hv
      rcases hp.content_of_claimed hclaimed hnone with hc | hc
      · exact nomatch hc.symm.trans hv
      · exact .inl ⟨hclaimed, Option.some.inj (hv.symm.trans hc)⟩
    · rcases hp.content_of_not_claimed hclaimed with hc | hc
      · exact nomatch hc.symm.trans hv
      · exact .inr ⟨hclaimed, hc.symm.trans hv⟩

abbrev Attempt : Creation.Result → (Moment × FaultyStore) × Log FaultyStore → Prop :=
  (create {} default (some "A") .empty).Runs (Recorded FaultyStore.ServesAt)
    ((0, .ofMemory .empty), [])

def afterClaim : FaultyStore := ⟨.put .empty "A" placeholder, false, 0, 1⟩

theorem clocked_claim :
    Clocked FaultyStore.ServesAt (.setIfAbsent "A" placeholder) (0, .ofMemory .empty)
      (.ok .created) (0, afterClaim) :=
  ⟨Nat.le_refl 0, FaultyStore.servesAt_answer rfl⟩

theorem clocked_failure (c : Command) (f : FaultyStore) :
    Clocked FaultyStore.ServesAt c (0, f) (.error (FaultyStore.failure c))
      (0, ⟨f.memory, true, 0, f.reached + 1⟩) :=
  ⟨Nat.le_refl 0, FaultyStore.servesAt_failure 0 c f⟩

theorem attempt_of_establish {r : Creation.Result} {s : (Moment × FaultyStore) × Log FaultyStore}
    (h : (establish {} default .empty (.ok (some "A"))).Runs (Recorded FaultyStore.ServesAt)
      ((0, afterClaim), [⟨.store (.setIfAbsent "A" placeholder), .ok .created, (0, afterClaim)⟩]) r
      s) : Attempt r s := by
  rw [Attempt, create_eq]
  exact Script.runs_logged_ask clocked_claim h

theorem refused_session_leaves_nothing :
    ∃ s log, Attempt (.ok none, .empty) (s, log) ∧
      (∀ id, (.ok none : Except SessionError (Option String)) ≠ .ok (some id)) ∧
      LeavesNothing (fun f => f.memory.value?) (0, .ofMemory .empty) s log ∧
      s.2.memory.value? s.1 "A" = some placeholder := by
  obtain ⟨hash, payload, hhash, hpayload⟩ := (Session.fresh_finite "A" 1800 default).exists_payload
  let refused : FaultyStore := ⟨afterClaim.memory, true, 0, 2⟩
  let left : FaultyStore := ⟨afterClaim.memory, true, 0, 3⟩
  obtain ⟨log, hrun, hnone⟩ :
      ∃ log, Attempt (.ok none, .empty) ((0, left), log) ∧ ∀ key value, ¬ Taken log key value := by
    apply Exists.intro
    constructor
    · refine attempt_of_establish ?_
      rw [establish_eq (s := .fresh "A" 1800 default) rfl hhash hpayload]
      refine Script.runs_logged_ask (clocked_failure _ afterClaim) ?_
      exact Script.runs_logged_ask (clocked_failure _ refused) (.done _ _)
    · intro key value ht
      simp [Taken] at ht
  have hr (id : String) : (.ok none : Except SessionError (Option String)) ≠ .ok (some id) := nofun
  obtain ⟨hiff, -, -⟩ :=
    abandoned_creation_leaves_nothing_iff FaultyStore.lapsing_servesAt {} default (some "A") .empty
      hrun hr
  exact ⟨_, log, hrun, hr, hiff.2 fun key value ht => absurd ht (hnone key value), rfl⟩

/-- The store takes the session, and then fails to give it its time to live, twice.  The session
that was given up is found. -/
theorem abandoned_session_is_found :
    ∃ s log, Attempt (.ok none, .empty) (s, log) ∧
      ¬ LeavesNothing (fun f => f.memory.value?) (0, .ofMemory .empty) s log ∧
      ∃ ctx s', (find {} default "A" .empty).Runs (Acts (Clocked FaultyStore.ServesAt)) s
        (.ok (some "A"), ctx) s' := by
  obtain ⟨hash, payload, hhash, hpayload⟩ := (Session.fresh_finite "A" 1800 default).exists_payload
  let stored : FaultyStore := ⟨.put afterClaim.memory "A" payload, false, 0, 2⟩
  let kept : FaultyStore := ⟨stored.memory, true, 0, 3⟩
  let left : FaultyStore := ⟨stored.memory, true, 0, 4⟩
  have hset : Clocked FaultyStore.ServesAt (.set "A" payload) (0, afterClaim) (.ok ())
      (0, stored) := ⟨Nat.le_refl 0, FaultyStore.servesAt_answer rfl⟩
  obtain ⟨log, hrun⟩ : ∃ log, Attempt (.ok none, .empty) ((0, left), log) := by
    apply Exists.intro
    refine attempt_of_establish ?_
    rw [establish_eq (s := .fresh "A" 1800 default) rfl hhash hpayload]
    refine Script.runs_logged_ask hset ?_
    refine Script.runs_logged_ask (clocked_failure _ stored) ?_
    exact Script.runs_logged_ask (clocked_failure _ kept) (.done _ _)
  have hheld : left.memory.value? 0 "A" = some payload :=
    (Memory.value?_put ..).trans (if_pos rfl)
  have hentry : left.memory.entries.get? "A" = some ⟨payload, none⟩ := Table.get?_insert_self ..
  refine ⟨_, log, hrun, fun hleaves => ?_, ?_⟩
  · rcases hleaves "A" payload hheld with ⟨-, he⟩ | ⟨-, he⟩
    · exact Session.encode_ne_placeholder hpayload he
    · cases he
  · have hget : Memory.answer 0 (.get "A") left.memory =
        (some (.ok (some payload)), left.memory) :=
      Memory.answer_get_live (Memory.live?_eq_some hentry rfl)
    have hid : SessionContext.empty.id ≠ some "A" := nofun
    have hreadable : (Session.fresh "A" 1800 default).Readable Registry.standard := nofun
    have hdepth : (Session.fresh "A" 1800 default).body.depth < 128 := by decide
    have hfound : found {} default "A" .empty (.ok (some payload)) = _ :=
      found_encoded hreadable hpayload
    rw [if_pos hdepth] at hfound
    have hanswer : Clocked FaultyStore.ServesAt (.get "A") (0, left) (.ok (some payload))
        (0, ⟨left.memory, false, 0, 5⟩) := ⟨Nat.le_refl 0, FaultyStore.servesAt_answer hget⟩
    exact ⟨_, _, (runs_find_iff hid).2 ⟨_, hanswer, hfound.symm⟩⟩

end SessionVault.Manager
