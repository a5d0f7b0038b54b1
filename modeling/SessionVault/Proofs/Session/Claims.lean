import Mathlib.Logic.Function.Basic
import SessionVault.Proofs.Pool
import SessionVault.Proofs.Session.Manager
import SessionVault.Proofs.Store.Contents
import SessionVault.Proofs.Store.Lifetime

/-!
Sessions created side by side over one store.  However the calls are mixed, and whatever ids are
proposed, each session that is returned has a key of its own, with what its call has written.

A call holds a key from the moment it claims it.  Nobody writes under a key that he does not hold,
and a key is claimed only where nothing is stored.
-/

namespace SessionVault

def Memory.Unexpired : Script.Rules Command.Reply Memory :=
  fun c m x m' => ∃ now, m.AllLive now ∧ Memory.answer now c m = (some x, m')

theorem Memory.Unexpired.contents {c : Command} {x : c.Reply} {m m' : Memory}
    (h : Unexpired c m x m') : m.contents.answer c = (x, m'.contents) := by
  obtain ⟨now, hlive, hanswer⟩ := h
  exact hlive.answer hanswer

namespace Manager

structure Creation where
  manager : Manager
  now : Instant
  requested : Option String
  context : SessionContext

namespace Creation

abbrev Result : Type := Except SessionError (Option String) × SessionContext

def call (c : Creation) : Task Result := c.manager.create c.now c.requested c.context

def key (c : Creation) (id : String) : String := c.manager.key id

def session (c : Creation) (id : String) : Session :=
  Session.fresh id (c.manager.settings.effectiveTimeout 0) c.now

/-- What a call holds of the store. -/
inductive Hold where
  | nothing
  | claimed (key : String)
  | written (key : String) (payload : Octets)

def Hold.content? : Hold → Option (String × Octets)
  | .nothing => none
  | .claimed key => some (key, placeholder)
  | .written key payload => some (key, payload)

def Returns (c : Creation) (r : Result) (h : Hold) : Prop :=
  ∀ id, r.1 = .ok (some id) → ∃ hash payload, r.2.session = some (c.session id) ∧
    (c.session id).encode ⟨hash⟩ = .ok payload ∧ h = .written (c.key id) payload

inductive Claiming (c : Creation) : Hold → Task Result → Prop where
  | ended {r : Result} {h : Hold} : c.Returns r h → Claiming c h (.done r)
  | proposes {next : String → Task Result} :
      (∀ id, Claiming c .nothing (next id)) → Claiming c .nothing (.ask .newId next)
  | claims {key : String} {next : Except StoreError Claim → Task Result} :
      Claiming c (.claimed key) (next (.ok .created)) →
      Claiming c .nothing (next (.ok .existed)) →
      Claiming c .nothing (.ask (.store (.setIfAbsent key placeholder)) next)
  | writes {key : String} {payload : Octets} {next : Except StoreError Unit → Task Result} :
      Claiming c (.written key payload) (next (.ok ())) →
      Claiming c (.claimed key) (.ask (.store (.set key payload)) next)
  | renews {key : String} {payload : Octets} {seconds : UInt64}
      {next : Except StoreError Bool → Task Result} :
      (∀ found, Claiming c (.written key payload) (next (.ok found))) →
      Claiming c (.written key payload) (.ask (.store (.expire key seconds)) next)

variable {c : Creation} {f : Except SessionError (Option String) → Task Result}

theorem claiming_establish (c : Creation) (id : String) :
    Claiming c (.claimed (c.key id)) (c.manager.establish c.now c.context (.ok (some id))) := by
  obtain ⟨hash, payload, hhash, hpayload⟩ := (Session.fresh_finite id _ c.now).exists_payload
  rw [establish_eq rfl hhash hpayload]
  refine .writes (.renews fun found => .ended ?_)
  intro other hother
  cases hother
  exact ⟨hash, payload, rfl, hpayload, rfl⟩

theorem claiming_claimNew {g : Except SessionError String → Task Result} (attempts : Nat)
    (hclaimed : ∀ id, Claiming c (.claimed (c.key id)) (g (.ok id)))
    (herror : ∀ e, Claiming c .nothing (g (.error e))) :
    Claiming c .nothing ((c.manager.claimNew attempts).bind g) := by
  induction attempts with
  | zero => exact herror _
  | succ attempts ih => exact .proposes fun id => .claims (hclaimed id) ih

theorem claiming_claim
    (hclaimed : ∀ id, Claiming c (.claimed (c.key id)) (f (.ok (some id))))
    (hnone : Claiming c .nothing (f (.ok none)))
    (herror : ∀ e, Claiming c .nothing (f (.error e))) (requested : Option String) :
    Claiming c .nothing ((c.manager.claim requested).bind f) := by
  cases requested with
  | some id => exact .claims (hclaimed id) hnone
  | none =>
    rw [claim, Script.bind_eq, Script.bind_assoc]
    exact claiming_claimNew maxClaims hclaimed herror

theorem claiming_call (c : Creation) : Claiming c .nothing c.call := by
  rw [call, create_eq]
  apply claiming_claim
  · exact claiming_establish c
  · exact .ended fun _ => nofun
  · exact fun e => .ended fun _ => nofun

abbrev Calls (ι : Type) := Pool Request.Answer (fun _ : ι => Result) Memory

abbrev Reaches {ι : Type} (start p : Calls ι) : Prop :=
  Pool.Reaches (Acts Memory.Unexpired) start p

variable {ι : Type} {calls : ι → Creation} {start p p' : Calls ι} {holds : ι → Hold} {i : ι}

def ClaimsFree (start p : Calls ι) (i : ι) (key : String) : Prop :=
  Pool.Passes (Acts Memory.Unexpired) start p i (.store (.setIfAbsent key placeholder))
    (.ok .created) fun m => m.contents.get? key = none

def Writes (start p : Calls ι) (i : ι) (key : String) (payload : Octets) : Prop :=
  Pool.Passes (Acts Memory.Unexpired) start p i (.store (.set key payload)) (.ok ()) fun _ => True

def Earned (start p : Calls ι) (i : ι) : Hold → Prop
  | .nothing => True
  | .claimed key => ClaimsFree start p i key
  | .written key payload => ClaimsFree start p i key ∧ Writes start p i key payload

theorem Earned.later {h : Hold} (he : Earned start p i h) (hp : Reaches p p') :
    Earned start p' i h := by
  cases h with
  | nothing => trivial
  | claimed key => exact Pool.Passes.later (show ClaimsFree start p i key from he) hp
  | written key payload => exact ⟨he.1.later hp, he.2.later hp⟩

/-- Every call goes by what it holds, the store has that, and no two calls hold the same key. -/
structure Owned (calls : ι → Creation) (start p : Calls ι) (holds : ι → Hold) : Prop where
  claiming (i : ι) : Claiming (calls i) (holds i) (p.parts i)
  stored {i : ι} {key : String} {value : Octets} :
    (holds i).content? = some (key, value) → p.shared.contents.get? key = some value
  apart {i j : ι} {key : String} {v w : Octets} :
    (holds i).content? = some (key, v) → (holds j).content? = some (key, w) → i = j
  earned (i : ι) : Earned start p i (holds i)

theorem owned_start (calls : ι → Creation) (m : Memory) :
    Owned calls ⟨m, fun i => (calls i).call⟩ ⟨m, fun i => (calls i).call⟩ fun _ => .nothing where
  claiming i := claiming_call (calls i)
  stored := nofun
  apart := nofun
  earned _ := trivial

theorem Owned.advance {h : Hold} (ho : Owned calls start p holds) (hp : Reaches p p')
    (hwait : ∀ j, j ≠ i → p'.parts j = p.parts j)
    (hclaiming : Claiming (calls i) h (p'.parts i))
    (hstored : ∀ key value, h.content? = some (key, value) →
      p'.shared.contents.get? key = some value)
    (hothers : ∀ j, j ≠ i → ∀ key value, (holds j).content? = some (key, value) →
      p'.shared.contents.get? key = some value)
    (hapart : ∀ j, j ≠ i → ∀ key v w, (holds j).content? = some (key, v) →
      h.content? ≠ some (key, w))
    (hearned : Earned start p' i h) : ∃ holds', Owned calls start p' holds' := by
  classical
  have hself : Function.update holds i h i = h := Function.update_self ..
  have hother {j : ι} (hj : j ≠ i) : Function.update holds i h j = holds j :=
    Function.update_of_ne hj ..
  refine ⟨Function.update holds i h, ?_, ?_, ?_, ?_⟩
  · intro j
    by_cases hj : j = i
    · subst hj
      rw [hself]
      exact hclaiming
    · rw [hother hj, hwait j hj]
      exact ho.claiming j
  · intro j key value hk
    by_cases hj : j = i
    · subst hj
      rw [hself] at hk
      exact hstored key value hk
    · rw [hother hj] at hk
      exact hothers j hj key value hk
  · intro j k key v w hv hw
    by_cases hj : j = i <;> by_cases hk : k = i
    · rw [hj, hk]
    · subst hj
      rw [hself] at hv
      rw [hother hk] at hw
      exact absurd hv (hapart k hk key w v hw)
    · subst hk
      rw [hself] at hw
      rw [hother hj] at hv
      exact absurd hw (hapart j hj key v w hv)
    · rw [hother hj] at hv
      rw [hother hk] at hw
      exact ho.apart hv hw
  · intro j
    by_cases hj : j = i
    · subst hj
      rw [hself]
      exact hearned
    · rw [hother hj]
      exact (ho.earned j).later hp

theorem Owned.stay (ho : Owned calls start p holds) (hp : Reaches p p')
    (hwait : ∀ j, j ≠ i → p'.parts j = p.parts j)
    (hclaiming : Claiming (calls i) (holds i) (p'.parts i))
    (hshared : p'.shared.contents = p.shared.contents) : ∃ holds', Owned calls start p' holds' := by
  have hstored {j : ι} {key : String} {value : Octets}
      (hk : (holds j).content? = some (key, value)) :
      p'.shared.contents.get? key = some value := by
    rw [hshared]
    exact ho.stored hk
  apply ho.advance hp hwait hclaiming
  · exact fun key value hk => hstored hk
  · exact fun j _ key value hk => hstored hk
  · exact fun j hj key v w hv hw => hj (ho.apart hv hw)
  · exact (ho.earned i).later hp

theorem Owned.claim {key : String} (ho : Owned calls start p holds) (hreach : Reaches start p)
    (hstep : Pool.Step (Acts Memory.Unexpired) i (.store (.setIfAbsent key placeholder))
      (.ok .created) p p')
    (hfree : p.shared.contents.get? key = none)
    (hclaiming : Claiming (calls i) (.claimed key) (p'.parts i))
    (hshared : p'.shared.contents = p.shared.contents.insert key placeholder) :
    ∃ holds', Owned calls start p' holds' := by
  have hne {j : ι} {other : String} {v : Octets}
      (hk : (holds j).content? = some (other, v)) : other ≠ key := by
    rintro rfl
    exact nomatch hfree.symm.trans (ho.stored hk)
  apply ho.advance hstep.reaches hstep.others hclaiming
  · intro other value hk
    cases hk
    rw [hshared]
    exact Table.get?_insert_self ..
  · intro j _ other value hk
    rw [hshared]
    exact (Table.get?_insert_of_ne (hne hk)).trans (ho.stored hk)
  · intro j _ other v w hv hw
    cases hw
    exact hne hv rfl
  · exact ⟨p, p', hreach, hfree, hstep, .refl⟩

theorem Owned.write {key : String} {payload : Octets} (ho : Owned calls start p holds)
    (hreach : Reaches start p)
    (hstep : Pool.Step (Acts Memory.Unexpired) i (.store (.set key payload)) (.ok ()) p p')
    (hhold : holds i = .claimed key)
    (hclaiming : Claiming (calls i) (.written key payload) (p'.parts i))
    (hshared : p'.shared.contents = p.shared.contents.insert key payload) :
    ∃ holds', Owned calls start p' holds' := by
  have hheld : (holds i).content? = some (key, placeholder) := by
    rw [hhold]
    rfl
  have hne {j : ι} (hj : j ≠ i) {other : String} {v : Octets}
      (hk : (holds j).content? = some (other, v)) : other ≠ key := by
    rintro rfl
    exact hj (ho.apart hk hheld)
  apply ho.advance hstep.reaches hstep.others hclaiming
  · intro other value hk
    cases hk
    rw [hshared]
    exact Table.get?_insert_self ..
  · intro j hj other value hk
    rw [hshared]
    exact (Table.get?_insert_of_ne (hne hj hk)).trans (ho.stored hk)
  · intro j hj other v w hv hw
    cases hw
    exact hne hj hv rfl
  · have hearned := ho.earned i
    rw [hhold] at hearned
    exact ⟨hearned.later hstep.reaches, p, p', hreach, trivial, hstep, .refl⟩

theorem Owned.step {r : Request} {x : r.Answer} (ho : Owned calls start p holds)
    (hreach : Reaches start p) (hstep : Pool.Step (Acts Memory.Unexpired) i r x p p') :
    ∃ holds', Owned calls start p' holds' := by
  obtain ⟨next, hpart, hnext⟩ := hstep.part
  have hclaiming := ho.claiming i
  rw [hpart] at hclaiming
  generalize hrest : Script.ask r next = rest at hclaiming
  generalize hhold : holds i = h at hclaiming
  cases hclaiming with
  | ended => cases hrest
  | proposes hid =>
    cases hrest
    apply ho.stay hstep.reaches hstep.others
    · rw [hnext, hhold]
      exact hid x
    · rw [show p'.shared = p.shared from hstep.shared]
  | @claims key next hcreated hexisted =>
    cases hrest
    have hcontents := Memory.Unexpired.contents hstep.shared
    simp only [Contents.answer] at hcontents
    split at hcontents
    · obtain ⟨rfl, hshared⟩ := Prod.mk.inj hcontents
      apply ho.stay hstep.reaches hstep.others
      · rw [hnext, hhold]
        exact hexisted
      · exact hshared.symm
    · next hfree =>
      obtain ⟨rfl, hshared⟩ := Prod.mk.inj hcontents
      rw [Table.contains, Bool.not_eq_true, Option.isSome_eq_false_iff, Option.isNone_iff_eq_none]
        at hfree
      exact ho.claim hreach hstep hfree (hnext ▸ hcreated) hshared.symm
  | @writes key payload next hok =>
    cases hrest
    have hcontents := Memory.Unexpired.contents hstep.shared
    obtain ⟨rfl, hshared⟩ := Prod.mk.inj hcontents
    exact ho.write hreach hstep hhold (hnext ▸ hok) hshared.symm
  | renews hok =>
    cases hrest
    have hcontents := Memory.Unexpired.contents hstep.shared
    obtain ⟨rfl, hshared⟩ := Prod.mk.inj hcontents
    apply ho.stay hstep.reaches hstep.others
    · rw [hnext, hhold]
      exact hok _
    · exact hshared.symm

theorem Owned.run (ho : Owned calls start start holds) (hreach : Reaches start p) :
    ∃ holds', Owned calls start p holds' := by
  induction hreach with
  | refl => exact ⟨holds, ho⟩
  | tail hreach hturn ih =>
    obtain ⟨holds, ho⟩ := ih
    obtain ⟨i, r, x, hstep⟩ := hturn
    exact ho.step hreach hstep

/-- A call that returns a session has claimed its key while that was free, and has written the
session there, which is what the store has now; and no other call that returns a session has the
same key. -/
theorem created_sessions_have_keys_of_their_own {m : Memory}
    (h : Reaches ⟨m, fun i => (calls i).call⟩ p) {id : String} {ctx : SessionContext}
    (hi : p.parts i = .done (.ok (some id), ctx)) :
    (∀ j other ctx', p.parts j = .done (.ok (some other), ctx') →
      (calls j).key other = (calls i).key id → j = i) ∧
    ClaimsFree ⟨m, fun i => (calls i).call⟩ p i ((calls i).key id) ∧
    ∃ hash payload, ctx.session = some ((calls i).session id) ∧
      ((calls i).session id).encode ⟨hash⟩ = .ok payload ∧
      Writes ⟨m, fun i => (calls i).call⟩ p i ((calls i).key id) payload ∧
      p.shared.contents.get? ((calls i).key id) = some payload := by
  obtain ⟨holds, ho⟩ := (owned_start calls m).run h
  have hreturns : ∀ {j other ctx'}, p.parts j = .done (.ok (some other), ctx') →
      ∃ hash payload, ctx'.session = some ((calls j).session other) ∧
        ((calls j).session other).encode ⟨hash⟩ = .ok payload ∧
        holds j = .written ((calls j).key other) payload := by
    intro j other ctx' hj
    have hclaiming := ho.claiming j
    rw [hj] at hclaiming
    generalize holds j = h at hclaiming
    cases hclaiming with
    | ended hr => exact hr other rfl
  obtain ⟨hash, payload, hsession, hpayload, hhold⟩ := hreturns hi
  have hearned := ho.earned i
  have hentry : (holds i).content? = some ((calls i).key id, payload) := by
    rw [hhold]
    rfl
  rw [hhold] at hearned
  refine ⟨?_, hearned.1, hash, payload, hsession, hpayload, hearned.2, ho.stored hentry⟩
  intro j other ctx' hj hkey
  obtain ⟨_, payload', _, _, hother⟩ := hreturns hj
  apply ho.apart _ hentry
  · exact payload'
  · rw [hother, hkey]
    rfl

theorem runs_establish (c : Creation) (id : String) {m : Memory} {now deadline : Moment}
    (hlive : m.AllLive now)
    (hlater : Moment.later? now (c.manager.effectiveTimeout (c.session id)) = some deadline)
    (hlt : now < deadline) :
    ∃ ctx m', (c.manager.establish c.now c.context (.ok (some id))).Runs (Acts Memory.Unexpired)
      m (.ok (some id), ctx) m' ∧ m'.AllLive now := by
  obtain ⟨hash, payload, hhash, hpayload⟩ := (Session.fresh_finite id _ c.now).exists_payload
  let stored := m.put (c.key id) payload
  let kept : Memory := ⟨stored.entries.insert (c.key id) ⟨payload, some deadline⟩⟩
  have hstored : stored.AllLive now := hlive.put _ _
  have hset : Acts Memory.Unexpired (.store (.set (c.key id) payload)) m (.ok ()) stored :=
    ⟨now, hlive, rfl⟩
  have hexpire : Acts Memory.Unexpired
      (.store (.expire (c.key id) (c.manager.effectiveTimeout (c.session id)))) stored (.ok true)
      kept := ⟨now, hstored, Memory.answer_expire_later m _ _ hlater⟩
  have hkept : kept.AllLive now := by
    intro other e hother
    rw [Table.get?_insert] at hother
    split at hother
    · cases hother
      exact decide_eq_true hlt
    · exact hstored other e hother
  let bound : SessionContext := ⟨some id, some (c.session id), some false, some .empty⟩
  refine ⟨bound.saved (c.session id) hash, kept, ?_, hkept⟩
  rw [establish_eq rfl hhash hpayload]
  exact .ask hset (.ask hexpire (.done _ _))

def contenders : Bool → Creation
  | false => ⟨{}, default, some "A", .empty⟩
  | true => ⟨{}, default, none, .empty⟩

theorem contenders_get_keys_of_their_own :
    ∃ p ctx ctx', Reaches ⟨.empty, fun i => (contenders i).call⟩ p ∧
      p.parts false = .done (.ok (some "A"), ctx) ∧ p.parts true = .done (.ok (some "B"), ctx') ∧
      (∀ j other ctx', p.parts j = .done (.ok (some other), ctx') →
        (contenders j).key other = (contenders false).key "A" → j = false) ∧
      ClaimsFree ⟨.empty, fun i => (contenders i).call⟩ p false ((contenders false).key "A") ∧
      ∃ hash payload, ctx.session = some ((contenders false).session "A") ∧
        ((contenders false).session "A").encode ⟨hash⟩ = .ok payload ∧
        Writes ⟨.empty, fun i => (contenders i).call⟩ p false ((contenders false).key "A") payload ∧
        p.shared.contents.get? ((contenders false).key "A") = some payload := by
  let start : Calls Bool := ⟨.empty, fun i => (contenders i).call⟩
  let one : Memory := .put .empty ((contenders true).key "A") placeholder
  let two : Memory := one.put ((contenders true).key "B") placeholder
  have hone : one.AllLive 0 := Memory.allLive_empty.put _ _
  have htwo : two.AllLive 0 := hone.put _ _
  have hfirst : ((contenders false).manager.claim (some "A")).Runs (Acts Memory.Unexpired) .empty
      (.ok (some "A")) one := .ask ⟨0, Memory.allLive_empty, rfl⟩ (.done _ _)
  have hsecond : ((contenders true).manager.claim none).Runs (Acts Memory.Unexpired) one
      (.ok (some "B")) two := by
    have hneq : (contenders true).key "A" ≠ (contenders true).key "B" := by decide +kernel
    have hA : one.entries.get? ((contenders true).key "A") = some ⟨placeholder, none⟩ :=
      Table.get?_insert_self ..
    have hB : one.entries.get? ((contenders true).key "B") = none :=
      (Table.get?_insert ..).trans (if_neg hneq)
    have htaken : Acts Memory.Unexpired
        (.store (.setIfAbsent ((contenders true).key "A") placeholder)) one (.ok .existed) one := by
      refine ⟨0, hone, ?_⟩
      simp only [Memory.answer, Memory.putIfAbsent, hone.live?, hA]
      rfl
    have hfree : Acts Memory.Unexpired
        (.store (.setIfAbsent ((contenders true).key "B") placeholder)) one (.ok .created) two := by
      refine ⟨0, hone, ?_⟩
      simp only [Memory.answer, Memory.putIfAbsent, hone.live?, hB]
      rfl
    have hproposed (id : String) : Acts Memory.Unexpired .newId one id one := rfl
    exact .ask (hproposed "A") (.ask htaken (.ask (hproposed "B") (.ask hfree (.done _ _))))
  have hlater : Moment.later? 0 1800 = some 1800000000000 := by decide +kernel
  obtain ⟨ctx, mem, hstore, hlive⟩ := runs_establish (contenders false) "A" htwo hlater (by decide)
  obtain ⟨ctx', mem', hstore', -⟩ := runs_establish (contenders true) "B" hlive hlater (by decide)
  -- The second call comes between the claim of the first and its save.
  let rest (i : Bool) : Except SessionError (Option String) → Task Result :=
    (contenders i).manager.establish (contenders i).now (contenders i).context
  let p₁ : Calls Bool := ⟨one, Function.update start.parts false (rest false (.ok (some "A")))⟩
  let p₂ : Calls Bool := ⟨two, Function.update p₁.parts true (rest true (.ok (some "B")))⟩
  let p₃ : Calls Bool := ⟨mem, Function.update p₂.parts false (.done (.ok (some "A"), ctx))⟩
  let p₄ : Calls Bool := ⟨mem', Function.update p₃.parts true (.done (.ok (some "B"), ctx'))⟩
  have h₁ : Reaches start p₁ :=
    Pool.reaches_of_runs start false (f := rest false) hfirst (create_eq ..)
  have h₂ : Reaches p₁ p₂ :=
    Pool.reaches_of_runs p₁ true (f := rest true) hsecond (create_eq ..)
  have h₃ : Reaches p₂ p₃ :=
    Pool.reaches_of_runs p₂ false (f := .done) hstore (Script.bind_done _).symm
  have h₄ : Reaches p₃ p₄ :=
    Pool.reaches_of_runs p₃ true (f := .done) hstore' (Script.bind_done _).symm
  have h : Reaches start p₄ := ((h₁.trans h₂).trans h₃).trans h₄
  exact ⟨p₄, ctx, ctx', h, rfl, rfl, created_sessions_have_keys_of_their_own h rfl⟩

end Creation

end Manager

end SessionVault
