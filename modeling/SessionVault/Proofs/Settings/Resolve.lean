import SessionVault.Proofs.Settings.Endpoint
import SessionVault.Settings.Resolve

namespace SessionVault

variable {ε α β : Type}

def unlessFaulty (faults : List ε) (a : α) : Except ε α :=
  match faults with
  | [] => .ok a
  | e :: _ => .error e

theorem unlessFaulty_bind {faults faults' : List ε} {a : α} {b : β} {f : α → Except ε β}
    (h : f a = unlessFaulty faults' b) :
    (unlessFaulty faults a >>= f) = unlessFaulty (faults ++ faults') b := by
  cases faults with
  | nil => exact h
  | cons e rest => rfl

theorem unlessFaulty_bind_pure {faults : List ε} {a : α} {f : α → β} :
    (unlessFaulty faults a >>= fun a => pure (f a)) = unlessFaulty faults (f a) := by
  cases faults <;> rfl

theorem unlessFaulty_eq_ok_iff {faults : List ε} {a b : α} :
    unlessFaulty faults a = .ok b ↔ faults = [] ∧ b = a := by
  cases faults with
  | nil => simp [unlessFaulty, eq_comm]
  | cons e rest => simp [unlessFaulty]

theorem unlessFaulty_eq_error_iff {faults : List ε} {a : α} {e : ε} :
    unlessFaulty faults a = .error e ↔ faults.head? = some e := by
  cases faults with
  | nil => simp [unlessFaulty]
  | cons e' rest => simp [unlessFaulty]

def faultUnless (condition : Prop) [Decidable condition] (e : ε) : List ε :=
  if condition then [] else [e]

theorem faultUnless_eq_nil_iff {condition : Prop} [Decidable condition] {e : ε} :
    faultUnless condition e = [] ↔ condition := by
  simp [faultUnless]

theorem faultUnless_of_not {condition : Prop} [Decidable condition] {e : ε} (h : ¬ condition) :
    faultUnless condition e = [e] :=
  if_neg h

namespace Endpoint

def value? (part : String) : Option Endpoint :=
  match ofText part with
  | .ok e => some e
  | .error _ => none

def fault? (part : String) : Option ConfigError :=
  match ofText part with
  | .ok _ => none
  | .error e => some e

theorem fault?_eq_none_iff {part : String} : fault? part = none ↔ ∃ e, ofText part = .ok e := by
  rw [fault?]
  cases ofText part <;> simp

theorem value?_eq_some_iff {part : String} {e : Endpoint} :
    value? part = some e ↔ ofText part = .ok e := by
  rw [value?]
  cases ofText part <;> simp

theorem ofTexts_eq (parts : List String) :
    ofTexts parts = unlessFaulty (parts.filterMap fault?) (parts.filterMap value?) := by
  induction parts with
  | nil => rfl
  | cons part rest ih =>
    rw [ofTexts, ih]
    cases h : ofText part with
    | ok e =>
      have hvalue : value? part = some e := value?_eq_some_iff.2 h
      have hfault : fault? part = none := fault?_eq_none_iff.2 ⟨e, h⟩
      rw [List.filterMap_cons_some hvalue, List.filterMap_cons_none hfault]
      cases rest.filterMap fault? <;> rfl
    | error e =>
      have hfault : fault? part = some e := by rw [fault?, h]
      rw [List.filterMap_cons_some hfault]
      rfl

theorem map_ok_filterMap_value? {parts : List String} (h : ∀ part ∈ parts, fault? part = none) :
    (parts.filterMap value?).map .ok = parts.map ofText := by
  induction parts with
  | nil => rfl
  | cons part rest ih =>
    obtain ⟨e, he⟩ := fault?_eq_none_iff.1 (h part List.mem_cons_self)
    have hvalue : value? part = some e := value?_eq_some_iff.2 he
    rw [List.filterMap_cons_some hvalue, List.map_cons, List.map_cons, he,
      ih fun part hpart => h part (List.mem_cons_of_mem _ hpart)]

theorem ofText_eq_ok {part : String} {e : Endpoint} (h : ofText part = .ok e) :
    e.host ≠ "" ∧ 1 ≤ e.port.toNat ∧ e.port.toNat ≤ 65535 := by
  obtain ⟨hbare, hzero⟩ := bare_of_ofText h
  have hport : e.port.toNat ≤ 65535 := Nat.le_of_lt_succ e.port.toNat_lt
  exact ⟨fun he => hbare.ne_nil (String.toList_eq_nil_iff.2 he),
    Nat.pos_of_ne_zero fun hz => hzero (UInt16.toNat_inj.1 hz), hport⟩

theorem mem_parts {entry part : String} :
    part ∈ parts entry ↔ ∃ piece ∈ Text.splitAll ',' entry.toList,
      Text.trim piece ≠ [] ∧ String.ofList (Text.trim piece) = part := by
  simp only [parts, List.mem_map, List.mem_filter, decide_eq_true_eq, and_assoc]
  constructor
  · rintro ⟨_, ⟨piece, hpiece, rfl⟩, hne, hpart⟩
    exact ⟨piece, hpiece, hne, hpart⟩
  · rintro ⟨piece, hpiece, hne, hpart⟩
    exact ⟨_, ⟨piece, hpiece, rfl⟩, hne, hpart⟩

end Endpoint

namespace PersistPolicies

def addAll (p : PersistPolicies) (policies : List PersistPolicy) : PersistPolicies :=
  policies.foldl add p

theorem addNames_eq (p : PersistPolicies) (names : List String) :
    p.addNames names = unlessFaulty
      ((names.filter fun name => PersistPolicy.ofName? name = none).map .unknownPolicy)
      (p.addAll (names.filterMap PersistPolicy.ofName?)) := by
  induction names generalizing p with
  | nil => rfl
  | cons name rest ih =>
    rw [addNames]
    cases h : PersistPolicy.ofName? name with
    | none => simp [h, unlessFaulty]; rfl
    | some policy =>
      simp only [ih, List.filterMap_cons_some h, List.filter_cons, h]
      rfl

theorem addAll_eq (p : PersistPolicies) (policies : List PersistPolicy) :
    p.addAll policies =
      { saveOnChange := p.saveOnChange || policies.contains .saveOnChange
        alwaysSaveAfterRequest :=
          p.alwaysSaveAfterRequest || policies.contains .alwaysSaveAfterRequest } := by
  induction policies generalizing p with
  | nil => simp [addAll]
  | cons policy rest ih =>
    rw [addAll, List.foldl_cons, ← addAll, ih]
    cases policy <;> simp [add]

theorem ofNames_congr {names names' : List String} (h : ∀ name, name ∈ names' ↔ name ∈ names)
    {p : PersistPolicies} (hp : ofNames names = .ok p) : ofNames names' = .ok p := by
  have hcontains (policy : PersistPolicy) :
      (names'.filterMap PersistPolicy.ofName?).contains policy =
        (names.filterMap PersistPolicy.ofName?).contains policy := by
    rw [Bool.eq_iff_iff]
    simp only [List.contains_iff_mem, List.mem_filterMap, h]
  rw [ofNames, addNames_eq, unlessFaulty_eq_ok_iff] at hp ⊢
  refine ⟨?_, ?_⟩
  · have hknown := hp.1
    simp only [List.map_eq_nil_iff, List.filter_eq_nil_iff, h] at hknown ⊢
    exact hknown
  · rw [hp.2, addAll_eq, addAll_eq, hcontains, hcontains]

end PersistPolicies

namespace Settings

def hostParts (env : Environment) (c : RedisConfig) : List String :=
  (c.hosts.map (interpolate env)).flatMap Endpoint.parts

def hostsOf (env : Environment) (c : RedisConfig) : List Endpoint :=
  (hostParts env c).filterMap Endpoint.value?

def poolFaults (p : PoolConfig) : List ConfigError :=
  faultUnless (1 ≤ p.maxActive) (.invalid .noConnection) ++
  (faultUnless (p.maxIdle ≤ p.maxActive) (.invalid (.tooManyIdle p.maxIdle p.maxActive)) ++
  (faultUnless (p.minIdle ≤ p.maxIdle) (.invalid (.tooManyKept p.minIdle p.maxIdle)) ++
  faultUnless (p.evictionInterval ≠ 0) (.invalid .noEvictionInterval)))

def redisFaults (env : Environment) (c : RedisConfig) : List ConfigError :=
  (hostParts env c).filterMap Endpoint.fault? ++
  (faultUnless (hostsOf env c ≠ []) (.missingHosts c.topology) ++
  (faultUnless (c.topology = .sentinel → Text.trim (interpolate env c.sentinelMaster).toList ≠ [])
    (.invalid .noMaster) ++
  (faultUnless (0 ≤ c.database) (.invalid (.negativeDatabase c.database)) ++
  poolFaults c.pool)))

def sessionFaults (c : SessionConfig) : List ConfigError :=
  faultUnless (c.timeout ≠ 0) (.invalid .noTimeout) ++
  (faultUnless (c.manualTracking = true → c.trackingKey ≠ "") (.invalid .noTrackingKey) ++
  (c.policies.filter fun name => PersistPolicy.ofName? name = none).map .unknownPolicy)

/-- All that is wrong with a configuration, in the order in which it is looked for. -/
def faults (env : Environment) (c : Config) : List ConfigError :=
  redisFaults env (c.redis.getD {}) ++ sessionFaults (c.session.getD {})

def redisOf (env : Environment) (c : RedisConfig) : RedisSettings where
  topology := c.topology
  hosts := hostsOf env c
  password := (c.password.map (interpolate env)).filter (· != "")
  database := c.database
  timeout := max 2000 c.timeout
  sentinelMaster := interpolate env c.sentinelMaster
  maxRedirections := c.maxRedirections
  pool := c.pool

def sessionOf (env : Environment) (c : SessionConfig) : SessionSettings where
  keyPrefix := interpolate env c.keyPrefix
  policies := PersistPolicies.addAll {} (c.policies.filterMap PersistPolicy.ofName?)
  timeout := c.timeout
  minExpire := c.minExpire
  nullSession := c.nullSession
  trackingKey := if c.manualTracking then some c.trackingKey else none

def ofConfig (env : Environment) (c : Config) : Settings where
  redis := redisOf env (c.redis.getD {})
  localCache := c.localCache.getD {}
  session := sessionOf env (c.session.getD {})

theorem require_eq {condition : Prop} [Decidable condition] {b : Bool} {fault : FieldFault}
    (h : b = true ↔ condition) :
    require b fault = unlessFaulty (faultUnless condition (.invalid fault)) () := by
  rw [require, faultUnless]
  by_cases hc : condition
  · rw [if_pos (h.2 hc), if_pos hc]
    rfl
  · rw [if_neg (fun hb => hc (h.1 hb)), if_neg hc]
    rfl

theorem one_le_iff {n : UInt64} : 1 ≤ n ↔ n ≠ 0 := by
  rw [UInt64.le_iff_toNat_le, ne_eq, ← UInt64.toNat_inj]
  exact Nat.pos_iff_ne_zero

theorem checkPool_eq (p : PoolConfig) : checkPool p = unlessFaulty (poolFaults p) () := by
  have hactive : (p.maxActive != 0) = true ↔ 1 ≤ p.maxActive := bne_iff_ne.trans one_le_iff.symm
  rw [checkPool, require_eq hactive, require_eq decide_eq_true_iff, require_eq decide_eq_true_iff,
    require_eq bne_iff_ne]
  exact unlessFaulty_bind (unlessFaulty_bind (unlessFaulty_bind rfl))

theorem ofRedis_eq (env : Environment) (c : RedisConfig) :
    ofRedis env c = unlessFaulty (redisFaults env c) (redisOf env c) := by
  have hmaster : (c.topology != .sentinel ||
      Text.trim (interpolate env c.sentinelMaster).toList != []) = true ↔
      (c.topology = .sentinel → Text.trim (interpolate env c.sentinelMaster).toList ≠ []) := by
    cases c.topology <;> simp
  rw [ofRedis, Endpoint.ofEntries, Endpoint.ofTexts_eq]
  refine unlessFaulty_bind ?_
  dsimp only
  rw [require_eq hmaster, require_eq decide_eq_true_iff, checkPool_eq, ← hostParts, ← hostsOf]
  by_cases hhosts : hostsOf env c = []
  · rw [if_pos hhosts, faultUnless_of_not (not_not_intro hhosts)]
    rfl
  · rw [if_neg hhosts, faultUnless_eq_nil_iff.2 hhosts, List.nil_append]
    exact unlessFaulty_bind (unlessFaulty_bind unlessFaulty_bind_pure)

theorem ofSession_eq (env : Environment) (c : SessionConfig) :
    ofSession env c = unlessFaulty (sessionFaults c) (sessionOf env c) := by
  have hkey : (!c.manualTracking || c.trackingKey != "") = true ↔
      (c.manualTracking = true → c.trackingKey ≠ "") := by
    cases c.manualTracking <;> simp
  rw [ofSession, require_eq bne_iff_ne, require_eq hkey, PersistPolicies.ofNames,
    PersistPolicies.addNames_eq]
  exact unlessFaulty_bind (unlessFaulty_bind unlessFaulty_bind_pure)

theorem resolve_eq (env : Environment) (c : Config) :
    resolve env c = unlessFaulty (faults env c) (ofConfig env c) := by
  rw [resolve, ofRedis_eq, ofSession_eq]
  exact unlessFaulty_bind unlessFaulty_bind_pure

structure Valid (env : Environment) (redis : RedisConfig) (session : SessionConfig) : Prop where
  hosts : ∀ entry ∈ redis.hosts, ∀ piece ∈ Text.splitAll ',' (interpolate env entry).toList,
    Text.trim piece ≠ [] → ∃ e, Endpoint.ofText (String.ofList (Text.trim piece)) = .ok e
  host : ∃ entry ∈ redis.hosts, ∃ piece ∈ Text.splitAll ',' (interpolate env entry).toList,
    Text.trim piece ≠ []
  master : redis.topology = .sentinel →
    Text.trim (interpolate env redis.sentinelMaster).toList ≠ []
  database : 0 ≤ redis.database
  maxActive : 1 ≤ redis.pool.maxActive
  maxIdle : redis.pool.maxIdle ≤ redis.pool.maxActive
  minIdle : redis.pool.minIdle ≤ redis.pool.maxIdle
  evictionInterval : redis.pool.evictionInterval ≠ 0
  timeout : session.timeout ≠ 0
  trackingKey : session.manualTracking = true → session.trackingKey ≠ ""
  policies : ∀ name ∈ session.policies, ∃ policy, PersistPolicy.ofName? name = some policy

theorem mem_hostParts {env : Environment} {c : RedisConfig} {part : String} :
    part ∈ hostParts env c ↔
      ∃ entry ∈ c.hosts, ∃ piece ∈ Text.splitAll ',' (interpolate env entry).toList,
        Text.trim piece ≠ [] ∧ String.ofList (Text.trim piece) = part := by
  simp only [hostParts, List.mem_flatMap, List.mem_map, Endpoint.mem_parts]
  constructor
  · rintro ⟨_, ⟨entry, hentry, rfl⟩, hpiece⟩
    exact ⟨entry, hentry, hpiece⟩
  · rintro ⟨entry, hentry, hpiece⟩
    exact ⟨_, ⟨entry, hentry, rfl⟩, hpiece⟩

theorem map_ok_hostsOf {env : Environment} {c : RedisConfig}
    (h : ∀ part ∈ hostParts env c, Endpoint.fault? part = none) :
    (hostsOf env c).map .ok = (hostParts env c).map Endpoint.ofText :=
  Endpoint.map_ok_filterMap_value? h

theorem hostsOf_ne_nil_iff {env : Environment} {c : RedisConfig}
    (h : ∀ part ∈ hostParts env c, Endpoint.fault? part = none) :
    hostsOf env c ≠ [] ↔ ∃ part, part ∈ hostParts env c := by
  have hempty : hostsOf env c = [] ↔ hostParts env c = [] := by
    have hmap := map_ok_hostsOf h
    constructor
    · intro hnil
      rw [hnil] at hmap
      exact List.map_eq_nil_iff.1 hmap.symm
    · intro hnil
      rw [hnil] at hmap
      exact List.map_eq_nil_iff.1 hmap
  rw [ne_eq, hempty]
  exact ⟨List.exists_mem_of_ne_nil _, fun ⟨_, hpart⟩ => List.ne_nil_of_mem hpart⟩

theorem redisFaults_eq_nil_iff {env : Environment} {c : RedisConfig} :
    redisFaults env c = [] ↔
      (∀ part ∈ hostParts env c, Endpoint.fault? part = none) ∧
      hostsOf env c ≠ [] ∧
      (c.topology = .sentinel → Text.trim (interpolate env c.sentinelMaster).toList ≠ []) ∧
      0 ≤ c.database ∧ 1 ≤ c.pool.maxActive ∧ c.pool.maxIdle ≤ c.pool.maxActive ∧
      c.pool.minIdle ≤ c.pool.maxIdle ∧ c.pool.evictionInterval ≠ 0 := by
  simp only [redisFaults, poolFaults, List.append_eq_nil_iff, List.filterMap_eq_nil_iff,
    faultUnless_eq_nil_iff]

theorem sessionFaults_eq_nil_iff {c : SessionConfig} :
    sessionFaults c = [] ↔ c.timeout ≠ 0 ∧ (c.manualTracking = true → c.trackingKey ≠ "") ∧
      ∀ name ∈ c.policies, ∃ policy, PersistPolicy.ofName? name = some policy := by
  simp only [sessionFaults, List.append_eq_nil_iff, faultUnless_eq_nil_iff, List.map_eq_nil_iff,
    List.filter_eq_nil_iff, decide_eq_true_eq, Option.ne_none_iff_exists']

theorem faults_eq_nil_iff (env : Environment) (c : Config) :
    faults env c = [] ↔ Valid env (c.redis.getD {}) (c.session.getD {}) := by
  rw [faults, List.append_eq_nil_iff, redisFaults_eq_nil_iff, sessionFaults_eq_nil_iff]
  constructor
  · rintro ⟨⟨hparts, hhost, hmaster, hdatabase, hactive, hidle, hkept, heviction⟩, htimeout, hkey,
      hpolicies⟩
    refine ⟨fun entry hentry piece hpiece hne => ?_, ?_, hmaster, hdatabase, hactive, hidle, hkept,
      heviction, htimeout, hkey, hpolicies⟩
    · exact Endpoint.fault?_eq_none_iff.1
        (hparts _ (mem_hostParts.2 ⟨entry, hentry, piece, hpiece, hne, rfl⟩))
    · obtain ⟨part, hpart⟩ := (hostsOf_ne_nil_iff hparts).1 hhost
      obtain ⟨entry, hentry, piece, hpiece, hne, -⟩ := mem_hostParts.1 hpart
      exact ⟨entry, hentry, piece, hpiece, hne⟩
  · intro h
    have hparts : ∀ part ∈ hostParts env (c.redis.getD {}), Endpoint.fault? part = none := by
      intro part hpart
      obtain ⟨entry, hentry, piece, hpiece, hne, rfl⟩ := mem_hostParts.1 hpart
      exact Endpoint.fault?_eq_none_iff.2 (h.hosts entry hentry piece hpiece hne)
    have hhost : hostsOf env (c.redis.getD {}) ≠ [] := by
      obtain ⟨entry, hentry, piece, hpiece, hne⟩ := h.host
      exact (hostsOf_ne_nil_iff hparts).2
        ⟨_, mem_hostParts.2 ⟨entry, hentry, piece, hpiece, hne, rfl⟩⟩
    exact ⟨⟨hparts, hhost, h.master, h.database, h.maxActive, h.maxIdle, h.minIdle,
      h.evictionInterval⟩, h.timeout, h.trackingKey, h.policies⟩

structure Sound (env : Environment) (redis : RedisConfig) (session : SessionConfig)
    (s : Settings) : Prop where
  hosts : s.redis.hosts.map .ok = (hostParts env redis).map Endpoint.ofText
  hosts_ne_nil : s.redis.hosts ≠ []
  host : ∀ e ∈ s.redis.hosts, e.host ≠ "" ∧ 1 ≤ e.port.toNat ∧ e.port.toNat ≤ 65535
  topology : s.redis.topology = redis.topology
  master : s.redis.topology = .sentinel → Text.trim s.redis.sentinelMaster.toList ≠ []
  database : 0 ≤ s.redis.database
  pool : s.redis.pool = redis.pool
  maxActive : 1 ≤ s.redis.pool.maxActive
  maxIdle : s.redis.pool.maxIdle ≤ s.redis.pool.maxActive
  minIdle : s.redis.pool.minIdle ≤ s.redis.pool.maxIdle
  evictionInterval : s.redis.pool.evictionInterval ≠ 0
  redisTimeout : s.redis.timeout = max 2000 redis.timeout
  password : ∀ p, s.redis.password = some p ↔
    (∃ written, redis.password = some written ∧ interpolate env written = p) ∧ p ≠ ""
  sessionTimeout : s.session.timeout ≠ 0
  trackingKey : ∀ key, s.session.trackingKey = some key → key ≠ ""
  policies : ∀ names, (∀ name, name ∈ names ↔ name ∈ session.policies) →
    PersistPolicies.ofNames names = .ok s.session.policies
  effectiveTimeout : ∀ interval, max interval 1 ≤ s.session.effectiveTimeout interval

theorem sessionOf_trackingKey {env : Environment} {c : SessionConfig} {key : String}
    (h : c.manualTracking = true → c.trackingKey ≠ "")
    (hkey : (sessionOf env c).trackingKey = some key) : key ≠ "" := by
  rw [sessionOf] at hkey
  dsimp only at hkey
  split at hkey
  · next htracking => exact Option.some.inj hkey ▸ h htracking
  · cases hkey

theorem max_le_effectiveTimeout {s : SessionSettings} (h : s.timeout ≠ 0) (interval : UInt64) :
    max interval 1 ≤ s.effectiveTimeout interval := by
  have hmax (a b : UInt64) : max a b = if a ≤ b then b else a := rfl
  have hpos : 1 ≤ s.timeout := one_le_iff.2 h
  simp only [SessionSettings.effectiveTimeout, hmax]
  grind

theorem password_redisOf (env : Environment) (c : RedisConfig) (p : String) :
    (redisOf env c).password = some p ↔
      (∃ written, c.password = some written ∧ interpolate env written = p) ∧ p ≠ "" := by
  simp only [redisOf, Option.filter_eq_some_iff, Option.map_eq_some_iff, bne_iff_ne]

theorem policies_sessionOf {env : Environment} {c : SessionConfig}
    (h : ∀ name ∈ c.policies, ∃ policy, PersistPolicy.ofName? name = some policy) :
    PersistPolicies.ofNames c.policies = .ok (sessionOf env c).policies := by
  rw [PersistPolicies.ofNames, PersistPolicies.addNames_eq, unlessFaulty_eq_ok_iff]
  refine ⟨?_, rfl⟩
  rw [List.map_eq_nil_iff, List.filter_eq_nil_iff]
  intro name hname
  obtain ⟨policy, hpolicy⟩ := h name hname
  simp [hpolicy]

theorem host_of_mem_hostsOf {env : Environment} {c : RedisConfig} {e : Endpoint}
    (h : e ∈ hostsOf env c) : e.host ≠ "" ∧ 1 ≤ e.port.toNat ∧ e.port.toNat ≤ 65535 := by
  obtain ⟨part, -, hvalue⟩ := List.mem_filterMap.1 h
  exact Endpoint.ofText_eq_ok (Endpoint.value?_eq_some_iff.1 hvalue)

theorem sound_ofConfig {env : Environment} {c : Config} (h : faults env c = []) :
    Sound env (c.redis.getD {}) (c.session.getD {}) (ofConfig env c) := by
  rw [faults, List.append_eq_nil_iff, redisFaults_eq_nil_iff, sessionFaults_eq_nil_iff] at h
  obtain ⟨⟨hparts, hhost, hmaster, hdatabase, hactive, hidle, hkept, heviction⟩, htimeout, hkey,
    hpolicies⟩ := h
  exact {
    hosts := map_ok_hostsOf hparts
    hosts_ne_nil := hhost
    host := fun e => host_of_mem_hostsOf
    topology := rfl
    master := hmaster
    database := hdatabase
    pool := rfl
    maxActive := hactive
    maxIdle := hidle
    minIdle := hkept
    evictionInterval := heviction
    redisTimeout := rfl
    password := password_redisOf env (c.redis.getD {})
    sessionTimeout := htimeout
    trackingKey := fun key => sessionOf_trackingKey hkey
    policies := fun names h => PersistPolicies.ofNames_congr h (policies_sessionOf hpolicies)
    effectiveTimeout := max_le_effectiveTimeout htimeout }

/-- Exactly the valid configurations can be used; any other is refused for the first thing that is
wrong with it, and what comes of a valid one can be relied on. -/
theorem resolve_accepts_the_valid_ones (env : Environment) (c : Config) :
    ((∃ s, resolve env c = .ok s) ↔ Valid env (c.redis.getD {}) (c.session.getD {})) ∧
      (∀ e, resolve env c = .error e ↔ (faults env c).head? = some e) ∧
      ∀ s, resolve env c = .ok s → Sound env (c.redis.getD {}) (c.session.getD {}) s := by
  rw [resolve_eq, ← faults_eq_nil_iff]
  refine ⟨?_, fun e => unlessFaulty_eq_error_iff, fun s hs => ?_⟩
  · simp only [unlessFaulty_eq_ok_iff, exists_and_left, exists_eq, and_true]
  · obtain ⟨hnone, rfl⟩ := unlessFaulty_eq_ok_iff.1 hs
    exact sound_ofConfig hnone

def threeVariables : Environment
  | "PORT" => some "26379"
  | "MASTER" => some " \u3000"
  | "PASSWORD" => some ""
  | _ => none

def sentinels : Config where
  redis := some {
    hosts := ["s1:1, s2:$\x7bPORT\x7d", " ,", "[::1]:+0042"]
    topology := .sentinel
    password := some "$\x7bPASSWORD\x7d"
    timeout := 500 }
  session := some { policies := ["Save-On-Change", "default", " save_on_change "] }

def leaderless : Config where
  redis := sentinels.redis.map fun c => { c with sentinelMaster := "$\x7bMASTER\x7d" }
  session := some { policies := ["sometimes"] }

theorem sentinels_can_be_used :
    (∃ s, resolve threeVariables sentinels = .ok s ∧
      Sound threeVariables (sentinels.redis.getD {}) (sentinels.session.getD {}) s) ∧
    resolve threeVariables leaderless = .error (.invalid .noMaster) := by
  obtain ⟨haccepts, -, hsound⟩ := resolve_accepts_the_valid_ones threeVariables sentinels
  have hvalid : faults threeVariables sentinels = [] := by decide +kernel
  obtain ⟨s, hs⟩ := haccepts.2 ((faults_eq_nil_iff threeVariables sentinels).1 hvalid)
  obtain ⟨-, hrefuses, -⟩ := resolve_accepts_the_valid_ones threeVariables leaderless
  exact ⟨⟨s, hs, hsound s hs⟩, (hrefuses _).2 (by decide +kernel)⟩

end Settings

end SessionVault
