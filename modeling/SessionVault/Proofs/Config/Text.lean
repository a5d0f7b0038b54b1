import SessionVault.Config.Text
import SessionVault.Proofs.Toml.Entries
import SessionVault.Proofs.Toml.Fields

namespace SessionVault

open Toml

theorem Topology.ofName?_name (t : Topology) : ofName? t.name = some t := by
  cases t <;> decide +kernel

theorem NullSession.ofName?_name (p : NullSession) : ofName? p.name = some p := by
  cases p <;> decide +kernel

namespace PoolConfig

variable {c : PoolConfig} {v : Toml}

structure Writable (c : PoolConfig) : Prop where
  maxActive : Fits c.maxActive
  maxIdle : Fits c.maxIdle
  minIdle : Fits c.minIdle
  testsPerEviction : Fits c.testsPerEviction
  evictionInterval : Fits c.evictionInterval

theorem writable_default : Writable {} := by constructor <;> decide

theorem writable_of_ofToml? (h : ofToml? v = some c) : c.Writable := by
  simp only [ofToml?, Option.bind_eq_bind, Option.bind_eq_some_iff, Option.pure_def,
    Option.some.injEq] at h
  obtain ⟨fs, -, _, hmaxActive, _, hmaxIdle, _, hminIdle, _, -, _, -, _, -, _, htests, _,
    hinterval, rfl⟩ := h
  have hdflt := writable_default
  exact ⟨fits_of_field hmaxActive hdflt.maxActive, fits_of_field hmaxIdle hdflt.maxIdle,
    fits_of_field hminIdle hdflt.minIdle, fits_of_field htests hdflt.testsPerEviction,
    fits_of_field hinterval hdflt.evictionInterval⟩

def entries (c : PoolConfig) : List (String × Toml) :=
  [("max_active", ofUInt64 c.maxActive), ("max_idle", ofUInt64 c.maxIdle),
    ("min_idle", ofUInt64 c.minIdle), ("test_on_borrow", .bool c.testOnBorrow),
    ("test_on_return", .bool c.testOnReturn), ("test_while_idle", .bool c.testWhileIdle),
    ("num_tests_per_eviction", ofUInt64 c.testsPerEviction),
    ("time_between_eviction_ms", ofUInt64 c.evictionInterval)]

theorem lines?_of_writable (h : c.Writable) : c.lines? = some (pairs c.entries) := by
  simp only [lines?, ofUInt64?_of_fits h.maxActive, ofUInt64?_of_fits h.maxIdle,
    ofUInt64?_of_fits h.minIdle, ofUInt64?_of_fits h.testsPerEviction,
    ofUInt64?_of_fits h.evictionInterval]
  rfl

theorem nodup_entries (c : PoolConfig) : (c.entries.map Prod.fst).Nodup :=
  show fieldNames.Nodup by decide +kernel

theorem ofToml?_entries (h : c.Writable) : ofToml? (.table c.entries) = some c := by
  have hnames := c.nodup_entries
  simp only [ofToml?, fields?, Option.bind_eq_bind, Option.bind_some, field_at hnames 0 rfl,
    field_at hnames 1 rfl, field_at hnames 2 rfl, field_at hnames 3 rfl, field_at hnames 4 rfl,
    field_at hnames 5 rfl, field_at hnames 6 rfl, field_at hnames 7 rfl,
    uint64?_ofUInt64 h.maxActive, uint64?_ofUInt64 h.maxIdle, uint64?_ofUInt64 h.minIdle,
    uint64?_ofUInt64 h.testsPerEviction, uint64?_ofUInt64 h.evictionInterval]
  rfl

theorem legible_entries (c : PoolConfig) : ∀ p ∈ c.entries, Legible maxDepth p.2 := by
  simp [entries, ofUInt64, Legible.integer, Legible.bool]

end PoolConfig

namespace RedisConfig

variable {c : RedisConfig} {v : Toml}

structure Writable (c : RedisConfig) : Prop where
  timeout : Fits c.timeout
  pool : c.pool.Writable

theorem writable_default : Writable {} := ⟨by decide, PoolConfig.writable_default⟩

theorem writable_of_ofToml? (h : ofToml? v = some c) : c.Writable := by
  simp only [ofToml?, Option.bind_eq_bind, Option.bind_eq_some_iff, Option.pure_def,
    Option.some.injEq] at h
  obtain ⟨fs, -, _, -, _, -, _, -, _, -, _, htimeout, _, -, _, -, _, hpool, rfl⟩ := h
  exact ⟨fits_of_field htimeout writable_default.timeout,
    field_elim hpool writable_default.pool fun _ => PoolConfig.writable_of_ofToml?⟩

def ownEntries (c : RedisConfig) : List (String × Toml) :=
  [("hosts", ofStrings c.hosts), ("topology", .string c.topology.name)] ++
    (c.password.elim [] fun p => [("password", .string p)]) ++
    [("database", .integer c.database), ("timeout_ms", ofUInt64 c.timeout),
      ("sentinel_master", .string c.sentinelMaster),
      ("max_redirections", .integer (Int64.ofNat c.maxRedirections.toNat))]

def entries (c : RedisConfig) : List (String × Toml) :=
  c.ownEntries ++ [("pool", .table c.pool.entries)]

theorem lines?_of_writable (h : c.Writable) :
    c.lines? = some (sectionLines ⟨[], "redis"⟩ c.ownEntries ++
      sectionLines ⟨["redis"], "pool"⟩ c.pool.entries) := by
  simp only [lines?, ofUInt64?_of_fits h.timeout, PoolConfig.lines?_of_writable h.pool]
  cases hp : c.password with
  | none =>
    rw [ownEntries, hp]
    rfl
  | some p =>
    rw [ownEntries, hp]
    rfl

theorem nodup_entries (c : RedisConfig) : (c.entries.map Prod.fst).Nodup := by
  cases hp : c.password <;> simp [entries, ownEntries, hp]

theorem field_password (c : RedisConfig) :
    field "password" (fun v => v.string?.map some) none c.entries = some c.password := by
  cases hp : c.password with
  | none =>
    apply field_of_notMem
    simp [entries, ownEntries, hp]
  | some p =>
    have hmem : ("password", .string p) ∈ c.entries := by simp [entries, ownEntries, hp]
    rw [field_of_mem c.nodup_entries hmem]
    rfl

theorem ofToml?_entries (h : c.Writable) : ofToml? (.table c.entries) = some c := by
  have hread {name : String} {v : Toml} (hmem : (name, v) ∈ c.entries) {α : Type}
      {read : Toml → Option α} {dflt : α} : field name read dflt c.entries = read v :=
    field_of_mem c.nodup_entries hmem
  have hhosts : ("hosts", ofStrings c.hosts) ∈ c.entries := by simp [entries, ownEntries]
  have htopology : ("topology", .string c.topology.name) ∈ c.entries := by
    simp [entries, ownEntries]
  have hdatabase : ("database", .integer c.database) ∈ c.entries := by simp [entries, ownEntries]
  have htimeout : ("timeout_ms", ofUInt64 c.timeout) ∈ c.entries := by simp [entries, ownEntries]
  have hmaster : ("sentinel_master", .string c.sentinelMaster) ∈ c.entries := by
    simp [entries, ownEntries]
  have hredirections : ("max_redirections", .integer (Int64.ofNat c.maxRedirections.toNat)) ∈
      c.entries := by simp [entries, ownEntries]
  have hpool : ("pool", .table c.pool.entries) ∈ c.entries := by simp [entries]
  simp only [ofToml?, fields?, Option.bind_eq_bind, Option.bind_some, hread hhosts, hread htopology,
    c.field_password, hread hdatabase, hread htimeout, hread hmaster, hread hredirections,
    hread hpool, strings?_ofStrings, choice?, Topology.ofName?_name,
    uint64?_ofUInt64 h.timeout, uint32?_integer, PoolConfig.ofToml?_entries h.pool]
  rfl

theorem legible_ownEntries (c : RedisConfig) : ∀ p ∈ c.ownEntries, Legible maxDepth p.2 := by
  cases hp : c.password <;>
    simp [ownEntries, hp, ofUInt64, legible_ofStrings, Legible.string, Legible.integer]

theorem says_entries (c : RedisConfig) :
    Says (sectionLines ⟨[], "redis"⟩ c.ownEntries ++
      sectionLines ⟨["redis"], "pool"⟩ c.pool.entries) [("redis", .table c.entries)] := by
  have hnames := c.nodup_entries
  rw [entries, List.map_append] at hnames
  obtain ⟨hown, -, hpool⟩ := List.nodup_append.1 hnames
  exact says_nested "redis" hown (fun hm => hpool _ hm _ List.mem_cons_self rfl)
    c.pool.nodup_entries c.legible_ownEntries c.pool.legible_entries

end RedisConfig

namespace LocalCacheConfig

variable {c : LocalCacheConfig} {v : Toml}

structure Writable (c : LocalCacheConfig) : Prop where
  expiryInterval : Fits c.expiryInterval
  resyncInterval : Fits c.resyncInterval

theorem writable_default : Writable {} := by constructor <;> decide

theorem writable_of_ofToml? (h : ofToml? v = some c) : c.Writable := by
  simp only [ofToml?, Option.bind_eq_bind, Option.bind_eq_some_iff, Option.pure_def,
    Option.some.injEq] at h
  obtain ⟨fs, -, _, -, _, hexpiry, _, hresync, rfl⟩ := h
  exact ⟨fits_of_field hexpiry writable_default.expiryInterval,
    fits_of_field hresync writable_default.resyncInterval⟩

def entries (c : LocalCacheConfig) : List (String × Toml) :=
  [("enabled", .bool c.enabled), ("expiry_job_interval_secs", ofUInt64 c.expiryInterval),
    ("resync_job_interval_secs", ofUInt64 c.resyncInterval)]

theorem lines?_of_writable (h : c.Writable) :
    c.lines? = some (sectionLines ⟨[], "local_cache"⟩ c.entries) := by
  simp only [lines?, ofUInt64?_of_fits h.expiryInterval, ofUInt64?_of_fits h.resyncInterval]
  rfl

theorem nodup_entries (c : LocalCacheConfig) : (c.entries.map Prod.fst).Nodup :=
  show fieldNames.Nodup by decide +kernel

theorem ofToml?_entries (h : c.Writable) : ofToml? (.table c.entries) = some c := by
  have hnames := c.nodup_entries
  simp only [ofToml?, fields?, Option.bind_eq_bind, Option.bind_some, field_at hnames 0 rfl,
    field_at hnames 1 rfl, field_at hnames 2 rfl, uint64?_ofUInt64 h.expiryInterval,
    uint64?_ofUInt64 h.resyncInterval]
  rfl

theorem says_entries (c : LocalCacheConfig) :
    Says (sectionLines ⟨[], "local_cache"⟩ c.entries) [("local_cache", .table c.entries)] := by
  refine says_section "local_cache" c.nodup_entries ?_
  simp [entries, ofUInt64, Legible.integer, Legible.bool]

end LocalCacheConfig

namespace SessionConfig

variable {c : SessionConfig} {v : Toml}

structure Writable (c : SessionConfig) : Prop where
  timeout : Fits c.timeout
  minExpire : Fits c.minExpire

theorem writable_default : Writable {} := by constructor <;> decide

theorem writable_of_ofToml? (h : ofToml? v = some c) : c.Writable := by
  simp only [ofToml?, Option.bind_eq_bind, Option.bind_eq_some_iff, Option.pure_def,
    Option.some.injEq] at h
  obtain ⟨fs, -, _, -, _, -, _, htimeout, _, hexpire, _, -, _, -, _, -, rfl⟩ := h
  exact ⟨fits_of_field htimeout writable_default.timeout,
    fits_of_field hexpire writable_default.minExpire⟩

def entries (c : SessionConfig) : List (String × Toml) :=
  [("key_prefix", .string c.keyPrefix), ("persist_policies", ofStrings c.policies),
    ("timeout_secs", ofUInt64 c.timeout), ("min_expire_secs", ofUInt64 c.minExpire),
    ("null_session", .string c.nullSession.name),
    ("manual_dirty_tracking", .bool c.manualTracking),
    ("dirty_tracking_key", .string c.trackingKey)]

theorem lines?_of_writable (h : c.Writable) :
    c.lines? = some (sectionLines ⟨[], "session"⟩ c.entries) := by
  simp only [lines?, ofUInt64?_of_fits h.timeout, ofUInt64?_of_fits h.minExpire]
  rfl

theorem nodup_entries (c : SessionConfig) : (c.entries.map Prod.fst).Nodup :=
  show fieldNames.Nodup by decide +kernel

theorem ofToml?_entries (h : c.Writable) : ofToml? (.table c.entries) = some c := by
  have hnames := c.nodup_entries
  simp only [ofToml?, fields?, Option.bind_eq_bind, Option.bind_some, field_at hnames 0 rfl,
    field_at hnames 1 rfl, field_at hnames 2 rfl, field_at hnames 3 rfl, field_at hnames 4 rfl,
    field_at hnames 5 rfl, field_at hnames 6 rfl, strings?_ofStrings, choice?,
    NullSession.ofName?_name, uint64?_ofUInt64 h.timeout, uint64?_ofUInt64 h.minExpire]
  rfl

theorem says_entries (c : SessionConfig) :
    Says (sectionLines ⟨[], "session"⟩ c.entries) [("session", .table c.entries)] := by
  refine says_section "session" c.nodup_entries ?_
  simp [entries, ofUInt64, legible_ofStrings, Legible.string, Legible.integer, Legible.bool]

end SessionConfig

namespace Config

variable {c : Config}

structure Writable (c : Config) : Prop where
  redis : ∀ r ∈ c.redis, r.Writable
  localCache : ∀ l ∈ c.localCache, l.Writable
  session : ∀ s ∈ c.session, s.Writable

def entry {α : Type} (name : String) (entries : α → List (String × Toml)) :
    Option α → List (String × Toml)
  | none => []
  | some x => [(name, .table (entries x))]

def entries (c : Config) : List (String × Toml) :=
  entry "redis" RedisConfig.entries c.redis ++
    entry "local_cache" LocalCacheConfig.entries c.localCache ++
    entry "session" SessionConfig.entries c.session

theorem eq_of_mem_entry {α : Type} {name other : String} {entries : α → List (String × Toml)}
    {o : Option α} (h : other ∈ (entry name entries o).map Prod.fst) : other = name := by
  cases o with
  | none => cases h
  | some x => exact List.mem_singleton.1 h

theorem exists_says_entry {α : Type} {name : String} {entries : α → List (String × Toml)}
    {lines? : α → Option (List Expression)} {o : Option α}
    (h : ∀ x ∈ o, ∃ lines, lines? x = some lines ∧ Says lines [(name, .table (entries x))]) :
    ∃ lines, o.elim (some []) lines? = some lines ∧ Says lines (entry name entries o) := by
  cases o with
  | none => exact ⟨[], rfl, says_nil⟩
  | some x => exact h x rfl

theorem exists_says_entries (h : c.Writable) :
    ∃ lines, c.lines? = some lines ∧ Says lines c.entries := by
  obtain ⟨redis, hredis, hmeans⟩ := exists_says_entry fun r hr =>
    ⟨_, RedisConfig.lines?_of_writable (h.redis r hr), r.says_entries⟩
  obtain ⟨localCache, hlocal, hmeans'⟩ := exists_says_entry fun l hl =>
    ⟨_, LocalCacheConfig.lines?_of_writable (h.localCache l hl), l.says_entries⟩
  obtain ⟨session, hsession, hmeans''⟩ := exists_says_entry fun s hs =>
    ⟨_, SessionConfig.lines?_of_writable (h.session s hs), s.says_entries⟩
  refine ⟨redis ++ localCache ++ session, ?_, (hmeans.append hmeans' ?_).append hmeans'' ?_⟩
  · rw [lines?, hredis, hlocal, hsession]
    rfl
  · intro name hname hm
    rw [eq_of_mem_entry hname] at hm
    exact absurd (eq_of_mem_entry hm) (by decide +kernel)
  · intro name hname hm
    rw [eq_of_mem_entry hname, List.map_append, List.mem_append] at hm
    rcases hm with hm | hm <;> exact absurd (eq_of_mem_entry hm) (by decide +kernel)

theorem ofEntries?_entries (h : c.Writable) : ofEntries? c.entries = some c := by
  obtain ⟨redis, localCache, session⟩ := c
  have hredis : ∀ r, redis = some r → RedisConfig.ofToml? (.table r.entries) = some r :=
    fun r hr => RedisConfig.ofToml?_entries (h.redis r hr)
  have hlocal : ∀ l, localCache = some l → LocalCacheConfig.ofToml? (.table l.entries) = some l :=
    fun l hl => LocalCacheConfig.ofToml?_entries (h.localCache l hl)
  have hsession : ∀ s, session = some s → SessionConfig.ofToml? (.table s.entries) = some s :=
    fun s hs => SessionConfig.ofToml?_entries (h.session s hs)
  cases redis <;> cases localCache <;> cases session <;>
    simp_all [ofEntries?, entries, entry, field, Table.find]

theorem Writable.exists_text (h : c.Writable) :
    ∃ text, c.text = .ok text ∧ ofText text = .ok c := by
  obtain ⟨lines, hlines, hmeans⟩ := exists_says_entries h
  refine ⟨String.ofList (writeAll lines), ?_, ?_⟩
  · rw [Config.text, hlines]
  · rw [ofText, hmeans.ofText?_writeAll, Option.bind_some, ofEntries?_entries h]

theorem exists_of_field {α : Type} {name : String} {read : Toml → Option α} {o : Option α} {x : α}
    {fs : List (String × Toml)} (h : field name (fun v => (read v).map some) none fs = some o)
    (hx : x ∈ o) : ∃ v, read v = some x := by
  refine field_elim (p := fun o => x ∈ o → ∃ v, read v = some x) h (fun hm => nomatch hm) ?_ hx
  intro v hv hm
  obtain ⟨y, hy, rfl⟩ := Option.map_eq_some_iff.1 hv
  exact ⟨v, Option.some.inj hm ▸ hy⟩

theorem writable_of_ofText {s : String} (h : ofText s = .ok c) : c.Writable := by
  rw [ofText] at h
  split at h
  · next hread =>
    cases h
    obtain ⟨entries, -, hread⟩ := Option.bind_eq_some_iff.1 hread
    simp only [ofEntries?, Option.bind_eq_bind, Option.bind_eq_some_iff, Option.pure_def,
      Option.some.injEq] at hread
    obtain ⟨redis, hredis, localCache, hlocal, session, hsession, rfl⟩ := hread
    refine ⟨fun r hr => ?_, fun l hl => ?_, fun s hs => ?_⟩
    · obtain ⟨v, hv⟩ := exists_of_field hredis hr
      exact RedisConfig.writable_of_ofToml? hv
    · obtain ⟨v, hv⟩ := exists_of_field hlocal hl
      exact LocalCacheConfig.writable_of_ofToml? hv
    · obtain ⟨v, hv⟩ := exists_of_field hsession hs
      exact SessionConfig.writable_of_ofToml? hv
  · cases h

theorem writable_empty : empty.Writable := ⟨nofun, nofun, nofun⟩

theorem Writable.onTopOf {upper lower : Config} (h : upper.Writable) (h' : lower.Writable) :
    (upper.onTopOf lower).Writable := by
  have hor {α : Type} {x y : Option α} {p : α → Prop} (hx : ∀ a ∈ x, p a) (hy : ∀ a ∈ y, p a) :
      ∀ a ∈ x.or y, p a := by
    cases x with
    | none => exact hy
    | some => exact hx
  exact ⟨hor h.redis h'.redis, hor h.localCache h'.localCache, hor h.session h'.session⟩

theorem writable_merge {cs : List Config} (h : ∀ c ∈ cs, c.Writable) : (merge cs).Writable := by
  have hfold : ∀ lower : Config, lower.Writable →
      (cs.foldl (fun lower upper => upper.onTopOf lower) lower).Writable := by
    induction cs with
    | nil => exact fun _ hlower => hlower
    | cons c cs ih =>
      intro lower hlower
      have hc : c.Writable := h c List.mem_cons_self
      exact ih (fun d hd => h d (List.mem_cons_of_mem _ hd)) _ (hc.onTopOf hlower)
  exact hfold empty writable_empty

theorem writable_of_ofTexts {layers : List String} {cs : List Config}
    (h : ofTexts layers = .ok cs) : ∀ c ∈ cs, c.Writable := by
  induction layers generalizing cs with
  | nil =>
    cases h
    exact List.forall_mem_nil _
  | cons s layers ih =>
    cases hs : ofText s with
    | error e =>
      rw [ofTexts, hs] at h
      cases h
    | ok c =>
      cases hrest : ofTexts layers with
      | error e =>
        rw [ofTexts, hs, hrest] at h
        cases h
      | ok rest =>
        rw [ofTexts, hs, hrest] at h
        cases h
        intro d hd
        rcases List.mem_cons.1 hd with rfl | hd
        · exact writable_of_ofText hs
        · exact ih hrest d hd

/-- What texts make up together can be written as one text, which says the same. -/
theorem merged_texts_are_written_and_read_back (layers : List String) (cs : List Config)
    (h : ofTexts layers = .ok cs) :
    ∃ text, (merge cs).text = .ok text ∧ ofText text = .ok (merge cs) :=
  (writable_merge (writable_of_ofTexts h)).exists_text

def secured : Config where
  redis := some
    { hosts := ["a:1", "b:2"]
      password := some "it's \"x\"\n"
      pool := { maxIdle := 7 } }

def patient : Config where
  session := some { timeout := 0x7FFFFFFFFFFFFFFF }

def securedText : String :=
  "[redis]\nhosts = ['a:1', \"b:2\"]\npassword = \"it's \\\"x\\\"\\n\"\n\n" ++
    "[redis.pool]\nmax_idle = 7 # fewer\n"

def patientText : String := "[session]\ntimeout_secs = 0x7fff_ffff_ffff_ffff\n"

theorem secured_and_patient_are_written :
    ofTexts [securedText, patientText] = .ok [secured, patient] ∧
      ∃ text, (merge [secured, patient]).text = .ok text ∧
        ofText text = .ok (merge [secured, patient]) := by
  have hsecured : (Toml.ofText? securedText).bind ofEntries? = some secured := by decide +kernel
  have hpatient : (Toml.ofText? patientText).bind ofEntries? = some patient := by decide +kernel
  have hread : ofTexts [securedText, patientText] = .ok [secured, patient] := by
    rw [ofTexts, ofTexts, ofText, hsecured, ofText, hpatient]
    rfl
  exact ⟨hread, merged_texts_are_written_and_read_back _ _ hread⟩

end Config

end SessionVault
