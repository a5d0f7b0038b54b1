import SessionVault.Config.Layers
import SessionVault.Proofs.Text.Split

/-!
What comes of layers of configurations.  Each section is that of the last layer which has it, each
layer that fails leaves a warning and nothing else: `layers_are_loaded_one_by_one`.
-/

namespace SessionVault

variable {α β : Type} {layers : List Layer} {l : Layer} {c : Config} {e : ConfigError}

namespace Layer

def Reads (l : Layer) (c : Config) : Prop :=
  ∃ text, l.found.text? = some text ∧ Config.ofText text = .ok c

def Fails (l : Layer) (e : ConfigError) : Prop :=
  l.found.isFile = true ∧
    (l.found.text? = none ∧ e = .unreadable l.path ∨
      ∃ text, l.found.text? = some text ∧ Config.ofText text = .error e)

theorem isFile_of_text? {found : Found} {text : String} (h : found.text? = some text) :
    found.isFile = true := by
  cases found with
  | missing => cases h
  | directory => cases h
  | locked => rfl
  | file content => rfl

theorem outcome_eq_ok_iff : l.outcome = some (.ok c) ↔ l.Reads c := by
  rw [outcome, Config.load, Reads]
  cases htext : l.found.text? with
  | none => split <;> simp
  | some text => simp [isFile_of_text? htext]

theorem outcome_eq_error_iff : l.outcome = some (.error e) ↔ l.Fails e := by
  rw [outcome, Config.load, Fails]
  cases htext : l.found.text? with
  | none => by_cases hfile : l.found.isFile = true <;> simp [hfile, eq_comm]
  | some text => simp [isFile_of_text? htext]

theorem config?_eq_some_iff : l.config? = some c ↔ l.Reads c := by
  rw [← outcome_eq_ok_iff, config?]
  split
  · next c' h => simp [h]
  · next h => exact iff_of_false nofun (h c)

theorem warning?_eq_some_iff {w : ConfigWarning} :
    l.warning? = some w ↔ ∃ e, l.Fails e ∧ w = .skipped l.path e := by
  simp only [← outcome_eq_error_iff, warning?]
  split
  · next e h => simp [h, eq_comm]
  · next h => exact iff_of_false nofun fun ⟨e, he, _⟩ => h e he

theorem Fails.not_reads (h : l.Fails e) (c : Config) : ¬ l.Reads c := by
  rw [← outcome_eq_error_iff] at h
  rw [← outcome_eq_ok_iff, h]
  simp

def absent (l : Layer) : Layer := { l with found := .missing }

theorem config?_absent (l : Layer) : l.absent.config? = none := rfl

theorem warning?_absent (l : Layer) : l.absent.warning? = none := rfl

end Layer

inductive Picks (R : α → β → Prop) : List α → List β → Prop
  | nil : Picks R [] []
  | pick {a : α} {b : β} {l : List α} {picked : List β} :
    R a b → Picks R l picked → Picks R (a :: l) (b :: picked)
  | pass {a : α} {l : List α} {picked : List β} :
    (∀ b, ¬ R a b) → Picks R l picked → Picks R (a :: l) picked

theorem picks_filterMap {R : α → β → Prop} {f : α → Option β}
    (h : ∀ a b, f a = some b ↔ R a b) (l : List α) : Picks R l (l.filterMap f) := by
  induction l with
  | nil => exact .nil
  | cons a l ih =>
    cases ha : f a with
    | none =>
      rw [List.filterMap_cons_none ha]
      refine .pass (fun b hb => ?_) ih
      rw [← h, ha] at hb
      cases hb
    | some b =>
      rw [List.filterMap_cons_some ha]
      exact .pick ((h a b).1 ha) ih

section Sections

variable {part? : Config → Option α} {x : α}

def Silent (part? : Config → Option α) (layers : List Layer) : Prop :=
  ∀ l ∈ layers, ∀ c, l.Reads c → part? c = none

/-- The last layer that has the section has this one. -/
inductive Prevails (part? : Config → Option α) : List Layer → α → Prop
  | last {l : Layer} {c : Config} {layers : List Layer} {x : α} :
    l.Reads c → part? c = some x → Silent part? layers → Prevails part? (l :: layers) x
  | later {l : Layer} {layers : List Layer} {x : α} :
    Prevails part? layers x → Prevails part? (l :: layers) x

theorem silent_cons :
    Silent part? (l :: layers) ↔
      (∀ c, l.Reads c → part? c = none) ∧ Silent part? layers :=
  List.forall_mem_cons

theorem prevails_cons :
    Prevails part? (l :: layers) x ↔
      Prevails part? layers x ∨
        (∃ c, l.Reads c ∧ part? c = some x) ∧ Silent part? layers := by
  constructor
  · rintro (⟨hreads, hx, hsilent⟩ | hlater)
    · exact .inr ⟨⟨_, hreads, hx⟩, hsilent⟩
    · exact .inl hlater
  · rintro (hlater | ⟨⟨c, hreads, hx⟩, hsilent⟩)
    · exact .later hlater
    · exact .last hreads hx hsilent

end Sections

def PlainPassword (c : Config) : Prop :=
  ∃ r p, c.redis = some r ∧ r.password = some p ∧ p ≠ "" ∧ ¬ ['$', '\x7b'] <:+: p.toList

theorem plainPassword_iff :
    c.redis.any RedisConfig.hasPlainPassword = true ↔ PlainPassword c := by
  rw [PlainPassword]
  cases c.redis with
  | none => simp
  | some r =>
    cases hp : r.password with
    | none => simp [RedisConfig.hasPlainPassword, hp]
    | some p => simp [RedisConfig.hasPlainPassword, hp, Text.splitMark_eq_none_iff]

namespace LoadedConfig

variable {loaded : LoadedConfig}

def addAll (loaded : LoadedConfig) (layers : List Layer) : LoadedConfig := layers.foldl add loaded

theorem sources_addAll (loaded : LoadedConfig) (layers : List Layer) :
    (loaded.addAll layers).sources =
      loaded.sources ++ layers.map fun l => ⟨l.kind, l.path, l.config?.isSome⟩ := by
  induction layers generalizing loaded with
  | nil => simp [addAll]
  | cons l layers ih =>
    rw [addAll, List.foldl_cons, ← addAll, ih, add, List.map_cons, List.append_assoc,
      List.singleton_append]

theorem warnings_addAll (loaded : LoadedConfig) (layers : List Layer) :
    (loaded.addAll layers).warnings = loaded.warnings ++ layers.filterMap Layer.warning? := by
  induction layers generalizing loaded with
  | nil => simp [addAll]
  | cons l layers ih =>
    rw [addAll, List.foldl_cons, ← addAll, ih, add]
    cases h : l.warning? with
    | none => simp [h]
    | some w => simp [h]

theorem part_add {part? : Config → Option α}
    (hpart : ∀ upper lower : Config,
      part? (upper.onTopOf lower) = (part? upper).or (part? lower)) :
    part? (loaded.add l).config = (l.config?.bind part?).or (part? loaded.config) := by
  rw [add]
  cases l.config? with
  | none => rfl
  | some c => exact hpart c loaded.config

theorem part_addAll {part? : Config → Option α} {x : α}
    (hpart : ∀ upper lower : Config,
      part? (upper.onTopOf lower) = (part? upper).or (part? lower)) :
    part? (loaded.addAll layers).config = some x ↔
      Prevails part? layers x ∨ part? loaded.config = some x ∧ Silent part? layers := by
  -- What has been loaded lies below the layers that are left.
  induction layers generalizing loaded with
  | nil =>
    have hnil : ¬ Prevails part? [] x := nofun
    rw [or_iff_right hnil]
    exact (and_iff_left nofun).symm
  | cons l layers ih =>
    have hsome : l.config?.bind part? = some x ↔ ∃ c, l.Reads c ∧ part? c = some x := by
      simp only [Option.bind_eq_some_iff, Layer.config?_eq_some_iff]
    have hnone : l.config?.bind part? = none ↔ ∀ c, l.Reads c → part? c = none := by
      simp only [Option.bind_eq_none_iff, Layer.config?_eq_some_iff]
    rw [addAll, List.foldl_cons, ← addAll, ih, part_add hpart, Option.or_eq_some_iff, hsome,
      hnone, prevails_cons, silent_cons]
    grind

theorem config_addAll (loaded : LoadedConfig) (layers : List Layer) :
    (loaded.addAll layers).config =
      (layers.filterMap Layer.config?).foldl (fun lower upper => upper.onTopOf lower)
        loaded.config := by
  induction layers generalizing loaded with
  | nil => rfl
  | cons l layers ih =>
    rw [addAll, List.foldl_cons, ← addAll, ih, add]
    cases h : l.config? with
    | none => rw [List.filterMap_cons_none h]; rfl
    | some c => rw [List.filterMap_cons_some h]; rfl

theorem config_checkPassword (loaded : LoadedConfig) :
    loaded.checkPassword.config = loaded.config := by
  rw [checkPassword]
  split <;> rfl

theorem sources_checkPassword (loaded : LoadedConfig) :
    loaded.checkPassword.sources = loaded.sources := by
  rw [checkPassword]
  split <;> rfl

def passwordWarnings (c : Config) : List ConfigWarning :=
  if c.redis.any RedisConfig.hasPlainPassword then [.plainPassword] else []

theorem warnings_checkPassword (loaded : LoadedConfig) :
    loaded.checkPassword.warnings = loaded.warnings ++ passwordWarnings loaded.config := by
  rw [checkPassword, passwordWarnings]
  split <;> simp

theorem config_ofLayers (layers : List Layer) :
    (ofLayers layers).config = Config.merge (layers.filterMap Layer.config?) := by
  rw [ofLayers, config_checkPassword, ← addAll, config_addAll]
  rfl

theorem sources_ofLayers (layers : List Layer) :
    (ofLayers layers).sources = layers.map fun l => ⟨l.kind, l.path, l.config?.isSome⟩ := by
  rw [ofLayers, sources_checkPassword, ← addAll, sources_addAll]
  rfl

theorem warnings_ofLayers (layers : List Layer) :
    (ofLayers layers).warnings =
      layers.filterMap Layer.warning? ++ passwordWarnings (ofLayers layers).config := by
  rw [ofLayers, warnings_checkPassword, config_checkPassword, ← addAll, warnings_addAll]
  rfl

theorem part_ofLayers {part? : Config → Option α} {x : α}
    (hpart : ∀ upper lower : Config,
      part? (upper.onTopOf lower) = (part? upper).or (part? lower))
    (hempty : part? {} = none) :
    (part? (ofLayers layers).config = some x ↔ Prevails part? layers x) := by
  have hstart : ¬ part? ({} : LoadedConfig).config = some x := by
    rw [hempty]
    exact nofun
  rw [ofLayers, config_checkPassword, ← addAll, part_addAll hpart,
    or_iff_left fun h => hstart h.1]

theorem loadedFrom_ofLayers (layers : List Layer) :
    (ofLayers layers).loadedFrom =
      layers.filterMap fun l => l.config?.map fun _ => l.path := by
  rw [loadedFrom, sources_ofLayers]
  induction layers with
  | nil => rfl
  | cons l layers ih => cases h : l.config? <;> simp_all

structure Exact (layers : List Layer) (loaded : LoadedConfig) : Prop where
  redis : ∀ c, loaded.config.redis = some c ↔ Prevails Config.redis layers c
  localCache : ∀ c, loaded.config.localCache = some c ↔ Prevails Config.localCache layers c
  session : ∀ c, loaded.config.session = some c ↔ Prevails Config.session layers c
  loadedFrom : Picks (fun l path => (∃ c, l.Reads c) ∧ path = l.path) layers loaded.loadedFrom
  warnings : ∃ skipped,
    Picks (fun l w => ∃ e, l.Fails e ∧ w = .skipped l.path e) layers skipped ∧
    (PlainPassword loaded.config → loaded.warnings = skipped ++ [.plainPassword]) ∧
    (¬ PlainPassword loaded.config → loaded.warnings = skipped)

theorem exact_ofLayers (layers : List Layer) : Exact layers (ofLayers layers) where
  redis _ := part_ofLayers (fun _ _ => rfl) rfl
  localCache _ := part_ofLayers (fun _ _ => rfl) rfl
  session _ := part_ofLayers (fun _ _ => rfl) rfl
  loadedFrom := by
    rw [loadedFrom_ofLayers]
    refine picks_filterMap (fun l path => ?_) layers
    rw [Option.map_eq_some_iff, eq_comm (a := path), ← exists_and_right]
    simp only [Layer.config?_eq_some_iff]
  warnings := by
    refine ⟨layers.filterMap Layer.warning?,
      picks_filterMap (fun l w => Layer.warning?_eq_some_iff) layers, fun h => ?_, fun h => ?_⟩
    · rw [warnings_ofLayers, passwordWarnings, if_pos (plainPassword_iff.2 h)]
    · rw [warnings_ofLayers, passwordWarnings, if_neg (h ∘ plainPassword_iff.1), List.append_nil]

/-- A layer that fails counts for no more than one that is not there, but for its warning. -/
theorem layers_are_loaded_one_by_one (layers : List Layer) :
    Exact layers (ofLayers layers) ∧
      ∀ before l after e, layers = before ++ l :: after → l.Fails e →
        (ofLayers (before ++ l.absent :: after)).config = (ofLayers layers).config ∧
        (ofLayers (before ++ l.absent :: after)).sources = (ofLayers layers).sources ∧
        ∃ ws ws', (ofLayers layers).warnings = ws ++ .skipped l.path e :: ws' ∧
          (ofLayers (before ++ l.absent :: after)).warnings = ws ++ ws' := by
  refine ⟨exact_ofLayers layers, ?_⟩
  rintro before l after e rfl hfails
  have hconfig : l.config? = none :=
    Option.eq_none_iff_forall_ne_some.2 fun c hc =>
      hfails.not_reads c (Layer.config?_eq_some_iff.1 hc)
  have hwarning : l.warning? = some (.skipped l.path e) :=
    Layer.warning?_eq_some_iff.2 ⟨e, hfails, rfl⟩
  have hloaded : (ofLayers (before ++ l.absent :: after)).config =
      (ofLayers (before ++ l :: after)).config := by
    rw [config_ofLayers, config_ofLayers, List.filterMap_append, List.filterMap_append,
      List.filterMap_cons_none hconfig, List.filterMap_cons_none l.config?_absent]
  refine ⟨hloaded, ?_, before.filterMap Layer.warning?,
    after.filterMap Layer.warning? ++ passwordWarnings (ofLayers (before ++ l :: after)).config,
    ?_, ?_⟩
  · rw [sources_ofLayers, sources_ofLayers, List.map_append, List.map_append, List.map_cons,
      List.map_cons, hconfig, l.config?_absent]
    rfl
  · rw [warnings_ofLayers, List.filterMap_append, List.filterMap_cons_some hwarning,
      List.append_assoc, List.cons_append]
  · rw [warnings_ofLayers, hloaded, List.filterMap_append,
      List.filterMap_cons_none l.warning?_absent, List.append_assoc]

def userText : String := "[redis]\npassword = \"x\"\n[session]\ntimeout_secs = 60"

def projectText : String := "[session\ntimeout_secs = 9"

def userConfig : Config where
  redis := some { password := some "x" }
  session := some { timeout := 60 }

def userLayer : Layer := ⟨.user, "user.toml", .file (Octets.ofText userText)⟩

def projectLayer : Layer := ⟨.project, "project.toml", .file (Octets.ofText projectText)⟩

theorem broken_project_is_skipped :
    projectLayer.Fails .malformed ∧
      (ofLayers [userLayer, projectLayer]).config.redis = userConfig.redis ∧
      (ofLayers [userLayer, projectLayer.absent]).config =
        (ofLayers [userLayer, projectLayer]).config := by
  have huser : (Toml.ofText? userText).bind Config.ofEntries? = some userConfig := by
    decide +kernel
  have hproject : (Toml.ofText? projectText).bind Config.ofEntries? = none := by decide +kernel
  have hreads : userLayer.Reads userConfig :=
    ⟨userText, Octets.text?_ofText userText, by rw [Config.ofText, huser]⟩
  have hfails : projectLayer.Fails .malformed :=
    ⟨rfl, .inr ⟨projectText, Octets.text?_ofText projectText,
      by rw [Config.ofText, hproject]⟩⟩
  have hsilent : Silent Config.redis [projectLayer] :=
    silent_cons.2 ⟨fun c hc => absurd hc (hfails.not_reads c), nofun⟩
  obtain ⟨hexact, habsent⟩ := layers_are_loaded_one_by_one [userLayer, projectLayer]
  exact ⟨hfails, (hexact.redis _).2 (.last hreads rfl hsilent),
    (habsent [userLayer] projectLayer [] .malformed rfl hfails).1⟩

end LoadedConfig

end SessionVault
