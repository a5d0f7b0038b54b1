import SessionVault.Proofs.Buffer.Coverage
import SessionVault.Proofs.Buffer.Requests

/-!
A resync key by key.  As long as nobody else writes a key, what is left of a resync settles it; and
a key that somebody else has settled meanwhile, it keeps settled.
-/

namespace SessionVault.Buffer

def Act.sparesValues : Act → Bool
  | .here (.put _ _) | .here (.drop _) | .here .evict => false
  | _ => true

def Act.onlyLooks : Act → Bool
  | .here (.value _) | .here .names | .remote (.expire _ _) => true
  | _ => false

theorem value?_step {s : Step} {now : Moment} {b b' : Buffer} {x : s.Answer}
    (hs : (Act.here s).sparesValues = true) (h : step now s b = (some x, b')) (key : String) :
    b'.value? key = b.value? key := by
  cases s with
  | put | drop | evict => cases hs
  | touch other =>
    cases h
    exact value?_touch b now other key
  | value | contains | matching | names | flag | schedule =>
    cases h
    rfl

theorem Act.sparesValues_of_repairs {r : Act} {key : String} (h : r.repairs key = true) :
    r.sparesValues = true := by
  match r with
  | .here (.put _ _) | .here (.drop _) | .here .evict => cases h
  | .here (.touch _) | .here (.value _) | .here (.contains _) | .here (.matching _) | .here .names
  | .here (.flag _) | .here .schedule | .remote _ | .start _ => rfl

theorem asks_repairAll {ok : Act → Prop} (hok : ∀ key r, r.repairs key = true → ok r)
    (ttl : UInt64) (keys : List String) (written : Nat) :
    (repairAll ttl written keys).Asks ok := by
  induction keys generalizing written with
  | nil => trivial
  | cons key rest ih =>
    refine ((asks_repairKey key ttl).mono (hok key)).bind fun r => ?_
    cases r with
    | error e => exact ⟨hok key _ rfl, fun _ => trivial⟩
    | ok held => cases held <;> exact ih _

theorem asks_resyncIn (order : Names → List String) (ttl : Duration) :
    (resyncIn order ttl).Asks (·.sparesValues) :=
  ⟨rfl, fun _ => ⟨rfl, fun names =>
    asks_repairAll (fun _ _ => Act.sparesValues_of_repairs) ttl.seconds (order names) 0⟩⟩

structure Sight where
  raised : Bool
  here : Option Octets
  there : Option Octets

/-- The remote store has the value held here, or the flag says that it may lack it. -/
def Sight.Settled (s : Sight) : Prop :=
  s.raised = true ∨ ∀ value, s.here = some value → s.there = some value

namespace Node

def sight (key : String) (n : Node) : Sight :=
  ⟨n.buffer.needsResync, n.buffer.value? key, n.store.get? key⟩

abbrev Seen (key : String) : Script.Rules Act.Answer Sight := Script.Rules.through (sight key) Acts

variable {α : Type} {post : α → Sight → Prop} {key k : String} {s : Sight} {ttl : UInt64}

theorem sight_insert (n : Node) (key k : String) (value : Octets) :
    sight key ⟨n.buffer, n.store.insert k value⟩ =
      ⟨(n.sight key).raised, (n.sight key).here,
        if k = key then some value else (n.sight key).there⟩ := by
  simp only [sight, Table.get?_insert]

theorem ensures_seen_flag {raised : Bool} {f : Unit → Service α}
    (h : (f ()).Ensures (Seen key) post { s with raised := raised }) :
    ((here (.flag raised)).bind f).Ensures (Seen key) post s := by
  rintro x s' ⟨n, ⟨b, t⟩, rfl, rfl, ⟨now, hstep⟩, hstore⟩
  cases hstep
  cases hstore
  exact h

theorem ensures_seen_names {f : Names → Service α}
    (h : ∀ names : Names, names.contains key = s.here.isSome →
      (f names).Ensures (Seen key) post s) :
    ((here .names).bind f).Ensures (Seen key) post s := by
  rintro x s' ⟨n, ⟨b, t⟩, rfl, rfl, ⟨now, hstep⟩, hstore⟩
  cases hstep
  cases hstore
  refine h _ ?_
  rw [Table.contains_map, Table.contains, sight, Buffer.value?, Option.isSome_map]

theorem ensures_seen_value {f : Option Octets → Service α}
    (h : ∀ x, (k = key → x = s.here) → (f x).Ensures (Seen key) post s) :
    ((here (.value k)).bind f).Ensures (Seen key) post s := by
  rintro x s' ⟨n, ⟨b, t⟩, rfl, rfl, ⟨now, hstep⟩, hstore⟩
  cases hstep
  cases hstore
  exact h _ fun hk => hk ▸ rfl

theorem ensures_seen_set {value : Octets} {f : Except StoreError Unit → Service α}
    (hok : (f (.ok ())).Ensures (Seen key) post
      { s with there := if k = key then some value else s.there })
    (herror : ∀ e, (f (.error e)).Ensures (Seen key) post s) :
    ((remote (.set k value)).bind f).Ensures (Seen key) post s := by
  rintro x s' ⟨n, ⟨b, t⟩, rfl, rfl, hserves, hbuffer⟩
  cases hbuffer
  cases hserves with
  | answered =>
    rw [← sight_insert] at hok
    exact hok
  | failed e => exact herror e

theorem sight_of_onlyLooks {r : Act} {x : r.Answer} {s' : Sight} (hr : r.onlyLooks = true)
    (h : Seen key r s x s') : s' = s := by
  obtain ⟨n, ⟨b, t⟩, rfl, rfl, hacts⟩ := h
  match r, hr with
  | .here (.value _), _ | .here .names, _ =>
    obtain ⟨⟨now, hstep⟩, hstore⟩ := hacts
    cases hstep
    cases hstore
    rfl
  | .remote (.expire _ _), _ =>
    obtain ⟨hserves, hbuffer⟩ := hacts
    cases hbuffer
    cases hserves <;> rfl

theorem ensures_seen_expire {seconds : UInt64} {f : Except StoreError Bool → Service α}
    (h : ∀ x, (f x).Ensures (Seen key) post s) :
    ((remote (.expire k seconds)).bind f).Ensures (Seen key) post s := by
  intro x s' hx
  rw [sight_of_onlyLooks rfl hx]
  exact h x

theorem ensures_seen_repair {Q : Sight → Prop} (hQ : ∀ s, s.Settled → Q s) (passes : Nat)
    (value : Octets) (hs : k ≠ key → Q s) :
    (repair k ttl passes value).Ensures (Seen key) (fun r s' => r = .ok () → Q s') s := by
  induction passes generalizing value s with
  | zero => exact ensures_seen_flag fun _ => hQ _ (.inl rfl)
  | succ passes ih =>
    apply ensures_seen_set
    · generalize hw : ({ s with there := if k = key then some value else s.there } : Sight) = w
      have hother : k ≠ key → Q w := by
        intro hk
        rw [if_neg hk] at hw
        exact hw ▸ hs hk
      have hread : ∀ x, (k = key → x = w.here) → (∀ v, x = some v → v = value) → Q w := by
        intro x hx hv
        by_cases hk : k = key
        · refine hQ w (.inr fun v hhere => ?_)
          rw [hv v ((hx hk).trans hhere), ← hw, if_pos hk]
        · exact hother hk
      apply ensures_seen_expire
      intro x
      cases x with
      | error e => exact nofun
      | ok found =>
        apply ensures_seen_value
        intro x hx
        cases x with
        | none => exact fun _ => hread none hx nofun
        | some current =>
          dsimp only
          split
          · next hc => exact fun _ => hread _ hx fun v hv => (Option.some.inj hv).symm.trans hc
          · exact ih current hother
    · exact fun e => nofun

theorem ensures_seen_repairKey {Q : Sight → Prop} (hQ : ∀ s, s.Settled → Q s)
    (hs : k ≠ key → Q s) :
    (repairKey k ttl).Ensures (Seen key) (fun r s' => ∀ held, r = .ok held → Q s') s := by
  apply ensures_seen_value
  intro x hx
  cases x with
  | none =>
    intro _ _
    by_cases hk : k = key
    · exact hQ s (.inr fun value hv => nomatch (hx hk).trans hv)
    · exact hs hk
  | some value =>
    refine Script.ensures_bind.2 ((ensures_seen_repair hQ resyncPasses value hs).mono ?_)
    intro r s' hr
    cases r with
    | error e => exact fun _ => nofun
    | ok => exact fun _ _ => hr rfl

theorem ensures_seen_repairAll {keys : List String} (written : Nat)
    (hs : key ∉ keys → s.Settled) :
    (repairAll ttl written keys).Ensures (Seen key) (fun _ s' => s'.Settled) s := by
  induction keys generalizing s written with
  | nil => exact hs List.not_mem_nil
  | cons k rest ih =>
    have hrepair : (repairKey k ttl).Ensures (Seen key)
        (fun r s' => ∀ held, r = .ok held → key ∉ rest → s'.Settled) s := by
      apply ensures_seen_repairKey
      · exact fun s' h _ => h
      · exact fun hk hrest => hs fun hmem => (List.mem_cons.1 hmem).elim (Ne.symm hk) hrest
    refine Script.ensures_bind.2 (hrepair.mono ?_)
    intro r s' hr
    cases r with
    | error e => exact ensures_seen_flag (.inl rfl)
    | ok held => cases held <;> exact ih _ (hr _ rfl)

theorem ensures_seen_resyncIn {order : Names → List String} {ttl : Duration}
    (horder : ∀ names : Names, ∀ name ∈ names.names, name ∈ order names) :
    (resyncIn order ttl).Ensures (Seen key) (fun _ s' => s'.Settled) s := by
  apply ensures_seen_flag
  apply ensures_seen_names
  intro names hnames
  apply ensures_seen_repairAll
  intro hkey
  refine .inr fun value hv => ?_
  rw [show ({ s with raised := false } : Sight).here = s.here from rfl] at hnames hv
  refine absurd (horder names key ((Table.mem_names_iff names key).2 ?_)) hkey
  rw [hnames, hv]
  rfl

/-- A script that leaves a settled key settled, at least if it ends well. -/
abbrev KeepsSettled (key : String) (well : α → Prop) (p : Service α) : Prop :=
  ∀ s : Sight, s.Settled → p.Ensures (Seen key) (fun a s' => well a → s'.Settled) s

variable {well : α → Prop}

theorem keepsSettled_done (a : α) : KeepsSettled key well (.done a) := fun _ hs _ => hs

theorem always_keepsSettled_ask {r : Act} {next : r.Answer → Service α}
    (hr : ∀ s x s', Seen key r s x s' → s.Settled → s'.Settled)
    (h : ∀ x, (next x).Always (KeepsSettled key well)) :
    Script.Always (KeepsSettled key well) (.ask r next) :=
  ⟨fun s hs x s' hx => (h x).holds s' (hr s x s' hx hs), h⟩

theorem settled_raise {x : Unit} {s s' : Sight} (h : Seen key (.here (.flag true)) s x s') :
    s'.Settled := by
  obtain ⟨n, ⟨b, t⟩, rfl, rfl, ⟨now, hstep⟩, hstore⟩ := h
  cases hstep
  exact .inl rfl

theorem always_keepsSettled_repair (key k : String) (ttl : UInt64) (passes : Nat)
    (value : Octets) : (repair k ttl passes value).Always (KeepsSettled key (· = .ok ())) := by
  induction passes generalizing value with
  | zero =>
    refine always_keepsSettled_ask (fun _ _ _ h _ => settled_raise h) fun _ => ?_
    exact keepsSettled_done _
  | succ passes ih =>
    -- An old value may reach the remote store here, but not without being looked at again.
    refine ⟨fun s hs => ensures_seen_repair (fun _ => id) (passes + 1) value fun _ => hs, ?_⟩
    intro x
    cases x with
    | error e => exact keepsSettled_done _
    | ok =>
      refine always_keepsSettled_ask (fun _ _ _ h hs => sight_of_onlyLooks rfl h ▸ hs) fun x => ?_
      cases x with
      | error e => exact keepsSettled_done _
      | ok found =>
        refine always_keepsSettled_ask (fun _ _ _ h hs => sight_of_onlyLooks rfl h ▸ hs) fun x => ?_
        cases x with
        | none => exact keepsSettled_done _
        | some current =>
          simp only [Script.done_bind]
          split
          · exact keepsSettled_done _
          · exact ih current

theorem always_keepsSettled_repairKey (key k : String) (ttl : UInt64) :
    (repairKey k ttl).Always (KeepsSettled key fun r => ∃ held, r = .ok held) := by
  refine always_keepsSettled_ask (fun _ _ _ h hs => sight_of_onlyLooks rfl h ▸ hs) fun x => ?_
  cases x with
  | none => exact keepsSettled_done _
  | some value =>
    refine (always_keepsSettled_repair key k ttl resyncPasses value).bind ?_ ?_
    · intro r
      cases r <;> exact keepsSettled_done _
    · intro _ q hq s hs
      refine Script.ensures_bind.2 ((hq s hs).mono ?_)
      intro r s' hr
      cases r with
      | error e => exact fun ⟨_, h⟩ => nomatch h
      | ok => exact fun _ => hr rfl

theorem always_keepsSettled_repairAll (key : String) (ttl : UInt64) (keys : List String)
    (written : Nat) :
    (repairAll ttl written keys).Always (KeepsSettled key fun _ => True) := by
  induction keys generalizing written with
  | nil => exact keepsSettled_done _
  | cons k rest ih =>
    refine (always_keepsSettled_repairKey key k ttl).bind ?_ ?_
    · intro r
      cases r with
      | ok held => cases held <;> exact ih _
      | error e =>
        refine always_keepsSettled_ask (fun _ _ _ h _ => settled_raise h) fun _ => ?_
        exact keepsSettled_done _
    · intro hrest q hq s hs
      refine Script.ensures_bind.2 ((hq s hs).mono ?_)
      intro r s' hr
      cases r with
      | ok held => exact hrest (.ok held) s' (hr ⟨held, rfl⟩)
      | error e => exact ensures_seen_flag fun _ => .inl rfl

theorem always_keepsSettled_resyncIn {order : Names → List String}
    (horder : ∀ names : Names, ∀ name ∈ names.names, name ∈ order names) (key : String)
    (ttl : Duration) :
    (resyncIn order ttl).Always (KeepsSettled key fun _ => True) := by
  refine ⟨fun s _ => (ensures_seen_resyncIn horder).mono fun _ _ h _ => h, fun _ => ?_⟩
  refine always_keepsSettled_ask (fun _ _ _ h hs => sight_of_onlyLooks rfl h ▸ hs) fun names => ?_
  exact always_keepsSettled_repairAll key ttl.seconds (order names) 0

end Node

end SessionVault.Buffer
