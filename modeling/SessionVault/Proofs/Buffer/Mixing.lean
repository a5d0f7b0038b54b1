import SessionVault.Proofs.Buffer.Resync
import SessionVault.Proofs.Pool

namespace SessionVault.Buffer.Node

variable {key : String} {s : Sight}

def forward (key : String) (value : Octets) : Service (Except StoreError Unit) := do
  match ← remote (.set key value) with
  | .ok _ => return .ok ()
  | .error _ =>
    degrade
    return .ok ()

def missed : Service (Except StoreError Unit) := do
  degrade
  return .ok ()

/-- How far a write has come.  Until the remote store has answered, its value is held here. -/
inductive Writing (key : String) (value : Octets) (held : Option Octets) :
    Service (Except StoreError Unit) → Prop where
  | waiting : Writing key value held (set key value)
  | holding : held = some value → Writing key value held (forward key value)
  | missed : Writing key value held missed
  | ended : Writing key value held (.done (.ok ()))

def Underway (write : String × Octets) (rest : Service (Except StoreError Unit)) : Prop :=
  rest ≠ set write.1 write.2 ∧ ∀ r, rest ≠ .done r

abbrev Mix (ι : Type) : Type :=
  Pool Act.Answer (Pool.Results ι Nat (Except StoreError Unit)) Node

variable {ι : Type} {writes : ι → String × Octets}

def Apart (writes : ι → String × Octets) (p : Mix ι) : Prop :=
  ∀ i j, i ≠ j → (writes i).1 = (writes j).1 →
    Underway (writes i) (p.parts (some i)) → ¬ Underway (writes j) (p.parts (some j))

abbrev Mixes (writes : ι → String × Octets) : Mix ι → Mix ι → Prop :=
  Relation.ReflTransGen fun p p' => Pool.Turn Acts p p' ∧ Apart writes p'

/-- The value of a write of this key is held here, and the remote store may yet get it. -/
def Pending (writes : ι → String × Octets) (key : String) (p : Mix ι) : Prop :=
  ∃ i, (writes i).1 = key ∧
    (p.parts (some i) = forward (writes i).1 (writes i).2 ∨ p.parts (some i) = missed)

structure Settling (writes : ι → String × Octets) (p : Mix ι) : Prop where
  spares : (p.parts none).Asks (·.sparesValues)
  keeps (key : String) : (p.parts none).Always (KeepsSettled key fun _ => True)
  writing (i : ι) : Writing (writes i).1 (writes i).2 (p.shared.buffer.value? (writes i).1)
    (p.parts (some i))
  settles (key : String) :
    (p.parts none).Ensures (Seen key) (fun _ s => s.Settled) (p.shared.sight key) ∨
      Pending writes key p

variable {p p' : Mix ι}

theorem settling_beside {order : Names → List String}
    (horder : ∀ names : Names, ∀ name ∈ names.names, name ∈ order names) (ttl : Duration)
    (writes : ι → String × Octets) (n : Node) :
    Settling writes
      (.beside n (resyncIn order ttl) fun i => set (writes i).1 (writes i).2) where
  spares := asks_resyncIn order ttl
  keeps key := always_keepsSettled_resyncIn horder key ttl
  writing _ := .waiting
  settles _ := .inl (ensures_seen_resyncIn horder)

theorem Writing.of_value {value : Octets} {held held' : Option Octets}
    {rest : Service (Except StoreError Unit)} (h : Writing key value held rest)
    (hheld : held' = held) : Writing key value held' rest := hheld ▸ h

theorem Settling.of_settled (h : Settling writes p) (hs : s.Settled) :
    (p.parts none).Ensures (Seen key) (fun _ s => s.Settled) s :=
  ((h.keeps key).holds s hs).mono fun _ _ h => h trivial

theorem Acts.value? {n n' : Node} {r : Act} {x : r.Answer} (h : Acts r n x n')
    (hr : r.sparesValues = true) (key : String) : n'.buffer.value? key = n.buffer.value? key := by
  cases r with
  | here s =>
    obtain ⟨now, hstep⟩ := h.1
    exact value?_step hr hstep key
  | remote c => rw [h.2]
  | start job => rw [h]

theorem underway_forward (key : String) (value : Octets) :
    Underway (key, value) (forward key value) := ⟨nofun, nofun⟩

theorem Writing.of_not_underway {value : Octets} {held held' : Option Octets}
    {rest : Service (Except StoreError Unit)} (h : Writing key value held rest)
    (hrest : ¬ Underway (key, value) rest) : Writing key value held' rest := by
  cases h with
  | waiting => exact .waiting
  | holding => exact absurd (underway_forward key value) hrest
  | missed => exact absurd ⟨nofun, nofun⟩ hrest
  | ended => exact .ended

theorem Settling.resync {r : Act} {x : r.Answer} (h : Settling writes p)
    (hstep : Pool.Step Acts none r x p p') : Settling writes p' := by
  obtain ⟨next, hpart, hnext⟩ := hstep.part
  have hspares := h.spares
  have hkeeps := h.keeps
  have hsettles := h.settles
  rw [hpart] at hspares
  simp only [hpart] at hkeeps hsettles
  have hwait (i : ι) : p'.parts (some i) = p.parts (some i) :=
    hstep.others (some i) (Option.some_ne_none i)
  refine ⟨?_, ?_, ?_, ?_⟩
  · rw [hnext]
    exact hspares.2 x
  · intro key
    rw [hnext]
    exact (hkeeps key).2 x
  · intro i
    rw [hwait]
    exact (h.writing i).of_value (hstep.shared.value? hspares.1 _)
  · intro key
    simp only [Pending, hwait, hnext]
    refine (hsettles key).imp_left fun hens => ?_
    exact hens x _ ⟨_, _, rfl, rfl, hstep.shared⟩

theorem Settling.advance {i : ι} (h : Settling writes p)
    (hwait : ∀ j, j ≠ some i → p'.parts j = p.parts j)
    (hself : Writing (writes i).1 (writes i).2 (p'.shared.buffer.value? (writes i).1)
      (p'.parts (some i)))
    (hothers : ∀ j, j ≠ i → Writing (writes j).1 (writes j).2
      (p'.shared.buffer.value? (writes j).1) (p.parts (some j)))
    (hown : (p'.shared.sight (writes i).1).Settled ∨ Pending writes (writes i).1 p')
    (hrest : ∀ key, key ≠ (writes i).1 →
      (p'.shared.sight key).Settled ∨ p'.shared.sight key = p.shared.sight key) :
    Settling writes p' := by
  have hresync : p'.parts none = p.parts none := hwait none (Option.some_ne_none i).symm
  refine ⟨?_, ?_, ?_, ?_⟩
  · rw [hresync]
    exact h.spares
  · rw [hresync]
    exact h.keeps
  · intro j
    by_cases hj : j = i
    · exact hj ▸ hself
    · rw [hwait (some j) fun he => hj (Option.some.inj he)]
      exact hothers j hj
  · intro key
    rw [hresync]
    by_cases hk : key = (writes i).1
    · subst hk
      exact hown.imp_left h.of_settled
    · cases hrest key hk with
      | inl hs => exact .inl (h.of_settled hs)
      | inr hsame =>
        rw [hsame]
        refine (h.settles key).imp_right fun ⟨j, hkey, hpart⟩ => ⟨j, hkey, ?_⟩
        have hj : some j ≠ some i := fun he => hk (Option.some.inj he ▸ hkey.symm)
        rw [hwait _ hj]
        exact hpart

theorem Settling.put {i : ι} {now : Moment} (h : Settling writes p) (hapart : Apart writes p')
    (hwait : ∀ j, j ≠ some i → p'.parts j = p.parts j)
    (hnext : p'.parts (some i) = forward (writes i).1 (writes i).2)
    (hshared : p'.shared =
      ⟨p.shared.buffer.put now (writes i).1 (writes i).2, p.shared.store⟩) :
    Settling writes p' := by
  have hvalue (key : String) : p'.shared.buffer.value? key =
      if (writes i).1 = key then some (writes i).2 else p.shared.buffer.value? key := by
    rw [hshared]
    exact value?_put ..
  apply h.advance hwait
  · rw [hnext, hvalue, if_pos rfl]
    exact .holding rfl
  · intro j hj
    by_cases hk : (writes i).1 = (writes j).1
    · apply (h.writing j).of_not_underway
      have hsecond := hapart i j (Ne.symm hj) hk (hnext ▸ underway_forward _ _)
      rw [hwait (some j) fun he => hj (Option.some.inj he)] at hsecond
      exact hsecond
    · rw [hvalue, if_neg hk]
      exact h.writing j
  · exact .inr ⟨i, rfl, .inl hnext⟩
  · intro key hk
    refine .inr ?_
    rw [sight, hvalue, if_neg (Ne.symm hk), hshared]
    rfl

theorem Settling.stored {i : ι} (h : Settling writes p)
    (hheld : p.shared.buffer.value? (writes i).1 = some (writes i).2)
    (hwait : ∀ j, j ≠ some i → p'.parts j = p.parts j)
    (hnext : p'.parts (some i) = .done (.ok ()))
    (hshared : p'.shared =
      ⟨p.shared.buffer, p.shared.store.insert (writes i).1 (writes i).2⟩) :
    Settling writes p' := by
  apply h.advance hwait
  · exact hnext ▸ .ended
  · intro j _
    rw [hshared]
    exact h.writing j
  · refine .inl (.inr fun value hv => ?_)
    rw [hshared, sight_insert] at hv ⊢
    rw [← hv, if_pos rfl]
    exact hheld.symm
  · intro key hk
    refine .inr ?_
    rw [hshared, sight_insert, if_neg (Ne.symm hk)]

theorem Settling.failed {i : ι} (h : Settling writes p)
    (hwait : ∀ j, j ≠ some i → p'.parts j = p.parts j)
    (hnext : p'.parts (some i) = missed) (hshared : p'.shared = p.shared) :
    Settling writes p' := by
  apply h.advance hwait
  · exact hnext ▸ .missed
  · intro j _
    rw [hshared]
    exact h.writing j
  · exact .inr ⟨i, rfl, .inr hnext⟩
  · exact fun key _ => .inr (by rw [hshared])

theorem Settling.raised {i : ι} (h : Settling writes p)
    (hwait : ∀ j, j ≠ some i → p'.parts j = p.parts j)
    (hnext : p'.parts (some i) = .done (.ok ()))
    (hshared : p'.shared = ⟨{ p.shared.buffer with needsResync := true }, p.shared.store⟩) :
    Settling writes p' := by
  have hsettled (key : String) : (p'.shared.sight key).Settled := .inl (by rw [hshared]; rfl)
  apply h.advance hwait
  · exact hnext ▸ .ended
  · intro j _
    rw [hshared]
    exact h.writing j
  · exact .inl (hsettled _)
  · exact fun key _ => .inl (hsettled key)

theorem Settling.write {i : ι} {r : Act} {x : r.Answer} (h : Settling writes p)
    (hapart : Apart writes p') (hstep : Pool.Step Acts (some i) r x p p') : Settling writes p' := by
  obtain ⟨⟨next, hpart, hnext⟩, hx, hwait⟩ := hstep
  obtain ⟨⟨b, t⟩, parts⟩ := p'
  have hwriting := h.writing i
  rw [hpart] at hwriting
  generalize hrest : Script.ask r next = rest at hwriting
  cases hwriting with
  | waiting =>
    cases hrest
    obtain ⟨⟨now, hput⟩, hstore⟩ := hx
    cases hput
    cases hstore
    exact h.put hapart hwait hnext rfl
  | holding hheld =>
    cases hrest
    obtain ⟨hserves, hbuffer⟩ := hx
    cases hbuffer
    cases hserves with
    | answered => exact h.stored hheld hwait hnext rfl
    | failed e => exact h.failed hwait hnext rfl
  | missed =>
    cases hrest
    obtain ⟨⟨now, hraise⟩, hstore⟩ := hx
    cases hraise
    cases hstore
    exact h.raised hwait hnext rfl
  | ended => cases hrest

theorem Mixes.settling (h : Mixes writes p p') (hp : Settling writes p) : Settling writes p' := by
  induction h with
  | refl => exact hp
  | tail _ hturn ih =>
    obtain ⟨⟨i, r, x, hstep⟩, hapart⟩ := hturn
    cases i with
    | none => exact ih.resync hstep
    | some i => exact ih.write hapart hstep

/-- Once a resync and the writes beside it have all ended, the remote store has what is held here,
or the flag is raised. -/
theorem resync_leaves_no_older_value {order : Names → List String} {ttl : Duration} {n : Node}
    (horder : ∀ names : Names, ∀ name ∈ names.names, name ∈ order names)
    (h : Mixes writes (.beside n (resyncIn order ttl) fun i => set (writes i).1 (writes i).2) p)
    (hended : ∀ i, ∃ r, p.parts i = .done r) :
    p.shared.buffer.needsResync = true ∨
      ∀ key value, p.shared.buffer.value? key = some value →
        p.shared.store.get? key = some value := by
  have hsettling := Mixes.settling h (settling_beside horder ttl writes n)
  obtain ⟨count, hresync⟩ := hended none
  have hsettled : ∀ key, (p.shared.sight key).Settled := by
    intro key
    cases hsettling.settles key with
    | inl hs =>
      rw [hresync] at hs
      exact hs
    | inr hpending =>
      obtain ⟨i, -, hpart⟩ := hpending
      obtain ⟨r, hwrite⟩ := hended (some i)
      rw [hwrite] at hpart
      cases hpart <;> contradiction
  by_cases hflag : p.shared.buffer.needsResync = true
  · exact .inl hflag
  · exact .inr fun key => (hsettled key).resolve_left hflag

theorem Mixes.ask_resync {n n' : Node} {r : Act} {x : r.Answer} {next : r.Answer → Service Nat}
    {write : Unit → Service (Except StoreError Unit)} {only : Unit → String × Octets} {p : Mix Unit}
    (hx : Acts r n x n') (h : Mixes only (.beside n' (next x) write) p) :
    Mixes only (.beside n (.ask r next) write) p :=
  .head ⟨⟨none, r, x, Pool.step_one hx⟩, fun _ _ hij => absurd rfl hij⟩ h

theorem Mixes.ask_write {n n' : Node} {r : Act} {x : r.Answer} {resync : Service Nat}
    {next : r.Answer → Service (Except StoreError Unit)} {only : Unit → String × Octets}
    {p : Mix Unit} (hx : Acts r n x n') (h : Mixes only (.beside n' resync fun _ => next x) p) :
    Mixes only (.beside n resync fun _ => .ask r next) p :=
  .head ⟨⟨some (), r, x, Pool.step_other hx⟩, fun _ _ hij => absurd rfl hij⟩ h

theorem overtaken_resync_writes_again :
    ∃ p, Mixes (fun _ : Unit => ("a", [2]))
        (.beside ⟨(Buffer.new { ttl := .ofSeconds 60 } 0).put 1 "a" [1], .empty⟩
          (resyncIn Table.names (.ofSeconds 60)) fun _ => set "a" [2]) p ∧
      (∀ i, ∃ r, p.parts i = .done r) ∧ p.shared.buffer.value? "a" = some [2] ∧
      (p.shared.buffer.needsResync = true ∨
        ∀ key value, p.shared.buffer.value? key = some value →
          p.shared.store.get? key = some value) := by
  let old : Node := ⟨(Buffer.new { ttl := .ofSeconds 60 } 0).put 1 "a" [1], .empty⟩
  let held : Node := ⟨old.buffer.put 5 "a" [2], .empty⟩
  let newer : Node := ⟨held.buffer, .insert .empty "a" [2]⟩
  let older : Node := ⟨held.buffer, .insert .empty "a" [1]⟩
  have hlower : Acts (.here (.flag false)) old () old := ⟨⟨2, rfl⟩, rfl⟩
  have hnames : Acts (.here .names) old (.insert .empty "a" ()) old := ⟨⟨3, rfl⟩, rfl⟩
  have hlook : Acts (.here (.value "a")) old (some [1]) old := ⟨⟨4, rfl⟩, rfl⟩
  have hput : Acts (.here (.put "a" [2])) old () held := ⟨⟨5, rfl⟩, rfl⟩
  have hset : Acts (.remote (.set "a" [2])) held (.ok ()) newer := ⟨.answered, rfl⟩
  have hlate : Acts (.remote (.set "a" [1])) newer (.ok ()) older := ⟨.answered, rfl⟩
  have hrenew : Acts (.remote (.expire "a" 60)) older (.ok true) older := ⟨.answered, rfl⟩
  have hmoved : Acts (.here (.value "a")) older (some [2]) older := ⟨⟨6, rfl⟩, rfl⟩
  have hagain : Acts (.remote (.set "a" [2])) older (.ok ()) newer := ⟨.answered, rfl⟩
  have hkept : Acts (.remote (.expire "a" 60)) newer (.ok true) newer := ⟨.answered, rfl⟩
  have hsame : Acts (.here (.value "a")) newer (some [2]) newer := ⟨⟨7, rfl⟩, rfl⟩
  let mended : Mix Unit := .beside newer (.done 1) fun _ => .done (.ok ())
  have h : Mixes (fun _ : Unit => ("a", [2]))
      (.beside old (resyncIn Table.names (.ofSeconds 60)) fun _ => set "a" [2]) mended :=
    .ask_resync hlower <| .ask_resync hnames <| .ask_resync hlook <| .ask_write hput <|
      .ask_write hset <| .ask_resync hlate <| .ask_resync hrenew <| .ask_resync hmoved <|
      .ask_resync hagain <| .ask_resync hkept <| .ask_resync hsame .refl
  have hended : ∀ i, ∃ r, mended.parts i = .done r := by
    intro i
    cases i with
    | none => exact ⟨1, rfl⟩
    | some i => exact ⟨.ok (), rfl⟩
  exact ⟨mended, h, hended, rfl, resync_leaves_no_older_value (fun _ _ hname => hname) h hended⟩

end SessionVault.Buffer.Node
