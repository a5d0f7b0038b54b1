import SessionVault.Proofs.Script
import SessionVault.Proofs.Store.Punctual

/-!
Stores as their callers know them.  At a moment a key holds a value or nothing; a call that fails
changes nothing, and a value may lapse at any time.
-/

namespace SessionVault

def Command.after (key : String) : (c : Command) → c.Reply → Option Octets → Option Octets
  | .set other value, .ok _, held => if other = key then some value else held
  | .setIfAbsent other value, .ok .created, held => if other = key then some value else held
  | .delete other, .ok _, held => if other = key then none else held
  | _, _, held => held

def AtMost (held value : Option Octets) : Prop := held = none ∨ held = value

/-- A store of which we see the values of its keys.  Its calls do no more than they say. -/
structure Lapsing {ρ : Type} (R : Moment → Script.Rules Command.Reply ρ)
    (look : ρ → Moment → String → Option Octets) : Prop where
  later {now now' : Moment} (t : ρ) (key : String) :
    now ≤ now' → AtMost (look t now' key) (look t now key)
  call {now : Moment} {c : Command} {t t' : ρ} {x : c.Reply} (key : String) :
    R now c t x t' → AtMost (look t' now key) (c.after key x (look t now key))
  got {now : Moment} {key : String} {t t' : ρ} {value : Option Octets} :
    R now (.get key) t (.ok value) t' → value = look t' now key

def Clocked {ρ : Type} (R : Moment → Script.Rules Command.Reply ρ) :
    Script.Rules Command.Reply (Moment × ρ) :=
  fun c s x s' => s.1 ≤ s'.1 ∧ R s'.1 c s.2 x s'.2

theorem AtMost.trans {a b c : Option Octets} (h : AtMost a b) (h' : AtMost b c) : AtMost a c := by
  rcases h with rfl | rfl
  · exact .inl rfl
  · exact h'

theorem AtMost.after {held value : Option Octets} (h : AtMost held value) (key : String)
    (c : Command) (x : c.Reply) : AtMost (c.after key x held) (c.after key x value) := by
  rcases h with rfl | rfl
  · unfold Command.after
    split
    · split
      · exact .inr rfl
      · exact .inl rfl
    · split
      · exact .inr rfl
      · exact .inl rfl
    · exact .inl (ite_self none)
    · exact .inl rfl
  · exact .inr rfl

theorem Command.after_error (key : String) (c : Command) (e : StoreError) (held : Option Octets) :
    c.after key (.error e) held = held := by
  cases c <;> rfl

theorem Command.after_set (key : String) (value : Octets) (held : Option Octets) :
    Command.after key (.set key value) (.ok ()) held = some value :=
  if_pos rfl

variable {ρ : Type} {R : Moment → Script.Rules Command.Reply ρ}
variable {look : ρ → Moment → String → Option Octets} {value : Option Octets}

theorem Lapsing.clocked (hR : Lapsing R look) {c : Command} {s s' : Moment × ρ} {x : c.Reply}
    {key : String} (h : Clocked R c s x s') (hv : AtMost (look s.2 s.1 key) value) :
    AtMost (look s'.2 s'.1 key) (c.after key x value) :=
  (hR.call key h.2).trans (((hR.later s.2 key h.1).trans hv).after key c x)

namespace Memory

variable {m m' : Memory} {now now' : Moment}

def Serves (now : Moment) : Script.Rules Command.Reply Memory :=
  fun c m x m' => Memory.answer now c m = (some x, m') ∨ (∃ e, x = .error e) ∧ m' = m

def value? (m : Memory) (now : Moment) (key : String) : Option Octets :=
  (m.live? now key).map (·.value)

theorem live?_insert (m : Memory) (now : Moment) (name key : String) (e : Entry) :
    live? ⟨m.entries.insert name e⟩ now key =
      if name = key then (some e).filter (·.isLive now) else m.live? now key := by
  rw [live?, Table.get?_insert]
  split <;> rfl

theorem live?_erase (m : Memory) (now : Moment) (name key : String) :
    live? ⟨m.entries.erase name⟩ now key = if key = name then none else m.live? now key := by
  rw [live?, Table.get?_erase]
  split <;> rfl

theorem live?_read (m : Memory) (now : Moment) (name key : String) :
    (m.read now name).2.live? now key = m.live? now key := by
  rw [← get?_punctual, ← get?_punctual, (m.read_eq now name).2]

theorem value?_put (m : Memory) (now : Moment) (name key : String) (value : Octets) :
    (m.put name value).value? now key = if name = key then some value else m.value? now key := by
  rw [value?, put, live?_insert]
  split <;> rfl

theorem value?_later (m : Memory) (key : String) (h : now ≤ now') :
    AtMost (m.value? now' key) (m.value? now key) := by
  simp only [value?, live?]
  cases m.entries.get? key with
  | none => exact .inl rfl
  | some e =>
    cases hl : e.isLive now' with
    | false => exact .inl (by rw [Option.filter, hl]; rfl)
    | true =>
      have hlive : e.isLive now = true := by
        rw [Entry.isLive] at hl ⊢
        cases hd : e.deadline with
        | none => rfl
        | some deadline =>
          rw [hd] at hl
          exact decide_eq_true (Nat.lt_of_le_of_lt h (of_decide_eq_true hl))
      exact .inr (by rw [Option.filter, Option.filter, hl, hlive])

theorem value?_expire (m : Memory) (now : Moment) (name key : String) (seconds : UInt64) :
    AtMost ((m.expire now name seconds).2.value? now key) (m.value? now key) := by
  rw [expire]
  cases hl : m.live? now name with
  | none => exact .inr rfl
  | some e =>
    dsimp only
    split
    · exact .inr rfl
    · next deadline _ =>
      rw [value?, live?_insert]
      split
      · next hk =>
        rw [value?, ← hk, hl, Option.filter]
        split
        · exact .inr rfl
        · exact .inl rfl
      · exact .inr rfl

theorem value?_answer {c : Command} {x : c.Reply} (h : Memory.answer now c m = (some x, m'))
    (key : String) : AtMost (m'.value? now key) (c.after key x (m.value? now key)) := by
  cases c with
  | set name value =>
    cases h
    exact .inr (m.value?_put now name key value)
  | setIfAbsent name value =>
    simp only [answer, putIfAbsent] at h
    split at h
    · cases h
      exact .inr rfl
    · cases h
      exact .inr (m.value?_put now name key value)
  | expire name seconds =>
    obtain ⟨-, rfl⟩ := Prod.mk.inj h
    have hafter : Command.after key (.expire name seconds) x (m.value? now key) =
        m.value? now key := by
      cases x <;> rfl
    rw [hafter]
    exact m.value?_expire now name key seconds
  | get name =>
    cases h
    exact .inr (congrArg (Option.map _) (m.live?_read now name key))
  | delete name =>
    cases h
    refine .inr ?_
    simp only [value?, live?_erase, Command.after, eq_comm (a := key)]
    split <;> rfl
  | «exists» name =>
    cases h
    exact .inr (congrArg (Option.map _) (m.live?_read now name key))
  | keys pattern =>
    obtain ⟨-, rfl⟩ := Prod.mk.inj h
    have hafter : Command.after key (.keys pattern) x (m.value? now key) = m.value? now key := by
      cases x <;> rfl
    rw [hafter]
    exact .inr rfl

theorem read_eq_value? (m : Memory) (now : Moment) (key : String) :
    (m.read now key).1 = (m.read now key).2.value? now key := by
  rw [value?, live?_read]
  exact (m.read_eq now key).1

theorem lapsing_serves : Lapsing Serves value? where
  later m key h := m.value?_later key h
  call {now c m m' x} key h := by
    rcases h with h | ⟨⟨e, rfl⟩, rfl⟩
    · exact value?_answer h key
    · exact .inr (c.after_error key e _).symm
  got h := by
    rcases h with h | ⟨⟨e, he⟩, -⟩
    · cases h
      exact read_eq_value? _ _ _
    · cases he

end Memory

end SessionVault
