import SessionVault.Proofs.Table
import SessionVault.Store.Memory

namespace SessionVault

abbrev Contents := Table Octets

namespace Contents

def answer : (c : Command) → Contents → c.Reply × Contents
  | .set key value, t => (.ok (), t.insert key value)
  | .setIfAbsent key value, t =>
    if t.contains key then (.ok .existed, t) else (.ok .created, t.insert key value)
  | .expire key _, t => (.ok (t.contains key), t)
  | .get key, t => (.ok (t.get? key), t)
  | .delete key, t => (.ok (if t.contains key then 1 else 0), t.erase key)
  | .exists key, t => (.ok (t.contains key), t)
  | .keys pattern, t =>
    (match Glob.Pattern.ofText? pattern with
      | none => .error (.invalidPattern pattern)
      | some p => .ok ((t.filter fun key _ => p.matches key).map fun _ => ()), t)

inductive Serves (c : Command) (t : Contents) : c.Reply → Contents → Prop where
  | answered : Serves c t (t.answer c).1 (t.answer c).2
  | failed (e : StoreError) : Serves c t (.error e) t

def reply? (t : Contents) (now : Moment) (c : Command) : Option c.Reply :=
  match c with
  | .expire key seconds =>
    if t.contains key && (Moment.later? now seconds).isNone then none
    else some (t.answer (.expire key seconds)).1
  | c => some (t.answer c).1

variable {c : Command} {t : Contents} {key : String}

theorem answer_of_reply? {now : Moment} {x : c.Reply} (h : t.reply? now c = some x) :
    (t.answer c).1 = x := by
  cases c with
  | expire key seconds =>
    simp only [reply?] at h
    split at h
    · cases h
    · exact Option.some.inj h
  | set | setIfAbsent | get | delete | «exists» | keys => exact Option.some.inj h

theorem get?_answer_of_ne (h : key ≠ c.key) : (t.answer c).2.get? key = t.get? key := by
  cases c with
  | set name value => exact Table.get?_insert_of_ne h
  | setIfAbsent name value =>
    simp only [answer]
    split
    · rfl
    · exact Table.get?_insert_of_ne h
  | delete name => exact Table.get?_erase_of_ne h
  | expire | get | «exists» | keys => rfl

end Contents

namespace Memory

variable {m m' : Memory} {now : Moment} {key : String}

def contents (m : Memory) : Contents := m.entries.map (·.value)

def AllLive (m : Memory) (now : Moment) : Prop :=
  ∀ key e, m.entries.get? key = some e → e.isLive now = true

instance decidableAllLive (m : Memory) (now : Moment) : Decidable (m.AllLive now) :=
  decidable_of_iff (∀ p ∈ m.entries.entries, p.2.isLive now = true) <| by
    simp only [AllLive, Table.get?_eq_some_iff, Prod.forall]

theorem allLive_empty : Memory.empty.AllLive now := by
  intro key e he
  cases he

theorem AllLive.put (h : m.AllLive now) (key : String) (value : Octets) :
    (m.put key value).AllLive now := by
  intro other e he
  rw [Memory.put, Table.get?_insert] at he
  split at he
  · cases he
    rfl
  · exact h other e he

theorem AllLive.live? (h : m.AllLive now) (key : String) :
    m.live? now key = m.entries.get? key := by
  rw [Memory.live?]
  cases he : m.entries.get? key with
  | none => rfl
  | some e => rw [Option.filter, h key e he, if_pos rfl]

theorem AllLive.liveEntries (h : m.AllLive now) : m.liveEntries now = m.entries := by
  apply Table.ext
  intro key
  rw [Memory.liveEntries, Table.get?_filter]
  exact h.live? key

theorem contains_contents (m : Memory) (key : String) :
    m.contents.contains key = (m.entries.get? key).isSome :=
  Table.contains_map _ _ _

theorem contents_put (m : Memory) (key : String) (value : Octets) :
    (m.put key value).contents = m.contents.insert key value :=
  Table.map_insert _ _ _ _

theorem AllLive.read (h : m.AllLive now) (key : String) :
    m.read now key = (m.contents.get? key, m) := by
  rw [Memory.read, contents, Table.get?_map]
  split
  · next he => rw [he, Option.map_none]
  · next e he => rw [he, Option.map_some, if_pos (h key e he)]

theorem AllLive.answer_putIfAbsent (h : m.AllLive now) (key : String) (value : Octets) :
    m.contents.answer (.setIfAbsent key value) =
      (.ok (m.putIfAbsent now key value).1, (m.putIfAbsent now key value).2.contents) := by
  rw [putIfAbsent, h.live?, ← contains_contents, Contents.answer]
  split
  · rfl
  · rw [contents_put]

theorem AllLive.expire_eq (h : m.AllLive now) (key : String) (seconds : UInt64) :
    (m.expire now key seconds).1 =
        (if m.contents.contains key && (Moment.later? now seconds).isNone then none
          else some (m.contents.contains key)) ∧
      (m.expire now key seconds).2.contents = m.contents := by
  rw [Memory.expire, h.live?, contains_contents]
  cases hk : m.entries.get? key with
  | none => exact ⟨rfl, rfl⟩
  | some e =>
    cases hd : Moment.later? now seconds with
    | none => exact ⟨rfl, rfl⟩
    | some deadline => exact ⟨rfl, Table.map_insert_of_get? hk rfl⟩

theorem AllLive.keys (h : m.AllLive now) (pattern : String) :
    m.keys now pattern = (m.contents.answer (.keys pattern)).1 := by
  simp only [Memory.keys, Contents.answer]
  cases Glob.Pattern.ofText? pattern with
  | none => rfl
  | some p =>
    simp only [h.liveEntries, contents, ← Table.map_filter, Table.map_map]
    rfl

/-- While no deadline comes, what is answered, if anything is, depends on the contents alone. -/
theorem AllLive.answer_eq (h : m.AllLive now) (c : Command) :
    (Memory.answer now c m).1 = m.contents.reply? now c ∧
      (Memory.answer now c m).2.contents = (m.contents.answer c).2 := by
  cases c with
  | set key value => exact ⟨rfl, contents_put m key value⟩
  | setIfAbsent key value =>
    simp only [Memory.answer, Contents.reply?, h.answer_putIfAbsent, and_self]
  | expire key seconds =>
    obtain ⟨hfound, hcontents⟩ := h.expire_eq key seconds
    refine ⟨?_, hcontents⟩
    simp only [Memory.answer, hfound, Contents.reply?, Contents.answer]
    split <;> rfl
  | get key =>
    simp only [Memory.answer, h.read]
    exact ⟨rfl, rfl⟩
  | delete key =>
    simp only [Memory.answer, Memory.delete, h.live?, ← contains_contents]
    exact ⟨rfl, Table.map_erase _ _ _⟩
  | «exists» key =>
    simp only [Memory.answer, h.read]
    exact ⟨rfl, rfl⟩
  | keys pattern =>
    simp only [Memory.answer, h.keys]
    exact ⟨rfl, rfl⟩

theorem AllLive.answer {c : Command} {x : c.Reply} (h : m.AllLive now)
    (ha : Memory.answer now c m = (some x, m')) : m.contents.answer c = (x, m'.contents) := by
  obtain ⟨hreply, hcontents⟩ := h.answer_eq c
  rw [ha] at hreply hcontents
  exact Prod.ext (Contents.answer_of_reply? hreply.symm) hcontents.symm

end Memory

end SessionVault
