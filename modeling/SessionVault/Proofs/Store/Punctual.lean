import SessionVault.Proofs.Table
import SessionVault.Store.Memory

/-!
A store in memory keeps entries beyond their deadline.  Nobody can tell: whatever it is asked, it
answers like a punctual store, from which an entry leaves at the very moment of its deadline.
-/

namespace SessionVault

inductive Memory.Query where
  | command (c : Command)
  | size
  | remaining (key : String)

abbrev Memory.Query.Answer : Memory.Query → Type
  | .command c => c.Reply
  | .size => Nat
  | .remaining _ => Option Nat

def Memory.query (now : Moment) : Script.Handler Memory.Query.Answer Memory
  | .command c, m => m.answer now c
  | .size, m => (some (m.size now), m)
  | .remaining key, m => (some (m.remaining? now key), m)

def Memory.replies (m : Memory) :
    List (Moment × Memory.Query) → List ((q : Memory.Query) × Option q.Answer)
  | [] => []
  | (now, q) :: rest =>
    let (x, m) := m.query now q
    ⟨q, x⟩ :: m.replies rest

structure Punctual where
  entries : Table Memory.Entry

namespace Punctual

def empty : Punctual := ⟨.empty⟩

def passTo (p : Punctual) (now : Moment) : Punctual :=
  ⟨p.entries.filter fun _ e => e.deadline.all fun deadline => now < deadline⟩

def put (p : Punctual) (key : String) (value : Octets) : Punctual :=
  ⟨p.entries.insert key ⟨value, none⟩⟩

def answer (now : Moment) : (q : Memory.Query) → Punctual → q.Answer × Punctual
  | .command (.set key value), p => (.ok (), p.put key value)
  | .command (.setIfAbsent key value), p =>
    if p.entries.contains key then (.ok .existed, p) else (.ok .created, p.put key value)
  | .command (.expire key seconds), p =>
    match p.entries.get? key with
    | none => (.ok false, p)
    | some e =>
      let deadline := now + (Duration.ofSeconds seconds).nanoseconds
      (.ok true, passTo ⟨p.entries.insert key { e with deadline := some deadline }⟩ now)
  | .command (.get key), p => (.ok ((p.entries.get? key).map (·.value)), p)
  | .command (.delete key), p =>
    (.ok (if p.entries.contains key then 1 else 0), ⟨p.entries.erase key⟩)
  | .command (.exists key), p => (.ok (p.entries.contains key), p)
  | .command (.keys pattern), p =>
    (match Glob.Pattern.ofText? pattern with
      | none => .error (.invalidPattern pattern)
      | some g => .ok ((p.entries.filter fun key _ => g.matches key).map fun _ => ()), p)
  | .size, p => (p.entries.size, p)
  | .remaining key, p => (((p.entries.get? key).bind (·.deadline)).map (· - now), p)

def replies (p : Punctual) :
    List (Moment × Memory.Query) → List ((q : Memory.Query) × Option q.Answer)
  | [] => []
  | (now, q) :: rest =>
    let (x, p) := (p.passTo now).answer now q
    ⟨q, some x⟩ :: p.replies rest

end Punctual

namespace Memory

variable {m m' : Memory} {now now' : Moment} {key : String} {value : Octets}

theorem Entry.isLive_eq (e : Entry) :
    e.isLive now = e.deadline.all fun deadline => now < deadline := by
  cases e with
  | mk value deadline => cases deadline <;> rfl

def punctual (m : Memory) (now : Moment) : Punctual := ⟨m.liveEntries now⟩

theorem get?_punctual (m : Memory) (now : Moment) (key : String) :
    (m.punctual now).entries.get? key = m.live? now key :=
  Table.get?_filter _ _ _

theorem contains_punctual (m : Memory) (now : Moment) (key : String) :
    (m.punctual now).entries.contains key = (m.live? now key).isSome :=
  congrArg Option.isSome (m.get?_punctual now key)

theorem passTo_punctual (h : now ≤ now') : (m.punctual now).passTo now' = m.punctual now' := by
  have hlive : ∀ e : Entry, (e.isLive now && e.deadline.all fun d => now' < d) = e.isLive now' := by
    intro e
    rw [e.isLive_eq, e.isLive_eq]
    cases e.deadline with
    | none => rfl
    | some d => simpa using fun hd => Nat.lt_of_le_of_lt h hd
  simp only [Punctual.passTo, punctual, liveEntries, Table.filter_filter, hlive]

theorem punctual_put (m : Memory) (now : Moment) (key : String) (value : Octets) :
    (m.put key value).punctual now = (m.punctual now).put key value :=
  congrArg Punctual.mk (Table.filter_insert m.entries (fun _ e => e.isLive now) key ⟨value, none⟩)

theorem punctual_erase (m : Memory) (now : Moment) (key : String) :
    punctual ⟨m.entries.erase key⟩ now = ⟨(m.punctual now).entries.erase key⟩ :=
  congrArg Punctual.mk (Table.filter_erase m.entries (fun _ e => e.isLive now) key)

theorem punctual_insert (m : Memory) (now : Moment) (key : String) (e : Entry) :
    punctual ⟨m.entries.insert key e⟩ now =
      Punctual.passTo ⟨(m.punctual now).entries.insert key e⟩ now := by
  simp only [punctual, liveEntries, Punctual.passTo, Table.filter_insert, Table.filter_filter,
    Entry.isLive_eq, Bool.and_self]

theorem punctual_liveEntries (m : Memory) (now : Moment) :
    punctual ⟨m.liveEntries now⟩ now = m.punctual now := by
  simp only [punctual, liveEntries, Table.filter_filter, Bool.and_self]

theorem read_eq (m : Memory) (now : Moment) (key : String) :
    (m.read now key).1 = (m.live? now key).map (·.value) ∧
      (m.read now key).2.punctual now = m.punctual now := by
  rw [read, live?]
  cases m.entries.get? key with
  | none => exact ⟨rfl, rfl⟩
  | some e =>
    cases hl : e.isLive now with
    | true => simp [Option.filter, hl]
    | false => simp [Option.filter, hl, punctual_liveEntries]

theorem putIfAbsent_eq (m : Memory) (now : Moment) (key : String) (value : Octets) :
    (m.punctual now).answer now (.command (.setIfAbsent key value)) =
      (.ok (m.putIfAbsent now key value).1, (m.putIfAbsent now key value).2.punctual now) := by
  rw [Punctual.answer, contains_punctual, putIfAbsent]
  split
  · rfl
  · rw [punctual_put]

theorem expire_eq (m : Memory) (key : String) {seconds : UInt64}
    (h : now + (Duration.ofSeconds seconds).nanoseconds < Moment.limit) :
    ∃ found, (m.expire now key seconds).1 = some found ∧
      (m.punctual now).answer now (.command (.expire key seconds)) =
        (.ok found, (m.expire now key seconds).2.punctual now) := by
  simp only [Punctual.answer, get?_punctual, expire]
  cases m.live? now key with
  | none => exact ⟨false, rfl, rfl⟩
  | some e =>
    simp only [Moment.later?_eq_some h, punctual_insert]
    exact ⟨true, rfl, rfl⟩

theorem keys_eq (m : Memory) (now : Moment) (pattern : String) :
    (m.punctual now).answer now (.command (.keys pattern)) =
      (m.keys now pattern, m.punctual now) := by
  rw [Punctual.answer, keys]
  cases Glob.Pattern.ofText? pattern <;> rfl

def Query.InTime (now : Moment) : Query → Prop
  | .command (.expire _ seconds) => now + (Duration.ofSeconds seconds).nanoseconds < Moment.limit
  | _ => True

theorem query_punctual (m : Memory) {q : Query} (h : q.InTime now) :
    (m.query now q).1 = some ((m.punctual now).answer now q).1 ∧
      (m.query now q).2.punctual now = ((m.punctual now).answer now q).2 := by
  cases q with
  | size => exact ⟨rfl, rfl⟩
  | remaining key => simp only [query, remaining?, Punctual.answer, get?_punctual, and_self]
  | command c =>
    cases c with
    | set key value => exact ⟨rfl, punctual_put m now key value⟩
    | setIfAbsent key value =>
      rw [putIfAbsent_eq]
      exact ⟨rfl, rfl⟩
    | expire key seconds =>
      obtain ⟨found, hfound, hanswer⟩ := expire_eq m key h
      simp only [query, answer, hanswer, hfound, Option.map_some, and_self]
    | get key =>
      obtain ⟨hvalue, hrest⟩ := m.read_eq now key
      simp only [query, answer, Punctual.answer, get?_punctual, hvalue, hrest, and_self]
    | delete key =>
      simp only [query, answer, delete, Punctual.answer, contains_punctual, punctual_erase,
        and_self]
    | «exists» key =>
      obtain ⟨hvalue, hrest⟩ := m.read_eq now key
      simp only [query, answer, Punctual.answer, contains_punctual, hvalue, hrest,
        Option.isSome_map, and_self]
    | keys pattern =>
      rw [keys_eq]
      exact ⟨rfl, rfl⟩

theorem replies_eq {calls : List (Moment × Query)} (hfrom : ∀ c ∈ calls, now ≤ c.1)
    (horder : calls.Pairwise fun a b => a.1 ≤ b.1) (hin : ∀ c ∈ calls, c.2.InTime c.1) :
    m.replies calls = (m.punctual now).replies calls := by
  induction calls generalizing m now with
  | nil => rfl
  | cons call rest ih =>
    rw [List.forall_mem_cons] at hfrom hin
    rw [List.pairwise_cons] at horder
    obtain ⟨hanswer, hrest⟩ := m.query_punctual hin.1
    simp only [replies, Punctual.replies, passTo_punctual hfrom.1, hanswer, ← hrest]
    rw [ih horder.1 horder.2 hin.2]

/-- At whatever moments a store in memory is asked, entries beyond their deadline are never
noticed. -/
theorem lingering_entries_are_never_noticed (calls : List (Moment × Query))
    (horder : calls.Pairwise fun a b => a.1 ≤ b.1)
    (hin : ∀ now key seconds, (now, Query.command (.expire key seconds)) ∈ calls →
      now + (Duration.ofSeconds seconds).nanoseconds < Moment.limit) :
    Memory.empty.replies calls = Punctual.empty.replies calls := by
  have hfrom : ∀ c ∈ calls, 0 ≤ c.1 := fun c _ => Nat.zero_le _
  refine replies_eq hfrom horder fun c hc => ?_
  obtain ⟨now, q⟩ := c
  cases q with
  | size => trivial
  | remaining => trivial
  | command c =>
    cases c with
    | expire key seconds => exact hin now key seconds hc
    | _ => trivial

def turnover : List (Moment × Query) :=
  [(0, .command (.set "a" [1])), (0, .command (.expire "a" 2)), (5, .command (.set "b" [2])),
    (5, .command (.expire "b" 0)), (5, .size), (1999999999, .remaining "a"),
    (2000000000, .command (.setIfAbsent "a" [3])), (2500000000, .command (.get "b")),
    (2500000000, .command (.keys "*"))]

theorem turnover_is_never_noticed :
    turnover.Pairwise (fun a b => a.1 ≤ b.1) ∧
      (∀ now key seconds, (now, Query.command (.expire key seconds)) ∈ turnover →
        now + (Duration.ofSeconds seconds).nanoseconds < Moment.limit) ∧
      Memory.empty.replies turnover = Punctual.empty.replies turnover := by
  have horder : turnover.Pairwise fun a b => a.1 ≤ b.1 := by decide
  have hin : ∀ now key seconds, (now, Query.command (.expire key seconds)) ∈ turnover →
      now + (Duration.ofSeconds seconds).nanoseconds < Moment.limit := by
    intro now key seconds h
    simp only [turnover, List.mem_cons, Prod.mk.injEq, Query.command.injEq, Command.expire.injEq,
      reduceCtorEq, and_false, false_or, or_false, List.not_mem_nil] at h
    rcases h with ⟨rfl, -, rfl⟩ | ⟨rfl, -, rfl⟩ <;> decide
  exact ⟨horder, hin, lingering_entries_are_never_noticed turnover horder hin⟩

end Memory

end SessionVault
