import SessionVault.Proofs.Script
import SessionVault.Store.Memory

namespace SessionVault

namespace Memory

variable {m m' : Memory} {now : Moment} {key : String} {value : Octets} {e : Entry}

/-- Calls one after the other.  The state is the moment of the last call and what is stored then. -/
def Timed : Script.Rules Command.Reply (Moment × Memory)
  | c, (t, m), x, (t', m') => t ≤ t' ∧ Memory.answer t' c m = (some x, m')

theorem live?_eq_some (he : m.entries.get? key = some e) (hl : e.isLive now = true) :
    m.live? now key = some e := by
  rw [live?, he, Option.filter, hl]
  rfl

theorem live?_of_lt {deadline : Moment} (he : m.entries.get? key = some ⟨value, some deadline⟩)
    (hlt : now < deadline) : m.live? now key = some ⟨value, some deadline⟩ :=
  live?_eq_some he (decide_eq_true hlt)

theorem read_eq_some (he : m.entries.get? key = some e) (hl : e.isLive now = true) :
    m.read now key = (some e.value, m) := by
  simp only [read, he, hl]
  rfl

theorem answer_expire_put {seconds : UInt64} {x : Except StoreError Bool}
    (h : Memory.answer now (.expire key seconds) (m.put key value) = (some x, m')) :
    m'.entries.get? key = some ⟨value, some (now + (Duration.ofSeconds seconds).nanoseconds)⟩ := by
  have he : (m.put key value).entries.get? key = some ⟨value, none⟩ := Table.get?_insert_self _ _ _
  simp only [answer, expire, live?_eq_some he rfl] at h
  split at h
  · cases h
  · next deadline hd =>
    cases h
    rw [← Moment.eq_of_later? hd]
    exact Table.get?_insert_self _ _ _

theorem answer_expire_live {seconds : UInt64} {deadline : Moment} (h : m.live? now key = some e)
    (hlater : Moment.later? now seconds = some deadline) :
    Memory.answer now (.expire key seconds) m =
      (some (.ok true), ⟨m.entries.insert key { e with deadline := some deadline }⟩) := by
  simp only [answer, expire, h, hlater, Option.map_some]

theorem answer_expire_later (m : Memory) (key : String) (value : Octets) {seconds : UInt64}
    {deadline : Moment} (hlater : Moment.later? now seconds = some deadline) :
    Memory.answer now (.expire key seconds) (m.put key value) =
      (some (.ok true), ⟨(m.put key value).entries.insert key ⟨value, some deadline⟩⟩) :=
  answer_expire_live (live?_eq_some (Table.get?_insert_self _ _ _) rfl) hlater

theorem answer_get_live (h : m.live? now key = some e) :
    Memory.answer now (.get key) m = (some (.ok (some e.value)), m) := by
  obtain ⟨he, hl⟩ := Option.filter_eq_some_iff.1 h
  simp only [answer, read_eq_some he hl]

def Answers (now : Moment) : Script.Rules Command.Reply Memory :=
  fun c m x m' => answer now c m = (some x, m')

theorem Answers.expire {seconds : UInt64} {x : Except StoreError Bool}
    (h : Answers now (.expire key seconds) m x m') :
    (∃ found, x = .ok found) ∧ m' = (m.expire now key seconds).2 := by
  obtain ⟨hx, hm⟩ := Prod.mk.inj h
  refine ⟨?_, hm.symm⟩
  obtain ⟨found, -, hfound⟩ := Option.map_eq_some_iff.1 hx
  exact ⟨found, hfound.symm⟩

end Memory

end SessionVault
