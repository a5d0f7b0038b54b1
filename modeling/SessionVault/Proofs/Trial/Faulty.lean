import SessionVault.Proofs.Script
import SessionVault.Proofs.Store.Contents
import SessionVault.Proofs.Store.Lapse
import SessionVault.Trial.Faulty

namespace SessionVault.Trial.FaultyStore

/-- A call at a moment when no deadline has come, whatever was told about failing before. -/
def Serves : Script.Rules Command.Reply FaultyStore
  | c, f, x, f' => ∃ now failing failNext, f.memory.AllLive now ∧
      answer now c { f with failing := failing, failNext := failNext } = (some x, f')

variable {f : FaultyStore} {now : Moment}

theorem serves_get (h : f.memory.AllLive now) (key : String) :
    Serves (.get key) f (.ok (f.memory.contents.get? key))
      { f with failing := false, failNext := 0, reached := f.reached + 1 } := by
  refine ⟨now, false, 0, h, ?_⟩
  simp [answer, receive, Memory.answer, h.read]

theorem serves_failure (h : f.memory.AllLive now) (c : Command) :
    Serves c f (.error (failure c))
      { f with failing := true, failNext := 0, reached := f.reached + 1 } :=
  ⟨now, true, 0, h, rfl⟩

theorem Serves.contents {c : Command} {f' : FaultyStore} {x : c.Reply} (h : Serves c f x f') :
    Contents.Serves c f.memory.contents x f'.memory.contents := by
  obtain ⟨now, failing, failNext, hlive, ha⟩ := h
  simp only [answer, receive] at ha
  cases hfails : decide (0 < failNext) || failing with
  | true =>
    rw [hfails] at ha
    cases ha
    exact .failed _
  | false =>
    rw [hfails] at ha
    cases hm : Memory.answer now c f.memory with
    | mk reply memory =>
      simp only [hm] at ha
      cases ha
      have hserves := Contents.Serves.answered (c := c) (t := f.memory.contents)
      rw [hlive.answer hm] at hserves
      exact hserves

def ServesAt (now : Moment) : Script.Rules Command.Reply FaultyStore :=
  fun c f x f' => ∃ failing failNext,
    answer now c { f with failing := failing, failNext := failNext } = (some x, f')

theorem servesAt_failure (now : Moment) (c : Command) (f : FaultyStore) :
    ServesAt now c f (.error (failure c))
      { f with failing := true, failNext := 0, reached := f.reached + 1 } :=
  ⟨true, 0, rfl⟩

theorem servesAt_answer {c : Command} {x : c.Reply} {m : Memory}
    (h : Memory.answer now c f.memory = (some x, m)) :
    ServesAt now c f x ⟨m, false, 0, f.reached + 1⟩ := by
  refine ⟨false, 0, ?_⟩
  simp [answer, receive, h]

theorem ServesAt.memory {c : Command} {f' : FaultyStore} {x : c.Reply}
    (h : ServesAt now c f x f') : Memory.Serves now c f.memory x f'.memory := by
  obtain ⟨failing, failNext, ha⟩ := h
  simp only [answer, receive] at ha
  cases hfails : decide (0 < failNext) || failing with
  | true =>
    rw [hfails] at ha
    cases ha
    exact .inr ⟨⟨_, rfl⟩, rfl⟩
  | false =>
    rw [hfails] at ha
    cases hm : Memory.answer now c f.memory with
    | mk reply memory =>
      simp only [hm] at ha
      cases ha
      exact .inl hm

theorem lapsing_servesAt : Lapsing ServesAt fun f => f.memory.value? where
  later f key h := Memory.lapsing_serves.later f.memory key h
  call key h := Memory.lapsing_serves.call key h.memory
  got h := Memory.lapsing_serves.got h.memory

end SessionVault.Trial.FaultyStore
