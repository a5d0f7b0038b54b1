import SessionVault.Proofs.Script
import SessionVault.Proofs.Store.Planned
import SessionVault.Proofs.Table
import SessionVault.Session.Manager

namespace SessionVault

namespace Manager

structure Proposals where
  ids : Nat → String
  plan : Plan

namespace Proposals

variable {q : Proposals} {m : Manager} {mem : Memory} {attempts n : Nat} {e : StoreError}

def answer (q : Proposals) : Script.Handler Request.Answer (Planned × Nat)
  | .newId, s => (some (q.ids s.2), (s.1, s.2 + 1))
  | .store c, s =>
    let (x, store) := q.plan.answer c s.1
    (x, (store, s.2))

def claims (q : Proposals) (m : Manager) (n : Nat) : List Command :=
  (List.range n).map fun i => .setIfAbsent (m.key (q.ids i)) placeholder

/-- The claim of an id is answered, and its key is live then. -/
def Taken (q : Proposals) (m : Manager) (mem : Memory) (n : Nat) : Prop :=
  q.plan.failure? n = none ∧ (mem.live? (q.plan.now n) (m.key (q.ids n))).isSome

def Free (q : Proposals) (m : Manager) (mem : Memory) (n : Nat) : Prop :=
  q.plan.failure? n = none ∧ mem.live? (q.plan.now n) (m.key (q.ids n)) = none

abbrev after (q : Proposals) (m : Manager) (mem : Memory) (n : Nat) : Planned × Nat :=
  (⟨mem, q.claims m n⟩, n)

theorem length_claims (q : Proposals) (m : Manager) (n : Nat) : (q.claims m n).length = n := by
  simp [claims]

theorem claims_succ (q : Proposals) (m : Manager) (n : Nat) :
    q.claims m (n + 1) = q.claims m n ++ [.setIfAbsent (m.key (q.ids n)) placeholder] := by
  simp [claims, List.range_succ]

theorem answer_failed (h : q.plan.failure? n = some e) :
    q.answer (.store (.setIfAbsent (m.key (q.ids n)) placeholder)) (⟨mem, q.claims m n⟩, n + 1) =
      (some (.error e), q.after m mem (n + 1)) := by
  rw [after, claims_succ, answer, Plan.answer_failure (by rwa [length_claims])]

theorem answer_claimed (m : Manager) (mem : Memory) (h : q.plan.failure? n = none) :
    q.answer (.store (.setIfAbsent (m.key (q.ids n)) placeholder)) (⟨mem, q.claims m n⟩, n + 1) =
      (some (.ok (mem.putIfAbsent (q.plan.now n) (m.key (q.ids n)) placeholder).1),
        q.after m (mem.putIfAbsent (q.plan.now n) (m.key (q.ids n)) placeholder).2 (n + 1)) := by
  rw [after, claims_succ, answer, Plan.answer_memory (by rwa [length_claims]), length_claims]
  rfl

theorem run_claimNew_failed (h : q.plan.failure? n = some e) :
    (m.claimNew (attempts + 1)).run q.answer (q.after m mem n) =
      (some (.error (.store e)), q.after m mem (n + 1)) := by
  rw [claimNew]
  refine (Script.run_ask rfl).trans ?_
  exact Script.run_ask (answer_failed h)

theorem run_claimNew_free (h : q.Free m mem n) :
    (m.claimNew (attempts + 1)).run q.answer (q.after m mem n) =
      (some (.ok (q.ids n)), q.after m (mem.put (m.key (q.ids n)) placeholder) (n + 1)) := by
  have hput : mem.putIfAbsent (q.plan.now n) (m.key (q.ids n)) placeholder =
      (.created, mem.put (m.key (q.ids n)) placeholder) := by
    rw [Memory.putIfAbsent, h.2]
    rfl
  have hanswer := answer_claimed m mem h.1
  rw [hput] at hanswer
  rw [claimNew]
  refine (Script.run_ask rfl).trans ?_
  exact Script.run_ask hanswer

theorem run_claimNew_taken (h : q.Taken m mem n) :
    (m.claimNew (attempts + 1)).run q.answer (q.after m mem n) =
      (m.claimNew attempts).run q.answer (q.after m mem (n + 1)) := by
  have hput : mem.putIfAbsent (q.plan.now n) (m.key (q.ids n)) placeholder = (.existed, mem) := by
    rw [Memory.putIfAbsent, if_pos h.2]
  have hanswer := answer_claimed m mem h.1
  rw [hput] at hanswer
  rw [claimNew]
  refine (Script.run_ask rfl).trans ?_
  exact Script.run_ask hanswer

theorem run_claimNew_passes (h : ∀ i < n, q.Taken m mem i) (attempts : Nat) :
    (m.claimNew (attempts + n)).run q.answer (q.after m mem 0) =
      (m.claimNew attempts).run q.answer (q.after m mem n) := by
  induction n generalizing attempts with
  | zero => rfl
  | succ n ih =>
    have hearlier : ∀ i < n, q.Taken m mem i := fun i hi => h i (Nat.lt_succ_of_lt hi)
    rw [← Nat.add_assoc, Nat.add_right_comm, ih hearlier, run_claimNew_taken (h n n.lt_succ_self)]

theorem run_claimNew_from (hn : n < maxClaims) (h : ∀ i < n, q.Taken m mem i) :
    ∃ attempts, (m.claimNew maxClaims).run q.answer (q.after m mem 0) =
      (m.claimNew (attempts + 1)).run q.answer (q.after m mem n) := by
  obtain ⟨attempts, hattempts⟩ := Nat.exists_eq_add_of_lt hn
  refine ⟨attempts, ?_⟩
  rw [← run_claimNew_passes h (attempts + 1), hattempts]
  congr 2
  omega

theorem run_claim_none {r : Except SessionError String} {s s' : Planned × Nat}
    (h : (m.claimNew maxClaims).run q.answer s = (some r, s')) :
    (m.claim none).run q.answer s = (some (r.map some), s') := by
  simp only [claim, Script.bind_eq, Script.run_bind, h]
  cases r <;> rfl

end Proposals

/-- Without a requested id, the generated ones are claimed in their order.  The first whose key is
not live is taken, and its entry, which holds the placeholder and never expires, is all that changes
in the store.  A claim that fails before that is reported at once, and sixteen ids that are all
taken exhaust the search; both leave the store as it is. -/
theorem first_free_id_is_claimed (m : Manager) (q : Proposals) (mem : Memory) :
    (∀ n < 16, (∀ i < n, q.Taken m mem i) → q.Free m mem n →
      ∃ mem', (m.claim none).run q.answer (⟨mem, []⟩, 0) =
          (some (.ok (some (q.ids n))), (⟨mem', q.claims m (n + 1)⟩, n + 1)) ∧
        mem'.entries.get? (m.key (q.ids n)) = some ⟨placeholder, none⟩ ∧
        ∀ key, key ≠ m.key (q.ids n) → mem'.entries.get? key = mem.entries.get? key) ∧
    (∀ n < 16, ∀ e, (∀ i < n, q.Taken m mem i) → q.plan.failure? n = some e →
      (m.claim none).run q.answer (⟨mem, []⟩, 0) =
        (some (.error (.store e)), (⟨mem, q.claims m (n + 1)⟩, n + 1))) ∧
    ((∀ i < 16, q.Taken m mem i) →
      (m.claim none).run q.answer (⟨mem, []⟩, 0) =
        (some (.error (.claimExhausted 16)), (⟨mem, q.claims m 16⟩, 16))) := by
  refine ⟨fun n hn htaken hfree => ?_, fun n hn e htaken hfails => ?_, fun htaken => ?_⟩
  · obtain ⟨attempts, hfrom⟩ := Proposals.run_claimNew_from hn htaken
    refine ⟨mem.put (m.key (q.ids n)) placeholder, ?_, ?_, fun key hkey => ?_⟩
    · exact Proposals.run_claim_none (hfrom.trans (Proposals.run_claimNew_free hfree))
    · exact Table.get?_insert_self ..
    · exact Table.get?_insert_of_ne hkey
  · obtain ⟨attempts, hfrom⟩ := Proposals.run_claimNew_from hn htaken
    exact Proposals.run_claim_none (hfrom.trans (Proposals.run_claimNew_failed hfails))
  · exact Proposals.run_claim_none (Proposals.run_claimNew_passes htaken 0)

theorem second_id_is_claimed :
    ∃ (m : Manager) (found failed repeated : Proposals) (mem mem' : Memory),
      found.Taken m mem 0 ∧ found.Free m mem 1 ∧
      (m.claim none).run found.answer (⟨mem, []⟩, 0) =
        (some (.ok (some "B")), (⟨mem', found.claims m 2⟩, 2)) ∧
      mem'.entries.get? "B" = some ⟨placeholder, none⟩ ∧
      mem'.entries.get? "A" = mem.entries.get? "A" ∧
      (m.claim none).run failed.answer (⟨mem, []⟩, 0) =
        (some (.error (.store .interrupted)), (⟨mem, failed.claims m 2⟩, 2)) ∧
      (m.claim none).run repeated.answer (⟨mem, []⟩, 0) =
        (some (.error (.claimExhausted 16)), (⟨mem, repeated.claims m 16⟩, 16)) := by
  let m : Manager := {}
  let mem : Memory := Memory.put .empty "A" (Octets.ofText "{}")
  let ids (n : Nat) := if n = 0 then "A" else "B"
  let found : Proposals := ⟨ids, fun _ => 0, fun _ => none⟩
  let failed : Proposals := ⟨ids, fun _ => 0, fun n => if n = 1 then some .interrupted else none⟩
  let repeated : Proposals := ⟨fun _ => "A", fun _ => 0, fun _ => none⟩
  have hlive : (mem.live? 0 "A").isSome = true := rfl
  have htaken : found.Taken m mem 0 := ⟨rfl, hlive⟩
  have hfree : found.Free m mem 1 := ⟨rfl, rfl⟩
  obtain ⟨hfound, -, -⟩ := first_free_id_is_claimed m found mem
  obtain ⟨-, hfailed, -⟩ := first_free_id_is_claimed m failed mem
  obtain ⟨-, -, hrepeated⟩ := first_free_id_is_claimed m repeated mem
  obtain ⟨mem', hrun, hnew, hothers⟩ :=
    hfound 1 (by decide) (fun i hi => Nat.lt_one_iff.1 hi ▸ htaken) hfree
  refine ⟨m, found, failed, repeated, mem, mem', htaken, hfree, hrun, hnew, ?_, ?_, ?_⟩
  · exact hothers "A" (by decide)
  · exact hfailed 1 (by decide) .interrupted (fun i hi => Nat.lt_one_iff.1 hi ▸ ⟨rfl, hlive⟩) rfl
  · exact hrepeated fun _ _ => ⟨rfl, hlive⟩

end Manager

end SessionVault
