import SessionVault.Proofs.Buffer.Calls

namespace SessionVault.Buffer

def unreachable (e : StoreError) : Script.Handler Command.Reply Bool :=
  fun _ _ => (some (.error e), true)

def contents (b : Buffer) : Contents := b.entries.map (·.value)

def Call.evicts : Call → Bool
  | .job .expiry _ => true
  | _ => false

def Call.sparesEntries : Call → Bool
  | .command (.expire _ _) | .job .resync _ => true
  | _ => false

structure Outcome where
  call : Call
  answer : Option call.Answer
  refused : Bool
  held : Contents
  raised : Bool

def callAlone (now : Moment) (e : StoreError) (order : Names → List String) (k : Call)
    (b : Buffer) : Option k.Answer × Linked Bool :=
  Linked.call now (unreachable e) order k ⟨b, false⟩

def outcomes (order : Names → List String) (b : Buffer) :
    List (Moment × StoreError × Call) → List Outcome
  | [] => []
  | (now, e, k) :: rest =>
    let (x, n) := b.callAlone now e order k
    ⟨k, x, n.remote, n.buffer.contents, n.buffer.needsResync⟩ :: n.buffer.outcomes order rest

structure Island where
  held : Contents
  raised : Bool

/-- What a map answers that has nobody to ask, and whether it would have asked. -/
def Island.call (e : StoreError) : (k : Call) → Island → k.Answer × Bool × Island
  | .command (.get key), s =>
    match s.held.get? key with
    | some value => (.ok (some value), false, s)
    | none => (.error e, true, { s with raised := true })
  | .command (.exists key), s =>
    if s.held.contains key then (.ok true, false, s) else (.error e, true, s)
  | .command (.expire _ _), s => (.ok false, true, { s with raised := true })
  | .command c, s =>
    let (x, held) := s.held.answer c
    (x, true, ⟨held, true⟩)
  -- With nothing to write, a resync asks nobody, and believes that nothing is missing.
  | .job .resync _, s => (0, !s.held.isEmpty, { s with raised := !s.held.isEmpty })
  | .job .expiry _, s => (0, false, s)

def Island.outcomes (s : Island) : List (Moment × StoreError × Call) → List Outcome
  | [] => []
  | (_, e, k) :: rest =>
    let (x, refused, s) := s.call e k
    ⟨k, some x, refused, s.held, s.raised⟩ :: s.outcomes rest

def island (b : Buffer) : Island := ⟨b.contents, b.needsResync⟩

variable {α : Type} {now : Moment} {e : StoreError} {b : Buffer} {key : String} {value : Octets}

theorem get?_contents (b : Buffer) (key : String) : b.contents.get? key = b.value? key :=
  Table.get?_map _ _ _

theorem contains_contents (b : Buffer) (key : String) : b.contents.contains key = b.contains key :=
  Table.contains_map _ _ _

theorem contents_put (b : Buffer) (now : Moment) (key : String) (value : Octets) :
    (b.put now key value).contents = b.contents.insert key value :=
  Table.map_insert _ _ _ _

theorem contents_drop (b : Buffer) (key : String) : (b.drop key).contents = b.contents.erase key :=
  Table.map_erase _ _ _

theorem contents_touch (b : Buffer) (now : Moment) (key : String) :
    (b.touch now key).2.contents = b.contents :=
  Table.ext fun other => by rw [get?_contents, get?_contents, value?_touch]

theorem keys_eq (b : Buffer) (pattern : String) :
    b.keys pattern = (b.contents.answer (.keys pattern)).1 := by
  rw [Buffer.keys, Contents.answer]
  cases Glob.Pattern.ofText? pattern with
  | none => rfl
  | some p =>
    simp only [contents, ← Table.map_filter, Table.map_map]
    rfl

theorem step_contains {b' : Buffer} {held : Bool} (hb : b.contains key = held)
    (hentries : b'.entries = b.entries) : step now (.contains key) b' = (some held, b') := by
  rw [step, contains, hentries, ← contains, hb]

namespace Island

open Linked

abbrev Ends (now : Moment) (e : StoreError) (r : α × Bool × Island) (p : Service α)
    (n : Linked Bool) : Prop :=
  p.Meets (Linked.answer now (unreachable e)) (fun _ => True)
    (fun x n => x = some r.1 ∧ (n.remote, n.buffer.island) = r.2) n

variable {n : Linked Bool} {r : α × Bool × Island}

theorem ends_done {x : α} (h : (x, n.remote, n.buffer.island) = r) : Ends now e r (.done x) n := by
  cases h
  exact Script.meets_done ⟨rfl, rfl⟩

theorem ends_remote {c : Command} {f : c.Reply → Service α}
    (h : Ends now e r (f (.error e)) ⟨n.buffer, true⟩) :
    Ends now e r ((Buffer.remote c).bind f) n :=
  Script.meets_ask fun _ => h

theorem ends_set :
    Ends now e (b.island.call e (.command (.set key value))) (set key value) ⟨b, false⟩ := by
  have hcall : b.island.call e (.command (.set key value)) =
      (.ok (), true, ⟨(b.put now key value).contents, true⟩) := by
    rw [contents_put]
    rfl
  rw [hcall]
  exact meets_here rfl (ends_remote (meets_here rfl (ends_done rfl)))

theorem ends_setIfAbsent :
    Ends now e (b.island.call e (.command (.setIfAbsent key value))) (setIfAbsent key value)
      ⟨b, false⟩ := by
  cases hb : b.contains key with
  | true =>
    have hcall : b.island.call e (.command (.setIfAbsent key value)) =
        (.ok .existed, true, ⟨b.contents, true⟩) := by
      simp only [Island.call, island, Contents.answer, contains_contents, hb, if_true]
    rw [hcall]
    exact ends_remote (meets_here rfl (meets_here (step_contains hb rfl) (ends_done rfl)))
  | false =>
    have hcall : b.island.call e (.command (.setIfAbsent key value)) =
        (.ok .created, true, ⟨(b.put now key value).contents, true⟩) := by
      simp only [Island.call, island, Contents.answer, contains_contents, hb, contents_put]
      rfl
    rw [hcall]
    refine ends_remote (meets_here rfl (meets_here (step_contains hb rfl) ?_))
    exact meets_here rfl (ends_done rfl)

theorem ends_expire {seconds : UInt64} :
    Ends now e (b.island.call e (.command (.expire key seconds))) (expire key seconds)
      ⟨b, false⟩ :=
  ends_remote (meets_here rfl (ends_done rfl))

theorem ends_get :
    Ends now e (b.island.call e (.command (.get key))) (get key) ⟨b, false⟩ := by
  refine meets_schedule fun b' hentries hflag => meets_here (step_touch b' now key) ?_
  -- Only the moment of the last use is moved, and an island has none.
  have htouch : (b'.touch now key).2.island = b.island := by
    rw [island, contents_touch, (within_touch b' now key).flag, hflag, contents, hentries]
    rfl
  rw [value?_congr hentries]
  cases hv : b.value? key with
  | some value =>
    have hcall : b.island.call e (.command (.get key)) = (.ok (some value), false, b.island) := by
      simp only [Island.call, island, get?_contents, hv]
    rw [hcall]
    exact ends_done (congrArg (fun s => (_, false, s)) htouch)
  | none =>
    have hcall : b.island.call e (.command (.get key)) =
        (.error e, true, ⟨b.contents, true⟩) := by
      simp only [Island.call, island, get?_contents, hv]
    rw [hcall]
    refine ends_remote (meets_here rfl (ends_done ?_))
    exact congrArg (fun s : Island => (_, true, Island.mk s.held true)) htouch

theorem ends_delete :
    Ends now e (b.island.call e (.command (.delete key))) (delete key) ⟨b, false⟩ := by
  have hcall : b.island.call e (.command (.delete key)) =
      (.ok (if b.contains key then 1 else 0), true, ⟨(b.drop key).contents, true⟩) := by
    rw [contents_drop, ← contains_contents]
    rfl
  rw [hcall]
  exact meets_here rfl (ends_remote (meets_here rfl (ends_done rfl)))

theorem ends_existsKey :
    Ends now e (b.island.call e (.command (.exists key))) (existsKey key) ⟨b, false⟩ := by
  cases hb : b.contains key with
  | true =>
    have hcall : b.island.call e (.command (.exists key)) = (.ok true, false, b.island) := by
      simp only [Island.call, island, contains_contents, hb, if_true]
    rw [hcall]
    exact meets_here (step_contains hb rfl) (ends_done rfl)
  | false =>
    have hcall : b.island.call e (.command (.exists key)) = (.error e, true, b.island) := by
      simp only [Island.call, island, contains_contents, hb]
      rfl
    rw [hcall]
    exact meets_here (step_contains hb rfl) (ends_remote (ends_done rfl))

theorem ends_matching {pattern : String} :
    Ends now e (b.island.call e (.command (.keys pattern))) (matching pattern) ⟨b, false⟩ := by
  have hcall : b.island.call e (.command (.keys pattern)) =
      (b.keys pattern, true, ⟨b.contents, true⟩) := by
    rw [keys_eq]
    rfl
  rw [hcall]
  exact ends_remote (meets_here rfl (meets_here rfl (ends_done rfl)))

theorem ends_serve (c : Command) :
    Ends now e (b.island.call e (.command c)) (serve c) ⟨b, false⟩ := by
  cases c with
  | set key value => exact ends_set
  | setIfAbsent key value => exact ends_setIfAbsent
  | expire key seconds => exact ends_expire
  | get key => exact ends_get
  | delete key => exact ends_delete
  | «exists» key => exact ends_existsKey
  | keys pattern => exact ends_matching

end Island

theorem run_repairKey (ttl : UInt64) (refused : Bool) :
    (repairKey key ttl).run (Linked.answer now (unreachable e)) ⟨b, refused⟩ =
      match b.value? key with
      | some _ => (some (.error e), ⟨b, true⟩)
      | none => (some (.ok false), ⟨b, refused⟩) := by
  rw [repairKey, Script.bind_eq, Script.run_bind]
  simp only [here, Script.request, Script.run, Linked.answer, step]
  cases b.value? key with
  | some value => rfl
  | none => rfl

theorem run_repairAll (ttl : UInt64) (written : Nat) (keys : List String) (refused : Bool) :
    (repairAll ttl written keys).run (Linked.answer now (unreachable e)) ⟨b, refused⟩ =
      (some written, if keys.any b.contains then ⟨{ b with needsResync := true }, true⟩
        else ⟨b, refused⟩) := by
  induction keys with
  | nil => rfl
  | cons key rest ih =>
    rw [repairAll, Script.bind_eq, Script.run_bind, run_repairKey, List.any_cons, contains_eq]
    cases b.value? key with
    | some value => rfl
    | none => exact ih

section

variable {order : Names → List String}
variable (horder : ∀ names : Names, ∀ name ∈ names.names, name ∈ order names)

include horder

theorem any_contains (b : Buffer) :
    (order (b.entries.map fun _ => ())).any b.contains = !b.contents.isEmpty := by
  rw [Bool.eq_iff_iff, List.any_eq_true, Bool.not_eq_true', Table.isEmpty_eq_false_iff]
  simp only [contains_contents]
  constructor
  · rintro ⟨key, -, hkey⟩
    exact ⟨key, hkey⟩
  · rintro ⟨key, hkey⟩
    refine ⟨key, horder _ key ?_, hkey⟩
    rw [Table.mem_names_iff, Table.contains_map]
    exact hkey

theorem run_resyncIn (ttl : Duration) :
    (resyncIn order ttl).run (Linked.answer now (unreachable e)) ⟨b, false⟩ =
      (some 0, ⟨{ b with needsResync := !b.contents.isEmpty }, !b.contents.isEmpty⟩) := by
  refine (run_repairAll (b := { b with needsResync := false }) ttl.seconds 0
    (order (b.entries.map fun _ => ())) false).trans ?_
  rw [show contains { b with needsResync := false } = b.contains from rfl, any_contains horder]
  cases b.contents.isEmpty <;> rfl

theorem callAlone_eq {k : Call} (hk : k.evicts = false) (b : Buffer) :
    ∃ n, b.callAlone now e order k = (some (b.island.call e k).1, n) ∧
      (n.remote, n.buffer.island) = (b.island.call e k).2 := by
  cases k with
  | command c =>
    have hends : Island.Ends now e (b.island.call e (.command c)) (serve c) ⟨b, false⟩ :=
      Island.ends_serve c
    obtain ⟨hanswer, hleft⟩ := hends (Script.throughout_of_forall (fun _ => trivial) _ _)
    exact ⟨_, Prod.ext hanswer rfl, hleft⟩
  | job j background =>
    cases j with
    | expiry => cases hk
    | resync =>
      rw [callAlone, Linked.call, Call.script, run_resyncIn horder]
      cases background <;> exact ⟨_, rfl, rfl⟩

theorem outcomes_eq {calls : List (Moment × StoreError × Call)}
    (hcalls : ∀ c ∈ calls, c.2.2.evicts = false) (b : Buffer) :
    b.outcomes order calls = b.island.outcomes calls := by
  induction calls generalizing b with
  | nil => rfl
  | cons call rest ih =>
    obtain ⟨now, e, k⟩ := call
    rw [List.forall_mem_cons] at hcalls
    have hk : k.evicts = false := hcalls.1
    obtain ⟨n, hcall, hleft⟩ := callAlone_eq (e := e) horder hk b
    rw [outcomes, Island.outcomes, hcall]
    generalize b.island.call e k = r at hleft
    obtain ⟨x, refused, s⟩ := r
    cases hleft
    exact congrArg _ (ih hcalls.2 n.buffer)

theorem entries_callAlone {k : Call} (hk : k.sparesEntries = true) (b : Buffer) :
    (b.callAlone now e order k).2.buffer.entries = b.entries := by
  match k, hk with
  | .command (.expire _ _), _ => rfl
  | .job .resync background, _ =>
    rw [callAlone, Linked.call, Call.script, run_resyncIn horder]
    cases background <;> rfl

end

/-- From any state on, as long as the remote store is out of reach and nothing is evicted here, the
buffer is a map that remembers whether it has missed the remote store. -/
theorem isolated_buffer_is_a_map (order : Names → List String)
    (horder : ∀ names : Names, ∀ name ∈ names.names, name ∈ order names) (b : Buffer)
    (calls : List (Moment × StoreError × Call)) (hcalls : ∀ c ∈ calls, c.2.2.evicts = false) :
    b.outcomes order calls = b.island.outcomes calls ∧
      ∀ now e k, k.sparesEntries = true →
        (b.callAlone now e order k).2.buffer.entries = b.entries :=
  ⟨outcomes_eq horder hcalls b, fun _ _ _ hk => entries_callAlone horder hk b⟩

def chores : List (Moment × StoreError × Call) :=
  [(1, .transient "down", .command (.get "a")), (2, .transient "down", .command (.exists "z")),
    (3, .transient "down", .command (.get "z")), (4, .transient "down", .job .resync false),
    (5, .transient "lost", .command (.set "a" [2])),
    (6, .transient "lost", .command (.setIfAbsent "a" [3])),
    (7, .transient "lost", .command (.setIfAbsent "b" [4])),
    (8, .transient "lost", .command (.expire "b" 60)),
    (9, .transient "lost", .command (.keys "[ab]")), (9, .transient "lost", .command (.keys "[")),
    (10, .transient "lost", .command (.delete "a")),
    (11, .transient "lost", .command (.delete "a")), (12, .transient "lost", .job .resync true)]

theorem chores_are_done_by_a_map :
    (∀ names : Names, ∀ name ∈ names.names, name ∈ names.names) ∧
      (∀ c ∈ chores, c.2.2.evicts = false) ∧
      ((new { ttl := .ofSeconds 60 } 0).put 0 "a" [1]).outcomes Table.names chores =
        ((new { ttl := .ofSeconds 60 } 0).put 0 "a" [1]).island.outcomes chores := by
  have horder : ∀ names : Names, ∀ name ∈ names.names, name ∈ names.names := fun _ _ => id
  have hcalls : ∀ c ∈ chores, c.2.2.evicts = false := by decide
  exact ⟨horder, hcalls, (isolated_buffer_is_a_map Table.names horder _ chores hcalls).1⟩

/-- With nothing to write, a resync takes the flag down that a failed deletion has raised. -/
theorem idle_resync_lowers_the_flag :
    ((new { ttl := .ofSeconds 60 } 0).outcomes Table.names
      [(1, .transient "down", .command (.delete "k")),
        (2, .transient "down", .job .resync false)]).map (fun o => (o.refused, o.raised)) =
      [(true, true), (false, false)] := by
  decide +kernel

end SessionVault.Buffer
