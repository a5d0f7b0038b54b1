import SessionVault.Proofs.Buffer.Calls
import SessionVault.Proofs.Store.Planned

namespace SessionVault

namespace Buffer

theorem exists_of_getElem?_flatMap {α β : Type} {f : α → List β} {l : List α} {j : Nat} {x : β}
    (h : (l.flatMap f)[j]? = some x) :
    ∃ before a after i, l = before ++ a :: after ∧ j = (before.flatMap f).length + i ∧
      (f a)[i]? = some x := by
  induction l generalizing j with
  | nil => cases h
  | cons a l ih =>
    rw [List.flatMap_cons] at h
    by_cases hj : j < (f a).length
    · rw [List.getElem?_append_left hj] at h
      exact ⟨[], a, l, j, rfl, (Nat.zero_add j).symm, h⟩
    · rw [List.getElem?_append_right (Nat.le_of_not_lt hj)] at h
      obtain ⟨before, a', after, i, rfl, hi, hx⟩ := ih h
      refine ⟨a :: before, a', after, i, rfl, ?_, hx⟩
      rw [List.flatMap_cons, List.length_append]
      omega

def rewrites (b : Buffer) (key : String) : List Command :=
  match b.value? key with
  | none => []
  | some value => [.set key value, .expire key b.config.ttl.seconds]

/-- Among the calls from a number on were two for each of the keys, and nothing else has changed in
the remote store. -/
structure Rewritten (p : Plan) (b : Buffer) (first : Nat) (keys : List String) (m m' : Memory) :
    Prop where
  renewed {i : Nat} {key : String} {value : Octets} : keys[i]? = some key →
    b.value? key = some value → m'.entries.get? key =
      some ⟨value,
        some (p.now (first + 2 * i + 1) + (Duration.ofSeconds b.config.ttl.seconds).nanoseconds)⟩
  others {key : String} : key ∉ keys → m'.entries.get? key = m.entries.get? key

variable {p : Plan} {b : Buffer} {m m' m₁ : Memory} {calls : List Command} {key : String}
variable {value : Octets} {keys : List String} {now : Moment} {first written : Nat} {e : StoreError}

theorem rewrites_eq (h : b.value? key = some value) :
    b.rewrites key = [.set key value, .expire key b.config.ttl.seconds] := by
  simp only [rewrites, h]

theorem Rewritten.nil (p : Plan) (b : Buffer) (first : Nat) (m : Memory) :
    Rewritten p b first [] m m :=
  ⟨nofun, fun _ => rfl⟩

theorem Rewritten.cons (hkey : key ∉ keys) (h : Rewritten p b first [key] m m₁)
    (hrest : Rewritten p b (first + 2) keys m₁ m') : Rewritten p b first (key :: keys) m m' := by
  refine ⟨fun {i k value} hi hvalue => ?_, fun {k} hk => ?_⟩
  · cases i with
    | zero =>
      obtain rfl : key = k := Option.some.inj hi
      rw [hrest.others hkey]
      exact h.renewed (i := 0) rfl hvalue
    | succ i =>
      rw [hrest.renewed hi hvalue]
      congr 5
      omega
  · rw [List.mem_cons, not_or] at hk
    rw [hrest.others hk.2, h.others (fun h => hk.1 (List.mem_singleton.1 h))]

theorem step_value (h : b.value? key = some value) :
    step now (.value key) b = (some (some value), b) := by
  rw [step, h]

namespace Linked

variable {ρ : Type} {there : Script.Handler Command.Reply ρ} {r r₁ r₂ : ρ} {ttl : UInt64}

theorem run_repair {found : Bool} (hvalue : b.value? key = some value)
    (hset : there (.set key value) r = (some (.ok ()), r₁))
    (hexpire : there (.expire key ttl) r₁ = (some (.ok found), r₂)) (passes : Nat) :
    (repair key ttl (passes + 1) value).run (answer now there) ⟨b, r⟩ =
      (some (.ok ()), ⟨b, r₂⟩) := by
  rw [repair]
  refine (run_remote hset).trans ?_
  refine (run_remote hexpire).trans ?_
  refine (run_here (step_value hvalue)).trans ?_
  simp only [if_pos, Script.pure_eq, Script.run]

theorem run_repair_set (hset : there (.set key value) r = (some (.error e), r₁)) (passes : Nat) :
    (repair key ttl (passes + 1) value).run (answer now there) ⟨b, r⟩ =
      (some (.error e), ⟨b, r₁⟩) := by
  rw [repair]
  exact run_remote (n := ⟨b, r⟩) hset

theorem run_repair_expire (hset : there (.set key value) r = (some (.ok ()), r₁))
    (hexpire : there (.expire key ttl) r₁ = (some (.error e), r₂)) (passes : Nat) :
    (repair key ttl (passes + 1) value).run (answer now there) ⟨b, r⟩ =
      (some (.error e), ⟨b, r₂⟩) := by
  rw [repair]
  refine (run_remote (n := ⟨b, r⟩) hset).trans ?_
  exact run_remote (n := ⟨b, r₁⟩) hexpire

theorem run_repairKey {x : Except StoreError Unit} {n : Linked ρ}
    (hvalue : b.value? key = some value)
    (h : (repair key ttl resyncPasses value).run (answer now there) ⟨b, r⟩ = (some x, n)) :
    (repairKey key ttl).run (answer now there) ⟨b, r⟩ = (some (x.map fun _ => true), n) := by
  rw [repairKey]
  refine (run_here (step_value hvalue)).trans ?_
  simp only [Script.bind_eq, Script.run_bind, h]
  cases x <;> rfl

end Linked

theorem run_repairKey_ok (now : Moment) (hvalue : b.value? key = some value)
    (h : ∀ i c, (b.rewrites key)[i]? = some c → p.Succeeds (calls.length + i) c) (m : Memory) :
    ∃ m', (repairKey key b.config.ttl.seconds).run (Linked.answer now p.answer) ⟨b, ⟨m, calls⟩⟩ =
        (some (.ok true), ⟨b, ⟨m', calls ++ b.rewrites key⟩⟩) ∧
      Rewritten p b calls.length [key] m m' := by
  rw [rewrites_eq hvalue] at h ⊢
  have hset := Plan.answer_set (h 0 _ rfl) m key value
  have hlength : (calls ++ [Command.set key value]).length = calls.length + 1 :=
    List.length_append
  obtain ⟨m', hexpire, hentry, hothers⟩ :=
    Plan.answer_expire_put (h 1 _ rfl) hlength m value
  rw [List.append_assoc] at hexpire
  refine ⟨m', Linked.run_repairKey hvalue (Linked.run_repair hvalue hset hexpire 2), ?_, ?_⟩
  · intro i k v hi hv
    match i with
    | 0 =>
      obtain rfl : key = k := Option.some.inj hi
      obtain rfl : value = v := Option.some.inj (hvalue.symm.trans hv)
      exact hentry
  · exact fun {k} hk => hothers k fun h => hk (List.mem_singleton.2 h)

inductive Broken (ttl : UInt64) (key : String) (value : Octets) (m : Memory) :
    Command → Memory → Prop
  | set : Broken ttl key value m (.set key value) m
  | expire : Broken ttl key value m (.expire key ttl) (m.put key value)

theorem run_repairKey_broken {i : Nat} {c : Command} (now : Moment)
    (hvalue : b.value? key = some value)
    (hc : (b.rewrites key)[i]? = some c) (hfails : p.failure? (calls.length + i) = some e)
    (h : ∀ k < i, ∀ c, (b.rewrites key)[k]? = some c → p.Succeeds (calls.length + k) c)
    (m : Memory) :
    ∃ m', (repairKey key b.config.ttl.seconds).run (Linked.answer now p.answer) ⟨b, ⟨m, calls⟩⟩ =
        (some (.error e), ⟨b, ⟨m', calls ++ (b.rewrites key).take (i + 1)⟩⟩) ∧
      Broken b.config.ttl.seconds key value m c m' := by
  rw [rewrites_eq hvalue] at hc h ⊢
  match i with
  | 0 =>
    cases hc
    have hset := Plan.answer_failure (m := m) hfails (.set key value)
    exact ⟨m, Linked.run_repairKey hvalue (Linked.run_repair_set hset 2), .set⟩
  | 1 =>
    cases hc
    have hset := Plan.answer_set (h 0 Nat.zero_lt_one _ rfl) m key value
    have hlength : (calls ++ [Command.set key value]).length = calls.length + 1 :=
      List.length_append
    have hexpire := Plan.answer_failure (m := m.put key value) (hlength ▸ hfails)
      (.expire key b.config.ttl.seconds)
    rw [List.append_assoc] at hexpire
    exact ⟨_, Linked.run_repairKey hvalue (Linked.run_repair_expire hset hexpire 2), .expire⟩
  | i + 2 => cases hc

theorem run_repairAll_passes (now : Moment) (hheld : ∀ key ∈ keys, (b.value? key).isSome)
    (hnodup : keys.Nodup)
    (h : ∀ i c, (keys.flatMap b.rewrites)[i]? = some c → p.Succeeds (calls.length + i) c)
    (rest : List String) (written : Nat) (m : Memory) :
    ∃ m', (repairAll b.config.ttl.seconds written (keys ++ rest)).run (Linked.answer now p.answer)
          ⟨b, ⟨m, calls⟩⟩ =
        (repairAll b.config.ttl.seconds (written + keys.length) rest).run (Linked.answer now p.answer)
          ⟨b, ⟨m', calls ++ keys.flatMap b.rewrites⟩⟩ ∧
      Rewritten p b calls.length keys m m' := by
  induction keys generalizing calls written m with
  | nil =>
    refine ⟨m, ?_, .nil p b calls.length m⟩
    rw [List.flatMap_nil, List.append_nil]
    rfl
  | cons key keys ih =>
    rw [List.nodup_cons] at hnodup
    obtain ⟨value, hvalue⟩ := Option.isSome_iff_exists.1 (hheld key List.mem_cons_self)
    have hlength : (b.rewrites key).length = 2 := by rw [rewrites_eq hvalue]; rfl
    have hfirst : ∀ i c, (b.rewrites key)[i]? = some c → p.Succeeds (calls.length + i) c := by
      intro i c hc
      apply h
      rw [List.flatMap_cons, List.getElem?_append_left (List.getElem?_eq_some_iff.1 hc).1]
      exact hc
    obtain ⟨m₁, hrun, hkey⟩ := run_repairKey_ok now hvalue hfirst m
    have hcalls : (calls ++ b.rewrites key).length = calls.length + 2 := by
      rw [List.length_append, hlength]
    have hlater : ∀ i c, (keys.flatMap b.rewrites)[i]? = some c →
        p.Succeeds ((calls ++ b.rewrites key).length + i) c := by
      intro i c hc
      rw [hcalls, Nat.add_assoc]
      apply h
      rw [List.flatMap_cons, List.getElem?_append_right (by omega), hlength, Nat.add_sub_cancel_left]
      exact hc
    obtain ⟨m', hrest, hkeys⟩ :=
      ih (fun k hk => hheld k (List.mem_cons_of_mem _ hk)) hnodup.2 hlater (written + 1) m₁
    refine ⟨m', ?_, .cons hnodup.1 hkey (hcalls ▸ hkeys)⟩
    rw [List.cons_append, repairAll]
    simp only [Script.bind_eq, Script.run_bind, hrun]
    rw [hrest, List.flatMap_cons, List.append_assoc, List.length_cons, Nat.add_right_comm,
      Nat.add_assoc]

theorem run_repairAll_ok (now : Moment) (hheld : ∀ key ∈ keys, (b.value? key).isSome)
    (hnodup : keys.Nodup)
    (h : ∀ i c, (keys.flatMap b.rewrites)[i]? = some c → p.Succeeds i c) (m : Memory) :
    ∃ m', (repairAll b.config.ttl.seconds 0 keys).run (Linked.answer now p.answer) ⟨b, ⟨m, []⟩⟩ =
        (some keys.length, ⟨b, ⟨m', keys.flatMap b.rewrites⟩⟩) ∧
      Rewritten p b 0 keys m m' := by
  have hcalls : ∀ i c, (keys.flatMap b.rewrites)[i]? = some c →
      p.Succeeds (([] : List Command).length + i) c := by
    intro i c hc
    rw [List.length_nil, Nat.zero_add]
    exact h i c hc
  obtain ⟨m', hrun, hrewritten⟩ := run_repairAll_passes now hheld hnodup hcalls [] 0 m
  rw [List.append_nil, Nat.zero_add] at hrun
  exact ⟨m', hrun, hrewritten⟩

theorem run_repairAll_broken {n : Nat} {c : Command} (now : Moment)
    (hheld : ∀ key ∈ keys, (b.value? key).isSome) (hnodup : keys.Nodup)
    (hc : (keys.flatMap b.rewrites)[n]? = some c)
    (hfails : p.failure? n = some e)
    (h : ∀ i < n, ∀ c, (keys.flatMap b.rewrites)[i]? = some c → p.Succeeds i c) (m : Memory) :
    ∃ visited key rest value m₁ m', keys = visited ++ key :: rest ∧ b.value? key = some value ∧
      (repairAll b.config.ttl.seconds 0 keys).run (Linked.answer now p.answer) ⟨b, ⟨m, []⟩⟩ =
        (some visited.length, ⟨{ b with needsResync := true },
          ⟨m', (keys.flatMap b.rewrites).take (n + 1)⟩⟩) ∧
      Rewritten p b 0 visited m m₁ ∧ Broken b.config.ttl.seconds key value m₁ c m' := by
  obtain ⟨visited, key, rest, i, rfl, rfl, hi⟩ := exists_of_getElem?_flatMap hc
  obtain ⟨value, hvalue⟩ := Option.isSome_iff_exists.1
    (hheld key (List.mem_append_right _ List.mem_cons_self))
  rw [List.flatMap_append, List.flatMap_cons] at h ⊢
  have hvisited : ∀ j c, (visited.flatMap b.rewrites)[j]? = some c →
      p.Succeeds (([] : List Command).length + j) c := by
    intro j c hj
    have hlt := (List.getElem?_eq_some_iff.1 hj).1
    rw [List.length_nil, Nat.zero_add]
    exact h j (by omega) c ((List.getElem?_append_left hlt).trans hj)
  have hkey : ∀ k < i, ∀ c, (b.rewrites key)[k]? = some c →
      p.Succeeds ((visited.flatMap b.rewrites).length + k) c := by
    intro k hk c hc
    refine h _ (by omega) c ?_
    rw [List.getElem?_append_right (Nat.le_add_right ..), Nat.add_sub_cancel_left,
      List.getElem?_append_left (List.getElem?_eq_some_iff.1 hc).1, hc]
  obtain ⟨m₁, hpasses, hrewritten⟩ := run_repairAll_passes now
    (fun k hk => hheld k (List.mem_append_left _ hk)) (List.nodup_append.1 hnodup).1 hvisited
    (key :: rest) 0 m
  obtain ⟨m', hrun, hbroken⟩ := run_repairKey_broken now hvalue hi hfails hkey m₁
  refine ⟨visited, key, rest, value, m₁, m', rfl, hvalue, ?_, hrewritten, hbroken⟩
  have htake : (b.rewrites key ++ rest.flatMap b.rewrites).take (i + 1) =
      (b.rewrites key).take (i + 1) :=
    List.take_append_of_le_length (List.getElem?_eq_some_iff.1 hi).1
  rw [Nat.add_assoc, List.take_length_add_append, htake, hpasses, repairAll]
  simp only [Script.bind_eq, Script.run_bind, List.nil_append, hrun, Nat.zero_add]
  rfl

theorem run_resync {order : Names → List String} (b : Buffer) (r : Planned) :
    Linked.call now p.answer order (.job .resync false) ⟨b, r⟩ =
      (repairAll b.config.ttl.seconds 0 (order (b.entries.map fun _ => ()))).run
        (Linked.answer now p.answer) ⟨{ b with needsResync := false }, r⟩ :=
  rfl

/-- A resync that nobody disturbs, whatever the order in which it visits the keys, and whatever the
remote store holds.  If all its calls succeed, every value that is held here is stored there with
a whole time to live, and their number is reported.  The first call that fails ends the run: the
flag is raised again, and the keys that were visited before that are counted; those, and no others,
are stored with a whole time to live, and at most the value of the next one is stored.  Nothing
changes here but the flag. -/
theorem resync_reports_what_it_does (b : Buffer) (m : Memory) (p : Plan) (now : Moment)
    (order : Names → List String) (horder : ∀ names : Names, (order names).Perm names.names) :
    let keys := order (b.entries.map fun _ => ())
    let commands := keys.flatMap b.rewrites
    let run := Linked.call now p.answer order (.job .resync false) ⟨b, ⟨m, []⟩⟩
    (keys.Nodup ∧ ∀ key, key ∈ keys ↔ (b.value? key).isSome) ∧
    ((∀ i c, commands[i]? = some c → p.Succeeds i c) →
      ∃ m', run = (some b.entries.size, ⟨{ b with needsResync := false }, ⟨m', commands⟩⟩) ∧
        Rewritten p b 0 keys m m') ∧
    (∀ n c e, commands[n]? = some c → p.failure? n = some e →
      (∀ i < n, ∀ c, commands[i]? = some c → p.Succeeds i c) →
        ∃ visited key rest value m₁ m', keys = visited ++ key :: rest ∧
          b.value? key = some value ∧
          run = (some visited.length,
            ⟨{ b with needsResync := true }, ⟨m', commands.take (n + 1)⟩⟩) ∧
          Rewritten p b 0 visited m m₁ ∧ Broken b.config.ttl.seconds key value m₁ c m') := by
  intro keys commands run
  have hperm : keys.Perm b.entries.names :=
    Table.names_map (fun _ => ()) b.entries ▸ horder (b.entries.map fun _ => ())
  have hnodup : keys.Nodup := hperm.nodup_iff.2 (Table.nodup_names b.entries)
  have hheld : ∀ key, key ∈ keys ↔ (b.value? key).isSome := by
    intro key
    rw [hperm.mem_iff, Table.mem_names_iff, Table.contains, value?, Option.isSome_map]
  have hsize : keys.length = b.entries.size := hperm.length_eq.trans (List.length_map _)
  let lowered : Buffer := { b with needsResync := false }
  refine ⟨⟨hnodup, hheld⟩, fun h => ?_, fun n c e hc hfails h => ?_⟩
  · obtain ⟨m', hrun, hrewritten⟩ := run_repairAll_ok (b := lowered) now
      (fun key => (hheld key).1) hnodup h m
    exact ⟨m', hsize ▸ (run_resync b _).trans hrun, hrewritten.renewed, hrewritten.others⟩
  · obtain ⟨visited, key, rest, value, m₁, m', hkeys, hvalue, hrun, hrewritten, hbroken⟩ :=
      run_repairAll_broken (b := lowered) now (fun key => (hheld key).1) hnodup hc hfails h m
    exact ⟨visited, key, rest, value, m₁, m', hkeys, hvalue, (run_resync b _).trans hrun,
      ⟨hrewritten.renewed, hrewritten.others⟩, hbroken⟩

theorem last_call_of_four_fails :
    ∃ (b : Buffer) (p : Plan) (m m₁ : Memory) (value other : Octets),
      (∀ names : Names, (Table.names names).Perm names.names) ∧
      b.rewrites "A" = [.set "A" value, .expire "A" 60] ∧
      b.rewrites "B" = [.set "B" other, .expire "B" 60] ∧
      (∀ i < 3, p.failure? i = none) ∧ p.failure? 3 = some .interrupted ∧
      Linked.call 0 p.answer Table.names (.job .resync false) ⟨b, ⟨m, []⟩⟩ =
        (some 1, ⟨{ b with needsResync := true },
          ⟨m₁.put "B" other, b.rewrites "A" ++ b.rewrites "B"⟩⟩) ∧
      Rewritten p b 0 ["A"] m m₁ := by
  let b : Buffer := ((new { ttl := .ofSeconds 60 } 0).put 0 "A" [1]).put 0 "B" [2]
  let p : Plan := ⟨id, fun n => if n = 3 then some .interrupted else none⟩
  have hearlier : ∀ i < 3, ∀ c, (b.rewrites "A" ++ b.rewrites "B")[i]? = some c →
      p.Succeeds i c := by
    intro i hi c hc
    match i with
    | 0 | 2 => cases hc; rfl
    | 1 => cases hc; exact ⟨rfl, by decide⟩
  obtain ⟨-, -, hbroken⟩ :=
    resync_reports_what_it_does b .empty p 0 Table.names fun names => .refl names.names
  obtain ⟨visited, key, rest, value, m₁, m', hkeys, hvalue, hrun, hrewritten, hleft⟩ :=
    hbroken 3 (.expire "B" b.config.ttl.seconds) .interrupted rfl rfl hearlier
  cases hleft
  obtain rfl : [2] = value := Option.some.inj hvalue
  have hnames : ["A", "B"] = visited ++ "B" :: rest := hkeys
  obtain rfl : visited = ["A"] := by
    match visited with
    | [] => simp at hnames
    | [_] => rw [(List.cons.inj hnames).1]
    | _ :: _ :: _ => simp at hnames
  have httl : b.config.ttl.seconds = 60 := Duration.seconds_ofSeconds 60
  have hfirst : b.rewrites "A" = [.set "A" [1], .expire "A" 60] := httl ▸ rewrites_eq rfl
  have hsecond : b.rewrites "B" = [.set "B" [2], .expire "B" 60] := httl ▸ rewrites_eq rfl
  exact ⟨b, p, .empty, m₁, [1], [2], fun names => .refl names.names, hfirst, hsecond, by decide,
    rfl, hrun, hrewritten⟩

end Buffer

end SessionVault
