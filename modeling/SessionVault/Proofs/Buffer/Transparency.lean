import SessionVault.Proofs.Buffer.Calls
import SessionVault.Proofs.Store.Punctual

/-!
A buffer is not noticed as long as its remote store answers.  Whatever is held here is in the remote
store too, so it does not matter which of the two is asked, nor when the jobs of the buffer run.
-/

namespace SessionVault

namespace Memory

def LiveThroughout (m : Memory) : List (Moment × Query) → Prop
  | [] => True
  | (now, q) :: rest => m.AllLive now ∧ (m.query now q).2.LiveThroughout rest

instance decidableLiveThroughout :
    (m : Memory) → (queries : List (Moment × Query)) → Decidable (m.LiveThroughout queries)
  | _, [] => .isTrue trivial
  | m, (now, q) :: rest =>
    have := decidableLiveThroughout (m.query now q).2 rest
    inferInstanceAs (Decidable (m.AllLive now ∧ _))

end Memory

namespace Buffer

def queries : List (Moment × Call) → List (Moment × Memory.Query)
  | [] => []
  | (now, .command c) :: rest => (now, .command c) :: queries rest
  | (_, .job _ _) :: rest => queries rest

namespace Linked

variable {order : Names → List String}

def replies (order : Names → List String) (n : Linked Memory) :
    List (Moment × Call) → List ((q : Memory.Query) × Option q.Answer)
  | [] => []
  | (now, .command c) :: rest =>
    let (x, n) := n.call now (Memory.answer now) order (.command c)
    ⟨.command c, x⟩ :: n.replies order rest
  | (now, .job j background) :: rest =>
    (n.call now (Memory.answer now) order (.job j background)).2.replies order rest

/-- At none of the requests that calls make has a deadline come in the remote store. -/
def LiveThroughout (order : Names → List String) (n : Linked Memory) : List (Moment × Call) → Prop
  | [] => True
  | (now, k) :: rest =>
    (k.script order n.buffer.config.ttl).Throughout (answer now (Memory.answer now))
      (·.remote.AllLive now) n ∧
    (n.call now (Memory.answer now) order k).2.LiveThroughout order rest

instance decidableLiveThroughout (order : Names → List String) :
    (n : Linked Memory) → (calls : List (Moment × Call)) → Decidable (n.LiveThroughout order calls)
  | _, [] => .isTrue trivial
  | n, (now, k) :: rest =>
    have := decidableLiveThroughout order (n.call now (Memory.answer now) order k).2 rest
    inferInstanceAs (Decidable ((k.script order n.buffer.config.ttl).Throughout
      (answer now (Memory.answer now)) (fun n => n.remote.AllLive now) n ∧ _))

/-- The remote store has these contents, and what is held here is among them. -/
structure Agrees (n : Linked Memory) (t : Contents) : Prop where
  contents : n.remote.contents = t
  value {key : String} {value : Octets} : n.buffer.value? key = some value → t.get? key = some value

variable {α β : Type} {n : Linked Memory} {t : Contents} {b : Buffer} {m : Memory} {now : Moment}
variable {key : String} {value : Octets} {post : Option α → Linked Memory → Prop}

theorem Agrees.here (h : n.Agrees t)
    (hb : ∀ {key value}, b.value? key = some value → n.buffer.value? key = some value) :
    Agrees ⟨b, n.remote⟩ t :=
  ⟨h.contents, fun hv => h.value (hb hv)⟩

theorem Agrees.remote (h : n.Agrees t) (hm : m.contents = t) : Agrees ⟨n.buffer, m⟩ t :=
  ⟨hm, h.value⟩

theorem Agrees.put (h : n.Agrees t) (now : Moment) (hm : m.contents = t.insert key value) :
    Agrees ⟨n.buffer.put now key value, m⟩ (t.insert key value) := by
  refine ⟨hm, fun {other v} hv => ?_⟩
  rw [value?_put] at hv
  rw [Table.get?_insert]
  split at hv
  · next hk => rw [if_pos hk, hv]
  · next hk => rw [if_neg hk, h.value hv]

theorem Agrees.drop (h : n.Agrees t) (hm : m.contents = t.erase key) :
    Agrees ⟨n.buffer.drop key, m⟩ (t.erase key) := by
  refine ⟨hm, fun {other v} hv => ?_⟩
  rw [value?_drop] at hv
  rw [Table.get?_erase]
  split at hv
  · cases hv
  · next hk => rw [if_neg hk, h.value hv]

abbrev Ends (now : Moment) (post : Option α → Linked Memory → Prop) (p : Service α)
    (n : Linked Memory) : Prop :=
  p.Meets (answer now (Memory.answer now)) (·.remote.AllLive now) post n

abbrev Answers (t : Contents) (now : Moment) (c : Command) (x : Option c.Reply)
    (n : Linked Memory) : Prop :=
  x = t.reply? now c ∧ n.Agrees (t.answer c).2

theorem ends_remote {c : Command} {f : c.Reply → Service α} (h : n.remote.contents = t)
    (hsome : ∀ x m, t.reply? now c = some x → m.contents = (t.answer c).2 →
      Ends now post (f x) ⟨n.buffer, m⟩)
    (hnone : ∀ m, t.reply? now c = none → m.contents = (t.answer c).2 → post none ⟨n.buffer, m⟩) :
    Ends now post ((Buffer.remote c).bind f) n := by
  refine Script.meets_ask fun hlive => ?_
  obtain ⟨hreply, hcontents⟩ := hlive.answer_eq c
  rw [h] at hreply hcontents
  simp only [answer]
  cases hx : (Memory.answer now c n.remote).1 with
  | none => exact hnone _ (hreply.symm.trans hx) hcontents
  | some x => exact hsome x _ (hreply.symm.trans hx) hcontents

theorem ends_answered {c : Command} {f : c.Reply → Service α} {x : c.Reply} {t' : Contents}
    (h : n.remote.contents = t) (hreply : t.reply? now c = some (t.answer c).1)
    (hanswer : t.answer c = (x, t'))
    (hsome : ∀ m, m.contents = t' → Ends now post (f x) ⟨n.buffer, m⟩) :
    Ends now post ((Buffer.remote c).bind f) n := by
  rw [hanswer] at hreply
  refine ends_remote h (fun y m hy hm => ?_) fun m hy => ?_
  · rw [hanswer] at hm
    rw [hreply] at hy
    exact Option.some.inj hy ▸ hsome m hm
  · rw [hreply] at hy
    cases hy

theorem ends_done {c : Command} {x : c.Reply} {t' : Contents}
    (hreply : t.reply? now c = some (t.answer c).1) (hanswer : t.answer c = (x, t'))
    (h : n.Agrees t') : Ends now (Answers t now c) (.done x) n := by
  refine Script.meets_done ⟨?_, ?_⟩
  · rw [hreply, hanswer]
  · rw [hanswer]
    exact h

theorem ends_set (h : n.Agrees t) :
    Ends now (Answers t now (.set key value)) (set key value) n := by
  refine meets_here rfl (ends_answered h.contents rfl rfl fun m hm => ?_)
  exact ends_done rfl rfl (h.put now hm)

theorem ends_setIfAbsent (h : n.Agrees t) :
    Ends now (Answers t now (.setIfAbsent key value)) (setIfAbsent key value) n := by
  cases hc : t.contains key with
  | true =>
    have hanswer : t.answer (.setIfAbsent key value) = (.ok .existed, t) := if_pos hc
    refine ends_answered h.contents rfl hanswer fun m hm => ?_
    exact ends_done rfl hanswer (h.remote hm)
  | false =>
    have hanswer : t.answer (.setIfAbsent key value) = (.ok .created, t.insert key value) :=
      if_neg (Bool.not_eq_true _ ▸ hc)
    refine ends_answered h.contents rfl hanswer fun m hm => ?_
    exact meets_here rfl (ends_done rfl hanswer (h.put now hm))

theorem ends_expire {seconds : UInt64} (h : n.Agrees t) :
    Ends now (Answers t now (.expire key seconds)) (expire key seconds) n := by
  refine ends_remote h.contents (fun x m hx hm => ?_) fun m hx hm => ⟨hx.symm, h.remote hm⟩
  have hfound := Contents.answer_of_reply? hx
  cases hfound
  exact Script.meets_done (And.intro hx.symm (h.remote hm))

theorem ends_get (h : n.Agrees t) : Ends now (Answers t now (.get key)) (get key) n := by
  refine meets_schedule fun b hentries _ => meets_here (step_touch b now key) ?_
  have hb : Agrees ⟨b, n.remote⟩ t := h.here fun hv => value?_congr hentries _ ▸ hv
  have htouch : Agrees ⟨(b.touch now key).2, n.remote⟩ t := hb.here (within_touch b now key).value
  cases hv : b.value? key with
  | some value =>
    have hanswer : t.answer (.get key) = (.ok (some value), t) := by
      rw [Contents.answer, hb.value hv]
    exact ends_done rfl hanswer htouch
  | none =>
    refine ends_answered htouch.contents rfl rfl fun m hm => ?_
    exact ends_done rfl rfl (htouch.remote hm)

theorem ends_delete (h : n.Agrees t) :
    Ends now (Answers t now (.delete key)) (delete key) n := by
  refine meets_here rfl (ends_answered h.contents rfl rfl fun m hm => ?_)
  exact ends_done rfl rfl (h.drop hm)

theorem ends_existsKey (h : n.Agrees t) :
    Ends now (Answers t now (.exists key)) (existsKey key) n := by
  refine meets_here rfl ?_
  cases hb : n.buffer.contains key with
  | true =>
    have hanswer : t.answer (.exists key) = (.ok true, t) := by
      rw [contains_eq, Option.isSome_iff_exists] at hb
      obtain ⟨value, hv⟩ := hb
      rw [Contents.answer, Table.contains, h.value hv, Option.isSome_some]
    exact ends_done rfl hanswer h
  | false =>
    refine ends_answered h.contents rfl rfl fun m hm => ?_
    exact ends_done rfl rfl (h.remote hm)

theorem ends_matching {pattern : String} (h : n.Agrees t) :
    Ends now (Answers t now (.keys pattern)) (matching pattern) n := by
  cases hp : Glob.Pattern.ofText? pattern with
  | some p =>
    have hanswer : t.answer (.keys pattern) =
        (.ok ((t.filter fun key _ => p.matches key).map fun _ => ()), t) := by
      rw [Contents.answer, hp]
    refine ends_answered h.contents rfl hanswer fun m hm => ?_
    exact ends_done rfl hanswer (h.remote hm)
  | none =>
    have hanswer : t.answer (.keys pattern) = (.error (.invalidPattern pattern), t) := by
      rw [Contents.answer, hp]
    have hkeys (b : Buffer) :
        step now (.matching pattern) b = (some (.error (.invalidPattern pattern)), b) := by
      rw [step, Buffer.keys, hp]
      rfl
    refine ends_answered h.contents rfl hanswer fun m hm => meets_here rfl (meets_here (hkeys _) ?_)
    exact ends_done rfl hanswer ((h.remote hm).here id)

theorem ends_serve (c : Command) (h : n.Agrees t) : Ends now (Answers t now c) (serve c) n := by
  cases c with
  | set key value => exact ends_set h
  | setIfAbsent key value => exact ends_setIfAbsent h
  | expire key seconds => exact ends_expire h
  | get key => exact ends_get h
  | delete key => exact ends_delete h
  | «exists» key => exact ends_existsKey h
  | keys pattern => exact ends_matching h

abbrev Keeps (t : Contents) (now : Moment) (p : Service α) (n : Linked Memory) : Prop :=
  Ends now (fun _ n => n.Agrees t) p n

theorem Keeps.bind {p : Service α} {f : α → Service β} (hp : Keeps t now p n)
    (hf : ∀ a n, n.Agrees t → Keeps t now (f a) n) : Keeps t now (p.bind f) n := by
  refine Script.meets_bind (hp.mono fun x n hn => ?_)
  cases x with
  | none => exact hn
  | some a => exact hf a n hn

theorem keeps_repair (ttl : UInt64) (passes : Nat) (h : n.Agrees t)
    (hv : n.buffer.value? key = some value) : Keeps t now (repair key ttl passes value) n := by
  cases passes with
  | zero => exact meets_here rfl (Script.meets_done (h.here id))
  | succ passes =>
    have hsame : t.answer (.set key value) = (.ok (), t) := by
      rw [Contents.answer, Table.insert_of_get? (h.value hv)]
    have hvalue : step now (.value key) n.buffer = (some (some value), n.buffer) := by
      rw [step, hv]
    refine ends_answered h.contents rfl hsame fun m hm => ?_
    refine ends_remote hm (fun x m hx hm => ?_) fun m _ hm => h.remote hm
    have hfound := Contents.answer_of_reply? hx
    cases hfound
    -- Nobody writes between the two looks at the value, so one pass is enough.
    refine meets_here hvalue ?_
    dsimp only
    rw [if_pos rfl]
    exact Script.meets_done (h.remote hm)

theorem keeps_repairKey (ttl : UInt64) (h : n.Agrees t) : Keeps t now (repairKey key ttl) n := by
  refine meets_here rfl ?_
  cases hv : n.buffer.value? key with
  | none => exact Script.meets_done h
  | some value =>
    refine Keeps.bind (keeps_repair ttl resyncPasses h hv) fun x n hn => ?_
    cases x <;> exact Script.meets_done hn

theorem keeps_repairAll (ttl : UInt64) (keys : List String) (written : Nat) (h : n.Agrees t) :
    Keeps t now (repairAll ttl written keys) n := by
  induction keys generalizing n written with
  | nil => exact Script.meets_done h
  | cons key rest ih =>
    refine Keeps.bind (keeps_repairKey ttl h) fun x n hn => ?_
    cases x with
    | error e => exact meets_here rfl (Script.meets_done (hn.here id))
    | ok held => cases held <;> exact ih _ hn

theorem keeps_resyncIn (order : Names → List String) (ttl : Duration) (h : n.Agrees t) :
    Keeps t now (resyncIn order ttl) n :=
  meets_here rfl (meets_here rfl (keeps_repairAll ttl.seconds _ 0 (h.here id)))

theorem keeps_sweep (h : n.Agrees t) : Keeps t now sweep n := by
  refine Script.meets_ask fun _ => ?_
  simp only [answer, step]
  cases idleLimit? n.buffer.config with
  | none => exact h
  | some limit => exact fun _ => h.here (within_evict n.buffer now limit).value

theorem keeps_job (order : Names → List String) (ttl : Duration) (j : Job) (background : Bool)
    (h : n.Agrees t) : Keeps t now (Call.script order ttl (.job j background)) n := by
  cases j with
  | resync => exact keeps_resyncIn order ttl h
  | expiry => exact keeps_sweep h

theorem Agrees.close (h : n.Agrees t) (k : Call) :
    Agrees { n with buffer := k.close n.buffer } t := by
  match k with
  | .job .resync true | .job .expiry true => exact h.here id
  | .command _ | .job _ false => exact h

theorem replies_eq {calls : List (Moment × Call)} {m : Memory} (h : n.Agrees m.contents)
    (hbuffered : n.LiveThroughout order calls) (hplain : m.LiveThroughout (queries calls)) :
    n.replies order calls = m.replies (queries calls) := by
  -- A resync moves deadlines, so the two stores have no more in common than their contents.
  induction calls generalizing n m with
  | nil => rfl
  | cons call rest ih =>
    obtain ⟨now, k⟩ := call
    obtain ⟨hlive, hbuffered⟩ := hbuffered
    cases k with
    | command c =>
      obtain ⟨hmlive, hplain⟩ := hplain
      obtain ⟨hreply, hagrees⟩ := ends_serve c h hlive
      obtain ⟨hmreply, hmcontents⟩ := hmlive.answer_eq c
      rw [← hmreply] at hreply
      rw [← hmcontents] at hagrees
      have hrest := ih (hagrees.close (.command c)) hbuffered hplain
      exact congr (congrArg (fun x => List.cons ⟨.command c, x⟩) hreply) hrest
    | job j background =>
      have hagrees := (keeps_job order _ j background h hlive).close (.job j background)
      exact ih hagrees hbuffered hplain

end Linked

/-- As long as no deadline comes, with a buffer or without it, every command is answered through
the buffer as by the remote store alone, whenever its jobs run. -/
theorem buffer_is_never_noticed (order : Names → List String) (config : BufferConfig)
    (start : Moment) (m : Memory) (calls : List (Moment × Call))
    (hbuffered : Linked.LiveThroughout order ⟨new config start, m⟩ calls)
    (hplain : m.LiveThroughout (queries calls)) :
    Linked.replies order ⟨new config start, m⟩ calls = m.replies (queries calls) :=
  Linked.replies_eq ⟨rfl, nofun⟩ hbuffered hplain

def errands : List (Moment × Call) :=
  [(0, .command (.set "a" [1])), (5, .command (.expire "a" 5000)),
    (10, .command (.setIfAbsent "a" [2])), (10, .command (.setIfAbsent "b" [3])),
    (20, .command (.get "a")), (30, .job .resync false), (40, .command (.exists "c")),
    (50, .command (.keys "[")), (600 * second, .command (.get "b")),
    (600 * second, .job .resync true), (3700 * second, .job .expiry false),
    (3700 * second, .command (.get "a")), (3700 * second + 1, .command (.exists "b")),
    (3700 * second + 2, .command (.keys "*")), (3700 * second + 3, .command (.delete "b")),
    (3700 * second + 4, .command (.get "b"))]

theorem errands_are_never_noticed :
    Linked.LiveThroughout Table.names
        ⟨new { ttl := .ofSeconds 3600 } 0, Memory.empty.put "c" [4]⟩ errands ∧
      (Memory.empty.put "c" [4]).LiveThroughout (queries errands) ∧
      Linked.replies Table.names
          ⟨new { ttl := .ofSeconds 3600 } 0, Memory.empty.put "c" [4]⟩ errands =
        (Memory.empty.put "c" [4]).replies (queries errands) := by
  have hbuffered : Linked.LiveThroughout Table.names
      ⟨new { ttl := .ofSeconds 3600 } 0, Memory.empty.put "c" [4]⟩ errands := by
    decide +kernel
  have hplain : (Memory.empty.put "c" [4]).LiveThroughout (queries errands) := by decide +kernel
  exact ⟨hbuffered, hplain, buffer_is_never_noticed _ _ _ _ _ hbuffered hplain⟩

end Buffer

end SessionVault
