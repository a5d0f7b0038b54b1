import SessionVault.Proofs.Buffer.Timed
import SessionVault.Proofs.Store.Lapse

namespace SessionVault

namespace Buffer

def Act.writes (key : String) : Act → Bool
  | .here (.put other _) => other = key
  | .remote c => c.writes key
  | _ => false

def Call.writes (key : String) : Call → Bool
  | .command c => c.writes key
  | .job _ _ => false

theorem Act.writes_of_serves {r : Act} {c : Command} {key : String} (hc : c.writes key = false)
    (h : r.serves c = true) : r.writes key = false := by
  cases r with
  | start job => rfl
  | remote other =>
    obtain rfl : other = c := of_decide_eq_true h
    exact hc
  | here s =>
    cases s with
    | put other value =>
      refine decide_eq_false fun hk => ?_
      subst hk
      exact nomatch hc.symm.trans h
    | _ => rfl

theorem Act.writes_of_repairs {r : Act} {key other : String} (hk : other ≠ key)
    (h : r.repairs other = true) : r.writes key = false := by
  cases r with
  | start job => rfl
  | remote c =>
    cases c with
    | set name value =>
      obtain rfl : name = other := of_decide_eq_true h
      exact decide_eq_false hk
    | setIfAbsent => cases h
    | _ => rfl
  | here s =>
    cases s with
    | put => cases h
    | _ => rfl

theorem value?_step_of_not_writes {s : Step} {now : Moment} {b b' : Buffer} {x : s.Answer}
    {key : String} (hs : (Act.here s).writes key = false) (h : step now s b = (some x, b'))
    (hb : b.value? key = none) : b'.value? key = none := by
  cases s with
  | put other value =>
    cases h
    exact (value?_put ..).trans ((if_neg (of_decide_eq_false hs)).trans hb)
  | flag raised =>
    cases h
    exact hb
  | touch | value | contains | matching | names | schedule | drop | evict =>
    refine Option.eq_none_iff_forall_ne_some.2 fun value hv => ?_
    exact nomatch hb.symm.trans ((step_within rfl h).value hv)

namespace Timed

variable {ρ α : Type} {R : Moment → Script.Rules Command.Reply ρ}
variable {look : ρ → Moment → String → Option Octets} {order : Names → List String}
variable {key : String} {held : Option Octets} {n n' : Timed ρ} {log log' : Log ρ}

def Removes (key : String) : Event ρ → Bool
  | ⟨.remote (.delete other), .ok _, _⟩ => other = key
  | _ => false

/-- Nothing is held of the key, but for what the remote store held when it was told, in vain, to
delete the key. -/
structure Gone (look : ρ → Moment → String → Option Octets) (key : String) (held : Option Octets)
    (s : Timed ρ × Log ρ) : Prop where
  here : s.1.buffer.value? key = none
  there : AtMost (look s.1.remote s.1.now key) (if s.2.any (Removes key) then none else held)

theorem after_of_not_writes {c : Command} (hc : c.writes key = false) (x : c.Reply)
    (n : Timed ρ) (held : Option Octets) :
    c.after key x held = if Removes key ⟨.remote c, x, n⟩ then none else held := by
  cases c with
  | set other value =>
    have hk : ¬ other = key := of_decide_eq_false hc
    cases x with
    | ok => exact if_neg hk
    | error e => rfl
  | setIfAbsent other value =>
    have hk : ¬ other = key := of_decide_eq_false hc
    cases x with
    | ok claim =>
      cases claim with
      | created => exact if_neg hk
      | existed => rfl
    | error e => rfl
  | delete other =>
    cases x with
    | ok count => simp only [Command.after, Removes, decide_eq_true_eq]
    | error e => rfl
  | expire | get | «exists» | keys => cases x <;> rfl

variable {s s' : Timed ρ × Log ρ}

theorem Gone.act (hR : Lapsing R look) {r : Act} {x : r.Answer} (hr : r.writes key = false)
    (hx : Recorded R r s x s') (hs : Gone look key held s) : Gone look key held s' := by
  obtain ⟨n, log⟩ := s
  obtain ⟨n', log'⟩ := s'
  obtain ⟨hx, hlog⟩ := hx
  obtain rfl : log' = ⟨r, x, n'⟩ :: log := hlog
  cases r with
  | start job =>
    obtain rfl : n' = n := hx
    exact ⟨hs.here, hs.there⟩
  | here step =>
    obtain ⟨hle, hstep, hremote⟩ := hx
    refine ⟨value?_step_of_not_writes hr hstep hs.here, ?_⟩
    have hlater := (hR.later n.remote key hle).trans hs.there
    rw [← hremote] at hlater
    exact hlater
  | remote c =>
    obtain ⟨hle, hcall, hbuffer⟩ := hx
    refine ⟨(congrArg (·.value? key) hbuffer).trans hs.here, ?_⟩
    have hclocked : Clocked R c (n.now, n.remote) x (n'.now, n'.remote) := ⟨hle, hcall⟩
    have hafter := hR.clocked hclocked hs.there
    rw [after_of_not_writes hr x n'] at hafter
    dsimp only
    rw [List.any_cons]
    cases hremoves : Removes key ⟨.remote c, x, n'⟩ <;> rw [hremoves] at hafter <;> exact hafter

theorem Gone.asks (hR : Lapsing R look) {p : Service α} (hp : p.Asks (·.writes key = false))
    (hs : Gone look key held s) : p.Ensures (Recorded R) (fun _ => Gone look key held) s :=
  hp.ensures (fun _ _ _ _ hr hx hs => hs.act hR hr hx) hs

theorem Gone.serve (hR : Lapsing R look) {c : Command} (hc : c.writes key = false)
    (hs : Gone look key held s) :
    (Buffer.serve c).Ensures (Recorded R) (fun _ => Gone look key held) s :=
  hs.asks hR ((asks_serve c).mono fun _ => Act.writes_of_serves hc)

theorem Gone.repairKey (hR : Lapsing R look) (other : String) (ttl : UInt64)
    (hs : Gone look key held s) :
    (Buffer.repairKey other ttl).Ensures (Recorded R) (fun _ => Gone look key held) s := by
  by_cases hk : other = key
  · subst hk
    intro x s' hx
    have hnone : x = none := by
      obtain ⟨-, hstep, -⟩ := hx.1
      exact (Option.some.inj (congrArg Prod.fst hstep)).symm.trans hs.here
    rw [hnone] at hx ⊢
    exact hs.act hR rfl hx
  · exact hs.asks hR ((asks_repairKey other ttl).mono fun _ => Act.writes_of_repairs hk)

theorem Gone.repairAll (hR : Lapsing R look) (keys : List String) (ttl : UInt64) (written : Nat)
    (hs : Gone look key held s) :
    (Buffer.repairAll ttl written keys).Ensures (Recorded R) (fun _ => Gone look key held) s := by
  induction keys generalizing written s with
  | nil => exact hs
  | cons other rest ih =>
    refine Script.ensures_bind.2 ((hs.repairKey hR other ttl).mono fun x s' hs' => ?_)
    cases x with
    | error e => exact fun x s'' hx => hs'.act hR rfl hx
    | ok repaired => cases repaired <;> exact ih _ hs'

theorem Gone.script (hR : Lapsing R look) (order : Names → List String) (ttl : Duration) {k : Call}
    (hk : k.writes key = false) (hs : Gone look key held s) :
    (k.script order ttl).Ensures (Recorded R) (fun _ => Gone look key held) s := by
  match k with
  | .command c => exact hs.serve hR hk
  | .job .expiry _ => exact fun x s' hx => hs.act hR rfl hx
  | .job .resync _ =>
    intro x s₁ hflag names s₂ hnames
    exact ((hs.act hR rfl hflag).act hR rfl hnames).repairAll hR (order names) ttl.seconds 0

theorem value?_close (k : Call) (b : Buffer) (key : String) :
    (k.close b).value? key = b.value? key := by
  match k with
  | .command _ | .job _ false => rfl
  | .job .resync true | .job .expiry true => rfl

theorem Gone.calls (hR : Lapsing R look) (hcalls : Calls R order (·.writes key = false) s s')
    (hs : Gone look key held s) : Gone look key held s' := by
  induction hcalls with
  | start => exact hs
  | call k _ hk hrun ih =>
    have hend := hrun.ensures (ih.script hR order _ hk)
    exact ⟨(value?_close k _ key).trans hend.here, hend.there⟩

theorem ensures_delete_gone (hR : Lapsing R look) (key : String) (n : Timed ρ) :
    (Buffer.serve (.delete key)).Ensures (Recorded R)
      (fun _ => Gone look key (look n.remote n.now key)) (n, []) := by
  have hasks : (Buffer.serve (.delete key)).Asks (·.writes key = false) :=
    (asks_serve (.delete key)).mono fun _ => Act.writes_of_serves rfl
  rintro dropped ⟨n₁, log⟩ ⟨⟨hle, hstep, hremote⟩, hlog⟩
  obtain rfl : log = [⟨.here (.drop key), dropped, n₁⟩] := hlog
  have hbuffer : n₁.buffer = n.buffer.drop key := (congrArg Prod.snd hstep).symm
  refine Gone.asks hR (hasks.2 dropped) ⟨?_, ?_⟩
  · exact (congrArg (·.value? key) hbuffer).trans ((value?_drop ..).trans (if_pos rfl))
  · have hlater : AtMost (look n₁.remote n₁.now key) (look n.remote n.now key) := by
      rw [hremote]
      exact hR.later n.remote key hle
    exact hlater

theorem Gone.get (hR : Lapsing R look) (hs : Gone look key held s) :
    (Buffer.serve (.get key)).Ensures (Recorded R)
      (fun x s' => Gone look key held s' ∧
        ((∃ e, x = .error e) ∨ x = .ok (look s'.1.remote s'.1.now key))) s := by
  intro jobs s₁ hschedule
  have hs₁ := hs.act hR rfl hschedule
  have hjobs : (startAll jobs).Asks (·.writes key = false) := asks_startAll (fun _ => rfl) jobs
  simp only [Script.done_bind, Script.bind_eq]
  refine Script.ensures_bind.2 ((hs₁.asks hR hjobs).mono fun _ s₂ hs₂ => ?_)
  intro value s₃ htouch
  have hs₃ := hs₂.act hR rfl htouch
  have hmiss : value = none := by
    obtain ⟨-, hstep, -⟩ := htouch.1
    rw [step_touch, hs₂.here] at hstep
    exact (Option.some.inj (congrArg Prod.fst hstep)).symm
  subst hmiss
  intro x s₄ hremote
  have hs₄ := hs₃.act hR rfl hremote
  obtain ⟨⟨-, hcall, -⟩, -⟩ := hremote
  cases x with
  | error e => exact fun _ s₅ hflag => ⟨hs₄.act hR rfl hflag, .inl ⟨e, rfl⟩⟩
  | ok value => exact ⟨hs₄, .inr (congrArg Except.ok (hR.got hcall))⟩

/-- After the deletion of a key, until it is written again, whatever else is done and however the
remote store fails: nothing is held here of the key; the remote store holds at most what it held
before, and nothing once it has answered a deletion; and who asks gets what the remote store holds.
A resync changes nothing of that. -/
theorem deleted_key_is_left_to_the_remote_store (hR : Lapsing R look) (order : Names → List String)
    (key : String) {n n' : Timed ρ} {x : Except StoreError UInt64} {s : Timed ρ × Log ρ}
    {log : Log ρ} (hdelete : (Buffer.serve (.delete key)).Runs (Recorded R) (n, []) x s)
    (hcalls : Calls R order (·.writes key = false) s (n', log)) :
    n'.buffer.value? key = none ∧
      AtMost (look n'.remote n'.now key)
        (if log.any (Removes key) then none else look n.remote n.now key) ∧
      ∀ y n'' log', (Buffer.serve (.get key)).Runs (Recorded R) (n', log) y (n'', log') →
        ((∃ e, y = .error e) ∨ y = .ok (look n''.remote n''.now key)) ∧
        AtMost (look n''.remote n''.now key)
          (if log'.any (Removes key) then none else look n.remote n.now key) := by
  have hgone := (hdelete.ensures (ensures_delete_gone hR key n)).calls hR hcalls
  refine ⟨hgone.here, hgone.there, fun y n'' log' hget => ?_⟩
  obtain ⟨hgone', hy⟩ := hget.ensures (hgone.get hR)
  exact ⟨hy, hgone'.there⟩

theorem key_deleted_again_is_gone :
    ∃ x s n' log,
      (Buffer.serve (.delete "a")).Runs (Recorded Memory.Serves)
        (⟨0, .new { ttl := .ofSeconds 60 } 0, .put .empty "a" [1]⟩, []) x s ∧
      Calls Memory.Serves Table.names (·.writes "a" = false) s (n', log) ∧
      n'.buffer.value? "a" = none ∧ n'.remote.value? n'.now "a" = none := by
  let b : Buffer := .new { ttl := .ofSeconds 60 } 0
  let flagged : Buffer := { b with needsResync := true }
  let start : Timed Memory := ⟨0, b, .put .empty "a" [1]⟩
  let missed : Timed Memory := ⟨0, flagged, .put .empty "a" [1]⟩
  let deleted : Timed Memory := ⟨0, flagged, .empty⟩
  let settled : Timed Memory := ⟨0, b, .empty⟩
  have hdrop : Acts Memory.Serves (.here (.drop "a")) start false start := ⟨Nat.le_refl 0, rfl, rfl⟩
  have hfail : Acts Memory.Serves (.remote (.delete "a")) start (.error .interrupted) start :=
    ⟨Nat.le_refl 0, .inr ⟨⟨_, rfl⟩, rfl⟩, rfl⟩
  have hflag : Acts Memory.Serves (.here (.flag true)) start () missed := ⟨Nat.le_refl 0, rfl, rfl⟩
  have hdrop' : Acts Memory.Serves (.here (.drop "a")) missed false missed :=
    ⟨Nat.le_refl 0, rfl, rfl⟩
  have hdelete : Acts Memory.Serves (.remote (.delete "a")) missed (.ok 1) deleted :=
    ⟨Nat.le_refl 0, .inl rfl, rfl⟩
  have hlower : Acts Memory.Serves (.here (.flag false)) deleted () settled :=
    ⟨Nat.le_refl 0, rfl, rfl⟩
  have hnames : Acts Memory.Serves (.here .names) settled .empty settled :=
    ⟨Nat.le_refl 0, rfl, rfl⟩
  let failed : Log Memory := [⟨.here (.flag true), (), missed⟩,
    ⟨.remote (.delete "a"), .error .interrupted, start⟩, ⟨.here (.drop "a"), false, start⟩]
  let again : Log Memory :=
    ⟨.remote (.delete "a"), .ok 1, deleted⟩ :: ⟨.here (.drop "a"), false, missed⟩ :: failed
  let log : Log Memory :=
    ⟨.here .names, .empty, settled⟩ :: ⟨.here (.flag false), (), settled⟩ :: again
  have hrun : (Buffer.serve (.delete "a")).Runs (Recorded Memory.Serves) (start, []) (.ok 0)
      (missed, failed) :=
    Script.runs_logged_ask hdrop
      (Script.runs_logged_ask hfail (Script.runs_logged_ask hflag (.done _ _)))
  have hagain : (Buffer.serve (.delete "a")).Runs (Recorded Memory.Serves) (missed, failed) (.ok 1)
      (deleted, again) :=
    Script.runs_logged_ask hdrop' (Script.runs_logged_ask hdelete (.done _ _))
  have hresync : (resyncIn Table.names (.ofSeconds 60)).Runs (Recorded Memory.Serves)
      (deleted, again) 0 (settled, log) :=
    Script.runs_logged_ask hlower (Script.runs_logged_ask hnames (.done _ _))
  have hdeleted : Calls Memory.Serves Table.names (·.writes "a" = false) (missed, failed)
      (deleted, again) :=
    .call (.command (.delete "a")) .start (Eq.refl false) hagain
  have hcalls : Calls Memory.Serves Table.names (·.writes "a" = false) (missed, failed)
      (settled, log) :=
    .call (.job .resync false) hdeleted (Eq.refl false) hresync
  obtain ⟨hhere, hthere, -⟩ := deleted_key_is_left_to_the_remote_store Memory.lapsing_serves
    Table.names "a" hrun hcalls
  have hremoved : log.any (Removes "a") = true := rfl
  rw [if_pos hremoved] at hthere
  exact ⟨_, _, settled, log, hrun, hcalls, hhere, hthere.elim id id⟩

/-- A key that is deleted during an outage is back afterwards, and no flag is up for it. -/
theorem deleted_key_comes_back :
    ∃ n₁ n₂ n₃ n₄ log₁ log₂ log₃ log₄,
      (Buffer.serve (.set "a" [1])).Runs (Recorded Memory.Serves)
        (⟨0, .new { ttl := .ofSeconds 60 } 0, .empty⟩, []) (.ok ()) (n₁, log₁) ∧
      (Buffer.serve (.delete "a")).Runs (Recorded Memory.Serves) (n₁, log₁) (.ok 1) (n₂, log₂) ∧
      (resyncIn Table.names (.ofSeconds 60)).Runs (Recorded Memory.Serves) (n₂, log₂) 0 (n₃, log₃) ∧
      n₃.buffer.needsResync = false ∧
      (Buffer.serve (.get "a")).Runs (Recorded Memory.Serves) (n₃, log₃) (.ok (some [1]))
        (n₄, log₄) := by
  let b : Buffer := .new { ttl := .ofSeconds 60 } 0
  let start : Timed Memory := ⟨0, b, .empty⟩
  let held : Timed Memory := ⟨0, b.put 0 "a" [1], .empty⟩
  let stored : Timed Memory := ⟨0, b.put 0 "a" [1], .put .empty "a" [1]⟩
  let dropped : Timed Memory := ⟨0, b, .put .empty "a" [1]⟩
  let missed : Timed Memory := ⟨0, { b with needsResync := true }, .put .empty "a" [1]⟩
  have hput : Acts Memory.Serves (.here (.put "a" [1])) start () held := ⟨Nat.le_refl 0, rfl, rfl⟩
  have hset : Acts Memory.Serves (.remote (.set "a" [1])) held (.ok ()) stored :=
    ⟨Nat.le_refl 0, .inl rfl, rfl⟩
  have hdrop : Acts Memory.Serves (.here (.drop "a")) stored true dropped :=
    ⟨Nat.le_refl 0, rfl, rfl⟩
  have hfail : Acts Memory.Serves (.remote (.delete "a")) dropped (.error .interrupted) dropped :=
    ⟨Nat.le_refl 0, .inr ⟨⟨_, rfl⟩, rfl⟩, rfl⟩
  have hflag : Acts Memory.Serves (.here (.flag true)) dropped () missed :=
    ⟨Nat.le_refl 0, rfl, rfl⟩
  have hlower : Acts Memory.Serves (.here (.flag false)) missed () dropped :=
    ⟨Nat.le_refl 0, rfl, rfl⟩
  have hnames : Acts Memory.Serves (.here .names) dropped .empty dropped :=
    ⟨Nat.le_refl 0, rfl, rfl⟩
  have hjobs : Acts Memory.Serves (.here .schedule) dropped [] dropped := ⟨Nat.le_refl 0, rfl, rfl⟩
  have htouch : Acts Memory.Serves (.here (.touch "a")) dropped none dropped :=
    ⟨Nat.le_refl 0, rfl, rfl⟩
  have hget : Acts Memory.Serves (.remote (.get "a")) dropped (.ok (some [1])) dropped :=
    ⟨Nat.le_refl 0, .inl rfl, rfl⟩
  exact ⟨stored, missed, dropped, dropped, _, _, _, _,
    Script.runs_logged_ask hput (Script.runs_logged_ask hset (.done _ _)),
    Script.runs_logged_ask hdrop
      (Script.runs_logged_ask hfail (Script.runs_logged_ask hflag (.done _ _))),
    Script.runs_logged_ask hlower (Script.runs_logged_ask hnames (.done _ _)), rfl,
    Script.runs_logged_ask hjobs
      (Script.runs_logged_ask htouch (Script.runs_logged_ask hget (.done _ _)))⟩

end Timed

end Buffer

end SessionVault
