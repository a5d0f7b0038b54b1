import SessionVault.Buffer.Service
import SessionVault.Proofs.Script

namespace SessionVault

def Command.writes (key : String) : Command → Bool
  | .set other _ | .setIfAbsent other _ => other = key
  | _ => false

namespace Buffer

def Act.serves (c : Command) : Act → Bool
  | .here (.put key _) => c.writes key
  | .here (.flag raised) => raised
  | .here (.value _) | .here .names | .here .evict => false
  | .remote other => other = c
  | _ => true

def Act.PartOf (c : Command) : Act → Prop
  | .here (.put key value) => c = .set key value ∨ c = .setIfAbsent key value
  | .here (.touch key) => c = .get key
  | .here (.drop key) => c = .delete key
  | .here (.flag raised) => raised = true
  | .here (.value _) | .here .names | .here .evict => False
  | .remote other => other = c
  | _ => True

def Act.repairs (key : String) : Act → Bool
  | .here (.value other) | .remote (.set other _) | .remote (.expire other _) => other = key
  | .here (.flag raised) => raised
  | _ => false

theorem asks_startAll {ok : Act → Prop} (hok : ∀ job, ok (.start job)) (jobs : List Job) :
    (startAll jobs).Asks ok := by
  induction jobs with
  | nil => trivial
  | cons job rest ih => exact ⟨hok job, fun _ => ih⟩

theorem asks_degrade {α : Type} (c : Command) (a : α) :
    (degrade.bind fun _ => .done a).Asks (·.PartOf c) :=
  ⟨rfl, fun _ => trivial⟩

theorem asks_partOf (c : Command) : (serve c).Asks (·.PartOf c) := by
  cases c with
  | set key value =>
    refine ⟨.inl rfl, fun _ => ⟨rfl, fun x => ?_⟩⟩
    cases x with
    | ok => trivial
    | error e => exact asks_degrade _ _
  | setIfAbsent key value =>
    refine ⟨rfl, fun x => ?_⟩
    cases x with
    | ok claim =>
      cases claim with
      | existed => trivial
      | created => exact ⟨.inr rfl, fun _ => trivial⟩
    | error e =>
      refine ⟨rfl, fun _ => ⟨trivial, fun held => ?_⟩⟩
      cases held with
      | true => trivial
      | false => exact ⟨.inr rfl, fun _ => trivial⟩
  | expire key seconds =>
    refine ⟨rfl, fun x => ?_⟩
    cases x with
    | ok => trivial
    | error e => exact asks_degrade _ _
  | get key =>
    refine ⟨trivial, fun jobs => (asks_startAll (fun _ => trivial) jobs).bind fun _ =>
      ⟨rfl, fun value => ?_⟩⟩
    cases value with
    | some value => trivial
    | none =>
      refine ⟨rfl, fun x => ?_⟩
      cases x with
      | ok => trivial
      | error e => exact asks_degrade _ _
  | delete key =>
    refine ⟨rfl, fun _ => ⟨rfl, fun x => ?_⟩⟩
    cases x with
    | ok => trivial
    | error e => exact asks_degrade _ _
  | «exists» key =>
    refine ⟨trivial, fun held => ?_⟩
    cases held with
    | true => trivial
    | false => exact ⟨rfl, fun _ => trivial⟩
  | keys pattern =>
    refine ⟨rfl, fun x => ?_⟩
    cases x with
    | ok => trivial
    | error e => exact ⟨rfl, fun _ => ⟨trivial, fun _ => trivial⟩⟩

theorem Act.serves_of_partOf {c : Command} {r : Act} (h : r.PartOf c) : r.serves c = true := by
  match r with
  | .here (.put key value) => obtain rfl | rfl := h <;> exact decide_eq_true rfl
  | .here (.flag raised) => exact h
  | .remote other => exact decide_eq_true h
  | .here (.touch _) | .here (.drop _) | .here (.contains _) | .here (.matching _)
  | .here .schedule | .start _ => rfl

theorem asks_serve (c : Command) : (serve c).Asks (·.serves c) :=
  (asks_partOf c).mono fun _ => Act.serves_of_partOf

theorem asks_repair (key : String) (ttl : UInt64) (passes : Nat) (value : Octets) :
    (repair key ttl passes value).Asks (·.repairs key) := by
  induction passes generalizing value with
  | zero => exact ⟨rfl, fun _ => trivial⟩
  | succ passes ih =>
    refine ⟨decide_eq_true rfl, fun x => ?_⟩
    cases x with
    | error e => trivial
    | ok =>
      refine ⟨decide_eq_true rfl, fun x => ?_⟩
      cases x with
      | error e => trivial
      | ok found =>
        refine ⟨decide_eq_true rfl, fun x => ?_⟩
        cases x with
        | none => trivial
        | some current =>
          simp only [Script.done_bind]
          split
          · trivial
          · exact ih current

theorem asks_repairKey (key : String) (ttl : UInt64) :
    (repairKey key ttl).Asks (·.repairs key) := by
  refine ⟨decide_eq_true rfl, fun x => ?_⟩
  cases x with
  | none => trivial
  | some value =>
    refine (asks_repair key ttl resyncPasses value).bind fun r => ?_
    cases r <;> trivial

end Buffer

end SessionVault
