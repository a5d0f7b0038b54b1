import SessionVault.Remote.Service
import SessionVault.Store.Memory

/-!
Remote calls in virtual time.  Outcomes of attempts are given beforehand; time passes only while an
attempt or a pause lasts, and alarms may cancel the calls at given moments.
-/

namespace SessionVault.Trial

structure Outcome where
  result : Except StoreError Remote.Reply
  takes : Nat := 0
  cancels : Bool := false

structure Alarm where
  moment : Moment
  /-- Whether the alarm comes first if an attempt or a pause ends at its moment. -/
  early : Bool := false

def Alarm.precedes (a : Alarm) (moment : Moment) : Bool :=
  a.moment < moment || a.early && a.moment = moment

structure Timeline where
  now : Moment
  cancelled : Bool
  alarms : List Alarm
  rung : Nat
  outcomes : List Outcome
  afterLast : Outcome
  sent : List (List Octets)

namespace Timeline

def ring (t : Timeline) (due : Alarm → Bool) : Timeline :=
  let (due, later) := t.alarms.partition due
  { t with
    cancelled := t.cancelled || !due.isEmpty
    alarms := later
    rung := t.rung + due.length }

def passTo (t : Timeline) (moment : Moment) : Timeline :=
  { t.ring (·.precedes moment) with now := moment }

/-- Lets time pass up to a moment or to the first alarm that precedes it; says whether it was the
moment. -/
def waitTo (t : Timeline) (moment : Moment) : Bool × Timeline :=
  match ((t.alarms.filter (·.precedes moment)).map (·.moment)).min? with
  | none => (true, t.passTo moment)
  | some first => (false, { t.ring (·.moment ≤ first) with now := first })

def answer : Script.Handler Remote.Act.Answer Timeline
  | .send words, t =>
    let outcome := t.outcomes.headD t.afterLast
    let t := { t with outcomes := t.outcomes.tail, sent := words :: t.sent }
    let t := t.passTo (t.now + outcome.takes)
    (some outcome.result, { t with cancelled := t.cancelled || outcome.cancels })
  | .isCancelled, t => (some t.cancelled, t)
  | .pause d, t =>
    if t.cancelled then (some false, t)
    else
      let (passed, t) := t.waitTo (t.now + d.nanoseconds)
      (some passed, t)

def perform {α : Type} (p : Remote.Link α) (t : Timeline) : Option α × Timeline := p.run answer t

end Timeline

end SessionVault.Trial
