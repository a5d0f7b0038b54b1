namespace SessionVault

def second : Nat := 1000000000

/-- A span of time, whose whole seconds fit into 64 bits. -/
structure Duration where
  nanoseconds : Nat
  bounded : nanoseconds < 0x10000000000000000 * second
  deriving DecidableEq

namespace Duration

def ofSeconds (n : UInt64) : Duration :=
  ⟨second * n.toNat, by
    rw [Nat.mul_comm]
    exact Nat.mul_lt_mul_of_pos_right n.toNat_lt (by decide)⟩

def seconds (d : Duration) : UInt64 := UInt64.ofNat (d.nanoseconds / second)

def add? (d e : Duration) : Option Duration :=
  if h : d.nanoseconds + e.nanoseconds < 0x10000000000000000 * second then
    some ⟨d.nanoseconds + e.nanoseconds, h⟩
  else none

@[simp] theorem seconds_ofSeconds (n : UInt64) : (ofSeconds n).seconds = n := by
  rw [seconds, ofSeconds, Nat.mul_div_cancel_left _ (by decide), UInt64.ofNat_toNat]

theorem ofSeconds_pos {n : UInt64} (h : n ≠ 0) : 0 < (ofSeconds n).nanoseconds :=
  Nat.mul_pos (by decide) (Nat.pos_of_ne_zero fun hz => h (UInt64.toNat_inj.1 hz))

theorem ofSeconds_le_iff {m n : UInt64} :
    (ofSeconds m).nanoseconds ≤ (ofSeconds n).nanoseconds ↔ m ≤ n := by
  rw [ofSeconds, ofSeconds, Nat.mul_le_mul_left_iff (by decide), ← UInt64.le_iff_toNat_le]

theorem nanoseconds_add? {d e sum : Duration} (h : d.add? e = some sum) :
    sum.nanoseconds = d.nanoseconds + e.nanoseconds := by
  rw [add?] at h
  split at h
  · cases h
    rfl
  · cases h

end Duration

/-- A point of time in nanoseconds since the origin of a clock that never goes back. -/
abbrev Moment := Nat

namespace Moment

/-- The clock counts less than `2 ^ 63` seconds. -/
def limit : Nat := 0x8000000000000000 * second

def later? (now : Moment) (seconds : UInt64) : Option Moment :=
  let moment := now + (Duration.ofSeconds seconds).nanoseconds
  if moment < limit then some moment else none

theorem later?_eq_some {now : Moment} {seconds : UInt64}
    (h : now + (Duration.ofSeconds seconds).nanoseconds < limit) :
    later? now seconds = some (now + (Duration.ofSeconds seconds).nanoseconds) :=
  if_pos h

theorem eq_of_later? {now deadline : Moment} {seconds : UInt64}
    (h : later? now seconds = some deadline) :
    deadline = now + (Duration.ofSeconds seconds).nanoseconds := by
  simp only [later?] at h
  split at h
  · cases h
    rfl
  · cases h

end Moment

end SessionVault
