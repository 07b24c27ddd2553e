import Mathlib

/-!
# Time

An instant is a whole number of nanoseconds since the Unix epoch, which is what the clock the
program reads counts in; a duration is a number of nanoseconds.  Both are integers.  A NumericDate
is a whole number of seconds, and `unixTimestamp` rounds an instant down to one.
-/

namespace AsteriusIdp

/-- So many seconds, in nanoseconds. -/
def seconds (n : ℤ) : ℤ := n * 1000000000

/-- The instant of a NumericDate. -/
def fromUnixTimestamp (n : ℤ) : ℤ := seconds n

/-- `OffsetDateTime::from_unix_timestamp`, which knows the years -9999 to 9999. -/
def checkedFromUnixTimestamp (n : ℤ) : Option ℤ :=
  if -377705116800 ≤ n ∧ n ≤ 253402300799 then some (fromUnixTimestamp n) else none

theorem checkedFromUnixTimestamp_eq_some {n t : ℤ}
    (h : checkedFromUnixTimestamp n = some t) : t = seconds n := by
  unfold checkedFromUnixTimestamp fromUnixTimestamp at h
  split_ifs at h
  exact (Option.some.inj h).symm

/-- The whole second an instant falls into. -/
def unixTimestamp (t : ℤ) : ℤ := t / 1000000000

theorem unixTimestamp_le_iff {t n : ℤ} : unixTimestamp t ≤ n ↔ t < seconds (n + 1) := by
  unfold unixTimestamp seconds
  omega

theorem unixTimestamp_mono {t t' : ℤ} (h : t ≤ t') : unixTimestamp t ≤ unixTimestamp t' := by
  unfold unixTimestamp
  omega

@[simp] theorem unixTimestamp_seconds (n : ℤ) : unixTimestamp (seconds n) = n := by
  unfold unixTimestamp seconds
  omega

end AsteriusIdp
