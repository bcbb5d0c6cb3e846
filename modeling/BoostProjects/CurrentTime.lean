import BoostProjects.Cpp.Str
import Mathlib.Algebra.Ring.Nat

/-!
# The time stamps of the logs

Two functions print the current time up to the microsecond. That of Beast reads
the clock once; that of the Asio experiments reads it twice, and takes the fraction
of a second from the first reading and the second itself from the other.

What is printed is an instant between the two readings exactly if the fraction has
not gone back in between: `truthful_iff`.
-/

namespace BoostProjects.CurrentTime

open Cpp

/-! ## The program

A `system_clock::time_point` is a number of nanoseconds from the epoch on. -/

/-- `std::chrono::system_clock::to_time_t` -/
def toTimeT (t : ℕ) : ℕ := t / 10 ^ 9

/-- `duration_cast<microseconds>` of the time since the epoch. -/
def inMicroseconds (t : ℕ) : ℕ := t / 1000

/-- `std::setfill('0') << std::setw(width) << n` -/
def filled (width n : ℕ) : Str :=
  List.replicate (width - (Nat.toDigits 10 n).length) '0' ++ Nat.toDigits 10 n

section Zone

-- `std::put_time(std::localtime(&time), "%a %b %d %Y %T")`.
variable (putTime : ℕ → Str)

/-- `Experiments::getCurrentTime`, with what the clock returns on the first and on the
second call. -/
def Experiments.getCurrentTime (first second : ℕ) : Str :=
  let now := first
  let inTimeT := toTimeT second
  let nowMs := inMicroseconds now % 1000000
  putTime inTimeT ++ '.' :: filled 6 nowMs

/-- `Utilities::getCurrentTime`, which reads the clock once. -/
def Utilities.getCurrentTime (now : ℕ) : Str :=
  let inTimeT := toTimeT now
  let nowMs := inMicroseconds now % 1000000
  putTime inTimeT ++ '.' :: filled 6 nowMs

/-- An instant in microseconds, as it is printed. -/
def stamp (instant : ℕ) : Str :=
  putTime (instant / 1000000) ++ '.' :: filled 6 (instant % 1000000)

/-- What is printed is an instant between the readings, the first one truncated to
microseconds. -/
def Truthful (first second : ℕ) : Prop :=
  ∃ instant, Experiments.getCurrentTime putTime first second = stamp putTime instant ∧
    inMicroseconds first ≤ instant ∧ instant * 1000 ≤ second

end Zone

/-! ## Printed numbers -/

/-- The zeros in front do not change a number. -/
theorem ofDigitChars_filled (width n : ℕ) : Nat.ofDigitChars 10 (filled width n) 0 = n := by
  rw [filled, Nat.ofDigitChars_append, Nat.ofDigitChars_replicate_zero, Nat.mul_zero,
    Nat.ofDigitChars_ten_toDigits]

theorem filled_injective (width : ℕ) : Function.Injective (filled width) := by
  intro m n h
  rw [← ofDigitChars_filled width m, h, ofDigitChars_filled]

theorem length_filled {n : ℕ} (h : n < 1000000) : (filled 6 n).length = 6 := by
  have hdigits : (Nat.toDigits 10 n).length ≤ 6 :=
    (Nat.length_toDigits_le_iff (by decide) (by decide)).mpr h
  rw [filled, List.length_append, List.length_replicate]
  omega

section Stamp

variable {putTime : ℕ → Str} {first second : ℕ}

theorem stamp_injective (hzone : Function.Injective putTime) :
    Function.Injective (stamp putTime) := by
  intro m n h
  have hlength : ('.' :: filled 6 (m % 1000000)).length = ('.' :: filled 6 (n % 1000000)).length := by
    have hm := length_filled (Nat.mod_lt m (by decide : 0 < 1000000))
    have hn := length_filled (Nat.mod_lt n (by decide : 0 < 1000000))
    rw [List.length_cons, List.length_cons, hm, hn]
  obtain ⟨hsecond, hrest⟩ := List.append_inj' h hlength
  have hdiv := hzone hsecond
  have hmod := filled_injective 6 (List.cons.inj hrest).2
  omega

theorem toTimeT_eq (t : ℕ) : toTimeT t = inMicroseconds t / 1000000 :=
  (Nat.div_div_eq_div_mul t 1000 1000000).symm

/-- One reading is printed as it is, up to the microsecond. -/
theorem utilities_eq_stamp (now : ℕ) :
    Utilities.getCurrentTime putTime now = stamp putTime (inMicroseconds now) := by
  rw [Utilities.getCurrentTime, stamp, toTimeT_eq]

/-- The second of one reading and the fraction of the other. -/
theorem experiments_eq_stamp (first second : ℕ) :
    Experiments.getCurrentTime putTime first second =
      stamp putTime (toTimeT second * 1000000 + inMicroseconds first % 1000000) := by
  have hlt := Nat.mod_lt (inMicroseconds first) (by decide : 0 < 1000000)
  have hdiv : (toTimeT second * 1000000 + inMicroseconds first % 1000000) / 1000000 =
      toTimeT second := by omega
  have hmod : (toTimeT second * 1000000 + inMicroseconds first % 1000000) % 1000000 =
      inMicroseconds first % 1000000 := by omega
  rw [Experiments.getCurrentTime, stamp, hdiv, hmod]

theorem truthful_iff_bounds (hzone : Function.Injective putTime) :
    Truthful putTime first second ↔
      inMicroseconds first ≤ toTimeT second * 1000000 + inMicroseconds first % 1000000 ∧
      (toTimeT second * 1000000 + inMicroseconds first % 1000000) * 1000 ≤ second := by
  rw [Truthful, experiments_eq_stamp]
  constructor
  · rintro ⟨instant, hprinted, hbounds⟩
    rw [stamp_injective hzone hprinted]
    exact hbounds
  · exact fun hbounds => ⟨_, rfl, hbounds⟩

/-- The first bound always holds, and the second says that the fraction has not gone
back. -/
theorem truthful_iff_fraction (hzone : Function.Injective putTime) (h : first ≤ second) :
    Truthful putTime first second ↔
      inMicroseconds first % 1000000 ≤ inMicroseconds second % 1000000 := by
  have hlater : inMicroseconds first ≤ inMicroseconds second := Nat.div_le_div_right h
  have hmicroseconds : ∀ instant, instant * 1000 ≤ second ↔ instant ≤ inMicroseconds second :=
    fun instant => (Nat.le_div_iff_mul_le (by decide)).symm
  have hseconds : inMicroseconds first / 1000000 ≤ inMicroseconds second / 1000000 :=
    Nat.div_le_div_right hlater
  rw [truthful_iff_bounds hzone, hmicroseconds, toTimeT_eq]
  omega

end Stamp

/-- **Truthful, exactly when.** For readings `first ≤ second` of the clock, what the
experiments print is an instant between them if and only if the microseconds within
the second have not gone back from the one to the other; and when the two are the
same, it is what the other function prints. -/
theorem truthful_iff (putTime : ℕ → Str) (hzone : Function.Injective putTime)
    (first second : ℕ) (h : first ≤ second) :
    (Truthful putTime first second ↔
      inMicroseconds first % 1000000 ≤ inMicroseconds second % 1000000) ∧
    (first = second → Experiments.getCurrentTime putTime first second =
      Utilities.getCurrentTime putTime first) := by
  refine ⟨truthful_iff_fraction hzone h, ?_⟩
  rintro rfl
  -- The second and the fraction of one reading are those of one instant.
  rw [experiments_eq_stamp, utilities_eq_stamp, toTimeT_eq, Nat.div_add_mod']

/-- A zone that prints the seconds of the first minute as Greenwich does. -/
def firstMinute (second : ℕ) : Str := "Thu Jan 01 1970 00:00:".toList ++ filled 2 second

theorem firstMinute_injective : Function.Injective firstMinute := by
  intro m n h
  exact filled_injective 2 (List.append_cancel_left h)

/-- Two readings in one second. -/
theorem truthful_one_second : Truthful firstMinute 1000002500 1000003000 :=
  (truthful_iff firstMinute firstMinute_injective 1000002500 1000003000 (by decide)).1.mpr
    (by decide)

/-- A second begins between the readings, one nanosecond apart: what is printed is
almost a second late. -/
theorem not_truthful_at_second :
    ¬ ∀ putTime : ℕ → Str, Function.Injective putTime → ∀ first second : ℕ,
      first ≤ second → Truthful putTime first second := by
  intro hall
  have htruthful := hall firstMinute firstMinute_injective 999999999 1000000000 (by decide)
  rw [truthful_iff_fraction firstMinute_injective (by decide)] at htruthful
  exact absurd htruthful (by decide)

example : Experiments.getCurrentTime firstMinute 999999999 1000000000 =
    "Thu Jan 01 1970 00:00:01.999999".toList := by decide

end BoostProjects.CurrentTime
