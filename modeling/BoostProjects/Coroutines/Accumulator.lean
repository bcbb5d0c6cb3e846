import BoostProjects.Library.Coroutine
import Mathlib.Algebra.Ring.Int.Defs

/-!
# The coroutine that adds up

`accumulator` adds up the values that are pushed into it, and prints the sum
behind its loop. Nothing ends that loop: its pusher has no way to say that there
are no more values, and leaving the scope unwinds the function from inside the
loop.

`not_reportsTotal` says that the total is therefore never printed, whatever is
pushed, although the function holds it (`run_pushes_total`).
-/

namespace BoostProjects.Coroutines.Accumulator

open Coroutine

/-! ## The program -/

/-- Where `accumulator` is: in its loop, behind it, or out of the function. -/
inductive State
  | next (sum : Int32)
  /-- A sum that is not an `int`. -/
  | overflow
  /-- Where the end of the range would lead: the sum is printed. -/
  | left (sum : Int32)
  | returned
  deriving DecidableEq, Repr

/-- `sum += v`, which has no defined value when it is not an `int`. -/
def add (sum v : Int32) : Option Int32 :=
  if -2 ^ 31 ≤ sum.toInt + v.toInt ∧ sum.toInt + v.toInt < 2 ^ 31 then some (sum + v) else none

/-- One round of the loop. -/
def round (sum v : Int32) : State :=
  match add sum v with
  | some sum => .next sum
  | none => .overflow

/-- `accumulator` -/
def accumulator : Body Int32 Int32 State where
  enter v := round 0 v
  resume
    | .next sum, v => round sum v
    | state, _ => state
  -- The unwinding exception leaves the loop and the function.
  unwind _ := .returned
  act
    | .next _ => .ask
    | .overflow => .undefined
    | .left sum => .emit sum .returned
    | .returned => .finish

/-- The coroutine `sink`, and the lines printed. -/
abbrev Sink := Single State Int32

/-- The pushes of `run`, for any values in place of `1`, `2`, `3`. -/
def push (fuel : ℕ) (values : List Int32) : Option Sink :=
  Transition.run (Single.push accumulator fuel) {} values

/-- `consumer_demo::run`: the lines it has printed when it returns. -/
def run (fuel : ℕ) (values : List Int32) : Option (List Int32) :=
  ((push fuel values).bind (Single.destroy accumulator fuel)).map Single.emitted

/-! ## What it holds -/

/-- The sum of the values, as integers. -/
def total (values : List Int32) : ℤ := (values.map Int32.toInt).sum

/-- Every partial sum is an `int`. -/
def PartialSumsFit (values : List Int32) : Prop :=
  ∀ i ≤ values.length, -2 ^ 31 ≤ total (values.take i) ∧ total (values.take i) < 2 ^ 31

theorem toInt_add {sum v : Int32} (hlow : -2 ^ 31 ≤ sum.toInt + v.toInt)
    (hhigh : sum.toInt + v.toInt < 2 ^ 31) : (sum + v).toInt = sum.toInt + v.toInt := by
  rw [Int32.toInt_add]
  exact Int.bmod_eq_of_le (by omega) (by omega)

theorem total_cons (v : Int32) (values : List Int32) :
    total (v :: values) = v.toInt + total values := by
  rw [total, List.map_cons, List.sum_cons, total]

/-- Adding up goes through from any sum, if the partial sums on top of it fit. -/
theorem foldlM_add {sum : Int32} {values : List Int32}
    (hfit : ∀ i ≤ values.length, -2 ^ 31 ≤ sum.toInt + total (values.take i) ∧
      sum.toInt + total (values.take i) < 2 ^ 31) :
    ∃ final, values.foldlM add sum = some final ∧ final.toInt = sum.toInt + total values := by
  induction values generalizing sum with
  | nil => exact ⟨sum, rfl, (Int.add_zero _).symm⟩
  | cons v values ih =>
    obtain ⟨hlow, hhigh⟩ := hfit 1 (by simp)
    have hfirst : total ((v :: values).take 1) = v.toInt := by simp [total]
    rw [hfirst] at hlow hhigh
    have hadd : add sum v = some (sum + v) := if_pos ⟨hlow, hhigh⟩
    have hsum := toInt_add hlow hhigh
    have hrest : ∀ i ≤ values.length, -2 ^ 31 ≤ (sum + v).toInt + total (values.take i) ∧
        (sum + v).toInt + total (values.take i) < 2 ^ 31 := by
      intro i hi
      have hstep := hfit (i + 1) (by simpa using hi)
      rw [List.take_succ_cons, total_cons] at hstep
      omega
    obtain ⟨final, hfinal, htotal⟩ := ih hrest
    refine ⟨final, ?_, ?_⟩
    · rw [List.foldlM_cons, hadd]
      exact hfinal
    · rw [htotal, hsum, total_cons, Int.add_assoc]

theorem gathers_accumulator : Gathers accumulator 0 add .next where
  enter v next hnext := by simp only [accumulator, round, hnext]
  resume sum v next hnext := by simp only [accumulator, round, hnext]
  ask _ := rfl

section Run

variable {values : List Int32} {fuel : ℕ}

/-- After the pushes the function holds the total, inside its loop. -/
theorem run_pushes_total (hvalues : values ≠ []) (hfit : PartialSumsFit values) (hfuel : 0 < fuel) :
    ∃ sum : Int32, sum.toInt = total values ∧
      push fuel values = some { place := .asking (.next sum), emitted := [] } := by
  have hfit' : ∀ i ≤ values.length, -2 ^ 31 ≤ (0 : Int32).toInt + total (values.take i) ∧
      (0 : Int32).toInt + total (values.take i) < 2 ^ 31 := by
    simpa [PartialSumsFit] using hfit
  obtain ⟨sum, hsum, htotal⟩ := foldlM_add hfit'
  refine ⟨sum, ?_, run_gathers gathers_accumulator hfuel hvalues hsum⟩
  rw [htotal, Int32.toInt_zero, Int.zero_add]

theorem run_eq_nil (hvalues : values ≠ []) (hfit : PartialSumsFit values) (hfuel : 0 < fuel) :
    run fuel values = some [] := by
  obtain ⟨sum, -, hpush⟩ := run_pushes_total hvalues hfit hfuel
  rw [run, hpush, Option.bind_some, Single.destroy_asking rfl hfuel]
  rfl

theorem run_ne_line (hvalues : values ≠ []) (hfit : PartialSumsFit values) (line : Int32) :
    run fuel values ≠ some [line] := by
  intro hrun
  rcases Nat.eq_zero_or_pos fuel with rfl | hfuel
  · -- Without fuel not even the first push returns.
    obtain ⟨v, values, rfl⟩ := List.exists_cons_of_ne_nil hvalues
    exact absurd hrun nofun
  · rw [run_eq_nil hvalues hfit hfuel] at hrun
    exact absurd hrun nofun

end Run

/-- The run returns, and has printed one line with the total. -/
def ReportsTotal (values : List Int32) : Prop :=
  ∃ fuel line, run fuel values = some [line] ∧ line.toInt = total values

/-- **The total is never reported.** Whatever is pushed, the run ends with nothing
printed. -/
theorem not_reportsTotal (values : List Int32) (hvalues : values ≠ [])
    (hfit : PartialSumsFit values) :
    (∀ fuel, 0 < fuel → run fuel values = some []) ∧ ¬ ReportsTotal values := by
  refine ⟨fun fuel hfuel => run_eq_nil hvalues hfit hfuel, ?_⟩
  rintro ⟨fuel, line, hrun, -⟩
  exact run_ne_line hvalues hfit line hrun

theorem not_reportsTotal_three :
    (∀ fuel, 0 < fuel → run fuel [1, 2, 3] = some []) ∧ ¬ ReportsTotal [1, 2, 3] :=
  not_reportsTotal [1, 2, 3] (by decide) (by unfold PartialSumsFit; decide)

/-- The values of the source. -/
theorem not_reportsTotal_of_fit :
    ¬ ∀ values : List Int32, values ≠ [] → PartialSumsFit values → ReportsTotal values := by
  intro hall
  obtain ⟨fuel, line, hrun, -⟩ := hall [1, 2, 3] (by decide) (by unfold PartialSumsFit; decide)
  exact run_ne_line (by decide) (by unfold PartialSumsFit; decide) line hrun

end BoostProjects.Coroutines.Accumulator
