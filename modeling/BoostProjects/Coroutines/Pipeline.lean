import BoostProjects.Library.Coroutine
import Mathlib.Algebra.Ring.Int.Defs

/-!
# The coroutine pipeline

`run` pushes numbers into `transform`, whose function `multiply` doubles each and
pushes it into `output`, whose function prints it. The two are a chain of
coroutines, and both functions are loops over the values that come in.

`pipeline_map` says that the chain is the map of its stages between any two
pushes, and that nothing is left to print when the coroutines are destroyed.
-/

namespace BoostProjects.Coroutines.Pipeline

open Coroutine

/-! ## The program -/

/-- `v * 2`, which has no defined value when it is not an `int`. -/
def twice (v : Int32) : Option Int32 :=
  if -2 ^ 31 ≤ v.toInt * 2 ∧ v.toInt * 2 < 2 ^ 31 then some (v * 2) else none

/-- `multiply`, the function of `transform`: `out(v * 2)` for each `v`. -/
def multiply : Body Int32 Int32 (ForEach Int32) := forEach twice

/-- The function of `output`: one line for each `v`. -/
def print : Body Int32 Int32 (ForEach Int32) := forEach some

/-- `output` and `transform`, and the lines printed so far. -/
abbrev Stages := Chain (ForEach Int32) (ForEach Int32) Int32

/-- The pushes of `run`, for any values in place of `1`, `2`, `3`. -/
def push (fuel : ℕ) (values : List Int32) : Option Stages :=
  Transition.run (perform multiply print fuel) .initial (values.map .push)

/-- The end of `run`: `transform` is destroyed first, then `output`. -/
def destroy (fuel : ℕ) (pipeline : Stages) : Option Stages :=
  Transition.run (perform multiply print fuel) pipeline [.destroyFront, .destroyBack]

/-! ## The pipeline is a map -/

/-- The double of the value is an `int`. -/
def InRange (v : Int32) : Prop := -2 ^ 31 ≤ 2 * v.toInt ∧ 2 * v.toInt < 2 ^ 31

theorem toInt_mul_two {v : Int32} (h : InRange v) : (v * 2).toInt = 2 * v.toInt := by
  obtain ⟨hlow, hhigh⟩ := h
  rw [Int32.toInt_mul, show (2 : Int32).toInt = 2 from rfl, Int.mul_comm]
  exact Int.bmod_eq_of_le (by omega) (by omega)

theorem twice_eq {v : Int32} (h : InRange v) : twice v = some (v * 2) := by
  obtain ⟨hlow, hhigh⟩ := h
  rw [twice, if_pos ⟨by omega, by omega⟩]

theorem maps_multiply : Maps multiply InRange (· * 2) (· = .next) :=
  maps_forEach fun _ => twice_eq

theorem maps_print : Maps print (fun _ => True) id (· = .next) :=
  maps_forEach fun _ _ => rfl

/-- **The pipeline is the map of its stages.** After any number of pushes has
returned, the lines printed are the doubles of the values pushed, in order, and
destroying the two coroutines then prints nothing more. -/
theorem pipeline_map (values : List Int32) (hvalues : ∀ v ∈ values, InRange v) :
    ∀ i ≤ values.length, ∃ pipeline : Stages,
      (∀ fuel, 5 ≤ fuel → push fuel (values.take i) = some pipeline) ∧
      pipeline.emitted.map Int32.toInt = (values.take i).map (fun v => 2 * v.toInt) ∧
      ∃ final : Stages, (∀ fuel, 5 ≤ fuel → destroy fuel pipeline = some final) ∧
        final.front = .ended ∧ final.back = .ended ∧ final.emitted = pipeline.emitted := by
  intro i _
  have htake : ∀ v ∈ values.take i, InRange v := fun v hv => hvalues v (List.mem_of_mem_take hv)
  obtain ⟨pipeline, hpush, hsettled, hemitted⟩ :=
    run_pushes maps_multiply maps_print settled_initial fun v hv => ⟨htake v hv, trivial⟩
  refine ⟨pipeline, hpush, ?_,
    { pipeline with front := .ended, back := .ended, control := .caller },
    fun fuel hfuel => ?_, rfl, rfl, rfl⟩
  · have hprinted : pipeline.emitted = (values.take i).map (· * 2) := hemitted
    rw [hprinted, List.map_map]
    exact List.map_congr_left fun v hv => toInt_mul_two (htake v hv)
  · exact run_destroy maps_multiply maps_print hsettled (by omega)

theorem pipeline_map_three :
    ∃ pipeline : Stages,
      (∀ fuel, 5 ≤ fuel → push fuel [1, 2] = some pipeline) ∧
      pipeline.emitted.map Int32.toInt = [2, 4] ∧
      ∃ final : Stages, (∀ fuel, 5 ≤ fuel → destroy fuel pipeline = some final) ∧
        final.front = .ended ∧ final.back = .ended ∧ final.emitted = pipeline.emitted :=
  pipeline_map [1, 2, 3] (by simp [InRange]) 2 (by decide)

example : ((push 5 [1, 2, 3]).bind (destroy 5)).map Chain.emitted = some [2, 4, 6] := by decide

end BoostProjects.Coroutines.Pipeline
