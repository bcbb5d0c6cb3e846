import BoostProjects.Library.Transition
import Mathlib.Data.List.Nodup
import Mathlib.Data.List.Range

/-!
# A producer and a consumer on fibers

`SimpleTest` runs two fibers that share a vector and a flag. Fibers are
scheduled cooperatively: a fiber that is resumed runs to its next `yield` or to
its end, so a run is the list of the fibers resumed, and `step` is one turn.

The consumer reads the front of the vector but removes its back, never asks
whether the vector is empty, and leaves as soon as the flag is set. While the
fibers take turns, the producer first, the vector holds one item when the
consumer looks at it and none of this matters. Every other schedule goes wrong:
`safe_iff_alternates` says so for every schedule that runs to its end.
-/

namespace BoostProjects.Threads.Fibers

open Transition

/-! ## The program -/

/-- The two fibers. -/
inductive Fiber
  | producer
  | consumer
  deriving DecidableEq, Repr

/-- Where the fiber `produce` stands: before the test of its loop with the given
`i`, or at its end. -/
inductive Produce
  | loop (i : ℕ)
  | ended
  deriving DecidableEq, Repr

/-- Where the fiber `consume` stands. -/
inductive Consume
  | loop
  | ended
  deriving DecidableEq, Repr

/-- What the fibers share, and where each of them is. -/
structure State where
  buffer : List ℕ
  done : Bool
  produce : Produce
  consume : Consume
  /-- The values printed as consumed, in order. -/
  consumed : List ℕ
  /-- `front` or `pop_back` was called on an empty vector. -/
  fault : Bool
  deriving DecidableEq, Repr

namespace State

/-- One turn of `produce`, which makes `n` items. -/
def produceTurn (n : ℕ) (state : State) : Option State :=
  match state.produce with
  | .loop i =>
    if i < n then some { state with buffer := state.buffer ++ [i], produce := .loop (i + 1) }
    else some { state with done := true, produce := .ended }
  | .ended => none

/-- One turn of `consume`. -/
def consumeTurn (state : State) : Option State :=
  match state.consume with
  | .loop =>
    if state.done then some { state with consume := .ended }
    else
      match state.buffer with
      | [] => some { state with fault := true }
      | data :: rest =>
        -- `data` is the front; what is removed is the back.
        some { state with
          buffer := (data :: rest).dropLast
          consumed := state.consumed ++ [data] }
  | .ended => none

/-- The scheduler resumes a fiber. After a fault nothing more is said. -/
def step (n : ℕ) (state : State) (fiber : Fiber) : Option State :=
  if state.fault then none
  else
    match fiber with
    | .producer => state.produceTurn n
    | .consumer => state.consumeTurn

/-- Both fibers have been launched, and neither has run yet. -/
def launched : State :=
  { buffer := [], done := false, produce := .loop 0, consume := .loop, consumed := [],
    fault := false }

end State

open State

/-! ## What is asked of a schedule -/

/-- The consumer has not touched an empty vector, it has consumed the first of
the values produced in their order, and once both fibers have ended it has
consumed each of them once. -/
structure Safe (n : ℕ) (state : State) : Prop where
  noFault : state.fault = false
  ordered : state.consumed <+: List.range n
  complete : state.produce = .ended → state.consume = .ended →
    ∀ i < n, state.consumed.count i = 1

/-- The fibers take turns, the producer first, until both have ended. -/
def alternation (n : ℕ) : List Fiber :=
  (List.replicate (n + 1) [Fiber.producer, .consumer]).flatten

/-! ## Taking turns -/

/-- Between two rounds: `i` items have been produced and all of them consumed. -/
def level (i : ℕ) : State :=
  { buffer := [], done := false, produce := .loop i, consume := .loop, consumed := List.range i,
    fault := false }

/-- Within a round: one item is waiting. -/
def pending (i : ℕ) : State :=
  { level i with buffer := [i], produce := .loop (i + 1) }

/-- The producer has ended, and the consumer has not noticed. -/
def stopping (n : ℕ) : State := { level n with done := true, produce := .ended }

/-- Both fibers have ended. -/
def stopped (n : ℕ) : State := { stopping n with consume := .ended }

section Turns

variable {n i : ℕ}

theorem step_level_of_lt (h : i < n) : (level i).step n .producer = some (pending i) := by
  simp [step, produceTurn, level, pending, h]

theorem step_level_self : (level n).step n .producer = some (stopping n) := by
  simp [step, produceTurn, level, stopping]

theorem step_pending : (pending i).step n .consumer = some (level (i + 1)) := by
  simp [step, consumeTurn, level, pending, List.range_succ]

theorem step_stopping : (stopping n).step n .consumer = some (stopped n) := by
  simp [step, consumeTurn, stopping, level, stopped]

theorem range_isPrefix (h : i ≤ n) : List.range i <+: List.range n := by
  obtain ⟨k, rfl⟩ := Nat.exists_eq_add_of_le h
  rw [List.range_add]
  exact List.prefix_append _ _

theorem safe_level (h : i ≤ n) : Safe n (level i) :=
  ⟨rfl, range_isPrefix h, nofun⟩

theorem safe_pending (h : i < n) : Safe n (pending i) :=
  ⟨rfl, range_isPrefix h.le, nofun⟩

theorem safe_stopping : Safe n (stopping n) :=
  ⟨rfl, List.prefix_rfl, nofun⟩

theorem count_range_eq_one (h : i < n) : (List.range n).count i = 1 :=
  List.nodup_iff_count_eq_one.mp List.nodup_range i (List.mem_range.mpr h)

theorem safe_stopped : Safe n (stopped n) :=
  ⟨rfl, List.prefix_rfl, fun _ _ _ hi => count_range_eq_one hi⟩

end Turns

/-- Taking turns is safe. -/
theorem always_safe_level (n k : ℕ) {i : ℕ} (h : i + k = n) :
    Always (step n) (Safe n) (level i)
      (List.replicate (k + 1) [Fiber.producer, .consumer]).flatten := by
  induction k generalizing i with
  | zero =>
    obtain rfl : i = n := h
    rw [List.replicate_one, List.flatten_singleton, always_cons_iff step_level_self,
      always_cons_iff step_stopping, always_nil_iff]
    exact ⟨safe_level le_rfl, safe_stopping, safe_stopped⟩
  | succ k ih =>
    have hlt : i < n := by omega
    rw [List.replicate_succ, List.flatten_cons, List.cons_append, List.singleton_append,
      always_cons_iff (step_level_of_lt hlt), always_cons_iff step_pending]
    exact ⟨safe_level hlt.le, safe_pending hlt, ih (by omega)⟩

/-! ## A turn out of order -/

/-- The number of items made so far. -/
def Produce.made (n : ℕ) : Produce → ℕ
  | .loop i => i
  | .ended => n

/-- The oldest item in the vector will be consumed twice, or another one not at
all: an item has been put behind it, or no turn of the consumer will look at it,
or it has been consumed already. -/
structure Doomed (n : ℕ) (state : State) : Prop where
  bounded : state.produce.made n ≤ n
  /-- Every item made is in the vector or has been consumed. -/
  count : state.consumed.length + state.buffer.length = state.produce.made n
  done : state.done = true ↔ state.produce = .ended
  stale : ∃ oldest rest, state.buffer = oldest :: rest ∧
    (state.consumed = List.range oldest ∧ (rest ≠ [] ∨ state.produce = .ended) ∨
      state.consumed = List.range (oldest + 1))

section Inversion

variable {n : ℕ} {state next : State}

theorem step_producer (h : state.step n .producer = some next) :
    ∃ i, state.produce = .loop i ∧
      (i < n ∧ next = { state with buffer := state.buffer ++ [i], produce := .loop (i + 1) } ∨
        n ≤ i ∧ next = { state with done := true, produce := .ended }) := by
  unfold State.step at h
  split_ifs at h
  simp only [produceTurn] at h
  cases hproduce : state.produce with
  | ended => simp [hproduce] at h
  | loop i =>
    simp only [hproduce] at h
    refine ⟨i, rfl, ?_⟩
    split_ifs at h with hlt
    · exact Or.inl ⟨hlt, (Option.some.inj h).symm⟩
    · exact Or.inr ⟨Nat.le_of_not_lt hlt, (Option.some.inj h).symm⟩

theorem step_consumer (h : state.step n .consumer = some next) :
    state.done = true ∧ next = { state with consume := .ended } ∨
      state.done = false ∧ state.buffer = [] ∧ next = { state with fault := true } ∨
        ∃ data rest, state.done = false ∧ state.buffer = data :: rest ∧
          next = { state with
            buffer := (data :: rest).dropLast
            consumed := state.consumed ++ [data] } := by
  unfold State.step at h
  split_ifs at h
  simp only [consumeTurn] at h
  cases hconsume : state.consume with
  | ended => simp [hconsume] at h
  | loop =>
    simp only [hconsume] at h
    split_ifs at h with hdone
    · exact Or.inl ⟨hdone, (Option.some.inj h).symm⟩
    · have hrunning : state.done = false := Bool.eq_false_iff.mpr hdone
      cases hbuffer : state.buffer with
      | nil =>
        simp only [hbuffer] at h
        exact Or.inr (Or.inl ⟨hrunning, rfl, (Option.some.inj h).symm⟩)
      | cons data rest =>
        simp only [hbuffer] at h
        exact Or.inr (Or.inr ⟨data, rest, hrunning, rfl, (Option.some.inj h).symm⟩)

end Inversion

/-- What has been consumed once cannot be consumed again. -/
theorem not_prefix_range_succ (n oldest : ℕ) :
    ¬ List.range (oldest + 1) ++ [oldest] <+: List.range n := by
  intro hprefix
  have hnodup := hprefix.sublist.nodup List.nodup_range
  rw [List.nodup_append] at hnodup
  exact hnodup.2.2 oldest (List.mem_range.mpr oldest.lt_succ_self) oldest
    (List.mem_singleton_self _) rfl

/-- There is no safe way back. -/
theorem Doomed.step {n : ℕ} {state next : State} {fiber : Fiber} (h : Doomed n state)
    (hstep : state.step n fiber = some next) (hsafe : Safe n next) : Doomed n next := by
  obtain ⟨oldest, rest, hbuffer, hstale⟩ := h.stale
  have hbounded := h.bounded
  have hcount := h.count
  cases fiber with
  | producer =>
    obtain ⟨i, hproduce, ⟨hlt, rfl⟩ | ⟨hle, rfl⟩⟩ := step_producer hstep
    · have hdone : state.done = false := by
        rw [← Bool.not_eq_true, h.done, hproduce]
        exact nofun
      rw [hproduce, Produce.made] at hcount
      refine ⟨hlt, ?_, by simp [hdone], oldest, rest ++ [i], by rw [hbuffer]; rfl, ?_⟩
      · simp only [List.length_append, List.length_singleton, Produce.made]
        omega
      · rcases hstale with ⟨hconsumed, -⟩ | hconsumed
        · exact Or.inl ⟨hconsumed, Or.inl (List.append_ne_nil_of_right_ne_nil _ nofun)⟩
        · exact Or.inr hconsumed
    · rw [hproduce, Produce.made] at hbounded hcount
      refine ⟨le_rfl, ?_, by simp, oldest, rest, hbuffer, ?_⟩
      · simp only [Produce.made]
        omega
      · rcases hstale with ⟨hconsumed, -⟩ | hconsumed
        · exact Or.inl ⟨hconsumed, Or.inr rfl⟩
        · exact Or.inr hconsumed
  | consumer =>
    rcases step_consumer hstep with ⟨-, rfl⟩ | ⟨-, hempty, -⟩ | ⟨data, rest', hrunning, hdata, rfl⟩
    · exact ⟨hbounded, hcount, h.done, oldest, rest, hbuffer, hstale⟩
    · rw [hbuffer] at hempty
      exact nomatch hempty
    · obtain ⟨rfl, rfl⟩ := List.cons.inj (hbuffer.symm.trans hdata)
      rcases hstale with ⟨hconsumed, hlost⟩ | hconsumed
      · -- The item behind is removed in place of the oldest, which stays.
        have hrest : rest ≠ [] := by
          refine hlost.resolve_right fun hended => ?_
          rw [h.done.mpr hended] at hrunning
          exact nomatch hrunning
        have hdrop : (oldest :: rest).dropLast = oldest :: rest.dropLast :=
          List.dropLast_cons_of_ne_nil hrest
        have hlength : 0 < rest.length := List.length_pos_iff.mpr hrest
        refine ⟨hbounded, ?_, h.done, oldest, rest.dropLast, hdrop, Or.inr ?_⟩
        · rw [hbuffer, List.length_cons] at hcount
          simp only [hdrop, List.length_append, List.length_cons, List.length_nil,
            List.length_dropLast]
          omega
        · rw [hconsumed, List.range_succ]
      · -- The oldest item is consumed for the second time.
        have hordered := hsafe.ordered
        simp only [hconsumed] at hordered
        exact absurd hordered (not_prefix_range_succ n oldest)

/-- Nor is the end safe. -/
theorem Doomed.not_safe {n : ℕ} {state : State} (h : Doomed n state)
    (hproduce : state.produce = .ended) (hconsume : state.consume = .ended) : ¬ Safe n state := by
  intro hsafe
  obtain ⟨oldest, rest, hbuffer, -⟩ := h.stale
  have hcount := h.count
  rw [hproduce, Produce.made, hbuffer, List.length_cons] at hcount
  -- The last item has not been consumed, for one is still waiting.
  have hlast := hsafe.complete hproduce hconsume (n - 1) (by omega)
  have hconsumed := List.prefix_iff_eq_take.mp hsafe.ordered
  rw [List.take_range, Nat.min_eq_left (by omega)] at hconsumed
  have hmissing : n - 1 ∉ state.consumed := by
    rw [hconsumed, List.mem_range]
    omega
  rw [List.count_eq_zero.mpr hmissing] at hlast
  exact absurd hlast (by decide)

theorem doomed_of_pending {n i : ℕ} {next : State} (h : i < n)
    (hstep : (pending i).step n .producer = some next) : Doomed n next := by
  obtain ⟨j, hproduce, ⟨hlt, rfl⟩ | ⟨hle, rfl⟩⟩ := step_producer hstep
  · obtain rfl : i + 1 = j := Produce.loop.inj hproduce
    refine ⟨hlt, ?_, ?_, i, [i + 1], rfl, Or.inl ⟨rfl, Or.inl (List.cons_ne_nil _ _)⟩⟩
    · simp [pending, level, Produce.made]
    · simp [pending, level]
  · obtain rfl : i + 1 = j := Produce.loop.inj hproduce
    refine ⟨le_rfl, ?_, by simp, i, [], rfl, Or.inl ⟨rfl, Or.inr rfl⟩⟩
    simp [pending, level, Produce.made]
    omega

/-! ## Every schedule -/

/-- No fiber can be resumed. -/
def Stuck (n : ℕ) (state : State) : Prop := ∀ fiber, state.step n fiber = none

theorem Stuck.ended {n : ℕ} {state : State} (h : Stuck n state) (hfault : state.fault = false) :
    state.produce = .ended ∧ state.consume = .ended := by
  have hproducer := h .producer
  have hconsumer := h .consumer
  unfold State.step at hproducer hconsumer
  simp only [hfault, Bool.false_eq_true, if_false, produceTurn, consumeTurn] at hproducer hconsumer
  constructor
  · cases hproduce : state.produce with
    | ended => rfl
    | loop i =>
      simp only [hproduce] at hproducer
      split_ifs at hproducer
  · cases hconsume : state.consume with
    | ended => rfl
    | loop =>
      simp only [hconsume] at hconsumer
      split_ifs at hconsumer
      cases hbuffer : state.buffer <;> simp [hbuffer] at hconsumer

/-- A doomed schedule that runs to its end is not safe. -/
theorem Doomed.not_always {n : ℕ} {state final : State} {schedule : List Fiber}
    (h : Doomed n state) (hrun : run (State.step n) state schedule = some final)
    (hstuck : Stuck n final) : ¬ Always (State.step n) (Safe n) state schedule := by
  induction schedule generalizing state with
  | nil =>
    obtain rfl := Option.some.inj hrun
    rw [always_nil_iff]
    intro hsafe
    obtain ⟨hproduce, hconsume⟩ := hstuck.ended hsafe.noFault
    exact h.not_safe hproduce hconsume hsafe
  | cons fiber rest ih =>
    obtain ⟨next, hstep, hrest⟩ := run_cons_eq_some_iff.mp hrun
    rw [always_cons_iff hstep]
    rintro ⟨-, halways⟩
    have hsafe : Safe n next := halways [] next List.nil_prefix rfl
    exact ih (h.step hstep hsafe) hrest halways

section Complete

variable {n i : ℕ} {schedule : List Fiber} {final : State}

/-- Between two rounds the consumer would find the vector empty. -/
theorem exists_producer_first (h : i ≤ n)
    (hrun : run (State.step n) (level i) schedule = some final) (hstuck : Stuck n final)
    (halways : Always (State.step n) (Safe n) (level i) schedule) :
    ∃ rest, schedule = .producer :: rest := by
  cases schedule with
  | nil =>
    obtain rfl := Option.some.inj hrun
    have hturn := hstuck .producer
    rcases h.lt_or_eq with hlt | rfl
    · rw [step_level_of_lt hlt] at hturn
      exact nomatch hturn
    · rw [step_level_self] at hturn
      exact nomatch hturn
  | cons fiber rest =>
    cases fiber with
    | producer => exact ⟨rest, rfl⟩
    | consumer =>
      have hfault : (level i).step n .consumer = some { level i with fault := true } := rfl
      rw [always_cons_iff hfault] at halways
      have hsafe := halways.2 [] _ List.nil_prefix rfl
      exact nomatch hsafe.noFault

/-- The last round. -/
theorem eq_of_stopping (hrun : run (State.step n) (stopping n) schedule = some final)
    (hstuck : Stuck n final) : schedule = [.consumer] := by
  cases schedule with
  | nil =>
    obtain rfl := Option.some.inj hrun
    have hturn := hstuck .consumer
    rw [step_stopping] at hturn
    exact nomatch hturn
  | cons fiber rest =>
    obtain ⟨next, hstep, hrest⟩ := run_cons_eq_some_iff.mp hrun
    cases fiber with
    | producer => exact nomatch hstep
    | consumer =>
      obtain rfl := Option.some.inj (step_stopping.symm.trans hstep)
      cases rest with
      | nil => rfl
      | cons fiber rest =>
        obtain ⟨next, hstep, -⟩ := run_cons_eq_some_iff.mp hrest
        cases fiber <;> exact nomatch hstep

/-- A safe schedule that runs to its end takes turns. -/
theorem eq_alternation_of_always (k : ℕ) (h : i + k = n)
    (hrun : run (State.step n) (level i) schedule = some final) (hstuck : Stuck n final)
    (halways : Always (State.step n) (Safe n) (level i) schedule) :
    schedule = (List.replicate (k + 1) [Fiber.producer, .consumer]).flatten := by
  induction k generalizing i schedule with
  | zero =>
    obtain rfl : i = n := h
    obtain ⟨rest, rfl⟩ := exists_producer_first le_rfl hrun hstuck halways
    obtain ⟨next, hstep, hrest⟩ := run_cons_eq_some_iff.mp hrun
    obtain rfl := Option.some.inj (step_level_self.symm.trans hstep)
    rw [eq_of_stopping hrest hstuck]
    rfl
  | succ k ih =>
    have hlt : i < n := by omega
    obtain ⟨rest, rfl⟩ := exists_producer_first hlt.le hrun hstuck halways
    obtain ⟨next, hstep, hrest⟩ := run_cons_eq_some_iff.mp hrun
    obtain rfl := Option.some.inj ((step_level_of_lt hlt).symm.trans hstep)
    rw [always_cons_iff hstep] at halways
    obtain ⟨-, halways⟩ := halways
    cases rest with
    | nil =>
      obtain rfl := Option.some.inj hrest
      have hturn := hstuck .consumer
      rw [step_pending] at hturn
      exact nomatch hturn
    | cons fiber rest =>
      obtain ⟨next, hturn, hlater⟩ := run_cons_eq_some_iff.mp hrest
      rw [always_cons_iff hturn] at halways
      cases fiber with
      | producer =>
        exact absurd halways.2 ((doomed_of_pending hlt hturn).not_always hlater hstuck)
      | consumer =>
        obtain rfl := Option.some.inj (step_pending.symm.trans hturn)
        rw [ih (by omega) hlater halways.2]
        rfl

end Complete

/-- **Only taking turns is safe.** While the fibers take turns, the producer
first, the consumer reads no empty vector and consumes the items in their order;
and a schedule that runs until no fiber can be resumed is safe throughout if and
only if the fibers took turns to the end. -/
theorem safe_iff_alternates (n : ℕ) (schedule : List Fiber) (final : State)
    (hrun : run (State.step n) launched schedule = some final) :
    (schedule <+: alternation n → Always (State.step n) (Safe n) launched schedule) ∧
      (Stuck n final →
        (Always (State.step n) (Safe n) launched schedule ↔ schedule = alternation n)) := by
  have hturns : Always (State.step n) (Safe n) launched (alternation n) :=
    always_safe_level n n (Nat.zero_add n)
  refine ⟨hturns.of_isPrefix, fun hstuck => ⟨fun halways => ?_, ?_⟩⟩
  · exact eq_alternation_of_always n (Nat.zero_add n) hrun hstuck halways
  · rintro rfl
    exact hturns

/-- The schedule of the source with its ten items, taken in turns. -/
theorem safe_iff_alternates_ten :
    ∃ final, run (State.step 10) launched (alternation 10) = some final ∧
      Always (State.step 10) (Safe 10) launched (alternation 10) := by
  obtain ⟨final, hrun⟩ := Option.isSome_iff_exists.mp
    (show (run (State.step 10) launched (alternation 10)).isSome by decide)
  exact ⟨final, hrun,
    (safe_iff_alternates 10 (alternation 10) final hrun).1 List.prefix_rfl⟩

/-- The consumer runs first and reads an empty vector. -/
theorem not_safe_consumer_first :
    ¬ ∀ (n : ℕ) (schedule : List Fiber) (final : State),
      run (State.step n) launched schedule = some final → Safe n final := by
  intro hall
  exact nomatch (hall 10 [.consumer] { launched with fault := true } rfl).noFault

end BoostProjects.Threads.Fibers
