import Mathlib.Data.List.Infix

/-!
# Runs of a partial step function

A system is a partial step function: `step state event` is the state after the
event, and `none` where the event cannot happen. A run is a finite list of
events, so quantifying over lists of events quantifies over every schedule.

Two rules carry the invariants of a system to its runs. `run_invariant` needs a
predicate that every step preserves. `run_invariant_of_obeys` needs it only of
the steps that obey a given condition, and `always_iff_obeys` says when that
condition is exact: every state of a run satisfies the predicate precisely when
every step of the run obeys the condition.
-/

namespace Transition

variable {σ ε : Type*}

/-- Follow a list of events, stopping with `none` at the first that cannot
happen. -/
def run (step : σ → ε → Option σ) : σ → List ε → Option σ
  | state, [] => some state
  | state, event :: rest => (step state event).bind fun next => run step next rest

variable {step : σ → ε → Option σ}

theorem run_cons_eq_some_iff {state final : σ} {event : ε} {rest : List ε} :
    run step state (event :: rest) = some final ↔
      ∃ next, step state event = some next ∧ run step next rest = some final := by
  rw [run, Option.bind_eq_some_iff]

theorem run_append (state : σ) (events rest : List ε) :
    run step state (events ++ rest) =
      (run step state events).bind fun middle => run step middle rest := by
  induction events generalizing state with
  | nil => rfl
  | cons event events ih => simp only [List.cons_append, run, ih, Option.bind_assoc]

/-- The last step of a run that is known up to it. -/
theorem run_concat_eq_some_iff {state middle final : σ} {events : List ε} {event : ε}
    (hevents : run step state events = some middle) :
    run step state (events ++ [event]) = some final ↔ step middle event = some final := by
  rw [run_append, hevents, Option.bind_some, run, Option.bind_eq_some_iff]
  simp only [run, Option.some.injEq, exists_eq_right]

/-- The states a system can be in: those some run ends in. -/
def Reachable (step : σ → ε → Option σ) (initial state : σ) : Prop :=
  ∃ events, run step initial events = some state

/-- Some run whose events all have the property `Q` leads to `P`. -/
def CanReach (step : σ → ε → Option σ) (Q : ε → Prop) (P : σ → Prop) (state : σ) : Prop :=
  ∃ events final, (∀ event ∈ events, Q event) ∧ run step state events = some final ∧ P final

namespace CanReach

variable {Q Q' : ε → Prop} {P P' : σ → Prop} {state next : σ} {event : ε}

theorem here (h : P state) : CanReach step Q P state := ⟨[], state, nofun, rfl, h⟩

theorem head (hstep : step state event = some next) (hevent : Q event)
    (h : CanReach step Q P next) : CanReach step Q P state := by
  obtain ⟨events, final, hevents, hrun, hfinal⟩ := h
  exact ⟨event :: events, final, List.forall_mem_cons.mpr ⟨hevent, hevents⟩,
    run_cons_eq_some_iff.mpr ⟨next, hstep, hrun⟩, hfinal⟩

theorem trans (h : CanReach step Q P state) (hthen : ∀ state, P state → CanReach step Q P' state) :
    CanReach step Q P' state := by
  obtain ⟨events, final, hevents, hrun, hfinal⟩ := h
  induction events generalizing state with
  | nil =>
    obtain rfl := Option.some.inj hrun
    exact hthen _ hfinal
  | cons event rest ih =>
    obtain ⟨next, hstep, hrest⟩ := run_cons_eq_some_iff.mp hrun
    obtain ⟨hevent, hevents⟩ := List.forall_mem_cons.mp hevents
    exact .head hstep hevent (ih hevents hrest)

/-- `P` is reached when every state outside it has a step that keeps `J` and
lowers a measure. -/
theorem of_measure (J : σ → Prop) (measure : σ → ℕ)
    (progress : ∀ state, J state → P state ∨ ∃ event next,
      Q event ∧ step state event = some next ∧ J next ∧ measure next < measure state)
    (hstate : J state) : CanReach step Q P state := by
  induction hmeasure : measure state using Nat.strong_induction_on generalizing state with
  | _ bound ih =>
    rcases progress state hstate with hP | ⟨event, next, hevent, hstep, hnext, hlt⟩
    · exact .here hP
    · exact .head hstep hevent (ih _ (hmeasure ▸ hlt) hnext rfl)

theorem imp (h : CanReach step Q P state) (hQ : ∀ event, Q event → Q' event)
    (hP : ∀ state, P state → P' state) : CanReach step Q' P' state := by
  obtain ⟨events, final, hevents, hrun, hfinal⟩ := h
  exact ⟨events, final, fun event hmem => hQ event (hevents event hmem), hrun, hP final hfinal⟩

/-- What the events keep holds where they lead. -/
theorem keeping (J : σ → Prop)
    (keeps : ∀ state event next, Q event → J state → step state event = some next → J next)
    (h : CanReach step Q P state) (hstate : J state) :
    CanReach step Q (fun final => P final ∧ J final) state := by
  obtain ⟨events, final, hevents, hrun, hfinal⟩ := h
  induction events generalizing state with
  | nil =>
    obtain rfl := Option.some.inj hrun
    exact .here ⟨hfinal, hstate⟩
  | cons event rest ih =>
    obtain ⟨next, hstep, hrest⟩ := run_cons_eq_some_iff.mp hrun
    obtain ⟨hevent, hevents⟩ := List.forall_mem_cons.mp hevents
    exact .head hstep hevent (ih (keeps state event next hevent hstate hstep) hevents hrest)

/-- What a part of a system can reach, the system can, if it takes the steps of its
part. -/
theorem lift {τ δ : Type*} {step' : τ → δ → Option τ} {Q'' : δ → Prop} (embed : σ → τ)
    (event' : ε → δ)
    (steps : ∀ state event next, Q event → step state event = some next →
      Q'' (event' event) ∧ step' (embed state) (event' event) = some (embed next))
    (h : CanReach step Q P state) :
    CanReach step' Q'' (fun final => ∃ part, P part ∧ final = embed part) (embed state) := by
  obtain ⟨events, final, hevents, hrun, hfinal⟩ := h
  induction events generalizing state with
  | nil =>
    obtain rfl := Option.some.inj hrun
    exact .here ⟨_, hfinal, rfl⟩
  | cons event rest ih =>
    obtain ⟨next, hstep, hrest⟩ := run_cons_eq_some_iff.mp hrun
    obtain ⟨hevent, hevents⟩ := List.forall_mem_cons.mp hevents
    obtain ⟨hevent', hstep'⟩ := steps state event next hevent hstep
    exact .head hstep' hevent' (ih hevents hrest)

end CanReach

/-- Every step of the run is taken where `allowed` permits its event. -/
def Obeys (step : σ → ε → Option σ) (allowed : σ → ε → Prop) : σ → List ε → Prop
  | _, [] => True
  | state, event :: rest =>
      allowed state event ∧ ∀ next, step state event = some next → Obeys step allowed next rest

variable {allowed : σ → ε → Prop}

@[simp] theorem obeys_nil (state : σ) : Obeys step allowed state [] := trivial

theorem obeys_cons_iff {state next : σ} {event : ε} {rest : List ε}
    (hstep : step state event = some next) :
    Obeys step allowed state (event :: rest) ↔
      allowed state event ∧ Obeys step allowed next rest := by
  simp only [Obeys, hstep, Option.some.injEq, forall_eq']

instance obeysDecidable [∀ state event, Decidable (allowed state event)] :
    ∀ (state : σ) (events : List ε), Decidable (Obeys step allowed state events)
  | _, [] => isTrue trivial
  | state, event :: rest =>
      match hstep : step state event with
      | none => decidable_of_iff (allowed state event) (by simp [Obeys, hstep])
      | some next =>
          haveI := obeysDecidable next rest
          decidable_of_iff _ (obeys_cons_iff hstep).symm

theorem obeys_of_forall {Q : ε → Prop} {state : σ} {events : List ε}
    (h : ∀ event ∈ events, Q event) : Obeys step (fun _ event => Q event) state events := by
  induction events generalizing state with
  | nil => trivial
  | cons event rest ih =>
    obtain ⟨hevent, hrest⟩ := List.forall_mem_cons.mp h
    exact ⟨hevent, fun next _ => ih hrest⟩

theorem Obeys.imp {allowed' : σ → ε → Prop} {state : σ} {events : List ε}
    (h : Obeys step allowed state events)
    (himp : ∀ state event, allowed state event → allowed' state event) :
    Obeys step allowed' state events := by
  induction events generalizing state with
  | nil => trivial
  | cons event rest ih =>
    exact ⟨himp state event h.1, fun next hstep => ih (h.2 next hstep)⟩

/-- A predicate that the permitted steps preserve holds along every run that
takes only such steps. -/
theorem run_invariant_of_obeys (P : σ → Prop)
    (preserved : ∀ state event next, P state → allowed state event →
      step state event = some next → P next)
    {state final : σ} {events : List ε} (hrun : run step state events = some final)
    (hobeys : Obeys step allowed state events) (hstart : P state) : P final := by
  induction events generalizing state with
  | nil =>
    obtain rfl := Option.some.inj hrun
    exact hstart
  | cons event rest ih =>
    obtain ⟨next, hstep, hrest⟩ := run_cons_eq_some_iff.mp hrun
    obtain ⟨hevent, hobeys⟩ := (obeys_cons_iff hstep).mp hobeys
    exact ih hrest hobeys (preserved state event next hstart hevent hstep)

/-- What holds initially and is preserved by every step holds along every run. -/
theorem run_invariant (P : σ → Prop)
    (preserved : ∀ state event next, P state → step state event = some next → P next)
    {state final : σ} {events : List ε} (hrun : run step state events = some final)
    (hstart : P state) : P final := by
  have hobeys : Obeys step (fun _ _ => True) state events := obeys_of_forall fun _ _ => trivial
  refine run_invariant_of_obeys P ?_ hrun hobeys hstart
  intro state event next hstate _ hstep
  exact preserved state event next hstate hstep

/-! ## Counting -/

/-- How many events of a run are counted, each where it happens. -/
def tally (step : σ → ε → Option σ) (counted : σ → ε → Bool) : σ → List ε → ℕ
  | _, [] => 0
  | state, event :: rest =>
      (counted state event).toNat + (step state event).elim 0 fun next => tally step counted next rest

variable {counted : σ → ε → Bool}

theorem tally_cons {state next : σ} {event : ε} {rest : List ε}
    (hstep : step state event = some next) :
    tally step counted state (event :: rest) =
      (counted state event).toNat + tally step counted next rest := by
  rw [tally, hstep, Option.elim_some]

/-- A stock that every counted step raises by one, and no other step changes, holds at
the end of a run as much as has been counted. -/
theorem stock_of_run (J : σ → Prop) (stock : σ → ℕ)
    (preserved : ∀ state event next, J state → step state event = some next → J next)
    (balance : ∀ state event next, J state → step state event = some next →
      stock next = stock state + (counted state event).toNat)
    {state final : σ} {events : List ε} (hrun : run step state events = some final)
    (hstate : J state) : stock final = stock state + tally step counted state events := by
  induction events generalizing state with
  | nil =>
    obtain rfl := Option.some.inj hrun
    rfl
  | cons event rest ih =>
    obtain ⟨next, hstep, hrest⟩ := run_cons_eq_some_iff.mp hrun
    rw [ih hrest (preserved state event next hstate hstep), balance state event next hstate hstep,
      tally_cons hstep, Nat.add_assoc]

/-- The predicate holds in every state the run passes through. -/
def Always (step : σ → ε → Option σ) (P : σ → Prop) (state : σ) (events : List ε) : Prop :=
  ∀ before middle, before <+: events → run step state before = some middle → P middle

@[simp] theorem always_nil_iff {P : σ → Prop} {state : σ} : Always step P state [] ↔ P state := by
  constructor
  · intro h
    exact h [] state List.nil_prefix rfl
  · intro hstate before middle hprefix hmiddle
    obtain rfl := List.prefix_nil.mp hprefix
    obtain rfl := Option.some.inj hmiddle
    exact hstate

theorem Always.of_isPrefix {P : σ → Prop} {state : σ} {before events : List ε}
    (h : Always step P state events) (hbefore : before <+: events) :
    Always step P state before :=
  fun earlier middle hearlier => h earlier middle (hearlier.trans hbefore)

theorem always_cons_iff {P : σ → Prop} {state next : σ} {event : ε} {rest : List ε}
    (hstep : step state event = some next) :
    Always step P state (event :: rest) ↔ P state ∧ Always step P next rest := by
  constructor
  · intro h
    refine ⟨h [] state (List.nil_prefix) rfl, fun before middle hprefix hmiddle => ?_⟩
    exact h (event :: before) middle (List.prefix_cons_inj event |>.mpr hprefix)
      (run_cons_eq_some_iff.mpr ⟨next, hstep, hmiddle⟩)
  · rintro ⟨hstate, hrest⟩ before middle hprefix hmiddle
    cases before with
    | nil =>
      obtain rfl := Option.some.inj hmiddle
      exact hstate
    | cons first before =>
      obtain ⟨rfl, htail⟩ := List.cons_prefix_cons.mp hprefix
      obtain ⟨next', hstep', hmiddle⟩ := run_cons_eq_some_iff.mp hmiddle
      obtain rfl := Option.some.inj (hstep.symm.trans hstep')
      exact hrest before middle htail hmiddle

/-- **An exact condition.** If, under an invariant `J`, a step from a state
satisfying `P` leads to `P` again exactly when it is permitted, then a run stays
in `P` exactly when all its steps are permitted. Only events with the property
`Q` need to be considered when all events of the run have it. -/
theorem always_iff_obeys_of_forall (Q : ε → Prop) (J P : σ → Prop)
    (invariant : ∀ state event next, Q event → J state → step state event = some next → J next)
    (exact_step : ∀ state event next, Q event → J state → P state →
      step state event = some next → (P next ↔ allowed state event))
    {state final : σ} {events : List ε} (hevents : ∀ event ∈ events, Q event)
    (hrun : run step state events = some final) (hJ : J state) (hP : P state) :
    Always step P state events ↔ Obeys step allowed state events := by
  induction events generalizing state with
  | nil => simp only [always_nil_iff, obeys_nil, hP]
  | cons event rest ih =>
    obtain ⟨next, hstep, hrest⟩ := run_cons_eq_some_iff.mp hrun
    obtain ⟨hQ, hevents⟩ := List.forall_mem_cons.mp hevents
    rw [always_cons_iff hstep, obeys_cons_iff hstep]
    have hJnext := invariant state event next hQ hJ hstep
    have hnext := exact_step state event next hQ hJ hP hstep
    constructor
    · rintro ⟨-, halways⟩
      have hPnext : P next := halways [] next (List.nil_prefix) rfl
      exact ⟨hnext.mp hPnext, (ih hevents hrest hJnext hPnext).mp halways⟩
    · rintro ⟨hevent, hobeys⟩
      exact ⟨hP, (ih hevents hrest hJnext (hnext.mpr hevent)).mpr hobeys⟩

theorem always_iff_obeys (J P : σ → Prop)
    (invariant : ∀ state event next, J state → step state event = some next → J next)
    (exact_step : ∀ state event next, J state → P state → step state event = some next →
      (P next ↔ allowed state event))
    {state final : σ} {events : List ε} (hrun : run step state events = some final)
    (hJ : J state) (hP : P state) :
    Always step P state events ↔ Obeys step allowed state events :=
  always_iff_obeys_of_forall (fun _ => True) J P (fun _ _ _ _ => invariant _ _ _)
    (fun _ _ _ _ => exact_step _ _ _) (fun _ _ => trivial) hrun hJ hP

end Transition
