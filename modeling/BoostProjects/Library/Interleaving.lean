import BoostProjects.Library.Transition

/-!
# Interleavings

A system of components of one kind, which are added one after the other in their
start state; every other event is a step of one of them. So a run of the system
is an interleaving of runs of the components: each is where its own events lead
(`run_component`, `run_added`), and whatever one of them can reach, it can reach
in the system while the others stay where they are (`canReach_set`).
-/

namespace Interleaving

open Transition

variable {σ ε : Type*}

/-- What happens in a system of components. -/
inductive Event (ε : Type*)
  | add
  | step (component : ℕ) (event : ε)
  deriving DecidableEq, Repr

/-- The steps of the system, from those of a component and its start state. -/
def step (one : σ → ε → Option σ) (started : σ) (components : List σ) :
    Event ε → Option (List σ)
  | .add => some (components ++ [started])
  | .step i event =>
    components[i]?.bind fun component => (one component event).map (components.set i)

/-- A component is added. -/
def Event.isAdd : Event ε → Bool
  | .add => true
  | .step _ _ => false

/-- The event of the component `i`, if it is one. -/
def Event.own (i : ℕ) : Event ε → Option ε
  | .add => none
  | .step j event => if j = i then some event else none

/-- The events of the component `i`. -/
def own (i : ℕ) (events : List (Event ε)) : List ε := events.filterMap (Event.own i)

section Run

variable {one : σ → ε → Option σ} {started component : σ} {components next final : List σ} {i j : ℕ}
  {event : ε} {events : List (Event ε)}

theorem step_step (h : step one started components (.step i event) = some next) :
    ∃ component component', components[i]? = some component ∧
      one component event = some component' ∧ next = components.set i component' := by
  rw [step, Option.bind_eq_some_iff] at h
  obtain ⟨component, hcomponent, h⟩ := h
  obtain ⟨component', hstep, rfl⟩ := Option.map_eq_some_iff.mp h
  exact ⟨component, component', hcomponent, hstep, rfl⟩

theorem step_of_component {component' : σ} (hcomponent : components[i]? = some component)
    (hstep : one component event = some component') :
    step one started components (.step i event) = some (components.set i component') := by
  rw [step, hcomponent, Option.bind_some, hstep, Option.map_some]

theorem own_add : own i (.add :: events) = own i events := rfl

theorem own_self : own i (.step i event :: events) = event :: own i events :=
  List.filterMap_cons_some (if_pos rfl)

theorem own_of_ne (h : j ≠ i) : own i (.step j event :: events) = own i events :=
  List.filterMap_cons_none (if_neg h)

/-- **A component is where its own events lead.** -/
theorem run_component (hrun : run (step one started) components events = some final)
    (hcomponent : components[i]? = some component) :
    ∃ component', final[i]? = some component' ∧
      run one component (own i events) = some component' := by
  induction events generalizing components component with
  | nil =>
    obtain rfl := Option.some.inj hrun
    exact ⟨component, hcomponent, rfl⟩
  | cons event events ih =>
    obtain ⟨next, hstep, hrest⟩ := run_cons_eq_some_iff.mp hrun
    cases event with
    | add =>
      obtain rfl := Option.some.inj hstep
      rw [own_add]
      have hlt : i < components.length := (List.getElem?_eq_some_iff.mp hcomponent).1
      exact ih hrest ((List.getElem?_append_left hlt).trans hcomponent)
    | step j event =>
      obtain ⟨other, other', hother, hone, rfl⟩ := step_step hstep
      by_cases hij : j = i
      · subst hij
        obtain rfl := Option.some.inj (hother.symm.trans hcomponent)
        have hlt : j < components.length := (List.getElem?_eq_some_iff.mp hcomponent).1
        obtain ⟨component', hfinal, hown⟩ := ih hrest (List.getElem?_set_self hlt)
        rw [own_self]
        exact ⟨component', hfinal, run_cons_eq_some_iff.mpr ⟨other', hone, hown⟩⟩
      · rw [own_of_ne hij]
        exact ih hrest ((List.getElem?_set_ne hij).trans hcomponent)

/-- A component that was not there at first has been added in its start state. -/
theorem run_added (hrun : run (step one started) components events = some final)
    (hadded : components.length ≤ i) (hcomponent : final[i]? = some component) :
    run one started (own i events) = some component := by
  induction events generalizing components with
  | nil =>
    obtain rfl := Option.some.inj hrun
    rw [List.getElem?_eq_none hadded] at hcomponent
    exact nomatch hcomponent
  | cons event events ih =>
    obtain ⟨next, hstep, hrest⟩ := run_cons_eq_some_iff.mp hrun
    cases event with
    | add =>
      obtain rfl := Option.some.inj hstep
      rw [own_add]
      obtain hlt | rfl := Nat.lt_or_eq_of_le hadded
      · refine ih hrest ?_
        rw [List.length_append]
        exact hlt
      · obtain ⟨component', hfinal, hown⟩ := run_component hrest List.getElem?_concat_length
        rw [hown, ← hfinal, hcomponent]
    | step j event =>
      obtain ⟨other, other', hother, -, rfl⟩ := step_step hstep
      have hlt : j < components.length := (List.getElem?_eq_some_iff.mp hother).1
      rw [own_of_ne (Nat.ne_of_lt (Nat.lt_of_lt_of_le hlt hadded))]
      exact ih hrest (by rwa [List.length_set])

/-- There are as many components as have been added. -/
theorem run_length (hrun : run (step one started) components events = some final) :
    final.length = components.length + events.countP Event.isAdd := by
  induction events generalizing components with
  | nil =>
    obtain rfl := Option.some.inj hrun
    rfl
  | cons event events ih =>
    obtain ⟨next, hstep, hrest⟩ := run_cons_eq_some_iff.mp hrun
    rw [ih hrest]
    cases event with
    | add =>
      obtain rfl := Option.some.inj hstep
      rw [List.countP_cons_of_pos rfl, List.length_append, List.length_singleton]
      omega
    | step j event =>
      obtain ⟨other, other', -, -, rfl⟩ := step_step hstep
      rw [List.countP_cons_of_neg Bool.false_ne_true, List.length_set]

/-- **What one component can reach** it can reach in the system, and the others stay
where they are. -/
theorem canReach_set {Q : ε → Prop} {P : σ → Prop} (hcomponent : components[i]? = some component)
    (h : CanReach one Q P component) :
    CanReach (step one started) (fun event => ∃ own, event = .step i own ∧ Q own)
      (fun final => ∃ component', P component' ∧ final = components.set i component')
      components := by
  have hlt : i < components.length := (List.getElem?_eq_some_iff.mp hcomponent).1
  have hset : components.set i component = components := by
    rw [← (List.getElem?_eq_some_iff.mp hcomponent).2, List.set_getElem_self]
  have hlift : CanReach (step one started) (fun event => ∃ own, event = .step i own ∧ Q own) _
      (components.set i component) := h.lift (components.set i) (.step i) fun state event next hevent
        hstep => by
          refine ⟨⟨event, rfl, hevent⟩, ?_⟩
          rw [step_of_component (List.getElem?_set_self hlt) hstep, List.set_set]
  rwa [hset] at hlift

end Run

end Interleaving
