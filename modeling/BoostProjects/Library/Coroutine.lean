import BoostProjects.Library.Transition

/-!
# Coroutines that values are pushed into

The function of such a coroutine is entered by the first push. It runs until it
asks for the next value, and then the push returns; the next push resumes it.
Destroying a coroutine that is suspended unwinds its stack.

A chain is a caller and two coroutines, the front one pushing into the back one.
Control is in one of the three, and `step` moves it. `Maps` says of a function
that it passes on one value for each it takes: two such functions in a chain
apply one after the other, each push having its effect before it returns
(`run_pushes`), and nothing is left to happen when they are destroyed.

A function that gathers (`Gathers`) passes on nothing while values come in: after
the pushes it holds their fold, and asks (`run_gathers`).
-/

namespace Coroutine

variable {α β γ σ τ : Type*}

/-- What a function does next. -/
inductive Act (β σ : Type*)
  | ask
  | emit (value : β) (next : σ)
  | finish
  | undefined
  deriving DecidableEq, Repr

/-- The function of a coroutine that takes values of `α` and passes on values of
`β`, by its states. `unwind` is where the exception that unwinds its stack takes
it from a state in which it asks. -/
structure Body (α β σ : Type*) where
  enter : α → σ
  resume : σ → α → σ
  unwind : σ → σ
  act : σ → Act β σ

/-- Where a coroutine stands while control is not in it. -/
inductive Place (σ : Type*)
  | fresh
  | asking (state : σ)
  | ended
  deriving DecidableEq, Repr

/-- The state in which a push makes the function go on. Nothing can be pushed into
a function that has ended. -/
def Body.push (body : Body α β σ) : Place σ → α → Option σ
  | .fresh, value => some (body.enter value)
  | .asking state, value => some (body.resume state value)
  | .ended, _ => none

/-- Who has control. While it is in the back coroutine, the front one may be
waiting inside its push. -/
inductive Control (σ τ : Type*)
  | caller
  | front (state : σ)
  | back (waiting : Option σ) (state : τ)
  deriving DecidableEq, Repr

/-- Control when the back coroutine gives it up. -/
def Control.after : Option σ → Control σ τ
  | none => .caller
  | some state => .front state

/-- Two coroutines, the front one pushing into the back one, and what has been emitted. -/
structure Chain (σ τ γ : Type*) where
  front : Place σ
  back : Place τ
  control : Control σ τ
  emitted : List γ
  deriving DecidableEq, Repr

/-- Both coroutines made, and nothing pushed. -/
def Chain.initial : Chain σ τ γ :=
  { front := .fresh, back := .fresh, control := .caller, emitted := [] }

/-- The caller's operations. -/
inductive Op (α : Type*)
  | push (value : α)
  | destroyFront
  | destroyBack
  deriving DecidableEq, Repr

section Machine

variable (A : Body α β σ) (B : Body β γ τ)

/-- One action of whoever has control; `none` for the caller, and where the action
has no defined effect. -/
def step (chain : Chain σ τ γ) : Option (Chain σ τ γ) :=
  match chain.control with
  | .caller => none
  | .front state =>
    match A.act state with
    | .ask => some { chain with front := .asking state, control := .caller }
    | .emit value next =>
      (B.push chain.back value).map fun entered =>
        { chain with control := .back (some next) entered }
    | .finish => some { chain with front := .ended, control := .caller }
    | .undefined => none
  | .back waiting state =>
    match B.act state with
    | .ask => some { chain with back := .asking state, control := .after waiting }
    | .emit value next =>
      some { chain with emitted := chain.emitted ++ [value], control := .back waiting next }
    | .finish => some { chain with back := .ended, control := .after waiting }
    | .undefined => none

/-- Steps until the caller has control again, at most `fuel` of them. -/
def settle : ℕ → Chain σ τ γ → Option (Chain σ τ γ)
  | 0, _ => none
  | fuel + 1, chain =>
    match chain.control with
    | .caller => some chain
    | _ => (step A B chain).bind (settle fuel)

/-- The caller begins an operation. -/
def begin (chain : Chain σ τ γ) : Op α → Option (Chain σ τ γ)
  | .push value =>
    (A.push chain.front value).map fun state => { chain with control := .front state }
  | .destroyFront =>
    match chain.front with
    | .asking state => some { chain with control := .front (A.unwind state) }
    | _ => some { chain with front := .ended }
  | .destroyBack =>
    match chain.back with
    | .asking state => some { chain with control := .back none (B.unwind state) }
    | _ => some { chain with back := .ended }

/-- An operation of the caller, until it has returned. -/
def perform (fuel : ℕ) (chain : Chain σ τ γ) (op : Op α) : Option (Chain σ τ γ) :=
  (begin A B chain op).bind (settle A B fuel)

end Machine

/-! ## Functions that map -/

/-- For each value it takes, the function passes on its image and asks for the next
one; unwound from there, it ends. `idle` holds of the states it asks in. -/
structure Maps (A : Body α β σ) (dom : α → Prop) (f : α → β) (idle : σ → Prop) : Prop where
  enter : ∀ value, dom value → ∃ next, A.act (A.enter value) = .emit (f value) next ∧ idle next
  resume : ∀ state value, idle state → dom value →
    ∃ next, A.act (A.resume state value) = .emit (f value) next ∧ idle next
  ask : ∀ state, idle state → A.act state = .ask
  unwind : ∀ state, idle state → A.act (A.unwind state) = .finish

/-- A coroutine that waits for a value: its function is not entered yet, or asks. -/
def Place.Waiting (idle : σ → Prop) : Place σ → Prop
  | .fresh => True
  | .asking state => idle state
  | .ended => False

theorem Maps.push {A : Body α β σ} {dom : α → Prop} {f : α → β} {idle : σ → Prop}
    (hA : Maps A dom f idle) {place : Place σ} (hplace : place.Waiting idle) {value : α}
    (hvalue : dom value) :
    ∃ state next, A.push place value = some state ∧ A.act state = .emit (f value) next ∧
      idle next := by
  match place, hplace with
  | .fresh, _ =>
    obtain ⟨next, hact, hidle⟩ := hA.enter value hvalue
    exact ⟨_, next, rfl, hact, hidle⟩
  | .asking state, hstate =>
    obtain ⟨next, hact, hidle⟩ := hA.resume state value hstate hvalue
    exact ⟨_, next, rfl, hact, hidle⟩

/-- The caller has control and both coroutines wait for a value. -/
structure Chain.Settled (idleA : σ → Prop) (idleB : τ → Prop) (chain : Chain σ τ γ) : Prop where
  control : chain.control = .caller
  front : chain.front.Waiting idleA
  back : chain.back.Waiting idleB

theorem settled_initial {idleA : σ → Prop} {idleB : τ → Prop} :
    (Chain.initial : Chain σ τ γ).Settled idleA idleB :=
  ⟨rfl, trivial, trivial⟩

section Chain

variable {A : Body α β σ} {B : Body β γ τ} {f : α → β} {g : β → γ} {domA : α → Prop}
  {domB : β → Prop} {idleA : σ → Prop} {idleB : τ → Prop} {chain : Chain σ τ γ}

theorem settle_caller (h : chain.control = .caller) {fuel : ℕ} (hfuel : 0 < fuel) :
    settle A B fuel chain = some chain := by
  obtain ⟨fuel, rfl⟩ := Nat.exists_eq_succ_of_ne_zero (Nat.ne_of_gt hfuel)
  rw [settle, h]

theorem settle_step {next : Chain σ τ γ} (h : step A B chain = some next) {fuel : ℕ} :
    settle A B (fuel + 1) chain = settle A B fuel next := by
  have hcontrol : chain.control ≠ .caller := by
    intro hcaller
    rw [step, hcaller] at h
    exact absurd h nofun
  rw [settle, h, Option.bind_some]
  split
  · exact absurd ‹_› hcontrol
  · rfl

/-- One push through both coroutines: control goes from the caller to the front
one, from there to the back one, and the same way back. -/
theorem perform_push (hA : Maps A domA f idleA) (hB : Maps B domB g idleB)
    (hchain : chain.Settled idleA idleB) {value : α} (hvalue : domA value)
    (hf : domB (f value)) :
    ∃ next, (∀ fuel, 5 ≤ fuel → perform A B fuel chain (.push value) = some next) ∧
      next.Settled idleA idleB ∧ next.emitted = chain.emitted ++ [g (f value)] := by
  obtain ⟨s, s', hpush, hact, hs'⟩ := hA.push hchain.front hvalue
  obtain ⟨t, t', hpush', hact', ht'⟩ := hB.push hchain.back hf
  refine ⟨{ front := .asking s', back := .asking t', control := .caller,
            emitted := chain.emitted ++ [g (f value)] }, fun fuel hfuel => ?_,
    ⟨rfl, hs', ht'⟩, rfl⟩
  obtain ⟨fuel, rfl⟩ := Nat.exists_eq_add_of_le' hfuel
  have hbegin : begin A B chain (.push value) = some { chain with control := .front s } := by
    rw [begin, hpush]
    rfl
  have hfront : step A B { chain with control := .front s } =
      some { chain with control := .back (some s') t } := by
    simp only [step, hact, hpush', Option.map_some]
  have hemit : step A B { chain with control := .back (some s') t } =
      some { chain with emitted := chain.emitted ++ [g (f value)],
                        control := .back (some s') t' } := by
    simp only [step, hact']
  have hback : step A B { chain with emitted := chain.emitted ++ [g (f value)],
                                     control := .back (some s') t' } =
      some { chain with back := .asking t', emitted := chain.emitted ++ [g (f value)],
                        control := .front s' } := by
    simp only [step, hB.ask t' ht', Control.after]
  have hreturn : step A B { chain with back := .asking t',
                                       emitted := chain.emitted ++ [g (f value)],
                                       control := .front s' } =
      some { front := .asking s', back := .asking t', control := .caller,
             emitted := chain.emitted ++ [g (f value)] } := by
    simp only [step, hA.ask s' hs']
  rw [perform, hbegin, Option.bind_some, settle_step hfront, settle_step hemit,
    settle_step hback, settle_step hreturn, settle_caller rfl (Nat.succ_pos fuel)]

/-- **Two functions that map, in a chain, map one after the other.** When the pushes
have returned, their images have been passed on, each once and in order. -/
theorem run_pushes (hA : Maps A domA f idleA) (hB : Maps B domB g idleB)
    (hchain : chain.Settled idleA idleB) {values : List α}
    (hvalues : ∀ value ∈ values, domA value ∧ domB (f value)) :
    ∃ final, (∀ fuel, 5 ≤ fuel →
        Transition.run (perform A B fuel) chain (values.map .push) = some final) ∧
      final.Settled idleA idleB ∧
      final.emitted = chain.emitted ++ values.map fun value => g (f value) := by
  induction values generalizing chain with
  | nil => exact ⟨chain, fun _ _ => rfl, hchain, by simp⟩
  | cons value values ih =>
    obtain ⟨⟨hvalue, hf⟩, hvalues⟩ := List.forall_mem_cons.mp hvalues
    obtain ⟨next, hnext, hsettled, hemitted⟩ := perform_push hA hB hchain hvalue hf
    obtain ⟨final, hfinal, hfinalSettled, hfinalEmitted⟩ := ih hsettled hvalues
    refine ⟨final, fun fuel hfuel => ?_, hfinalSettled, ?_⟩
    · exact Transition.run_cons_eq_some_iff.mpr ⟨next, hnext fuel hfuel, hfinal fuel hfuel⟩
    · rw [hfinalEmitted, hemitted, List.append_assoc, List.singleton_append, List.map_cons]

theorem perform_destroyFront (hA : Maps A domA f idleA) (hcontrol : chain.control = .caller)
    (hfront : chain.front.Waiting idleA) {fuel : ℕ} (hfuel : 2 ≤ fuel) :
    perform A B fuel chain .destroyFront =
      some { chain with front := .ended, control := .caller } := by
  obtain ⟨front, back, control, emitted⟩ := chain
  obtain rfl : control = .caller := hcontrol
  obtain ⟨fuel, rfl⟩ := Nat.exists_eq_add_of_le' hfuel
  match front, hfront with
  | .fresh, _ =>
    rw [perform, begin, Option.bind_some]
    exact settle_caller rfl (Nat.succ_pos _)
  | .asking state, hstate =>
    have hstep : step A B ⟨.asking state, back, .front (A.unwind state), emitted⟩ =
        some ⟨.ended, back, .caller, emitted⟩ := by
      simp only [step, hA.unwind state hstate]
    rw [perform, begin, Option.bind_some, settle_step hstep]
    exact settle_caller rfl (Nat.succ_pos fuel)

theorem perform_destroyBack (hB : Maps B domB g idleB) (hcontrol : chain.control = .caller)
    (hback : chain.back.Waiting idleB) {fuel : ℕ} (hfuel : 2 ≤ fuel) :
    perform A B fuel chain .destroyBack =
      some { chain with back := .ended, control := .caller } := by
  obtain ⟨front, back, control, emitted⟩ := chain
  obtain rfl : control = .caller := hcontrol
  obtain ⟨fuel, rfl⟩ := Nat.exists_eq_add_of_le' hfuel
  match back, hback with
  | .fresh, _ =>
    rw [perform, begin, Option.bind_some]
    exact settle_caller rfl (Nat.succ_pos _)
  | .asking state, hstate =>
    have hstep : step A B ⟨front, .asking state, .back none (B.unwind state), emitted⟩ =
        some ⟨front, .ended, .caller, emitted⟩ := by
      simp only [step, hB.unwind state hstate, Control.after]
    rw [perform, begin, Option.bind_some, settle_step hstep]
    exact settle_caller rfl (Nat.succ_pos fuel)

/-- Destroying a settled chain, the front coroutine first, passes nothing on. -/
theorem run_destroy (hA : Maps A domA f idleA) (hB : Maps B domB g idleB)
    (hchain : chain.Settled idleA idleB) {fuel : ℕ} (hfuel : 2 ≤ fuel) :
    Transition.run (perform A B fuel) chain [.destroyFront, .destroyBack] =
      some { chain with front := .ended, back := .ended, control := .caller } := by
  have hfront : perform A B fuel chain .destroyFront =
      some { chain with front := .ended, control := .caller } :=
    perform_destroyFront hA hchain.control hchain.front hfuel
  refine Transition.run_cons_eq_some_iff.mpr ⟨_, hfront, ?_⟩
  refine Transition.run_cons_eq_some_iff.mpr ⟨_, perform_destroyBack hB ?_ ?_ hfuel, rfl⟩
  · rfl
  · exact hchain.back

end Chain

/-! ## A loop over the values -/

/-- Where a loop over the values that come in is: in its body with one of them, at
the step to the next one, or behind it. -/
inductive ForEach (α : Type*)
  | taken (value : α)
  | next
  | left
  deriving DecidableEq, Repr

/-- The loop whose body passes on one value, or has no defined effect. -/
def forEach (body : α → Option β) : Body α β (ForEach α) where
  enter := .taken
  resume _ value := .taken value
  unwind _ := .left
  act
    | .taken value =>
      match body value with
      | some image => .emit image .next
      | none => .undefined
    | .next => .ask
    | .left => .finish

theorem maps_forEach {body : α → Option β} {dom : α → Prop} {f : α → β}
    (h : ∀ value, dom value → body value = some (f value)) :
    Maps (forEach body) dom f (· = .next) where
  enter value hvalue := ⟨.next, by simp only [forEach, h value hvalue], rfl⟩
  resume _ value _ hvalue := ⟨.next, by simp only [forEach, h value hvalue], rfl⟩
  ask := by
    rintro _ rfl
    rfl
  unwind _ _ := rfl

/-! ## A single coroutine -/

/-- A coroutine that only its caller deals with, and what it has passed on. -/
structure Single (σ β : Type*) where
  place : Place σ := .fresh
  emitted : List β := []
  deriving DecidableEq, Repr

namespace Single

/-- The function goes on from a state until it asks or ends, for at most `fuel`
actions. -/
def proceed (A : Body α β σ) : ℕ → List β → σ → Option (Single σ β)
  | 0, _, _ => none
  | fuel + 1, emitted, state =>
    match A.act state with
    | .ask => some { place := .asking state, emitted }
    | .emit value next => proceed A fuel (emitted ++ [value]) next
    | .finish => some { place := .ended, emitted }
    | .undefined => none

/-- A push, until it has returned. -/
def push (A : Body α β σ) (fuel : ℕ) (single : Single σ β) (value : α) : Option (Single σ β) :=
  (A.push single.place value).bind (proceed A fuel single.emitted)

/-- The end of the coroutine's scope: a suspended function is unwound. -/
def destroy (A : Body α β σ) (fuel : ℕ) (single : Single σ β) : Option (Single σ β) :=
  match single.place with
  | .asking state => proceed A fuel single.emitted (A.unwind state)
  | _ => some { single with place := .ended }

end Single

/-- For each value it takes, the function moves what it has gathered by `f` and asks
for the next one. `idle` is the state in which it asks. -/
structure Gathers {κ : Type*} (A : Body α β σ) (start : κ) (f : κ → α → Option κ)
    (idle : κ → σ) : Prop where
  enter : ∀ value next, f start value = some next → A.enter value = idle next
  resume : ∀ gathered value next, f gathered value = some next →
    A.resume (idle gathered) value = idle next
  ask : ∀ gathered, A.act (idle gathered) = .ask

section Gathers

variable {κ : Type*} {A : Body α β σ} {start gathered next : κ} {f : κ → α → Option κ}
  {idle : κ → σ} {emitted : List β} {fuel : ℕ}

theorem Gathers.proceed (hA : Gathers A start f idle) (hfuel : 0 < fuel) :
    Single.proceed A fuel emitted (idle gathered) =
      some { place := .asking (idle gathered), emitted } := by
  obtain ⟨fuel, rfl⟩ := Nat.exists_eq_succ_of_ne_zero (Nat.ne_of_gt hfuel)
  rw [Single.proceed, hA.ask gathered]

theorem Gathers.push_fresh (hA : Gathers A start f idle) {value : α}
    (hnext : f start value = some next) (hfuel : 0 < fuel) :
    Single.push A fuel { place := .fresh, emitted } value =
      some { place := .asking (idle next), emitted } := by
  rw [Single.push, Body.push, Option.bind_some, hA.enter value next hnext]
  exact hA.proceed hfuel

theorem Gathers.push_asking (hA : Gathers A start f idle) {value : α}
    (hnext : f gathered value = some next) (hfuel : 0 < fuel) :
    Single.push A fuel { place := .asking (idle gathered), emitted } value =
      some { place := .asking (idle next), emitted } := by
  rw [Single.push, Body.push, Option.bind_some, hA.resume gathered value next hnext]
  exact hA.proceed hfuel

/-- Pushes into a function that gathers, once it has been entered. -/
theorem Gathers.run_asking (hA : Gathers A start f idle) (hfuel : 0 < fuel) {values : List α}
    {total : κ} (htotal : values.foldlM f gathered = some total) :
    Transition.run (Single.push A fuel) { place := .asking (idle gathered), emitted } values =
      some { place := .asking (idle total), emitted } := by
  induction values generalizing gathered with
  | nil =>
    obtain rfl := Option.some.inj htotal
    rfl
  | cons value values ih =>
    rw [List.foldlM_cons] at htotal
    obtain ⟨next, hnext, hrest⟩ := Option.bind_eq_some_iff.mp htotal
    exact Transition.run_cons_eq_some_iff.mpr ⟨_, hA.push_asking hnext hfuel, ih hrest⟩

/-- **A function that gathers holds the fold of what was pushed**, and has passed on
nothing. -/
theorem run_gathers (hA : Gathers A start f idle) (hfuel : 0 < fuel) {values : List α}
    (hvalues : values ≠ []) {total : κ} (htotal : values.foldlM f start = some total) :
    Transition.run (Single.push A fuel) {} values =
      some { place := .asking (idle total), emitted := [] } := by
  cases values with
  | nil => exact absurd rfl hvalues
  | cons value values =>
    rw [List.foldlM_cons] at htotal
    obtain ⟨next, hnext, hrest⟩ := Option.bind_eq_some_iff.mp htotal
    exact Transition.run_cons_eq_some_iff.mpr
      ⟨_, hA.push_fresh hnext hfuel, hA.run_asking hfuel hrest⟩

/-- Destroyed where it asks, a function that is unwound to its end passes on nothing. -/
theorem Single.destroy_asking {state : σ} (hunwind : A.act (A.unwind state) = .finish)
    (hfuel : 0 < fuel) :
    Single.destroy A fuel { place := .asking state, emitted } =
      some { place := .ended, emitted } := by
  obtain ⟨fuel, rfl⟩ := Nat.exists_eq_succ_of_ne_zero (Nat.ne_of_gt hfuel)
  have hdestroy : Single.destroy A (fuel + 1) { place := .asking state, emitted } =
      Single.proceed A (fuel + 1) emitted (A.unwind state) := rfl
  rw [hdestroy, Single.proceed, hunwind]

end Gathers

end Coroutine
