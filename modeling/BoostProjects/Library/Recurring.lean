import BoostProjects.Library.Lists
import BoostProjects.Library.Transition

/-!
# Timers that are set again

When a timer has expired its handler is queued, and called later. It may set the timer
again: for so long after the deadline that has passed, or for so long after what the clock
says then. The clock may be set to anything between any two of these steps.

With the first, the deadlines are a period apart whatever the clock does (`Regular`), and
calls that are late are made up for (`Regular.canReach_caughtUp`). With the second, no two
calls are closer than a period, if the clock does not go back (`Spaced`).
-/

namespace Recurring

open Transition

variable {σ : Type*}

/-- When a handler wants to be called again. -/
inductive Again
  /-- So long after the deadline that has passed. -/
  | deadline (period : ℕ)
  /-- So long after the clock. -/
  | clock (period : ℕ)
  | never
  deriving DecidableEq, Repr

/-- The next deadline. -/
def Again.next (deadline now : ℕ) : Again → Option ℕ
  | .deadline period => some (deadline + period)
  | .clock period => some (now + period)
  | .never => none

/-- A program with one timer. -/
structure Program (σ : Type*) where
  started : σ
  /-- The first deadline. -/
  first : ℕ
  /-- The handler, which is told whether the timer has expired or has been cancelled. -/
  call : σ → Bool → σ × Again
  /-- What is done when nothing is waited for any more. -/
  finish : σ → σ

/-- Where a program is with its timer. -/
inductive Phase
  | waiting (deadline : ℕ)
  /-- The wait has ended, and the handler has still to be called. -/
  | queued (deadline : ℕ) (ok : Bool)
  /-- The handler has been called, and has still to set the timer. -/
  | handling (deadline : ℕ) (again : Again)
  | idle
  | returned
  deriving DecidableEq, Repr

/-- What the handler that has still to be called will be told. -/
def Phase.pending : Phase → List Bool
  | .queued _ ok => [ok]
  | .waiting _ | .handling _ _ | .idle | .returned => []

/-- A program at some point of its run, and what the clock has said. -/
structure Timer (σ : Type*) where
  state : σ
  phase : Phase
  /-- What the clock says. -/
  now : ℕ
  /-- When the waits have ended, and whether the timer had expired. -/
  ends : List (ℕ × Bool) := []
  /-- When the handler was called, and what it was told. -/
  calls : List (ℕ × Bool) := []

/-- What can happen next. -/
inductive Event
  | clock (now : ℕ)
  /-- The timer is found to have expired. -/
  | expired
  | cancelled
  /-- The handler is called. -/
  | called
  | set
  | returned
  deriving DecidableEq, Repr

/-- The clock stands still, and nobody cancels the timer. -/
def Event.IsPrompt : Event → Prop
  | .clock _ | .cancelled => False
  | .expired | .called | .set | .returned => True

namespace Timer

variable (p : Program σ)

/-- The program waits for its first deadline. -/
def started (now : ℕ) : Timer σ := { state := p.started, phase := .waiting p.first, now }

/-- The wait ends, and the handler is queued. -/
def ended (deadline : ℕ) (ok : Bool) (t : Timer σ) : Timer σ :=
  { t with phase := .queued deadline ok, ends := t.ends ++ [(t.now, ok)] }

/-- The handler is called. -/
def called (deadline : ℕ) (ok : Bool) (t : Timer σ) : Timer σ :=
  { t with
    state := (p.call t.state ok).1
    phase := .handling deadline (p.call t.state ok).2
    calls := t.calls ++ [(t.now, ok)] }

/-- One step. A timer whose handler is queued can no longer be cancelled. -/
def step (t : Timer σ) : Event → Option (Timer σ)
  | .clock now => some { t with now }
  | .expired =>
    match t.phase with
    | .waiting deadline => if deadline ≤ t.now then some (t.ended deadline true) else none
    | _ => none
  | .cancelled =>
    match t.phase with
    | .waiting deadline => some (t.ended deadline false)
    | _ => none
  | .called =>
    match t.phase with
    | .queued deadline ok => some (t.called p deadline ok)
    | _ => none
  | .set =>
    match t.phase with
    | .handling deadline again =>
      some { t with phase := (again.next deadline t.now).elim .idle .waiting }
    | _ => none
  | .returned =>
    match t.phase with
    | .idle => some { t with phase := .returned, state := p.finish t.state }
    | _ => none

variable {p} {t next : Timer σ} {event : Event}

/-- What a step can do. -/
inductive Moves (p : Program σ) (t : Timer σ) : Event → Timer σ → Prop
  | clock (now : ℕ) : Moves p t (.clock now) { t with now }
  | expired (deadline : ℕ) (h : t.phase = .waiting deadline) (hdue : deadline ≤ t.now) :
      Moves p t .expired (t.ended deadline true)
  | cancelled (deadline : ℕ) (h : t.phase = .waiting deadline) :
      Moves p t .cancelled (t.ended deadline false)
  | called (deadline : ℕ) (ok : Bool) (h : t.phase = .queued deadline ok) :
      Moves p t .called (t.called p deadline ok)
  | set (deadline : ℕ) (again : Again) (h : t.phase = .handling deadline again) :
      Moves p t .set { t with phase := (again.next deadline t.now).elim .idle .waiting }
  | returned (h : t.phase = .idle) :
      Moves p t .returned { t with phase := .returned, state := p.finish t.state }

theorem moves_of_step (h : t.step p event = some next) : Moves p t event next := by
  cases event with
  | clock now =>
    obtain rfl := Option.some.inj h
    exact .clock now
  | expired =>
    cases hphase : t.phase <;> simp only [step, hphase, reduceCtorEq] at h
    obtain ⟨hdue, h⟩ := Option.ite_none_right_eq_some.mp h
    obtain rfl := Option.some.inj h
    exact .expired _ hphase hdue
  | cancelled =>
    cases hphase : t.phase <;> simp only [step, hphase, reduceCtorEq] at h
    obtain rfl := Option.some.inj h
    exact .cancelled _ hphase
  | called =>
    cases hphase : t.phase <;> simp only [step, hphase, reduceCtorEq] at h
    obtain rfl := Option.some.inj h
    exact .called _ _ hphase
  | set =>
    cases hphase : t.phase <;> simp only [step, hphase, reduceCtorEq] at h
    obtain rfl := Option.some.inj h
    exact .set _ _ hphase
  | returned =>
    cases hphase : t.phase <;> simp only [step, hphase, reduceCtorEq] at h
    obtain rfl := Option.some.inj h
    exact .returned hphase

section Called

variable {deadline : ℕ} {ok : Bool}

theorem called_state : (t.called p deadline ok).state = (p.call t.state ok).1 := rfl

theorem called_phase :
    (t.called p deadline ok).phase = .handling deadline (p.call t.state ok).2 := rfl

theorem called_calls : (t.called p deadline ok).calls = t.calls ++ [(t.now, ok)] := rfl

theorem length_called : (t.called p deadline ok).calls.length = t.calls.length + 1 :=
  List.length_append

theorem mem_called {call : ℕ × Bool} :
    call ∈ (t.called p deadline ok).calls ↔ call ∈ t.calls ∨ call = (t.now, ok) :=
  List.mem_append.trans (or_congr_right List.mem_singleton)

/-- A handler that is called has still to end. -/
theorem not_ended_called :
    ¬ ((t.called p deadline ok).phase = .idle ∨ (t.called p deadline ok).phase = .returned) := by
  rintro (h | h)
  · cases h
  · cases h

end Called

/-! ## The queue -/

/-- Each wait that has ended is followed by its call. -/
def InOrder (t : Timer σ) : Prop :=
  t.ends.map Prod.snd = t.calls.map Prod.snd ++ t.phase.pending

theorem inOrder_started (now : ℕ) : (started p now).InOrder := rfl

theorem InOrder.length_ends (h : t.InOrder) :
    t.ends.length = t.calls.length + t.phase.pending.length := by
  have hlength := congrArg List.length h
  rwa [List.length_map, List.length_append, List.length_map] at hlength

theorem InOrder.ended {deadline : ℕ} (ok : Bool) (h : t.InOrder)
    (hphase : t.phase = .waiting deadline) : (t.ended deadline ok).InOrder := by
  rw [InOrder, hphase, Phase.pending, List.append_nil] at h
  rw [InOrder, Timer.ended, List.map_append, h]
  rfl

theorem InOrder.step (h : t.InOrder) (hstep : t.step p event = some next) : next.InOrder := by
  cases moves_of_step hstep with
  | clock now => exact h
  | expired deadline hphase hdue => exact h.ended true hphase
  | cancelled deadline hphase => exact h.ended false hphase
  | called deadline ok hphase =>
    rw [InOrder, hphase] at h
    rw [InOrder, called_calls, called_phase, List.map_append, Phase.pending, List.append_nil]
    exact h
  | set deadline again hphase =>
    -- Whether the timer is set or not, no handler is queued.
    rw [InOrder, hphase] at h
    cases hnext : again.next deadline t.now <;> simpa [InOrder, hnext, Phase.pending] using h
  | returned hphase =>
    rw [InOrder, hphase] at h
    exact h

/-- The clock does not go back. -/
def Allows (t : Timer σ) : Event → Prop
  | .clock now => t.now ≤ now
  | _ => True

/-- A timer that has been found to have expired is still due. -/
def Due (t : Timer σ) : Prop := ∀ deadline, t.phase = .queued deadline true → deadline ≤ t.now

theorem due_started (now : ℕ) : (started p now).Due := fun _ h => by cases h

theorem Due.step (h : t.Due) (hallows : t.Allows event) (hstep : t.step p event = some next) :
    next.Due := by
  intro deadline hnext
  cases moves_of_step hstep with
  | clock now => exact (h deadline hnext).trans hallows
  | expired deadline' hphase hdue =>
    obtain ⟨rfl, -⟩ := Phase.queued.inj hnext
    exact hdue
  | cancelled deadline' hphase => cases (Phase.queued.inj hnext).2
  | called deadline' ok hphase => cases hnext
  | set deadline' again hphase =>
    cases hagain : again.next deadline' t.now <;> simp [hagain] at hnext
  | returned hphase => cases hnext

end Timer

/-! ## By the deadline -/

/-- The handler sets the timer by the deadline, if at all. -/
def Program.KeepsTo (p : Program σ) (period : ℕ) : Prop :=
  ∀ state ok, (p.call state ok).2 = .deadline period ∨ (p.call state ok).2 = .never

/-- The deadlines are a period apart. -/
structure Regular (p : Program σ) (period : ℕ) (t : Timer σ) : Prop where
  inOrder : t.InOrder
  waiting : ∀ deadline, t.phase = .waiting deadline →
    deadline = p.first + period * t.calls.length
  queued : ∀ deadline ok, t.phase = .queued deadline ok →
    deadline = p.first + period * t.calls.length
  handling : ∀ deadline again, t.phase = .handling deadline again →
    deadline + period = p.first + period * t.calls.length ∧
      (again = .deadline period ∨ again = .never)
  due : ∀ i now, t.ends[i]? = some (now, true) → p.first + period * i ≤ now

section Regular

variable {p : Program σ} {period : ℕ} {t next : Timer σ} {event : Event}

theorem regular_started (now : ℕ) : Regular p period (.started p now) where
  inOrder := Timer.inOrder_started now
  waiting deadline h := by cases h; rfl
  queued _ _ h := by cases h
  handling _ _ h := by cases h
  due _ _ h := by cases h

theorem Regular.ended {deadline : ℕ} {ok : Bool} (h : Regular p period t)
    (hphase : t.phase = .waiting deadline) (hdue : ok = true → deadline ≤ t.now) :
    Regular p period (t.ended deadline ok) where
  inOrder := h.inOrder.ended ok hphase
  waiting _ hnext := by cases hnext
  queued _ _ hnext := by
    obtain ⟨rfl, -⟩ := Phase.queued.inj hnext
    exact h.waiting _ hphase
  handling _ _ hnext := by cases hnext
  due i now hend := by
    obtain hbefore | ⟨rfl, hlast⟩ := Lists.getElem?_concat hend
    · exact h.due i now hbefore
    · obtain ⟨rfl, rfl⟩ := Prod.mk.inj hlast
      -- No handler is queued, so that as many waits have ended as calls have been made.
      have hlength := h.inOrder.length_ends
      rw [hphase, Phase.pending, List.length_nil, Nat.add_zero] at hlength
      rw [hlength, ← h.waiting _ hphase]
      exact hdue rfl

theorem Regular.called {deadline : ℕ} {ok : Bool} (hp : p.KeepsTo period) (h : Regular p period t)
    (hinOrder : (t.called p deadline ok).InOrder) (hphase : t.phase = .queued deadline ok) :
    Regular p period (t.called p deadline ok) where
  inOrder := hinOrder
  waiting _ hnext := by cases hnext
  queued _ _ hnext := by cases hnext
  handling _ _ hnext := by
    -- The call that is counted now is the one whose deadline has passed.
    obtain ⟨rfl, rfl⟩ := Phase.handling.inj hnext
    refine ⟨?_, hp t.state ok⟩
    rw [h.queued _ _ hphase, Timer.length_called, Nat.mul_succ, Nat.add_assoc]
  due := h.due

theorem Regular.step (hp : p.KeepsTo period) (h : Regular p period t)
    (hstep : t.step p event = some next) : Regular p period next := by
  have hinOrder := h.inOrder.step hstep
  cases Timer.moves_of_step hstep with
  | clock now => exact ⟨hinOrder, h.waiting, h.queued, h.handling, h.due⟩
  | expired deadline hphase hdue => exact h.ended hphase fun _ => hdue
  | cancelled deadline hphase => exact h.ended hphase fun hok => by cases hok
  | called deadline ok hphase => exact h.called hp hinOrder hphase
  | returned hphase =>
    exact ⟨hinOrder, fun _ hnext => (by cases hnext), fun _ _ hnext => (by cases hnext),
      fun _ _ hnext => (by cases hnext), h.due⟩
  | set deadline again hphase =>
    obtain ⟨hdeadline, rfl | rfl⟩ := h.handling _ _ hphase
    · -- Only here a deadline is added: a period after the one that has passed.
      refine ⟨hinOrder, fun _ hnext => ?_, fun _ _ hnext => (by cases hnext),
        fun _ _ hnext => (by cases hnext), h.due⟩
      rw [← Phase.waiting.inj hnext, ← hdeadline]
    · exact ⟨hinOrder, fun _ hnext => (by cases hnext), fun _ _ hnext => (by cases hnext),
        fun _ _ hnext => (by cases hnext), h.due⟩

/-- No call is before its deadline, unless the timer has been cancelled. -/
structure OnTime (p : Program σ) (period : ℕ) (t : Timer σ) : Prop where
  regular : Regular p period t
  isDue : t.Due
  due : ∀ i now, t.calls[i]? = some (now, true) → p.first + period * i ≤ now

theorem onTime_started (now : ℕ) : OnTime p period (.started p now) :=
  ⟨regular_started now, Timer.due_started now, fun _ _ h => by cases h⟩

/-- This needs a clock that does not go back between the end of a wait and the call. -/
theorem OnTime.step (hp : p.KeepsTo period) (h : OnTime p period t) (hallows : t.Allows event)
    (hstep : t.step p event = some next) : OnTime p period next := by
  refine ⟨h.regular.step hp hstep, h.isDue.step hallows hstep, ?_⟩
  cases Timer.moves_of_step hstep with
  | clock | expired | cancelled | set | returned => exact h.due
  | called deadline ok hphase =>
    intro i now hcall
    obtain hbefore | ⟨rfl, hlast⟩ := Lists.getElem?_concat hcall
    · exact h.due i now hbefore
    · obtain ⟨rfl, rfl⟩ := Prod.mk.inj hlast
      rw [← h.regular.queued _ _ hphase]
      exact h.isDue _ hphase

/-- Nothing is due, or nothing is waited for any more. -/
def Timer.CaughtUp (t : Timer σ) : Prop :=
  t.phase = .returned ∨ ∃ deadline, t.phase = .waiting deadline ∧ t.now < deadline

/-- How much there is to make up for. -/
def Timer.behind (t : Timer σ) : ℕ :=
  -- A call takes three steps, and each takes the deadline on by one at least.
  match t.phase with
  | .waiting deadline => 1 + 3 * (t.now + 1 - deadline)
  | .queued deadline _ => max 3 (3 * (t.now + 1 - deadline))
  | .handling deadline _ => max 2 (3 * (t.now + 1 - deadline) - 1)
  | .idle => 1
  | .returned => 0

/-- **What is late is made up for**, before the clock goes on. -/
theorem Regular.canReach_caughtUp (hp : p.KeepsTo period) (hperiod : 0 < period)
    (h : Regular p period t) :
    CanReach (Timer.step p) Event.IsPrompt
      (fun final => final.CaughtUp ∧ final.now = t.now ∧ Regular p period final) t := by
  refine CanReach.of_measure (fun s => s.now = t.now ∧ Regular p period s) Timer.behind ?_ ⟨rfl, h⟩
  rintro s ⟨hnow, hs⟩
  cases hphase : s.phase with
  | returned => exact .inl ⟨.inl hphase, hnow, hs⟩
  | idle =>
    have hstep : s.step p .returned =
        some { s with phase := .returned, state := p.finish s.state } := by
      simp only [Timer.step, hphase]
    refine .inr ⟨.returned, _, trivial, hstep, ⟨hnow, hs.step hp hstep⟩, ?_⟩
    simp only [Timer.behind, hphase]
    exact Nat.one_pos
  | waiting deadline =>
    obtain hlt | hdue := Nat.lt_or_ge s.now deadline
    · exact .inl ⟨.inr ⟨deadline, hphase, hlt⟩, hnow, hs⟩
    · -- What a call costs is less than the period that it gains.
      have hstep : s.step p .expired = some (s.ended deadline true) := by
        simp only [Timer.step, hphase, if_pos hdue]
      refine .inr ⟨.expired, _, trivial, hstep, ⟨hnow, hs.step hp hstep⟩, ?_⟩
      simp only [Timer.behind, hphase, Timer.ended]
      omega
  | queued deadline ok =>
    have hstep : s.step p .called = some (s.called p deadline ok) := by
      simp only [Timer.step, hphase]
    refine .inr ⟨.called, _, trivial, hstep, ⟨hnow, hs.step hp hstep⟩, ?_⟩
    simp only [Timer.behind, hphase, Timer.called]
    omega
  | handling deadline again =>
    have hstep : s.step p .set =
        some { s with phase := (again.next deadline s.now).elim .idle .waiting } := by
      simp only [Timer.step, hphase]
    refine .inr ⟨.set, _, trivial, hstep, ⟨hnow, hs.step hp hstep⟩, ?_⟩
    obtain ⟨-, rfl | rfl⟩ := hs.handling _ _ hphase
    · simp only [Timer.behind, hphase, Again.next, Option.elim_some]
      omega
    · simp only [Timer.behind, hphase, Again.next, Option.elim_none]
      omega

end Regular

/-! ## By the clock -/

/-- The handler sets the timer by the clock, and no more when it has been cancelled. -/
def Program.KeepsApart (p : Program σ) (period : ℕ) : Prop :=
  ∀ state, (p.call state true).2 = .clock period ∧ (p.call state false).2 = .never

/-- The next deadline is a period after the calls so far, at least. -/
def Timer.After (p : Program σ) (period : ℕ) (t : Timer σ) (deadline : ℕ) : Prop :=
  p.first + period * t.calls.length ≤ deadline ∧
    ∀ call ∈ t.calls, call.2 = true ∧ call.1 + period ≤ deadline

/-- The calls are a period apart, at least. -/
structure Spaced (p : Program σ) (period : ℕ) (t : Timer σ) : Prop where
  isDue : t.Due
  waiting : ∀ deadline, t.phase = .waiting deadline → t.After p period deadline
  queued : ∀ deadline ok, t.phase = .queued deadline ok → t.After p period deadline
  handling : ∀ deadline again, t.phase = .handling deadline again →
    again = .never ∨ again = .clock period ∧ p.first + period * t.calls.length ≤ t.now + period ∧
      ∀ call ∈ t.calls, call.2 = true
  past : ∀ call ∈ t.calls, call.1 ≤ t.now
  apart : t.calls.Pairwise fun call later => later.2 = true → call.1 + period ≤ later.1
  due : ∀ i now, t.calls[i]? = some (now, true) → p.first + period * i ≤ now

section Spaced

variable {p : Program σ} {period : ℕ} {t next : Timer σ} {event : Event}

theorem spaced_started (now : ℕ) : Spaced p period (.started p now) where
  isDue := Timer.due_started now
  waiting deadline h := by
    obtain rfl := Phase.waiting.inj h
    exact ⟨Nat.le_refl _, fun _ hcall => by cases hcall⟩
  queued _ _ h := by cases h
  handling _ _ h := by cases h
  past _ h := by cases h
  apart := .nil
  due _ _ h := by cases h

/-- Nothing is called when a wait ends. -/
theorem Spaced.ended {deadline : ℕ} {ok : Bool} (h : Spaced p period t)
    (hisDue : (t.ended deadline ok).Due) (hphase : t.phase = .waiting deadline) :
    Spaced p period (t.ended deadline ok) where
  isDue := hisDue
  waiting _ hnext := by cases hnext
  queued _ _ hnext := by
    obtain ⟨rfl, -⟩ := Phase.queued.inj hnext
    exact h.waiting _ hphase
  handling _ _ hnext := by cases hnext
  past := h.past
  apart := h.apart
  due := h.due

theorem Spaced.called {deadline : ℕ} {ok : Bool} (hp : p.KeepsApart period) (h : Spaced p period t)
    (hphase : t.phase = .queued deadline ok) : Spaced p period (t.called p deadline ok) := by
  obtain ⟨hdeadline, hcalls⟩ := h.queued _ _ hphase
  have hdue : ok = true → deadline ≤ t.now := by
    rintro rfl
    exact h.isDue _ hphase
  refine ⟨fun _ hnext => (by cases hnext), fun _ hnext => (by cases hnext),
    fun _ _ hnext => (by cases hnext), ?_, ?_, ?_, ?_⟩
  · intro _ _ hnext
    obtain ⟨-, rfl⟩ := Phase.handling.inj hnext
    cases ok with
    | false => exact .inl (hp t.state).2
    | true =>
      -- The next deadline is counted from now, which is no earlier than this one.
      refine .inr ⟨(hp t.state).1, ?_, ?_⟩
      · rw [Timer.length_called, Nat.mul_succ, ← Nat.add_assoc]
        exact Nat.add_le_add_right (hdeadline.trans (hdue rfl)) period
      · intro call hcall
        obtain hbefore | rfl := Timer.mem_called.mp hcall
        · exact (hcalls call hbefore).1
        · rfl
  · intro call hcall
    obtain hbefore | rfl := Timer.mem_called.mp hcall
    · exact h.past call hbefore
    · exact Nat.le_refl _
  -- The clock has come to the deadline, and that was set a period after each call.
  · refine List.pairwise_append.mpr ⟨h.apart, List.pairwise_singleton _ _, ?_⟩
    intro call hcall later hlater hok
    obtain rfl := List.mem_singleton.mp hlater
    exact (hcalls call hcall).2.trans (hdue hok)
  · intro i now hcall
    obtain hbefore | ⟨rfl, hlast⟩ := Lists.getElem?_concat hcall
    · exact h.due i now hbefore
    · obtain ⟨rfl, rfl⟩ := Prod.mk.inj hlast
      exact hdeadline.trans (hdue rfl)

theorem Spaced.step (hp : p.KeepsApart period) (h : Spaced p period t) (hallows : t.Allows event)
    (hstep : t.step p event = some next) : Spaced p period next := by
  have hisDue := h.isDue.step hallows hstep
  cases Timer.moves_of_step hstep with
  | clock now =>
    -- Here the clock must not go back: the timer has still to be set by it.
    have hnow : t.now ≤ now := hallows
    refine ⟨hisDue, h.waiting, h.queued, fun deadline again hphase => ?_,
      fun call hcall => (h.past call hcall).trans hnow, h.apart, h.due⟩
    obtain hnever | ⟨hagain, hle, hcalls⟩ := h.handling deadline again hphase
    · exact .inl hnever
    · exact .inr ⟨hagain, hle.trans (Nat.add_le_add_right hnow period), hcalls⟩
  | expired deadline hphase hdue => exact h.ended hisDue hphase
  | cancelled deadline hphase => exact h.ended hisDue hphase
  | called deadline ok hphase => exact h.called hp hphase
  | returned hphase =>
    exact ⟨hisDue, fun _ hnext => (by cases hnext), fun _ _ hnext => (by cases hnext),
      fun _ _ hnext => (by cases hnext), h.past, h.apart, h.due⟩
  | set deadline again hphase =>
    obtain rfl | ⟨rfl, hle, hcalls⟩ := h.handling _ _ hphase
    · exact ⟨hisDue, fun _ hnext => (by cases hnext), fun _ _ hnext => (by cases hnext),
        fun _ _ hnext => (by cases hnext), h.past, h.apart, h.due⟩
    · refine ⟨hisDue, fun _ hnext => ?_, fun _ _ hnext => (by cases hnext),
        fun _ _ hnext => (by cases hnext), h.past, h.apart, h.due⟩
      obtain rfl := Phase.waiting.inj hnext
      exact ⟨hle, fun call hcall =>
        ⟨hcalls call hcall, Nat.add_le_add_right (h.past call hcall) period⟩⟩

end Spaced

end Recurring
