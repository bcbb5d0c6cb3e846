import BoostProjects.Library.Lists
import BoostProjects.Library.Transition
import Mathlib.Algebra.GroupWithZero.Nat

/-!
# Threads and an event loop

Threads that write to one output, some of it with a lock held, and share one event
loop: handlers are posted to it, and the threads that run the loop take them in
turn. The loop counts its work, which is the handlers queued or running and one for
a guard; when the count falls to zero the loop is stopped, and the threads return
from it.

A step of the system is one step of one thread, so a run is the list of the threads
that made a step. A block that is written with the lock held takes several steps;
what is written by other threads goes on meanwhile. If nobody writes without the
lock while another thread can have it, a run is as good as one in which each block
is written in one step (`whole_of_run`). No run is longer than the programs allow
(`length_le_of_run`).
-/

namespace EventLoop

open Transition

variable {α : Type*}

/-- What a thread does next. -/
inductive Action (α : Type*)
  | write (text : α)
  /-- Writes with the lock held. -/
  | guarded (texts : List α)
  /-- Time passes. -/
  | pause
  | post (handler : List (Action α))
  /-- A new thread. -/
  | start (program : List (Action α))
  /-- The thread takes handlers until the loop is stopped. -/
  | run
  /-- The guard is released, or a handler has ended. -/
  | workFinished
  | stop
  | join (thread : ℕ)

/-- Some threads, the loop that they share, and what they have written. -/
structure System (α : Type*) where
  /-- What each thread has still to do. -/
  threads : List (List (Action α))
  queue : List (List (Action α)) := []
  work : ℕ := 0
  stopped : Bool := false
  /-- The thread that has the lock, and how many of its texts it has written. -/
  inside : Option (ℕ × ℕ) := none
  output : List (ℕ × List α) := []

namespace System

/-- The thread `t` has this to do now. -/
def becomes (t : ℕ) (program : List (Action α)) (s : System α) : System α :=
  { s with threads := s.threads.set t program }

/-- The thread `t` writes. -/
def emit (t : ℕ) (texts : List α) (s : System α) : System α :=
  { s with output := s.output ++ [(t, texts)] }

/-- One piece of work less; the loop stops when none is left. -/
def finishWork (s : System α) : System α :=
  { s with work := s.work - 1, stopped := s.stopped || s.work - 1 == 0 }

/-- The step of the thread `t` at an action, with `rest` to do after it. With
`whole`, a block is written in one step. -/
def exec (whole : Bool) (t : ℕ) (rest : List (Action α)) (s : System α) :
    Action α → Option (System α)
  | .write text => some ((s.becomes t rest).emit t [text])
  | .guarded texts =>
    match s.inside with
    | none =>
      if whole then some ((s.becomes t rest).emit t texts) else some { s with inside := some (t, 0) }
    | some (holder, written) =>
      if holder = t then
        match texts[written]? with
        | some text => some ({ s with inside := some (t, written + 1) }.emit t [text])
        | none => some { s.becomes t rest with inside := none }
      else none
  | .pause => some (s.becomes t rest)
  | .post handler =>
    some { s.becomes t rest with queue := s.queue ++ [handler], work := s.work + 1 }
  | .start program => some { s with threads := s.threads.set t rest ++ [program] }
  | .run =>
    if s.stopped then some (s.becomes t rest)
    else
      match s.queue with
      | handler :: queue =>
        some { s.becomes t (handler ++ .workFinished :: .run :: rest) with queue }
      | [] => if s.work = 0 then some { s.becomes t rest with stopped := true } else none
  | .workFinished => some (s.becomes t rest).finishWork
  | .stop => some { s.becomes t rest with stopped := true }
  | .join thread =>
    if s.threads[thread]?.any List.isEmpty then some (s.becomes t rest) else none

/-- One step of the thread `t`. -/
def step (whole : Bool) (s : System α) (t : ℕ) : Option (System α) :=
  s.threads[t]?.bind fun
    | [] => none
    | action :: rest => s.exec whole t rest action

/-- What has been written, text by text and by whom. -/
def text (s : System α) : List (ℕ × α) :=
  s.output.flatMap fun entry => entry.2.map (Prod.mk entry.1)

variable {s next : System α} {t : ℕ} {whole : Bool}

theorem step_eq_some_iff :
    s.step whole t = some next ↔
      ∃ action rest, s.threads[t]? = some (action :: rest) ∧
        s.exec whole t rest action = some next := by
  rw [step, Option.bind_eq_some_iff]
  constructor
  · rintro ⟨_ | ⟨action, rest⟩, hthread, hexec⟩
    · cases hexec
    · exact ⟨action, rest, hthread, hexec⟩
  · rintro ⟨action, rest, hthread, hexec⟩
    exact ⟨_, hthread, hexec⟩

theorem step_of_thread {action : Action α} {rest : List (Action α)}
    (h : s.threads[t]? = some (action :: rest)) :
    s.step whole t = s.exec whole t rest action := by
  rw [step, h, Option.bind_some]

/-- A thread that runs the loop leaves it or takes a handler. -/
theorem exec_run_cases {rest : List (Action α)} (h : s.exec whole t rest .run = some next) :
    (s.stopped = true ∧ next = s.becomes t rest) ∨
    (∃ handler queue, s.stopped = false ∧ s.queue = handler :: queue ∧
      next = { s.becomes t (handler ++ .workFinished :: .run :: rest) with queue }) ∨
    (s.stopped = false ∧ s.queue = [] ∧ s.work = 0 ∧
      next = { s.becomes t rest with stopped := true }) := by
  simp only [exec] at h
  cases hstopped : s.stopped with
  | true =>
    rw [if_pos hstopped] at h
    exact .inl ⟨rfl, (Option.some.inj h).symm⟩
  | false =>
    rw [hstopped, if_neg Bool.false_ne_true] at h
    right
    cases hqueue : s.queue with
    | cons handler queue =>
      rw [hqueue] at h
      exact .inl ⟨handler, queue, rfl, rfl, (Option.some.inj h).symm⟩
    | nil =>
      rw [hqueue] at h
      obtain ⟨hwork, h⟩ := Option.ite_none_right_eq_some.mp h
      exact .inr ⟨rfl, rfl, hwork, (Option.some.inj h).symm⟩

@[simp] theorem text_emit (texts : List α) :
    (s.emit t texts).text = s.text ++ texts.map (Prod.mk t) := by
  simp [text, emit]

theorem map_snd_text (s : System α) : s.text.map Prod.snd = (s.output.map Prod.snd).flatten := by
  rw [text, List.map_flatMap, List.flatMap_def]
  congr 2
  ext entry
  simp

@[simp] theorem threads_becomes (program : List (Action α)) :
    (s.becomes t program).threads = s.threads.set t program := rfl

@[simp] theorem text_becomes (program : List (Action α)) : (s.becomes t program).text = s.text := rfl

end System

/-! ## Runs are finite -/

mutual

/-- How many steps an action can lead to. -/
def Action.size : Action α → ℕ
  | .guarded texts => texts.length + 2
  | .post handler => programSize handler + 3
  | .start program => programSize program + 1
  | .write _ | .pause | .run | .workFinished | .stop | .join _ => 1

/-- How many steps a program can lead to. -/
def programSize : List (Action α) → ℕ
  | [] => 0
  | action :: rest => action.size + programSize rest

end

theorem programSize_append (program rest : List (Action α)) :
    programSize (program ++ rest) = programSize program + programSize rest := by
  induction program with
  | nil => exact (Nat.zero_add _).symm
  | cons action program ih => rw [List.cons_append, programSize, ih, programSize, Nat.add_assoc]

theorem programSize_replicate (n : ℕ) (program : List (Action α)) :
    programSize (List.replicate n program).flatten = n * programSize program := by
  induction n with
  | zero => exact (Nat.zero_mul _).symm
  | succ n ih =>
    rw [List.replicate_succ, List.flatten_cons, programSize_append, ih, Nat.succ_mul, Nat.add_comm]

theorem programSize_map {β : Type*} {f : β → Action α} {n : ℕ} (l : List β)
    (h : ∀ b, (f b).size = n) : programSize (l.map f) = l.length * n := by
  induction l with
  | nil => exact (Nat.zero_mul n).symm
  | cons b l ih =>
    rw [List.map_cons, programSize, ih, h, List.length_cons, Nat.succ_mul, Nat.add_comm]

namespace System

variable {s next final : System α} {t : ℕ} {whole : Bool}

/-- A handler in the queue can still be taken, ended, and left for the loop. -/
def size (s : System α) : ℕ :=
  (s.threads.map programSize).sum + (s.queue.map fun handler => programSize handler + 2).sum

/-- The steps made in the block that is being written. -/
def progress (s : System α) : ℕ := s.inside.elim 0 fun inside => inside.2 + 1

/-- The thread with the lock is at a block, of which it has written so much. -/
def Placed (s : System α) : Prop :=
  ∀ t written, s.inside = some (t, written) →
    ∃ texts rest, s.threads[t]? = some (.guarded texts :: rest) ∧ written ≤ texts.length

theorem placed_of_none (h : s.inside = none) : s.Placed := by
  intro t written hinside
  rw [h] at hinside
  cases hinside

theorem sum_set {l : List ℕ} {i n : ℕ} (h : l[i]? = some n) (m : ℕ) :
    (l.set i m).sum + n = l.sum + m := by
  obtain ⟨before, after, rfl, rfl⟩ := Lists.exists_split_of_getElem? h
  rw [Lists.set_split]
  simp only [List.sum_append, List.sum_cons]
  omega

theorem size_becomes {program : List (Action α)} (hthread : s.threads[t]? = some program)
    (program' : List (Action α)) :
    (s.becomes t program').size + programSize program = s.size + programSize program' := by
  have hget : (s.threads.map programSize)[t]? = some (programSize program) := by
    rw [List.getElem?_map, hthread, Option.map_some]
  have hsum := sum_set hget (programSize program')
  rw [← List.map_set] at hsum
  simp only [size, becomes]
  omega

/-- The other threads are where they were, up to new ones. -/
def KeepsOthers (t : ℕ) (s next : System α) : Prop :=
  ∀ u program, u ≠ t → s.threads[u]? = some program → next.threads[u]? = some program

theorem keepsOthers_becomes (program : List (Action α)) : KeepsOthers t s (s.becomes t program) :=
  fun _ _ hu hthread => (List.getElem?_set_ne (Ne.symm hu)).trans hthread

/-- What the actions that are no block do to the rest of the system. -/
structure Elsewhere (t : ℕ) (s next : System α) : Prop where
  inside : next.inside = s.inside
  others : KeepsOthers t s next
  size : next.size + 1 ≤ s.size

theorem exec_elsewhere {action : Action α} {rest : List (Action α)}
    (hthread : s.threads[t]? = some (action :: rest)) (haction : ∀ texts, action ≠ .guarded texts)
    (h : s.exec whole t rest action = some next) : Elsewhere t s next := by
  have hsize := size_becomes hthread
  have hrest := hsize rest
  cases action with
  | guarded texts => exact absurd rfl (haction texts)
  | write text =>
    obtain rfl := Option.some.inj h
    refine ⟨rfl, keepsOthers_becomes rest, ?_⟩
    change (s.becomes t rest).size + 1 ≤ s.size
    simp only [programSize, Action.size] at hrest
    omega
  | pause | stop | workFinished =>
    obtain rfl := Option.some.inj h
    refine ⟨rfl, keepsOthers_becomes rest, ?_⟩
    change (s.becomes t rest).size + 1 ≤ s.size
    simp only [programSize, Action.size] at hrest
    omega
  | post handler =>
    obtain rfl := Option.some.inj h
    refine ⟨rfl, keepsOthers_becomes rest, ?_⟩
    simp only [size, becomes, programSize, Action.size] at hrest ⊢
    simp only [List.map_append, List.sum_append, List.map_cons, List.map_nil, List.sum_singleton]
    omega
  | start program =>
    obtain rfl := Option.some.inj h
    refine ⟨rfl, ?_, ?_⟩
    · intro u other hu hother
      have hlt : u < (s.threads.set t rest).length := by
        rw [List.length_set]
        exact (List.getElem?_eq_some_iff.mp hother).1
      exact (List.getElem?_append_left hlt).trans (keepsOthers_becomes rest u other hu hother)
    · simp only [size, becomes, programSize, Action.size] at hrest ⊢
      simp only [List.map_append, List.sum_append, List.map_cons, List.map_nil, List.sum_singleton]
      omega
  | run =>
    obtain ⟨-, rfl⟩ | ⟨handler, queue, -, hqueue, rfl⟩ | ⟨-, -, -, rfl⟩ := exec_run_cases h
    · refine ⟨rfl, keepsOthers_becomes rest, ?_⟩
      simp only [programSize, Action.size] at hrest
      omega
    · refine ⟨rfl, keepsOthers_becomes _, ?_⟩
      have htaken := hsize (handler ++ .workFinished :: .run :: rest)
      simp only [size, becomes, programSize_append, programSize, Action.size] at htaken ⊢
      rw [hqueue] at htaken ⊢
      simp only [List.map_cons, List.sum_cons] at htaken ⊢
      omega
    · refine ⟨rfl, keepsOthers_becomes rest, ?_⟩
      change (s.becomes t rest).size + 1 ≤ s.size
      simp only [programSize, Action.size] at hrest
      omega
  | join thread =>
    obtain ⟨-, h⟩ := Option.ite_none_right_eq_some.mp h
    obtain rfl := Option.some.inj h
    refine ⟨rfl, keepsOthers_becomes rest, ?_⟩
    simp only [programSize, Action.size] at hrest
    omega

/-- What can happen at a block. -/
theorem exec_guarded_cases {texts : List α} {rest : List (Action α)}
    (h : s.exec whole t rest (.guarded texts) = some next) :
    (s.inside = none ∧ whole = true ∧ next = (s.becomes t rest).emit t texts) ∨
    (s.inside = none ∧ whole = false ∧ next = { s with inside := some (t, 0) }) ∨
    (∃ written text, s.inside = some (t, written) ∧ texts[written]? = some text ∧
      next = { s with inside := some (t, written + 1) }.emit t [text]) ∨
    (∃ written, s.inside = some (t, written) ∧ texts[written]? = none ∧
      next = { s.becomes t rest with inside := none }) := by
  simp only [exec] at h
  cases hinside : s.inside with
  | none =>
    rw [hinside] at h
    cases whole with
    | true => exact .inl ⟨rfl, rfl, (Option.some.inj h).symm⟩
    | false => exact .inr (.inl ⟨rfl, rfl, (Option.some.inj h).symm⟩)
  | some inside =>
    obtain ⟨holder, written⟩ := inside
    rw [hinside] at h
    obtain ⟨rfl, h⟩ := Option.ite_none_right_eq_some.mp h
    right
    right
    cases htext : texts[written]? with
    | some text =>
      rw [htext] at h
      exact .inl ⟨written, text, rfl, htext, (Option.some.inj h).symm⟩
    | none =>
      rw [htext] at h
      exact .inr ⟨written, rfl, htext, (Option.some.inj h).symm⟩

theorem Placed.elsewhere {action : Action α} {rest : List (Action α)} (h : s.Placed)
    (hthread : s.threads[t]? = some (action :: rest)) (haction : ∀ texts, action ≠ .guarded texts)
    (hkeeps : Elsewhere t s next) : next.Placed := by
  intro holder written hinside
  rw [hkeeps.inside] at hinside
  obtain ⟨texts, rest', hholder, hwritten⟩ := h holder written hinside
  -- The thread with the lock is at a block, so it is another one.
  have hne : holder ≠ t := by
    rintro rfl
    rw [hthread, Option.some.injEq, List.cons.injEq] at hholder
    exact haction texts hholder.1
  exact ⟨texts, rest', hkeeps.others holder _ hne hholder, hwritten⟩

/-- Each step uses up something that the programs provide. -/
theorem Placed.step (h : s.Placed) (hstep : s.step whole t = some next) :
    next.Placed ∧ next.size + 1 + s.progress ≤ s.size + next.progress := by
  obtain ⟨action, rest, hthread, hexec⟩ := step_eq_some_iff.mp hstep
  by_cases haction : ∀ texts, action ≠ .guarded texts
  · have hkeeps := exec_elsewhere hthread haction hexec
    refine ⟨h.elsewhere hthread haction hkeeps, ?_⟩
    have hsize := hkeeps.size
    rw [progress, progress, hkeeps.inside]
    omega
  · obtain ⟨texts, rfl⟩ : ∃ texts, action = .guarded texts := by
      simpa using haction
    have hsize := size_becomes hthread rest
    simp only [programSize, Action.size] at hsize
    obtain ⟨hinside, -, rfl⟩ | ⟨hinside, -, rfl⟩ | ⟨written, text, hinside, htext, rfl⟩ |
      ⟨written, hinside, htext, rfl⟩ := exec_guarded_cases hexec
    · refine ⟨placed_of_none hinside, ?_⟩
      change (s.becomes t rest).size + 1 + s.progress ≤ s.size + s.progress
      omega
    · refine ⟨?_, ?_⟩
      · rintro holder written ⟨⟩
        exact ⟨texts, rest, hthread, Nat.zero_le _⟩
      · have hprogress : s.progress = 0 := by rw [progress, hinside, Option.elim_none]
        rw [hprogress]
        exact Nat.le_refl _
    · have hlt : written < texts.length := (List.getElem?_eq_some_iff.mp htext).1
      refine ⟨?_, ?_⟩
      · rintro holder written' ⟨⟩
        exact ⟨texts, rest, hthread, hlt⟩
      · have hprogress : s.progress = written + 1 := by rw [progress, hinside, Option.elim_some]
        rw [hprogress]
        change s.size + 1 + (written + 1) ≤ s.size + (written + 1 + 1)
        omega
    · refine ⟨placed_of_none rfl, ?_⟩
      obtain ⟨texts', rest', hholder, hwritten⟩ := h t written hinside
      rw [hthread, Option.some.injEq, List.cons.injEq, Action.guarded.injEq] at hholder
      have hprogress : s.progress = written + 1 := by rw [progress, hinside, Option.elim_some]
      rw [hprogress]
      change (s.becomes t rest).size + 1 + (written + 1) ≤ s.size + 0
      have hlength := List.getElem?_eq_none_iff.mp htext
      rw [← hholder.1] at hwritten
      omega

/-- A block that has been begun still has its end to come. -/
theorem Placed.progress_le (h : s.Placed) : s.progress ≤ s.size := by
  cases hinside : s.inside with
  | none =>
    rw [progress, hinside]
    exact Nat.zero_le _
  | some inside =>
    obtain ⟨t, written⟩ := inside
    obtain ⟨texts, rest, hthread, hwritten⟩ := h t written hinside
    have hsize := size_becomes hthread []
    simp only [programSize, Action.size] at hsize
    rw [progress, hinside, Option.elim_some]
    omega

/-- **No run is longer than the programs allow.** -/
theorem length_le_of_run {ts : List ℕ} (hinside : s.inside = none)
    (hrun : Transition.run (System.step whole) s ts = some final) : ts.length ≤ s.size := by
  suffices hlength : ∀ s : System α, s.Placed →
      Transition.run (System.step whole) s ts = some final →
      final.Placed ∧ ts.length + final.size + s.progress ≤ s.size + final.progress by
    obtain ⟨hfinal, hle⟩ := hlength s (placed_of_none hinside) hrun
    have hprogress := hfinal.progress_le
    omega
  clear hrun hinside
  intro s hplaced hrun
  induction ts generalizing s with
  | nil =>
    obtain rfl := Option.some.inj hrun
    exact ⟨hplaced, by simp⟩
  | cons t ts ih =>
    obtain ⟨next, hstep, hrest⟩ := run_cons_eq_some_iff.mp hrun
    obtain ⟨hnext, hsize⟩ := hplaced.step hstep
    obtain ⟨hfinal, hlength⟩ := ih next hnext hrest
    rw [List.length_cons]
    exact ⟨hfinal, by omega⟩

/-! ## Blocks written in one step -/

/-- `c` is the system in which the block that is being written has not been begun. -/
structure Abstracts (c s : System α) : Prop where
  threads : c.threads = s.threads
  queue : c.queue = s.queue
  work : c.work = s.work
  stopped : c.stopped = s.stopped
  inside : c.inside = none
  text : ∃ part, s.text = c.text ++ part ∧ match s.inside with
    | none => part = []
    | some (t, written) => ∃ texts rest, s.threads[t]? = some (.guarded texts :: rest) ∧
        written ≤ texts.length ∧ part = (texts.take written).map (Prod.mk t)

/-- No thread writes without the lock while another one can have it. -/
def Quiet (s : System α) : Prop :=
  ∀ (t u : ℕ) text texts rest rest', s.threads[t]? = some (Action.write text :: rest) →
    s.threads[u]? ≠ some (Action.guarded texts :: rest')

theorem abstracts_self (h : s.inside = none) : Abstracts s s :=
  ⟨rfl, rfl, rfl, rfl, h, [], by simp, by rw [h]⟩

theorem Abstracts.text_eq {c : System α} (h : Abstracts c s) (hinside : s.inside = none) :
    s.text = c.text := by
  obtain ⟨part, htext, hpart⟩ := h.text
  rw [hinside] at hpart
  rw [htext, hpart, List.append_nil]

theorem Abstracts.symm {c : System α} (h : Abstracts c s) (hinside : s.inside = none) :
    Abstracts s c := by
  refine ⟨h.threads.symm, h.queue.symm, h.work.symm, h.stopped.symm, hinside, [], ?_, ?_⟩
  · rw [h.text_eq hinside, List.append_nil]
  · rw [h.inside]

/-- The actions that write nothing do the same in every such system. -/
theorem exec_silent {whole' : Bool} {c : System α} {action : Action α} {rest : List (Action α)}
    (h : Abstracts c s) (hwrite : ∀ text, action ≠ .write text)
    (hguarded : ∀ texts, action ≠ .guarded texts)
    (hexec : s.exec whole t rest action = some next) :
    ∃ c', c.exec whole' t rest action = some c' ∧ c'.threads = next.threads ∧
      c'.queue = next.queue ∧ c'.work = next.work ∧ c'.stopped = next.stopped ∧
      c'.inside = c.inside ∧ c'.output = c.output ∧ next.output = s.output := by
  obtain ⟨threads, queue, work, stopped, inside, output⟩ := s
  obtain ⟨threads', queue', work', stopped', inside', output'⟩ := c
  obtain ⟨rfl, rfl, rfl, rfl, -, -⟩ := h
  cases action with
  | write text => exact absurd rfl (hwrite text)
  | guarded texts => exact absurd rfl (hguarded texts)
  | pause | stop | workFinished | post | start =>
    obtain rfl := Option.some.inj hexec
    exact ⟨_, rfl, rfl, rfl, rfl, rfl, rfl, rfl, rfl⟩
  | join thread =>
    obtain ⟨hjoin, h⟩ := Option.ite_none_right_eq_some.mp hexec
    obtain rfl := Option.some.inj h
    exact ⟨_, if_pos hjoin, rfl, rfl, rfl, rfl, rfl, rfl, rfl⟩
  | run =>
    obtain ⟨hstopped, rfl⟩ | ⟨handler, queue, hstopped, hqueue, rfl⟩ |
      ⟨hstopped, hqueue, hwork, rfl⟩ := exec_run_cases hexec
    · refine ⟨_, if_pos hstopped, rfl, rfl, rfl, rfl, rfl, rfl, rfl⟩
    · simp only at hstopped hqueue
      subst hstopped hqueue
      exact ⟨_, rfl, rfl, rfl, rfl, rfl, rfl, rfl, rfl⟩
    · simp only at hstopped hqueue hwork
      subst hstopped hqueue hwork
      exact ⟨_, rfl, rfl, rfl, rfl, rfl, rfl, rfl, rfl⟩

theorem Abstracts.placed {c : System α} (h : Abstracts c s) : s.Placed := by
  intro t written hinside
  obtain ⟨part, -, hpart⟩ := h.text
  rw [hinside] at hpart
  obtain ⟨texts, rest, hthread, hwritten, -⟩ := hpart
  exact ⟨texts, rest, hthread, hwritten⟩

theorem Abstracts.step_write {c : System α} {text : α} {rest : List (Action α)}
    (h : Abstracts c s) (hquiet : Quiet c)
    (hthread : s.threads[t]? = some (.write text :: rest)) :
    Abstracts ((c.becomes t rest).emit t [text]) ((s.becomes t rest).emit t [text]) := by
  obtain ⟨part, htext, hpart⟩ := h.text
  cases hinside : s.inside with
  | none =>
    rw [hinside] at hpart
    subst hpart
    refine ⟨?_, h.queue, h.work, h.stopped, h.inside, [], ?_, ?_⟩
    · exact congrArg (List.set · t rest) h.threads
    · rw [text_emit, text_emit, text_becomes, text_becomes, htext, List.append_nil, List.append_nil]
    · change match s.inside with
        | none => _
        | some (_, _) => _
      rw [hinside]
  | some inside =>
    -- The lock is taken, so another thread is at a block.
    obtain ⟨holder, written⟩ := inside
    obtain ⟨texts, rest', hholder, -⟩ := h.placed holder written hinside
    rw [← h.threads] at hthread hholder
    exact absurd hholder (hquiet t holder text texts rest rest' hthread)

theorem Abstracts.step_guarded {c : System α} {texts : List α} {rest : List (Action α)}
    (h : Abstracts c s) (hthread : s.threads[t]? = some (.guarded texts :: rest))
    (hexec : s.exec false t rest (.guarded texts) = some next) :
    Abstracts c next ∨ ∃ c', c.step true t = some c' ∧ Abstracts c' next := by
  obtain ⟨part, htext, hpart⟩ := h.text
  obtain ⟨-, ⟨⟩, -⟩ | ⟨hinside, -, rfl⟩ | ⟨written, text, hinside, hwritten, rfl⟩ |
    ⟨written, hinside, hwritten, rfl⟩ := exec_guarded_cases hexec
  · rw [hinside] at hpart
    subst hpart
    exact .inl ⟨h.threads, h.queue, h.work, h.stopped, h.inside, [], htext,
      texts, rest, hthread, Nat.zero_le _, rfl⟩
  · rw [hinside] at hpart
    obtain ⟨texts', rest', hthread', -, rfl⟩ := hpart
    rw [hthread, Option.some.injEq, List.cons.injEq, Action.guarded.injEq] at hthread'
    obtain ⟨rfl, rfl⟩ := hthread'
    have hlt : written < texts.length := (List.getElem?_eq_some_iff.mp hwritten).1
    refine .inl ⟨h.threads, h.queue, h.work, h.stopped, h.inside, _, ?_,
      texts, rest, hthread, hlt, rfl⟩
    have hnext : System.text { s with inside := some (t, written + 1) } = s.text := rfl
    rw [text_emit, hnext, htext, List.append_assoc, List.take_add_one, hwritten, List.map_append]
    rfl
  · rw [hinside] at hpart
    obtain ⟨texts', rest', hthread', -, rfl⟩ := hpart
    rw [hthread, Option.some.injEq, List.cons.injEq, Action.guarded.injEq] at hthread'
    obtain ⟨rfl, rfl⟩ := hthread'
    refine .inr ⟨(c.becomes t rest).emit t texts, ?_, ?_⟩
    · rw [step_of_thread (h.threads ▸ hthread), exec, h.inside]
      rfl
    · refine ⟨congrArg (List.set · t rest) h.threads, h.queue, h.work, h.stopped, h.inside, [], ?_, rfl⟩
      have hall : texts.take written = texts :=
        List.take_of_length_le (List.getElem?_eq_none_iff.mp hwritten)
      rw [hall] at htext
      rw [text_emit, text_becomes, List.append_nil, ← htext]
      rfl

/-- A step is one of the system with whole blocks, or is inside a block. -/
theorem Abstracts.step {c : System α} (h : Abstracts c s) (hquiet : Quiet c)
    (hstep : s.step false t = some next) :
    Abstracts c next ∨ ∃ c', c.step true t = some c' ∧ Abstracts c' next := by
  obtain ⟨action, rest, hthread, hexec⟩ := step_eq_some_iff.mp hstep
  have hcthread : c.threads[t]? = some (action :: rest) := h.threads ▸ hthread
  by_cases hguarded : ∀ texts, action ≠ .guarded texts
  · by_cases hwrite : ∀ text, action ≠ .write text
    · right
      have hkeeps := exec_elsewhere hthread hguarded hexec
      obtain ⟨c', hc', hthreads, hqueue, hwork, hstopped, hinside, houtput, hsame⟩ :=
        exec_silent h hwrite hguarded hexec
      refine ⟨c', (step_of_thread hcthread).trans hc', hthreads, hqueue, hwork, hstopped,
        hinside.trans h.inside, ?_⟩
      obtain ⟨part, htext, hpart⟩ := h.text
      have hctext : c'.text = c.text := by rw [System.text, houtput, System.text]
      have hstext : next.text = s.text := by rw [System.text, hsame, System.text]
      refine ⟨part, by rw [hstext, hctext, htext], ?_⟩
      rw [hkeeps.inside]
      cases hold : s.inside with
      | none =>
        rw [hold] at hpart
        exact hpart
      | some inside =>
        obtain ⟨holder, written⟩ := inside
        rw [hold] at hpart
        obtain ⟨texts, rest', hholder, hwritten, heq⟩ := hpart
        have hne : holder ≠ t := by
          rintro rfl
          rw [hthread, Option.some.injEq, List.cons.injEq] at hholder
          exact hguarded texts hholder.1
        exact ⟨texts, rest', hkeeps.others holder _ hne hholder, hwritten, heq⟩
    · obtain ⟨text, rfl⟩ : ∃ text, action = .write text := by simpa using hwrite
      obtain rfl := Option.some.inj hexec
      exact .inr ⟨_, step_of_thread hcthread, h.step_write hquiet hthread⟩
  · obtain ⟨texts, rfl⟩ : ∃ texts, action = .guarded texts := by simpa using hguarded
    exact h.step_guarded hthread hexec

/-- **Whole blocks.** What every step with whole blocks keeps, and makes the threads
quiet, holds in each run of the system with whole blocks that stands for this one. -/
theorem whole_of_run (I : System α → Prop) {c : System α} {ts : List ℕ}
    (keeps : ∀ c t c', I c → c.step true t = some c' → I c')
    (quiet : ∀ c, I c → Quiet c)
    (hrun : Transition.run (System.step false) s ts = some final) (h : Abstracts c s) (hc : I c) :
    ∃ c', I c' ∧ Abstracts c' final := by
  induction ts generalizing s c with
  | nil =>
    obtain rfl := Option.some.inj hrun
    exact ⟨c, hc, h⟩
  | cons t ts ih =>
    obtain ⟨next, hstep, hrest⟩ := run_cons_eq_some_iff.mp hrun
    obtain hnext | ⟨c', hc', hnext⟩ := h.step (quiet c hc) hstep
    · exact ih hrest hnext hc
    · exact ih hrest hnext (keeps c t c' hc hc')

/-- The thread with the lock can go on. -/
theorem Placed.exists_step (h : s.Placed) (hinside : s.inside ≠ none) :
    ∃ t, (s.step false t).isSome := by
  obtain ⟨⟨holder, written⟩, hholder⟩ := Option.ne_none_iff_exists'.mp hinside
  obtain ⟨texts, rest, hthread, -⟩ := h holder written hholder
  refine ⟨holder, ?_⟩
  rw [step_of_thread hthread, exec, hholder]
  cases htext : texts[written]? <;> simp [htext]

/-- If a step can be made with whole blocks, one can be made without. -/
theorem Abstracts.exists_step {c : System α} (h : Abstracts c s)
    (hstep : ∃ t, (c.step true t).isSome) : ∃ t, (s.step false t).isSome := by
  cases hinside : s.inside with
  | some inside => exact h.placed.exists_step (by simp [hinside])
  | none =>
    obtain ⟨t, ht⟩ := hstep
    obtain ⟨c', hc'⟩ := Option.isSome_iff_exists.mp ht
    obtain ⟨action, rest, hthread, hexec⟩ := step_eq_some_iff.mp hc'
    refine ⟨t, ?_⟩
    rw [step_of_thread (h.threads ▸ hthread)]
    by_cases hguarded : ∀ texts, action ≠ .guarded texts
    · by_cases hwrite : ∀ text, action ≠ .write text
      · obtain ⟨s', hs', -⟩ := exec_silent (h.symm hinside) hwrite hguarded hexec
        exact Option.isSome_iff_exists.mpr ⟨s', hs'⟩
      · obtain ⟨text, rfl⟩ : ∃ text, action = .write text := by simpa using hwrite
        rfl
    · obtain ⟨texts, rfl⟩ : ∃ texts, action = .guarded texts := by simpa using hguarded
      rw [exec, hinside]
      rfl

end System

end EventLoop
