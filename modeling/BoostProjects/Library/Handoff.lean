import BoostProjects.Library.WorkerPool

/-!
# A loop that a helper's last word stops

A thread posts a handler and runs the loop, with a guard so that the loop waits. The
handler starts a helper thread, which works for a while and then posts a second handler,
and that one stops the loop. Nobody joins the helper.

So the helper uses the loop after the thread that owns it may do anything else. It is the
order of the steps that keeps the loop alive for it: the loop is left only after the
second handler, and that has to be posted first (`At.owner_runs`).
-/

namespace EventLoop

open Transition

variable {α : Type*}

/-- The action writes without the lock, or waits. -/
def Action.isOpen : Action α → Bool
  | .write _ | .pause => true
  | _ => false

/-- What a program writes. -/
def texts (program : List (Action α)) : List α := (writes program).flatten

theorem texts_append (program rest : List (Action α)) :
    texts (program ++ rest) = texts program ++ texts rest := by
  rw [texts, writes, List.filterMap_append, List.flatten_append]
  rfl

/-- What the threads do before, between and after the steps that concern the loop. -/
structure Handoff (α : Type*) where
  /-- Before the first handler is posted. -/
  opening : List (Action α)
  /-- Before the loop is run. -/
  before : List (Action α)
  /-- In the first handler, when it has started the helper. -/
  first : List (Action α)
  /-- What the helper does before it posts. -/
  working : List (Action α)
  /-- What it does then. -/
  rest : List (Action α)
  /-- In the second handler, before it stops the loop. -/
  second : List (Action α)
  /-- After the loop. -/
  after : List (Action α)

namespace Handoff

variable (d : Handoff α)

/-- What the helper posts. -/
def secondHandler : List (Action α) := d.second ++ [.stop]

/-- What the helper does. -/
def helper : List (Action α) := d.working ++ .post d.secondHandler :: d.rest

/-- What the owner posts. -/
def firstHandler : List (Action α) := .start d.helper :: d.first

/-- After the loop the guard is released. -/
def ending : List (Action α) := d.after ++ [.workFinished]

/-- What the owner does. -/
def main : List (Action α) :=
  d.opening ++ .post d.firstHandler :: (d.before ++ .run :: d.ending)

/-- The thread that owns the loop, and the guard. -/
def started : System α := { threads := [d.main], work := 1 }

/-- All that is written or waited for is so without the lock. -/
def IsOpen : Prop :=
  ∀ action ∈ d.opening ++ d.before ++ d.first ++ d.working ++ d.rest ++ d.second ++ d.after,
    action.isOpen = true

instance : Decidable d.IsOpen :=
  inferInstanceAs (Decidable (∀ action ∈ d.opening ++ d.before ++ d.first ++ d.working ++ d.rest ++
    d.second ++ d.after, action.isOpen = true))

/-- Where the owner of the loop is. -/
inductive Owner (α : Type*)
  | opening (done rest : List (Action α))
  | before (done rest : List (Action α))
  | starting
  | first (done rest : List (Action α))
  | waiting
  | second (done rest : List (Action α))
  | stopped
  | leaving
  | after (done rest : List (Action α))
  | finished

/-- Where the helper is. -/
inductive Helper (α : Type*)
  | absent
  | working (done rest : List (Action α))
  | posted (done rest : List (Action α))

/-- The second handler has been posted. -/
def Helper.hasPosted : Helper α → Bool
  | .posted _ _ => true
  | _ => false

/-- The owner is in the loop, or has not come to it. -/
def Owner.runs : Owner α → Bool
  | .after _ _ | .finished => false
  | _ => true

variable {d}

/-- What the owner has still to do. -/
def Owner.program (d : Handoff α) : Owner α → List (Action α)
  | .opening _ rest => rest ++ .post d.firstHandler :: (d.before ++ .run :: d.ending)
  | .before _ rest => rest ++ .run :: d.ending
  | .starting => d.firstHandler ++ .workFinished :: .run :: d.ending
  | .first _ rest => rest ++ .workFinished :: .run :: d.ending
  | .waiting => .run :: d.ending
  | .second _ rest => rest ++ .stop :: .workFinished :: .run :: d.ending
  | .stopped => .workFinished :: .run :: d.ending
  | .leaving => .run :: d.ending
  | .after _ rest => rest ++ [.workFinished]
  | .finished => []

/-- What the owner has written. -/
def Owner.text (d : Handoff α) : Owner α → List α
  | .opening done _ => texts done
  | .before done _ => texts (d.opening ++ done)
  | .starting => texts (d.opening ++ d.before)
  | .first done _ => texts (d.opening ++ d.before ++ done)
  | .waiting => texts (d.opening ++ d.before ++ d.first)
  | .second done _ => texts (d.opening ++ d.before ++ d.first ++ done)
  | .stopped | .leaving => texts (d.opening ++ d.before ++ d.first ++ d.second)
  | .after done _ => texts (d.opening ++ d.before ++ d.first ++ d.second ++ done)
  | .finished => texts (d.opening ++ d.before ++ d.first ++ d.second ++ d.after)

/-- The work of the loop but for the queue. -/
def Owner.work : Owner α → ℕ
  | .starting | .first _ _ | .second _ _ | .stopped => 2
  | .finished => 0
  | _ => 1

/-- The second handler has stopped the loop. -/
def Owner.hasStopped : Owner α → Bool
  | .stopped | .leaving | .after _ _ | .finished => true
  | _ => false

/-- The queue, when the helper is so far. -/
def Owner.queue (d : Handoff α) (posted : Bool) : Owner α → List (List (Action α))
  | .before _ _ => [d.firstHandler]
  | .first _ _ | .waiting => if posted then [d.secondHandler] else []
  | _ => []

/-- The owner is somewhere in its program, and before and after the helper has posted
where it can be. -/
def Owner.Valid (d : Handoff α) (helper : Helper α) : Owner α → Prop
  | .opening done rest => done ++ rest = d.opening ∧ helper = .absent
  | .before done rest => done ++ rest = d.before ∧ helper = .absent
  | .starting => helper = .absent
  | .first done rest => done ++ rest = d.first ∧ helper ≠ .absent
  | .waiting => helper ≠ .absent
  | .second done rest => done ++ rest = d.second ∧ helper.hasPosted = true
  | .stopped | .leaving | .finished => helper.hasPosted = true
  | .after done rest => done ++ rest = d.after ∧ helper.hasPosted = true

/-- The threads that the helper adds. -/
def Helper.threads (d : Handoff α) : Helper α → List (List (Action α))
  | .absent => []
  | .working _ rest => [rest ++ .post d.secondHandler :: d.rest]
  | .posted _ rest => [rest]

/-- What the helper has written. -/
def Helper.text (d : Handoff α) : Helper α → List α
  | .absent => []
  | .working done _ => texts done
  | .posted done _ => texts (d.working ++ done)

/-- The helper is somewhere in its program. -/
def Helper.Valid (d : Handoff α) : Helper α → Prop
  | .absent => True
  | .working done rest => done ++ rest = d.working
  | .posted done rest => done ++ rest = d.rest

/-- The system where the owner and the helper are here. -/
structure At (d : Handoff α) (owner : Owner α) (helper : Helper α) (s : System α) : Prop where
  validOwner : owner.Valid d helper
  validHelper : helper.Valid d
  threads : s.threads = owner.program d :: helper.threads d
  queue : s.queue = owner.queue d helper.hasPosted
  work : s.work = owner.work + s.queue.length
  stopped : s.stopped = owner.hasStopped
  inside : s.inside = none
  byOwner : s.textBy 0 = owner.text d
  byHelper : s.textBy 1 = helper.text d

section Steps

variable {s next : System α} {t : ℕ} {owner : Owner α} {helper : Helper α} {action : Action α}
  {rest : List (Action α)}

theorem textBy_of_text {more : List α} (t u : ℕ) (h : next.text = s.text ++ more.map (Prod.mk u)) :
    next.textBy t = s.textBy t ++ if u = t then more else [] := by
  rw [System.textBy, h, List.filter_append, List.map_append, System.textBy]
  split_ifs with heq
  · rw [heq, System.filter_written_self]
  · rw [System.filter_written_of_ne heq]

/-- What a step changes that does not concern the loop. -/
structure Passes (t : ℕ) (rest : List (Action α)) (more : List α) (s next : System α) : Prop where
  threads : next.threads = s.threads.set t rest
  queue : next.queue = s.queue
  work : next.work = s.work
  stopped : next.stopped = s.stopped
  inside : next.inside = s.inside
  text : next.text = s.text ++ more.map (Prod.mk t)

theorem passes_of_isOpen {whole : Bool} (haction : action.isOpen = true)
    (h : s.exec whole t rest action = some next) : Passes t rest (texts [action]) s next := by
  cases action with
  | write text =>
    obtain rfl := Option.some.inj h
    exact ⟨rfl, rfl, rfl, rfl, rfl, System.text_emit _⟩
  | pause =>
    obtain rfl := Option.some.inj h
    exact ⟨rfl, rfl, rfl, rfl, rfl, (List.append_nil _).symm⟩
  | guarded | post | start | run | workFinished | stop | join => cases haction

/-- The owner makes such a step. -/
theorem At.passes (owner' : Owner α) (h : At d owner helper s)
    (hnext : Passes 0 (owner'.program d) (texts [action]) s next) (hvalid : owner'.Valid d helper)
    (hqueue : owner'.queue d helper.hasPosted = owner.queue d helper.hasPosted)
    (hwork : owner'.work = owner.work) (hstopped : owner'.hasStopped = owner.hasStopped)
    (htext : owner'.text d = owner.text d ++ texts [action]) : At d owner' helper next where
  validOwner := hvalid
  validHelper := h.validHelper
  threads := by rw [hnext.threads, h.threads, List.set_cons_zero]
  queue := by rw [hnext.queue, h.queue, hqueue]
  work := by rw [hnext.work, hnext.queue, h.work, hwork]
  stopped := by rw [hnext.stopped, h.stopped, hstopped]
  inside := by rw [hnext.inside, h.inside]
  byOwner := by rw [textBy_of_text 0 0 hnext.text, h.byOwner, htext, if_pos rfl]
  byHelper := by
    rw [textBy_of_text 1 0 hnext.text, h.byHelper, if_neg Nat.zero_ne_one, List.append_nil]

/-- The owner makes a step that concerns the loop. -/
theorem At.turns (owner' : Owner α) (h : At d owner helper s)
    (hthreads : next.threads = s.threads.set 0 (owner'.program d)) (hvalid : owner'.Valid d helper)
    (hqueue : next.queue = owner'.queue d helper.hasPosted)
    (hwork : next.work = owner'.work + next.queue.length)
    (hstopped : next.stopped = owner'.hasStopped) (hinside : next.inside = s.inside)
    (houtput : next.output = s.output) (htext : owner'.text d = owner.text d) :
    At d owner' helper next where
  validOwner := hvalid
  validHelper := h.validHelper
  threads := by rw [hthreads, h.threads, List.set_cons_zero]
  queue := hqueue
  work := hwork
  stopped := hstopped
  inside := by rw [hinside, h.inside]
  byOwner := by
    have hsame : next.text = s.text := by rw [System.text, houtput, System.text]
    rw [System.textBy, hsame, htext]
    exact h.byOwner
  byHelper := by
    have hsame : next.text = s.text := by rw [System.text, houtput, System.text]
    rw [System.textBy, hsame]
    exact h.byHelper

theorem texts_concat (program : List (Action α)) (action : Action α) :
    texts (program ++ [action]) = texts program ++ texts [action] := texts_append program [action]

/-- The owner does the next thing that does not concern the loop. -/
theorem At.owner_passes (owner' : Owner α) {whole : Bool} (h : At d owner helper s)
    (haction : action.isOpen = true) (hprogram : owner.program d = action :: owner'.program d)
    (hstep : s.step whole 0 = some next) (hvalid : owner'.Valid d helper)
    (hqueue : owner'.queue d helper.hasPosted = owner.queue d helper.hasPosted)
    (hwork : owner'.work = owner.work) (hstopped : owner'.hasStopped = owner.hasStopped)
    (htext : owner'.text d = owner.text d ++ texts [action]) : At d owner' helper next := by
  have hthread : s.threads[0]? = some (action :: owner'.program d) := by
    rw [h.threads, List.getElem?_cons_zero, hprogram]
  rw [System.step_of_thread hthread] at hstep
  exact h.passes owner' (passes_of_isOpen haction hstep) hvalid hqueue hwork hstopped htext

/-- What the owner does at the next step that concerns the loop. -/
theorem At.exec_owner {whole : Bool} (h : At d owner helper s)
    (hprogram : owner.program d = action :: rest) (hstep : s.step whole 0 = some next) :
    s.exec whole 0 rest action = some next := by
  have hthread : s.threads[0]? = some (action :: rest) := by
    rw [h.threads, List.getElem?_cons_zero, hprogram]
  rwa [System.step_of_thread hthread] at hstep

theorem At.owner_step {whole : Bool} (hd : d.IsOpen) (h : At d owner helper s)
    (hstep : s.step whole 0 = some next) : ∃ owner' helper', At d owner' helper' next := by
  have hvalid := h.validOwner
  have hqueue := h.queue
  have hwork := h.work
  have hstopped := h.stopped
  cases owner with
  | opening done todo =>
    obtain ⟨hsplit, rfl⟩ := hvalid
    cases todo with
    | nil =>
      have hdone : done = d.opening := by rw [← hsplit, List.append_nil]
      obtain rfl := Option.some.inj (h.exec_owner rfl hstep)
      refine ⟨.before [] d.before, .absent, h.turns _ rfl ⟨rfl, rfl⟩ ?_ ?_ hstopped rfl rfl ?_⟩
      · exact congrArg (· ++ [d.firstHandler]) hqueue
      · change s.work + 1 = 1 + (s.queue ++ [d.firstHandler]).length
        rw [hwork, List.length_append, List.length_singleton]
        exact Nat.add_assoc 1 _ 1
      · rw [Owner.text, Owner.text, hdone, List.append_nil]
    | cons a todo =>
      have ha : a.isOpen = true := hd a (by simp [← hsplit])
      exact ⟨.opening (done ++ [a]) todo, .absent, h.owner_passes _ ha rfl hstep
        ⟨by rw [← hsplit, List.append_assoc]; rfl, rfl⟩ rfl rfl rfl (texts_concat _ _)⟩
  | before done todo =>
    obtain ⟨hsplit, rfl⟩ := hvalid
    cases todo with
    | nil =>
      have hdone : done = d.before := by rw [← hsplit, List.append_nil]
      obtain ⟨hstop, -⟩ | ⟨handler, queue, -, hhandler, rfl⟩ | ⟨-, hnone, -⟩ :=
        System.exec_run_cases (h.exec_owner rfl hstep)
      · rw [hstopped] at hstop
        cases hstop
      · -- The only handler there is, is the one posted before the loop.
        have htaken : handler :: queue = [d.firstHandler] := hhandler.symm.trans hqueue
        obtain ⟨rfl, rfl⟩ := List.cons.inj htaken
        refine ⟨.starting, .absent, h.turns _ rfl rfl rfl ?_ hstopped rfl rfl ?_⟩
        · change s.work = 2
          rw [hwork, hhandler]
          rfl
        · rw [Owner.text, Owner.text, hdone]
      · rw [hqueue] at hnone
        cases hnone
    | cons a todo =>
      have ha : a.isOpen = true := hd a (by simp [← hsplit])
      exact ⟨.before (done ++ [a]) todo, .absent, h.owner_passes _ ha rfl hstep
        ⟨by rw [← hsplit, List.append_assoc]; rfl, rfl⟩ rfl rfl rfl
        (by rw [Owner.text, ← List.append_assoc]; exact texts_concat _ _)⟩
  | starting =>
    -- From here on there are two threads.
    obtain rfl : helper = .absent := hvalid
    obtain rfl := Option.some.inj (h.exec_owner rfl hstep)
    refine ⟨.first [] d.first, .working [] d.working, ⟨rfl, nofun⟩, rfl, ?_, hqueue, hwork, hstopped,
      h.inside, ?_, h.byHelper⟩
    · rw [h.threads]
      rfl
    · rw [Owner.text, List.append_nil]
      exact h.byOwner
  | first done todo =>
    obtain ⟨hsplit, hhelper⟩ := hvalid
    cases todo with
    | nil =>
      have hdone : done = d.first := by rw [← hsplit, List.append_nil]
      obtain rfl := Option.some.inj (h.exec_owner rfl hstep)
      have htwo : s.work = 2 + s.queue.length := hwork
      have hwork' : s.work - 1 = 1 + s.queue.length := by omega
      have hgoing : s.stopped = false := hstopped
      refine ⟨.waiting, helper, h.turns _ rfl hhelper hqueue hwork' ?_ rfl rfl ?_⟩
      · change (s.stopped || s.work - 1 == 0) = false
        rw [hgoing, hwork', Bool.false_or, beq_eq_false_iff_ne]
        omega
      · rw [Owner.text, Owner.text, hdone]
    | cons a todo =>
      have ha : a.isOpen = true := hd a (by simp [← hsplit])
      exact ⟨.first (done ++ [a]) todo, helper, h.owner_passes _ ha rfl hstep
        ⟨by rw [← hsplit, List.append_assoc]; rfl, hhelper⟩ rfl rfl rfl
        (by rw [Owner.text, ← List.append_assoc]; exact texts_concat _ _)⟩
  | waiting =>
    -- The guard keeps the loop, and the helper is what it waits for.
    have hhelper : helper ≠ .absent := hvalid
    obtain ⟨hstop, -⟩ | ⟨handler, queue, -, hhandler, rfl⟩ | ⟨-, -, hnone, -⟩ :=
      System.exec_run_cases (h.exec_owner rfl hstep)
    · rw [hstopped] at hstop
      cases hstop
    · cases hposted : helper.hasPosted with
      | false =>
        rw [hposted, hhandler] at hqueue
        cases hqueue
      | true =>
        rw [hposted, hhandler] at hqueue
        obtain ⟨rfl, rfl⟩ := List.cons.inj hqueue
        refine ⟨.second [] d.second, helper, h.turns _ ?_ ⟨rfl, hposted⟩ rfl ?_ hstopped rfl rfl ?_⟩
        · simp only [System.becomes, Owner.program, secondHandler, List.append_assoc]
          rfl
        · change s.work = 2
          rw [hwork, hhandler]
          rfl
        · rw [Owner.text, Owner.text, List.append_nil]
    · -- The loop does not end by itself.
      have hone : s.work = 1 + s.queue.length := hwork
      omega
  | second done todo =>
    obtain ⟨hsplit, hposted⟩ := hvalid
    cases todo with
    | nil =>
      have hdone : done = d.second := by rw [← hsplit, List.append_nil]
      obtain rfl := Option.some.inj (h.exec_owner rfl hstep)
      exact ⟨.stopped, helper, h.turns _ rfl hposted hqueue hwork rfl rfl rfl
        (by rw [Owner.text, Owner.text, hdone])⟩
    | cons a todo =>
      have ha : a.isOpen = true := hd a (by simp [← hsplit])
      exact ⟨.second (done ++ [a]) todo, helper, h.owner_passes _ ha rfl hstep
        ⟨by rw [← hsplit, List.append_assoc]; rfl, hposted⟩ rfl rfl rfl
        (by rw [Owner.text, ← List.append_assoc]; exact texts_concat _ _)⟩
  | stopped =>
    -- The second handler ends, in a loop that has been stopped with the guard still held.
    obtain rfl := Option.some.inj (h.exec_owner rfl hstep)
    refine ⟨.leaving, helper, h.turns _ rfl hvalid hqueue ?_ ?_ rfl rfl rfl⟩
    · have htwo : s.work = 2 + s.queue.length := hwork
      change s.work - 1 = 1 + s.queue.length
      omega
    · change (s.stopped || s.work - 1 == 0) = true
      rw [hstopped]
      rfl
  | leaving =>
    obtain ⟨-, rfl⟩ | ⟨handler, queue, hstop, -⟩ | ⟨hstop, -⟩ :=
      System.exec_run_cases (h.exec_owner rfl hstep)
    · exact ⟨.after [] d.after, helper, h.turns _ rfl ⟨rfl, hvalid⟩ hqueue hwork hstopped rfl rfl
        (by rw [Owner.text, Owner.text, List.append_nil])⟩
    · rw [hstopped] at hstop
      cases hstop
    · rw [hstopped] at hstop
      cases hstop
  | after done todo =>
    obtain ⟨hsplit, hposted⟩ := hvalid
    cases todo with
    | nil =>
      have hdone : done = d.after := by rw [← hsplit, List.append_nil]
      obtain rfl := Option.some.inj (h.exec_owner rfl hstep)
      refine ⟨.finished, helper, h.turns _ rfl hposted hqueue ?_ ?_ rfl rfl ?_⟩
      · have hone : s.work = 1 + s.queue.length := hwork
        change s.work - 1 = 0 + s.queue.length
        omega
      · change (s.stopped || s.work - 1 == 0) = true
        rw [hstopped]
        rfl
      · rw [Owner.text, Owner.text, hdone]
    | cons a todo =>
      have ha : a.isOpen = true := hd a (by simp [← hsplit])
      exact ⟨.after (done ++ [a]) todo, helper, h.owner_passes _ ha rfl hstep
        ⟨by rw [← hsplit, List.append_assoc]; rfl, hposted⟩ rfl rfl rfl
        (by rw [Owner.text, ← List.append_assoc]; exact texts_concat _ _)⟩
  | finished =>
    obtain ⟨action, rest, hthread, -⟩ := System.step_eq_some_iff.mp hstep
    rw [h.threads, List.getElem?_cons_zero] at hthread
    cases hthread

/-- The owner can stay where it is while the helper goes on. -/
theorem Owner.Valid.of_helper {helper' : Helper α} (h : owner.Valid d helper)
    (hpresent : helper ≠ .absent) (hpresent' : helper' ≠ .absent)
    (hposted : helper.hasPosted = true → helper'.hasPosted = true) : owner.Valid d helper' := by
  cases owner with
  | opening | before => exact absurd h.2 hpresent
  | starting => exact absurd h hpresent
  | first => exact ⟨h.1, hpresent'⟩
  | waiting => exact hpresent'
  | second | after => exact ⟨h.1, hposted h.2⟩
  | stopped | leaving | finished => exact hposted h

/-- The helper makes a step that does not concern the loop. -/
theorem At.helper_passes (helper' : Helper α) {whole : Bool} (h : At d owner helper s)
    (haction : action.isOpen = true) (hprogram : helper.threads d = [action :: rest])
    (hstep : s.step whole 1 = some next) (hvalid : helper'.Valid d)
    (hthreads : helper'.threads d = [rest]) (hposted : helper'.hasPosted = helper.hasPosted)
    (htext : helper'.text d = helper.text d ++ texts [action]) : At d owner helper' next := by
  have hthread : s.threads[1]? = some (action :: rest) := by
    rw [h.threads, hprogram]
    rfl
  rw [System.step_of_thread hthread] at hstep
  have hpasses := passes_of_isOpen haction hstep
  have hpresent : helper ≠ .absent := by
    rintro rfl
    cases hprogram
  have hpresent' : helper' ≠ .absent := by
    rintro rfl
    cases hthreads
  refine ⟨h.validOwner.of_helper hpresent hpresent' fun h => by rw [hposted, h], hvalid, ?_, ?_, ?_, ?_,
    ?_, ?_, ?_⟩
  · rw [hpasses.threads, h.threads, hprogram, hthreads]
    rfl
  · rw [hpasses.queue, h.queue, hposted]
  · rw [hpasses.work, hpasses.queue, h.work]
  · rw [hpasses.stopped, h.stopped]
  · rw [hpasses.inside, h.inside]
  · rw [textBy_of_text 0 1 hpasses.text, h.byOwner, if_neg Nat.one_ne_zero, List.append_nil]
  · rw [textBy_of_text 1 1 hpasses.text, h.byHelper, htext, if_pos rfl]

/-- The helper posts while the owner is in its first handler or waits for the second. -/
theorem At.posts {done : List (Action α)} {whole : Bool} (h : At d owner (.working done []) s)
    (hstep : s.step whole 1 = some next) : At d owner (.posted [] d.rest) next := by
  have hthread : s.threads[1]? = some (.post d.secondHandler :: d.rest) := by
    rw [h.threads]
    rfl
  have hdone : done = d.working := (List.append_nil done).symm.trans h.validHelper
  have hvalid : owner.Valid d (.posted [] d.rest) := h.validOwner.of_helper nofun nofun fun _ => rfl
  rw [System.step_of_thread hthread] at hstep
  obtain rfl := Option.some.inj hstep
  refine ⟨hvalid, rfl, ?_, ?_, ?_, h.stopped, h.inside, h.byOwner, ?_⟩
  · simp only [System.becomes, h.threads]
    rfl
  · have hqueue := h.queue
    have hwhere := h.validOwner
    change s.queue ++ [d.secondHandler] = _
    rw [hqueue]
    -- Before the first handler there is no helper, and after the second it has posted.
    cases owner with
    | first | waiting => rfl
    | opening | before => cases hwhere.2
    | starting => cases hwhere
    | second | after => cases hwhere.2
    | stopped | leaving | finished => cases hwhere
  · change s.work + 1 = owner.work + (s.queue ++ [d.secondHandler]).length
    rw [h.work, List.length_append, List.length_singleton, Nat.add_assoc]
  · rw [Helper.text, List.append_nil, ← hdone]
    exact h.byHelper

theorem At.helper_step {whole : Bool} (hd : d.IsOpen) (h : At d owner helper s)
    (hstep : s.step whole 1 = some next) : ∃ helper', At d owner helper' next := by
  have hvalid := h.validHelper
  cases helper with
  | absent =>
    obtain ⟨action, rest, hthread, -⟩ := System.step_eq_some_iff.mp hstep
    rw [h.threads] at hthread
    cases hthread
  | working done todo =>
    cases todo with
    | nil => exact ⟨_, h.posts hstep⟩
    | cons a todo =>
      have hsplit : done ++ a :: todo = d.working := hvalid
      have ha : a.isOpen = true := hd a (by simp [← hsplit])
      refine ⟨.working (done ++ [a]) todo, h.helper_passes _ ha rfl hstep ?_ rfl rfl
        (texts_concat _ _)⟩
      change (done ++ [a]) ++ todo = d.working
      rw [← hsplit, List.append_assoc]
      rfl
  | posted done todo =>
    cases todo with
    | nil =>
      obtain ⟨action, rest, hthread, -⟩ := System.step_eq_some_iff.mp hstep
      rw [h.threads] at hthread
      cases hthread
    | cons a todo =>
      have hsplit : done ++ a :: todo = d.rest := hvalid
      have ha : a.isOpen = true := hd a (by simp [← hsplit])
      refine ⟨.posted (done ++ [a]) todo, h.helper_passes _ ha rfl hstep ?_ rfl rfl
        (by rw [Helper.text, ← List.append_assoc]; exact texts_concat _ _)⟩
      change (done ++ [a]) ++ todo = d.rest
      rw [← hsplit, List.append_assoc]
      rfl

theorem length_threads_le (helper : Helper α) : (helper.threads d).length ≤ 1 := by
  cases helper with
  | absent => exact Nat.zero_le 1
  | working | posted => exact Nat.le_refl 1

theorem At.step {whole : Bool} (hd : d.IsOpen) (h : At d owner helper s)
    (hstep : s.step whole t = some next) : ∃ owner' helper', At d owner' helper' next := by
  match t, hstep with
  | 0, hstep => exact h.owner_step hd hstep
  | 1, hstep =>
    obtain ⟨helper', hnext⟩ := h.helper_step hd hstep
    exact ⟨owner, helper', hnext⟩
  | t + 2, hstep =>
    -- There is no third thread.
    obtain ⟨action, rest, hthread, -⟩ := System.step_eq_some_iff.mp hstep
    have hlt := (List.getElem?_eq_some_iff.mp hthread).1
    rw [h.threads, List.length_cons] at hlt
    have hle := length_threads_le (d := d) helper
    omega

/-- **The loop is there when the helper posts.** -/
theorem At.owner_runs (h : At d owner helper s) (hposted : helper.hasPosted = false) :
    owner.runs = true := by
  have hvalid := h.validOwner
  cases owner with
  | after => exact absurd hvalid.2 (by rw [hposted]; exact Bool.false_ne_true)
  | finished =>
    have hvalid : helper.hasPosted = true := hvalid
    rw [hposted] at hvalid
    cases hvalid
  | opening | before | starting | first | waiting | second | stopped | leaving => rfl

/-- An owner that runs the loop still has to leave it. -/
theorem exists_program (h : owner.runs = true) :
    ∃ handled, owner.program d = handled ++ .run :: d.ending := by
  cases owner with
  | opening _ todo => exact ⟨todo ++ .post d.firstHandler :: d.before, by simp [Owner.program]⟩
  | before _ todo => exact ⟨todo, rfl⟩
  | starting => exact ⟨d.firstHandler ++ [.workFinished], by simp [Owner.program]⟩
  | first _ todo => exact ⟨todo ++ [.workFinished], by simp [Owner.program]⟩
  | waiting | leaving => exact ⟨[], rfl⟩
  | second _ todo => exact ⟨todo ++ [.stop, .workFinished], by simp [Owner.program]⟩
  | stopped => exact ⟨[.workFinished], rfl⟩
  | after | finished => cases h

theorem texts_isPrefix {program done : List (Action α)} (rest : List (Action α))
    (h : done ++ rest = program) :
    texts done <+: texts program := by
  rw [← h, texts_append]
  exact List.prefix_append _ _

/-- What the owner has written begins what its programs write one after the other. -/
theorem At.text_isPrefix (h : At d owner helper s) :
    s.textBy 0 <+: texts (d.opening ++ d.before ++ d.first ++ d.second ++ d.after) := by
  have hvalid := h.validOwner
  rw [h.byOwner]
  cases owner with
  | opening done todo =>
    exact texts_isPrefix (todo ++ (d.before ++ d.first ++ d.second ++ d.after))
      (by rw [← hvalid.1]; simp)
  | before done todo =>
    exact texts_isPrefix (todo ++ (d.first ++ d.second ++ d.after)) (by rw [← hvalid.1]; simp)
  | starting => exact texts_isPrefix (d.first ++ d.second ++ d.after) (by simp)
  | first done todo =>
    exact texts_isPrefix (todo ++ (d.second ++ d.after)) (by rw [← hvalid.1]; simp)
  | waiting => exact texts_isPrefix (d.second ++ d.after) (by simp)
  | second done todo => exact texts_isPrefix (todo ++ d.after) (by rw [← hvalid.1]; simp)
  | stopped | leaving => exact texts_isPrefix (d.after) (by simp)
  | after done todo => exact texts_isPrefix (todo) (by rw [← hvalid.1]; simp)
  | finished => exact List.prefix_rfl

theorem At.helper_isPrefix (h : At d owner helper s) :
    s.textBy 1 <+: texts (d.working ++ d.rest) ∧
      (helper.hasPosted = true → texts d.working <+: s.textBy 1) := by
  have hvalid := h.validHelper
  rw [h.byHelper]
  cases helper with
  | absent => exact ⟨List.nil_prefix, fun hposted => by cases hposted⟩
  | working done todo =>
    have hsplit : done ++ todo = d.working := hvalid
    exact ⟨texts_isPrefix (todo ++ d.rest) (by rw [← hsplit]; simp),
      fun hposted => by cases hposted⟩
  | posted done todo =>
    have hsplit : done ++ todo = d.rest := hvalid
    refine ⟨texts_isPrefix (todo) (by rw [← hsplit]; simp), fun _ => ?_⟩
    exact texts_isPrefix done rfl

theorem isSome_of_isOpen {whole : Bool} (hthread : s.threads[t]? = some (action :: rest))
    (haction : action.isOpen = true) : (s.step whole t).isSome = true := by
  rw [System.step_of_thread hthread]
  cases action with
  | write | pause => rfl
  | guarded | post | start | run | workFinished | stop | join => cases haction

/-- Until both threads have ended, one of them can make a step. -/
theorem At.exists_step {whole : Bool} (hd : d.IsOpen) (h : At d owner helper s)
    (hnot : ¬ (owner = .finished ∧ ∃ done, helper = .posted done [])) :
    ∃ t, (s.step whole t).isSome = true := by
  have hvalid := h.validOwner
  have hhelper := h.validHelper
  have hmain : ∀ {action rest}, owner.program d = action :: rest →
      s.threads[0]? = some (action :: rest) := by
    intro action rest hprogram
    rw [h.threads, List.getElem?_cons_zero, hprogram]
  have hworks : ∀ {done todo}, helper = .working done todo →
      ∃ t, (s.step whole t).isSome = true := by
    rintro done todo rfl
    cases todo with
    | nil =>
      have hthread : s.threads[1]? = some (.post d.secondHandler :: d.rest) := by
        rw [h.threads]
        rfl
      refine ⟨1, ?_⟩
      rw [System.step_of_thread hthread]
      rfl
    | cons a todo =>
      have hsplit : done ++ a :: todo = d.working := hhelper
      have hthread : s.threads[1]? = some (a :: (todo ++ .post d.secondHandler :: d.rest)) := by
        rw [h.threads]
        rfl
      exact ⟨1, isSome_of_isOpen hthread (hd a (by simp [← hsplit]))⟩
  cases owner with
  | opening done todo =>
    cases todo with
    | nil => exact ⟨0, by rw [System.step_of_thread (hmain rfl)]; rfl⟩
    | cons a todo => exact ⟨0, isSome_of_isOpen (hmain rfl) (hd a (by simp [← hvalid.1]))⟩
  | before done todo =>
    cases todo with
    | nil =>
      have hqueue : s.queue = [d.firstHandler] := h.queue
      have hstopped : s.stopped = false := h.stopped
      refine ⟨0, ?_⟩
      rw [System.step_of_thread (hmain rfl), System.exec, hstopped, hqueue]
      rfl
    | cons a todo => exact ⟨0, isSome_of_isOpen (hmain rfl) (hd a (by simp [← hvalid.1]))⟩
  | starting => exact ⟨0, by rw [System.step_of_thread (hmain rfl)]; rfl⟩
  | first done todo =>
    cases todo with
    | nil => exact ⟨0, by rw [System.step_of_thread (hmain rfl)]; rfl⟩
    | cons a todo => exact ⟨0, isSome_of_isOpen (hmain rfl) (hd a (by simp [← hvalid.1]))⟩
  | waiting =>
    -- The loop has nothing to do until the helper has posted.
    cases helper with
    | absent => exact absurd rfl hvalid
    | working done todo => exact hworks rfl
    | posted done todo =>
      have hqueue : s.queue = [d.secondHandler] := h.queue
      have hstopped : s.stopped = false := h.stopped
      refine ⟨0, ?_⟩
      rw [System.step_of_thread (hmain rfl), System.exec, hstopped, hqueue]
      rfl
  | second done todo =>
    cases todo with
    | nil => exact ⟨0, by rw [System.step_of_thread (hmain rfl)]; rfl⟩
    | cons a todo => exact ⟨0, isSome_of_isOpen (hmain rfl) (hd a (by simp [← hvalid.1]))⟩
  | stopped => exact ⟨0, by rw [System.step_of_thread (hmain rfl)]; rfl⟩
  | leaving =>
    have hstopped : s.stopped = true := h.stopped
    refine ⟨0, ?_⟩
    rw [System.step_of_thread (hmain rfl), System.exec, hstopped]
    rfl
  | after done todo =>
    cases todo with
    | nil => exact ⟨0, by rw [System.step_of_thread (hmain rfl)]; rfl⟩
    | cons a todo => exact ⟨0, isSome_of_isOpen (hmain rfl) (hd a (by simp [← hvalid.1]))⟩
  | finished =>
    cases helper with
    | absent => cases hvalid
    | working done todo => exact hworks rfl
    | posted done todo =>
      cases todo with
      | nil => exact absurd ⟨rfl, done, rfl⟩ hnot
      | cons a todo =>
        have hsplit : done ++ a :: todo = d.rest := hhelper
        have hthread : s.threads[1]? = some (a :: todo) := by
          rw [h.threads]
          rfl
        exact ⟨1, isSome_of_isOpen hthread (hd a (by simp [← hsplit]))⟩

/-- A helper that has posted has only the rest to do. -/
theorem At.exists_todo (h : At d owner helper s) (hposted : helper.hasPosted = true) :
    ∃ todo, s.threads[1]? = some todo ∧ todo <:+ d.rest := by
  have hvalid := h.validHelper
  cases helper with
  | absent | working => cases hposted
  | posted done todo =>
    refine ⟨todo, ?_, done, hvalid⟩
    rw [h.threads]
    rfl

/-- An owner that has written more than its first handler has seen the helper post. -/
theorem At.hasPosted (h : At d owner helper s)
    (hlong : (texts (d.opening ++ d.before ++ d.first)).length < (s.textBy 0).length) :
    helper.hasPosted = true := by
  by_contra hposted
  have hvalid := h.validOwner
  have hshort : owner.text d <+: texts (d.opening ++ d.before ++ d.first) := by
    cases owner with
    | opening done todo =>
      exact texts_isPrefix (todo ++ (d.before ++ d.first)) (by rw [← hvalid.1]; simp)
    | before done todo => exact texts_isPrefix (todo ++ d.first) (by rw [← hvalid.1]; simp)
    | starting => exact texts_isPrefix d.first rfl
    | first done todo => exact texts_isPrefix todo (by rw [← hvalid.1]; simp)
    | waiting => exact List.prefix_rfl
    | second | after => exact absurd hvalid.2 hposted
    | stopped | leaving | finished => exact absurd hvalid hposted
  rw [h.byOwner] at hlong
  exact absurd hshort.length_le (Nat.not_le_of_lt hlong)

/-- What the threads have written at some point of a run, and what they still have to do. -/
structure Shows (d : Handoff α) (s : System α) : Prop where
  byOwner : s.textBy 0 <+: texts (d.opening ++ d.before ++ d.first ++ d.second ++ d.after)
  byHelper : s.textBy 1 <+: texts (d.working ++ d.rest)
  /-- The loop is there when the helper posts. -/
  keeps : ∀ todo, s.threads[1]? = some (todo ++ .post d.secondHandler :: d.rest) →
    ∃ handled, s.threads[0]? = some (handled ++ .run :: d.ending)
  /-- The second handler writes nothing before the helper has done its work and posted. -/
  waits : (texts (d.opening ++ d.before ++ d.first)).length < (s.textBy 0).length →
    texts d.working <+: s.textBy 1 ∧ ∃ todo, s.threads[1]? = some todo ∧ todo <:+ d.rest

theorem At.shows (h : At d owner helper s) (hrest : ∀ action ∈ d.rest, action.isOpen = true) :
    Shows d s := by
  refine ⟨h.text_isPrefix, h.helper_isPrefix.1, fun todo hthread => ?_, fun hlong => ?_⟩
  · have hposted : helper.hasPosted = false := by
      cases helper with
      | absent | working => rfl
      | posted done rest =>
        -- What is left to do after the post is open, and a post is not.
        exfalso
        have hsplit : done ++ rest = d.rest := h.validHelper
        rw [h.threads] at hthread
        have hrest' : rest = todo ++ .post d.secondHandler :: d.rest := Option.some.inj hthread
        have hopen := hrest (.post d.secondHandler) (by rw [← hsplit, hrest']; simp)
        cases hopen
    obtain ⟨handled, hprogram⟩ := exists_program (d := d) (h.owner_runs hposted)
    refine ⟨handled, ?_⟩
    rw [h.threads, List.getElem?_cons_zero, hprogram]
  · have hposted := h.hasPosted hlong
    exact ⟨h.helper_isPrefix.2 hposted, h.exists_todo hposted⟩

end Steps

end Handoff

end EventLoop
