import BoostProjects.Library.EventLoop
import Mathlib.Data.List.Perm.Basic
import Mathlib.Data.List.Range

/-!
# A pool of worker threads

A main thread posts handlers to an event loop that worker threads run, releases the
guard and joins the workers. `Serving` is what holds between any two steps: each
worker is somewhere in one handler, the handlers taken are those the workers have
served or are at, each once, every worker takes them in the order in which they were
posted, and what a thread has written is what its program says so far.

From it follow the two results about a whole run: at the end every handler has been
served to its end (`Serving.served_all`), and until then some thread can make a step
(`Serving.exists_step`), so that every run can only end that way.
-/

namespace EventLoop

open Transition

variable {α : Type*}

/-! ## Programs -/

/-- What an action writes. -/
def Action.written : Action α → Option (List α)
  | .write text => some [text]
  | .guarded texts => some texts
  | _ => none

/-- What a program writes, one entry for each write or block. -/
def writes (program : List (Action α)) : List (List α) := program.filterMap Action.written

/-- The action only writes or waits. -/
def Action.isPlain : Action α → Bool
  | .write _ | .guarded _ | .pause => true
  | _ => false

/-- The handler that an action posts. -/
def Action.posted : Action α → Option (List (Action α))
  | .post handler => some handler
  | _ => none

/-- The handlers that a program posts. -/
def posts (program : List (Action α)) : List (List (Action α)) := program.filterMap Action.posted

/-- The action takes one piece of work off the loop. -/
def Action.isWorkFinished : Action α → Bool
  | .workFinished => true
  | _ => false

/-- The guard has been released. -/
def released (program : List (Action α)) : Bool := program.any Action.isWorkFinished

/-- What the main thread of a pool with `k` workers can do. -/
def Action.IsMain (k : ℕ) (done : List (Action α)) : Action α → Prop
  | .write _ | .guarded _ | .pause => True
  | .post handler => released done = false ∧ ∀ action ∈ handler, action.isPlain
  | .workFinished => released done = false
  | .join thread => released done ∧ 1 ≤ thread ∧ thread ≤ k
  | .stop => 0 < k ∧ ∀ j < k, .join (j + 1) ∈ done
  | .start _ | .run => False

/-- Each action is one that the main thread can do after those before it. -/
def IsMainFrom (k : ℕ) (done : List (Action α)) : List (Action α) → Prop
  | [] => True
  | action :: rest => action.IsMain k done ∧ IsMainFrom k (done ++ [action]) rest

/-- The main thread posts plain handlers, then releases the guard, and then joins
every worker; only then may it stop the loop. -/
structure PoolMain (k : ℕ) (main : List (Action α)) : Prop where
  actions : IsMainFrom k [] main
  joins : ∀ j < k, .join (j + 1) ∈ main

theorem isMainFrom_append {k : ℕ} {done program rest : List (Action α)} :
    IsMainFrom k done (program ++ rest) ↔
      IsMainFrom k done program ∧ IsMainFrom k (done ++ program) rest := by
  induction program generalizing done with
  | nil => simp [IsMainFrom]
  | cons action program ih =>
    rw [List.cons_append, IsMainFrom, IsMainFrom, ih, and_assoc, List.append_assoc,
      List.singleton_append]

theorem PoolMain.isMain {k : ℕ} {main done rest : List (Action α)} {action : Action α}
    (h : PoolMain k main) (hsplit : main = done ++ action :: rest) : action.IsMain k done := by
  have hactions := h.actions
  rw [hsplit, isMainFrom_append, List.nil_append, IsMainFrom] at hactions
  exact hactions.2.1

/-- The handlers are plain. -/
theorem PoolMain.isPlain {k : ℕ} {main : List (Action α)} (hmain : PoolMain k main) {handler : List (Action α)}
    (h : handler ∈ posts main) : ∀ action ∈ handler, action.isPlain := by
  obtain ⟨action, haction, hposted⟩ := List.mem_filterMap.mp h
  obtain ⟨done, rest, hsplit⟩ := List.append_of_mem haction
  have hrole := hmain.isMain hsplit
  cases action with
  | post handler' =>
    obtain rfl := Option.some.inj hposted
    exact hrole.2
  | _ => cases hposted

/-! ### Posting, joining, and then no more posting -/

/-- The main thread joins the pool. -/
def joinAll (k : ℕ) : List (Action α) := .workFinished :: (List.range' 1 k).map .join

theorem mem_joinAll {k j : ℕ} (hj : j < k) : (.join (j + 1) : Action α) ∈ joinAll k := by
  have hmem : j + 1 ∈ List.range' 1 k := List.mem_range'_1.mpr (by omega)
  exact List.mem_cons_of_mem _ (List.mem_map_of_mem hmem)

theorem joinAll_cases {k : ℕ} {action : Action α} (h : action ∈ joinAll k) :
    action = .workFinished ∨ ∃ j, action = .join j := by
  obtain rfl | hjoin := List.mem_cons.mp h
  · exact .inl rfl
  · obtain ⟨j, -, rfl⟩ := List.mem_map.mp hjoin
    exact .inr ⟨j, rfl⟩

/-- An action before the pool is joined. -/
def Action.IsPosting (action : Action α) : Prop :=
  action.isPlain ∨ ∃ handler, action = .post handler ∧ ∀ action ∈ handler, action.isPlain

theorem isMain_of_isPlain {k : ℕ} {done : List (Action α)} {action : Action α}
    (h : action.isPlain) : action.IsMain k done := by
  cases action with
  | write | guarded | pause => trivial
  | post | start | run | workFinished | stop | join => cases h

theorem Action.IsPosting.isWorkFinished {action : Action α} (h : action.IsPosting) :
    action.isWorkFinished = false := by
  cases action with
  | workFinished =>
    obtain hplain | ⟨handler, heq, -⟩ := h
    · cases hplain
    · cases heq
  | _ => rfl

theorem isMainFrom_posting {k : ℕ} {done body : List (Action α)} (hdone : released done = false)
    (hbody : ∀ action ∈ body, action.IsPosting) :
    IsMainFrom k done body ∧ released (done ++ body) = false := by
  induction body generalizing done with
  | nil => exact ⟨trivial, by rwa [List.append_nil]⟩
  | cons action body ih =>
    obtain ⟨haction, hbody⟩ := List.forall_mem_cons.mp hbody
    have hnext : released (done ++ [action]) = false := by
      simpa [released, haction.isWorkFinished] using hdone
    obtain ⟨hmain, hreleased⟩ := ih hnext hbody
    rw [List.append_assoc, List.singleton_append] at hreleased
    refine ⟨⟨?_, hmain⟩, hreleased⟩
    obtain hplain | ⟨handler, rfl, hhandler⟩ := haction
    · exact isMain_of_isPlain hplain
    · exact ⟨hdone, hhandler⟩

theorem isMainFrom_joins {k : ℕ} {done : List (Action α)} {threads : List ℕ}
    (hdone : released done = true) (hthreads : ∀ thread ∈ threads, 1 ≤ thread ∧ thread ≤ k) :
    IsMainFrom k done (threads.map .join) := by
  induction threads generalizing done with
  | nil => trivial
  | cons thread threads ih =>
    obtain ⟨hthread, hthreads⟩ := List.forall_mem_cons.mp hthreads
    refine ⟨⟨hdone, hthread⟩, ih ?_ hthreads⟩
    simpa [released] using Or.inl hdone

theorem isMainFrom_ending {k : ℕ} {done ending : List (Action α)}
    (hdone : ∀ j < k, .join (j + 1) ∈ done)
    (hending : ∀ action ∈ ending, action.isPlain ∨ action = .stop ∧ 0 < k) :
    IsMainFrom k done ending := by
  induction ending generalizing done with
  | nil => trivial
  | cons action ending ih =>
    obtain ⟨haction, hending⟩ := List.forall_mem_cons.mp hending
    refine ⟨?_, ih (fun j hj => List.mem_append_left _ (hdone j hj)) hending⟩
    obtain hplain | ⟨rfl, hk⟩ := haction
    · exact isMain_of_isPlain hplain
    · exact ⟨hk, hdone⟩

theorem poolMain_joinAll {k : ℕ} {body ending : List (Action α)}
    (hbody : ∀ action ∈ body, action.IsPosting)
    (hending : ∀ action ∈ ending, action.isPlain ∨ action = .stop ∧ 0 < k) :
    PoolMain k (body ++ (joinAll k ++ ending)) := by
  refine ⟨?_, fun j hj => List.mem_append_right _ (List.mem_append_left _ (mem_joinAll hj))⟩
  have hguarded : released ([] : List (Action α)) = false := rfl
  obtain ⟨hposting, hreleased⟩ := isMainFrom_posting (k := k) hguarded hbody
  rw [isMainFrom_append, isMainFrom_append, List.nil_append] at *
  refine ⟨hposting, ⟨hreleased, ?_⟩, ?_⟩
  · apply isMainFrom_joins
    · simp [released, Action.isWorkFinished]
    · intro thread hthread
      have hrange := List.mem_range'_1.mp hthread
      omega
  · exact isMainFrom_ending (fun j hj => List.mem_append_right _ (mem_joinAll hj)) hending

/-! ## Workers -/

/-- Where a worker is. -/
inductive Phase (α : Type*)
  | idle
  | busy (task : ℕ) (done rest : List (Action α))
  | gone

/-- Where a worker is, and what it has done. -/
structure Worker (α : Type*) where
  /-- The handlers that the worker has served, by their numbers. -/
  served : List ℕ := []
  phase : Phase α := .idle

namespace Worker

/-- What a worker has still to do. -/
def program (worker : Worker α) : List (Action α) :=
  match worker.phase with
  | .idle => [.run]
  | .busy _ _ rest => rest ++ [.workFinished, .run]
  | .gone => []

/-- The handler that the worker is at. -/
def task (worker : Worker α) : Option ℕ :=
  match worker.phase with
  | .busy task _ _ => some task
  | _ => none

/-- The worker is in a handler. -/
def isBusy (worker : Worker α) : Bool := worker.task.isSome

/-- The handlers that the worker has taken. -/
def tasks (worker : Worker α) : List ℕ := worker.served ++ worker.task.toList

/-- What the worker has written, when these are the handlers. -/
def shown (handlers : List (List (Action α))) (worker : Worker α) : List (List α) :=
  worker.served.flatMap (fun i => writes (handlers.getD i [])) ++
    match worker.phase with
    | .busy _ done _ => writes done
    | _ => []

/-- The worker is in one of these handlers. -/
def Follows (handlers : List (List (Action α))) (worker : Worker α) : Prop :=
  match worker.phase with
  | .busy task done rest => handlers[task]? = some (done ++ rest)
  | _ => True

end Worker

namespace System

/-- What a thread has written. -/
def writtenBy (t : ℕ) (s : System α) : List (List α) :=
  (s.output.filter fun entry => entry.1 == t).map Prod.snd

/-- What holds between two steps of a pool whose main thread has done `done`. -/
structure Serving (main : List (Action α)) (done rest : List (Action α)) (workers : List (Worker α))
    (taken : ℕ) (c : System α) : Prop where
  split : main = done ++ rest
  threads : c.threads = rest :: workers.map Worker.program
  inside : c.inside = none
  queue : c.queue = (posts done).drop taken
  taken_le : taken ≤ (posts done).length
  work : c.work = (if released done then 0 else 1) + c.queue.length + workers.countP Worker.isBusy
  stopped : c.stopped = (c.work == 0)
  follows : ∀ worker ∈ workers, worker.Follows (posts main)
  perm : (workers.flatMap Worker.tasks).Perm (List.range taken)
  inOrder : ∀ worker ∈ workers, worker.tasks.Pairwise (· < ·)
  byMain : c.writtenBy 0 = writes done
  byWorker : ∀ j worker, workers[j]? = some worker → c.writtenBy (j + 1) = worker.shown (posts main)
  writers : ∀ entry ∈ c.output, entry.1 ≤ workers.length
  gone : ∀ worker ∈ workers, worker.phase = .gone → c.stopped = true
  joined : ∀ j, .join j ∈ done → ∃ worker, workers[j - 1]? = some worker ∧ worker.phase = .gone

variable {main done rest : List (Action α)} {workers : List (Worker α)} {taken : ℕ}
  {c c' : System α}

theorem writtenBy_of_output {entries : List (ℕ × List α)} (t : ℕ)
    (h : c'.output = c.output ++ entries) :
    c'.writtenBy t = c.writtenBy t ++ (entries.filter fun entry => entry.1 == t).map Prod.snd := by
  rw [writtenBy, h, List.filter_append, List.map_append, writtenBy]

theorem filter_written_self {β : Type*} (t : ℕ) (new : List β) :
    ((new.map (Prod.mk t)).filter fun entry => entry.1 == t).map Prod.snd = new := by
  induction new with
  | nil => rfl
  | cons texts new ih => simpa using ih

theorem filter_written_of_ne {β : Type*} {t u : ℕ} (h : u ≠ t) (new : List β) :
    ((new.map (Prod.mk u)).filter fun entry => entry.1 == t).map Prod.snd = [] := by
  simp [h]

/-- The main thread makes a step. -/
theorem Serving.advance {action : Action α} (h : Serving main done (action :: rest) workers taken c)
    (hthreads : c'.threads = c.threads.set 0 rest) (hinside : c'.inside = none)
    (hqueue : c'.queue = c.queue ++ action.posted.toList)
    (hwork : c'.work = (if released (done ++ [action]) then 0 else 1) + c'.queue.length +
      workers.countP Worker.isBusy)
    (hstopped : c'.stopped = (c'.work == 0)) (hstays : c.stopped = true → c'.stopped = true)
    (houtput : c'.output = c.output ++ action.written.toList.map (Prod.mk 0))
    (hjoin : ∀ j, action = .join j → ∃ worker, workers[j - 1]? = some worker ∧ worker.phase = .gone) :
    Serving main (done ++ [action]) rest workers taken c' where
  split := by rw [h.split, List.append_assoc, List.singleton_append]
  threads := by rw [hthreads, h.threads, List.set_cons_zero]
  inside := hinside
  queue := by
    have hposts : posts (done ++ [action]) = posts done ++ action.posted.toList := by
      rw [posts, List.filterMap_append, posts]
      cases hposted : action.posted <;> simp [hposted]
    rw [hqueue, h.queue, hposts, List.drop_append_of_le_length h.taken_le]
  taken_le := by
    rw [posts, List.filterMap_append, List.length_append]
    exact h.taken_le.trans (Nat.le_add_right _ _)
  work := hwork
  stopped := hstopped
  follows := h.follows
  perm := h.perm
  inOrder := h.inOrder
  byMain := by
    have hwrites : writes (done ++ [action]) = writes done ++ action.written.toList := by
      rw [writes, List.filterMap_append, writes]
      cases hwritten : action.written <;> simp [hwritten]
    rw [writtenBy_of_output 0 houtput, filter_written_self, h.byMain, hwrites]
  byWorker j worker hworker := by
    rw [writtenBy_of_output (j + 1) houtput, filter_written_of_ne (Nat.succ_ne_zero j).symm,
      List.append_nil, h.byWorker j worker hworker]
  writers := by
    intro entry hentry
    rw [houtput] at hentry
    obtain hold | hnew := List.mem_append.mp hentry
    · exact h.writers entry hold
    · obtain ⟨texts, -, rfl⟩ := List.mem_map.mp hnew
      exact Nat.zero_le _
  gone worker hworker hgone := hstays (h.gone worker hworker hgone)
  joined j hj := by
    obtain hold | hnew := List.mem_append.mp hj
    · exact h.joined j hold
    · exact hjoin j (List.mem_singleton.mp hnew).symm

/-- A worker makes a step. -/
theorem Serving.replace {j taken' : ℕ} {worker worker' : Worker α} {l : List (List α)}
    (h : Serving main done rest workers taken c) (hworker : workers[j]? = some worker)
    (hthreads : c'.threads = c.threads.set (j + 1) worker'.program) (hinside : c'.inside = none)
    (hqueue : c'.queue = (posts done).drop taken') (htaken : taken' ≤ (posts done).length)
    (hwork : c'.work = (if released done then 0 else 1) + c'.queue.length +
      (workers.set j worker').countP Worker.isBusy)
    (hstopped : c'.stopped = (c'.work == 0)) (hstays : c.stopped = true → c'.stopped = true)
    (hfollows : worker'.Follows (posts main))
    (htasks : (worker'.tasks = worker.tasks ∧ taken' = taken) ∨
      (worker'.tasks = worker.tasks ++ [taken] ∧ taken' = taken + 1))
    (houtput : c'.output = c.output ++ l.map (Prod.mk (j + 1)))
    (hshown : worker'.shown (posts main) = worker.shown (posts main) ++ l)
    (hbusy : worker.phase ≠ .gone) (hgone : worker'.phase = .gone → c'.stopped = true) :
    Serving main done rest (workers.set j worker') taken' c' := by
  have hlt : j < workers.length := (List.getElem?_eq_some_iff.mp hworker).1
  have hmem : worker ∈ workers := List.mem_of_getElem? hworker
  have hall : ∀ {P : Worker α → Prop}, (∀ other ∈ workers, P other) → P worker' →
      ∀ other ∈ workers.set j worker', P other := by
    intro P hworkers hnew other hother
    obtain hother | rfl := List.mem_or_eq_of_mem_set hother
    · exact hworkers other hother
    · exact hnew
  obtain ⟨before, after, rfl, rfl⟩ := Lists.exists_split_of_getElem? hworker
  rw [Lists.set_split] at hall hwork ⊢
  refine ⟨h.split, ?_, hinside, hqueue, htaken, hwork, hstopped, hall h.follows hfollows, ?_, ?_,
    ?_, ?_, ?_, ?_, ?_⟩
  · rw [hthreads, h.threads, List.set_cons_succ, List.map_append, List.map_cons, List.map_append,
      List.map_cons, ← List.length_map (f := Worker.program), Lists.set_split]
  · -- The new handler, if any, has the next number.
    have hperm := h.perm
    rw [List.flatMap_append, List.flatMap_cons] at hperm ⊢
    obtain ⟨hsame, rfl⟩ | ⟨hnext, rfl⟩ := htasks
    · rwa [hsame]
    · rw [hnext, List.range_succ]
      refine List.Perm.trans ?_ (hperm.append_right [taken])
      rw [List.append_assoc, List.append_assoc, List.append_assoc]
      refine List.Perm.append_left _ (List.Perm.append_left _ ?_)
      exact List.perm_append_comm
  · refine hall h.inOrder ?_
    have hold := h.inOrder worker hmem
    obtain ⟨hsame, -⟩ | ⟨hnext, -⟩ := htasks
    · rwa [hsame]
    · rw [hnext, List.pairwise_append]
      refine ⟨hold, List.pairwise_singleton _ _, fun a ha b hb => ?_⟩
      obtain rfl := List.mem_singleton.mp hb
      exact List.mem_range.mp (h.perm.mem_iff.mp (List.mem_flatMap.mpr ⟨worker, hmem, ha⟩))
  · rw [writtenBy_of_output 0 houtput, filter_written_of_ne (Nat.succ_ne_zero _), List.append_nil,
      h.byMain]
  · intro i other hother
    rw [← Lists.set_split before after worker worker', List.getElem?_set] at hother
    rw [writtenBy_of_output (i + 1) houtput]
    split_ifs at hother with hi
    · subst hi
      obtain rfl := Option.some.inj hother
      rw [filter_written_self, h.byWorker _ worker hworker, hshown]
    · rw [filter_written_of_ne (by omega), List.append_nil, h.byWorker i other hother]
  · intro entry hentry
    rw [houtput] at hentry
    have hlength : (before ++ worker' :: after).length = (before ++ worker :: after).length := by
      simp
    rw [hlength]
    obtain hold | hnew := List.mem_append.mp hentry
    · exact h.writers entry hold
    · obtain ⟨texts, -, rfl⟩ := List.mem_map.mp hnew
      exact hlt
  · exact hall (fun other hother hother' => hstays (h.gone other hother hother')) hgone
  · intro i hi
    obtain ⟨other, hother, hphase⟩ := h.joined i hi
    refine ⟨other, ?_, hphase⟩
    rw [← Lists.set_split before after worker worker', List.getElem?_set_ne, hother]
    rintro heq
    rw [← heq, Lists.getElem?_split] at hother
    exact hbusy (Option.some.inj hother ▸ hphase)

theorem released_concat {action : Action α} (h : action.isWorkFinished = false) :
    released (done ++ [action]) = released done := by
  simp [released, h]

theorem released_workFinished : released (done ++ [.workFinished]) = true := by
  simp [released, Action.isWorkFinished]

theorem Serving.main_step {k : ℕ} (hmain : PoolMain k main)
    (h : Serving main done rest workers taken c) (hstep : c.step true 0 = some c') :
    ∃ action rest', rest = action :: rest' ∧
      Serving main (done ++ [action]) rest' workers taken c' := by
  obtain ⟨action, rest', hthread, hexec⟩ := step_eq_some_iff.mp hstep
  rw [h.threads, List.getElem?_cons_zero] at hthread
  obtain rfl := Option.some.inj hthread
  refine ⟨action, rest', rfl, ?_⟩
  have hrole := hmain.isMain h.split
  have hwork := h.work
  have hstopped := h.stopped
  cases action with
  | write text =>
    obtain rfl := Option.some.inj hexec
    refine h.advance rfl h.inside (List.append_nil _).symm ?_ hstopped id rfl fun j hj => by cases hj
    rw [released_concat rfl]
    exact hwork
  | guarded texts =>
    rw [exec, h.inside] at hexec
    obtain rfl := Option.some.inj hexec
    refine h.advance rfl h.inside (List.append_nil _).symm ?_ hstopped id rfl fun j hj => by cases hj
    rw [released_concat rfl]
    exact hwork
  | pause =>
    obtain rfl := Option.some.inj hexec
    refine h.advance rfl h.inside (List.append_nil _).symm ?_ hstopped id
      (List.append_nil _).symm fun j hj => by cases hj
    rw [released_concat rfl]
    exact hwork
  | post handler =>
    obtain rfl := Option.some.inj hexec
    obtain ⟨hguard, -⟩ := hrole
    have hfalse : c.stopped = false := by
      rw [hstopped, hwork, hguard]
      simp
    refine h.advance rfl h.inside rfl ?_ ?_ ?_ (List.append_nil _).symm fun j hj => by cases hj
    · rw [released_concat rfl]
      simp only [List.length_append, List.length_singleton, hwork]
      omega
    · exact hfalse
    · exact id
  | workFinished =>
    obtain rfl := Option.some.inj hexec
    have hguard : released done = false := hrole
    rw [hguard] at hwork
    have hfalse : c.stopped = false := by
      rw [hstopped, hwork]
      simp
    refine h.advance rfl h.inside (List.append_nil _).symm ?_ ?_ ?_ (List.append_nil _).symm fun j hj => by cases hj
    · rw [released_workFinished]
      change c.work - 1 = _ + c.queue.length + _
      simp only [if_true, Bool.false_eq_true, if_false] at hwork ⊢
      omega
    · change (c.stopped || c.work - 1 == 0) = (c.work - 1 == 0)
      rw [hfalse, Bool.false_or]
    · intro htrue
      rw [hfalse] at htrue
      cases htrue
  | join thread =>
    obtain ⟨hjoin, hnext⟩ := Option.ite_none_right_eq_some.mp hexec
    obtain rfl := Option.some.inj hnext
    obtain ⟨-, hfirst, -⟩ := hrole
    refine h.advance rfl h.inside (List.append_nil _).symm ?_ hstopped id
      (List.append_nil _).symm ?_
    · rw [released_concat rfl]
      exact hwork
    · rintro j ⟨⟩
      rw [h.threads] at hjoin
      obtain ⟨j, rfl⟩ := Nat.exists_eq_add_of_le' hfirst
      rw [List.getElem?_cons_succ, List.getElem?_map] at hjoin
      cases hworker : workers[j]? with
      | none => simp [hworker] at hjoin
      | some worker =>
        refine ⟨worker, hworker, ?_⟩
        rw [hworker] at hjoin
        cases hphase : worker.phase with
        | gone => rfl
        | idle => simp [Worker.program, hphase] at hjoin
        | busy task done rest => simp [Worker.program, hphase] at hjoin
  | stop =>
    obtain rfl := Option.some.inj hexec
    obtain ⟨hk, hjoins⟩ := hrole
    have htrue : c.stopped = true := by
      obtain ⟨worker, hworker, hphase⟩ := h.joined 1 (hjoins 0 hk)
      exact h.gone worker (List.mem_of_getElem? hworker) hphase
    refine h.advance rfl h.inside (List.append_nil _).symm ?_ ?_ (fun _ => rfl)
      (List.append_nil _).symm fun j hj => by cases hj
    · rw [released_concat rfl]
      exact hwork
    · rw [← htrue, hstopped]
      rfl
  | start | run => exact hrole.elim

theorem countP_set {β : Type*} {p : β → Bool} {l : List β} {j : ℕ} {a : β} (h : l[j]? = some a)
    (b : β) : (l.set j b).countP p + (p a).toNat = l.countP p + (p b).toNat := by
  obtain ⟨before, after, rfl, rfl⟩ := Lists.exists_split_of_getElem? h
  rw [Lists.set_split, List.countP_append, List.countP_append, List.countP_cons, List.countP_cons]
  cases p a <;> cases p b <;> simp +arith

/-- A worker leaves the loop. -/
theorem Serving.leave {j : ℕ} {worker : Worker α} (h : Serving main done rest workers taken c)
    (hworker : workers[j]? = some worker) (hphase : worker.phase = .idle)
    (hstopped : c.stopped = true) :
    Serving main done rest (workers.set j { worker with phase := .gone }) taken
      (c.becomes (j + 1) []) := by
  have htask : worker.task = none := by rw [Worker.task, hphase]
  have hbusy : worker.isBusy = false := by rw [Worker.isBusy, htask, Option.isSome_none]
  have hcount := countP_set (p := Worker.isBusy) hworker { worker with phase := .gone }
  refine h.replace (l := []) hworker rfl h.inside h.queue h.taken_le ?_ h.stopped id trivial ?_
    (List.append_nil _).symm ?_ ?_ fun _ => hstopped
  · rw [hbusy] at hcount
    change c.work = _ + c.queue.length + _
    rw [h.work, ← Nat.add_right_cancel hcount]
  · exact .inl ⟨by rw [Worker.tasks, Worker.tasks, htask]; rfl, rfl⟩
  · rw [List.append_nil, Worker.shown, Worker.shown, hphase]
  · rw [hphase]
    intro hgone
    cases hgone

/-- A worker takes the next handler. -/
theorem Serving.take {j : ℕ} {worker : Worker α} {handler : List (Action α)}
    {queue : List (List (Action α))} (h : Serving main done rest workers taken c)
    (hworker : workers[j]? = some worker) (hphase : worker.phase = .idle)
    (hqueue : c.queue = handler :: queue) :
    Serving main done rest (workers.set j { worker with phase := .busy taken [] handler })
      (taken + 1) { c.becomes (j + 1) (handler ++ [.workFinished, .run]) with queue } := by
  have htask : worker.task = none := by rw [Worker.task, hphase]
  have hbusy : worker.isBusy = false := by rw [Worker.isBusy, htask, Option.isSome_none]
  have hcount : (workers.set j { worker with phase := .busy taken [] handler }).countP
      Worker.isBusy = workers.countP Worker.isBusy + 1 := by
    have hset := countP_set (p := Worker.isBusy) hworker
      { worker with phase := .busy taken [] handler }
    rwa [hbusy] at hset
  have hdrop := h.queue
  rw [hqueue] at hdrop
  have hlt : taken < (posts done).length := by
    rw [← List.drop_eq_nil_iff.not.trans Nat.not_le, ← hdrop]
    exact List.cons_ne_nil _ _
  rw [List.drop_eq_getElem_cons hlt, List.cons.injEq] at hdrop
  obtain ⟨hhandler, hrest⟩ := hdrop
  refine h.replace (l := []) hworker rfl h.inside hrest hlt ?_ h.stopped id ?_ ?_
    (List.append_nil _).symm ?_ ?_ fun hgone => by cases hgone
  · have hwork := h.work
    rw [hqueue, List.length_cons] at hwork
    change c.work = _ + queue.length + _
    rw [hcount, hwork]
    omega
  · change (posts main)[taken]? = some ([] ++ handler)
    rw [List.nil_append, h.split, posts, List.filterMap_append, hhandler]
    exact (List.getElem?_append_left hlt).trans (List.getElem?_eq_getElem hlt)
  · exact .inr ⟨by rw [Worker.tasks, Worker.tasks, htask]; simp [Worker.task], rfl⟩
  · rw [List.append_nil, Worker.shown, Worker.shown, hphase]
    rfl
  · rw [hphase]
    intro hgone
    cases hgone

/-- A worker goes on with its handler. -/
theorem Serving.act {j task : ℕ} {worker : Worker α} {before after : List (Action α)}
    {action : Action α} (h : Serving main done rest workers taken c)
    (hworker : workers[j]? = some worker) (hphase : worker.phase = .busy task before (action :: after))
    (hthreads : c'.threads = c.threads.set (j + 1) (after ++ [.workFinished, .run]))
    (hinside : c'.inside = none) (hqueue : c'.queue = c.queue) (hwork : c'.work = c.work)
    (hstopped : c'.stopped = c.stopped)
    (houtput : c'.output = c.output ++ action.written.toList.map (Prod.mk (j + 1))) :
    Serving main done rest
      (workers.set j { worker with phase := .busy task (before ++ [action]) after }) taken c' := by
  have htask : worker.task = some task := by rw [Worker.task, hphase]
  have hbusy : worker.isBusy = true := by rw [Worker.isBusy, htask, Option.isSome_some]
  have hcount := countP_set (p := Worker.isBusy) hworker
    { worker with phase := .busy task (before ++ [action]) after }
  have hold := h.follows worker (List.mem_of_getElem? hworker)
  rw [Worker.Follows, hphase] at hold
  refine h.replace hworker hthreads hinside (hqueue.trans h.queue) h.taken_le ?_ ?_ ?_ ?_ ?_ houtput
    ?_ ?_ fun hgone => by cases hgone
  · rw [hbusy] at hcount
    rw [hwork, hqueue, h.work, ← Nat.add_right_cancel hcount]
  · rw [hstopped, hwork, h.stopped]
  · rw [hstopped]
    exact id
  · change (posts main)[task]? = some (before ++ [action] ++ after)
    rw [hold, List.append_assoc, List.singleton_append]
  · exact .inl ⟨by rw [Worker.tasks, Worker.tasks, htask]; rfl, rfl⟩
  · have hwrites : writes (before ++ [action]) = writes before ++ action.written.toList := by
      rw [writes, List.filterMap_append, writes]
      cases hwritten : action.written <;> simp [hwritten]
    rw [Worker.shown, Worker.shown, hphase, List.append_assoc, ← hwrites]
  · rw [hphase]
    intro hgone
    cases hgone

/-- A worker comes to the end of its handler. -/
theorem Serving.serve {j task : ℕ} {worker : Worker α} {handler : List (Action α)}
    (h : Serving main done rest workers taken c)
    (hworker : workers[j]? = some worker) (hphase : worker.phase = .busy task handler []) :
    Serving main done rest
      (workers.set j { served := worker.served ++ [task], phase := .idle }) taken
      (c.becomes (j + 1) [.run]).finishWork := by
  have htask : worker.task = some task := by rw [Worker.task, hphase]
  have hbusy : worker.isBusy = true := by rw [Worker.isBusy, htask, Option.isSome_some]
  have hcount : (workers.set j { served := worker.served ++ [task], phase := .idle }).countP
      Worker.isBusy + 1 = workers.countP Worker.isBusy := by
    have hset := countP_set (p := Worker.isBusy) hworker
      { served := worker.served ++ [task], phase := .idle }
    rwa [hbusy] at hset
  have hold : (posts main)[task]? = some (handler ++ []) := by
    have hfollows := h.follows worker (List.mem_of_getElem? hworker)
    rwa [Worker.Follows, hphase] at hfollows
  rw [List.append_nil] at hold
  have hwork := h.work
  have hfalse : c.stopped = false := by
    rw [h.stopped, beq_eq_false_iff_ne]
    omega
  refine h.replace (l := []) hworker rfl h.inside h.queue h.taken_le ?_ ?_ ?_ trivial ?_
    (List.append_nil _).symm ?_ ?_ fun hgone => by cases hgone
  · change c.work - 1 = _ + c.queue.length + _
    omega
  · change (c.stopped || c.work - 1 == 0) = (c.work - 1 == 0)
    rw [hfalse, Bool.false_or]
  · intro htrue
    rw [hfalse] at htrue
    cases htrue
  · exact .inl ⟨by rw [Worker.tasks, Worker.tasks, htask]; simp [Worker.task], rfl⟩
  · have hget : (posts main).getD task [] = handler := by
      rw [List.getD_eq_getElem?_getD, hold, Option.getD_some]
    rw [Worker.shown, Worker.shown, hphase, List.flatMap_append, List.flatMap_singleton, hget]
  · rw [hphase]
    intro hgone
    cases hgone

theorem Serving.worker_step {k j : ℕ} (hmain : PoolMain k main)
    (h : Serving main done rest workers taken c) (hstep : c.step true (j + 1) = some c') :
    ∃ worker worker' taken', workers[j]? = some worker ∧
      Serving main done rest (workers.set j worker') taken' c' := by
  obtain ⟨action, rest', hthread, hexec⟩ := step_eq_some_iff.mp hstep
  rw [h.threads, List.getElem?_cons_succ, List.getElem?_map] at hthread
  obtain ⟨worker, hworker, hprogram⟩ := Option.map_eq_some_iff.mp hthread
  have hmem : worker ∈ workers := List.mem_of_getElem? hworker
  cases hphase : worker.phase with
  | gone =>
    rw [Worker.program, hphase] at hprogram
    cases hprogram
  | idle =>
    rw [Worker.program, hphase] at hprogram
    obtain ⟨rfl, rfl⟩ := List.cons.inj hprogram
    obtain ⟨hstopped, rfl⟩ | ⟨handler, queue, -, hqueue, rfl⟩ | ⟨hstopped, -, hwork, -⟩ :=
      exec_run_cases hexec
    · exact ⟨worker, _, _, hworker, h.leave hworker hphase hstopped⟩
    · exact ⟨worker, _, _, hworker, h.take hworker hphase hqueue⟩
    · rw [h.stopped, hwork] at hstopped
      cases hstopped
  | busy task before after =>
    rw [Worker.program, hphase] at hprogram
    cases after with
    | nil =>
      obtain ⟨rfl, rfl⟩ := List.cons.inj hprogram
      obtain rfl := Option.some.inj hexec
      exact ⟨worker, _, _, hworker, h.serve hworker hphase⟩
    | cons action' after =>
      obtain ⟨rfl, rfl⟩ := List.cons.inj hprogram
      have hfollows := h.follows worker hmem
      rw [Worker.Follows, hphase] at hfollows
      have hplain : action'.isPlain :=
        hmain.isPlain (List.mem_of_getElem? hfollows) action' (by simp)
      cases action' with
      | write text =>
        obtain rfl := Option.some.inj hexec
        exact ⟨worker, _, _, hworker, h.act hworker hphase rfl h.inside rfl rfl rfl rfl⟩
      | guarded texts =>
        rw [exec, h.inside] at hexec
        obtain rfl := Option.some.inj hexec
        exact ⟨worker, _, _, hworker, h.act hworker hphase rfl h.inside rfl rfl rfl rfl⟩
      | pause =>
        obtain rfl := Option.some.inj hexec
        exact ⟨worker, _, _, hworker,
          h.act hworker hphase rfl h.inside rfl rfl rfl (List.append_nil _).symm⟩
      | post | start | run | workFinished | stop | join => cases hplain

/-- The pool is serving: `Serving` for some stage of it. -/
structure Pool (k : ℕ) (main : List (Action α)) (c : System α) : Prop where
  wellFormed : PoolMain k main
  stage : ∃ done rest workers taken, workers.length = k ∧ Serving main done rest workers taken c

theorem Pool.step {k t : ℕ} (h : Pool k main c) (hstep : c.step true t = some c') :
    Pool k main c' := by
  obtain ⟨hmain, done, rest, workers, taken, hlength, hserving⟩ := h
  cases t with
  | zero =>
    obtain ⟨action, rest', -, hnext⟩ := hserving.main_step hmain hstep
    exact ⟨hmain, _, _, _, _, hlength, hnext⟩
  | succ j =>
    obtain ⟨worker, worker', taken', -, hnext⟩ := hserving.worker_step hmain hstep
    exact ⟨hmain, _, _, _, _, by rwa [List.length_set], hnext⟩

/-- The pool when its threads have been started: `thread_pool` and its main thread. -/
def pool (k : ℕ) (main : List (Action α)) : System α where
  threads := main :: List.replicate k [.run]
  work := 1

theorem serving_pool (k : ℕ) (main : List (Action α)) :
    Serving main [] main (List.replicate k {}) 0 (pool k main) where
  split := rfl
  threads := by simp [pool, Worker.program]
  inside := rfl
  queue := rfl
  taken_le := Nat.le_refl 0
  work := by
    have hidle : (List.replicate k ({} : Worker α)).countP Worker.isBusy = 0 := by
      rw [List.countP_eq_zero]
      intro worker hworker
      rw [List.eq_of_mem_replicate hworker]
      exact Bool.false_ne_true
    rw [hidle]
    rfl
  stopped := rfl
  follows worker hworker := by
    rw [List.eq_of_mem_replicate hworker]
    trivial
  perm := by
    have hnone : (List.replicate k ({} : Worker α)).flatMap Worker.tasks = [] := by
      rw [List.flatMap_eq_nil_iff]
      intro worker hworker
      rw [List.eq_of_mem_replicate hworker]
      rfl
    rw [hnone]
    rfl
  inOrder worker hworker := by
    rw [List.eq_of_mem_replicate hworker]
    exact .nil
  byMain := rfl
  byWorker j worker hworker := by
    rw [List.eq_of_mem_replicate (List.mem_of_getElem? hworker)]
    rfl
  writers entry hentry := by cases hentry
  gone worker hworker hgone := by
    rw [List.eq_of_mem_replicate hworker] at hgone
    cases hgone
  joined j hj := by cases hj

/-! ## Whole runs -/

theorem Serving.thread {j : ℕ} {worker : Worker α} (h : Serving main done rest workers taken c)
    (hworker : workers[j]? = some worker) : c.threads[j + 1]? = some worker.program := by
  rw [h.threads, List.getElem?_cons_succ, List.getElem?_map, hworker, Option.map_some]

theorem isSome_step_plain {t : ℕ} {action : Action α} {rest : List (Action α)}
    (hinside : c.inside = none) (hthread : c.threads[t]? = some (action :: rest))
    (haction : action.isPlain) : (c.step true t).isSome := by
  rw [step_of_thread hthread]
  cases action with
  | write | pause => rfl
  | guarded texts =>
    rw [exec, hinside]
    rfl
  | post | start | run | workFinished | stop | join => cases haction

/-- A worker that is at a handler can go on. -/
theorem Serving.isSome_step_busy {k j : ℕ} {worker : Worker α} (hmain : PoolMain k main)
    (h : Serving main done rest workers taken c) (hworker : workers[j]? = some worker)
    (hbusy : worker.isBusy) : (c.step true (j + 1)).isSome := by
  have hthread := h.thread hworker
  cases hphase : worker.phase with
  | gone | idle => simp [Worker.isBusy, Worker.task, hphase] at hbusy
  | busy task before after =>
    rw [Worker.program, hphase] at hthread
    cases after with
    | nil =>
      rw [step_of_thread hthread]
      rfl
    | cons action after =>
      have hfollows := h.follows worker (List.mem_of_getElem? hworker)
      rw [Worker.Follows, hphase] at hfollows
      have hplain : action.isPlain :=
        hmain.isPlain (List.mem_of_getElem? hfollows) action (by simp)
      exact isSome_step_plain h.inside hthread hplain

/-- A worker that waits for a handler can go on, or another one has one. -/
theorem Serving.exists_step_idle {k j : ℕ} {worker : Worker α} (hmain : PoolMain k main)
    (h : Serving main done rest workers taken c) (hworker : workers[j]? = some worker)
    (hidle : worker.phase = .idle) (hreleased : released done = true) :
    ∃ t, (c.step true t).isSome := by
  have hthread := h.thread hworker
  rw [Worker.program, hidle] at hthread
  have hwork := h.work
  rw [hreleased, if_pos rfl, Nat.zero_add] at hwork
  by_cases hnone : c.queue = [] ∧ workers.countP Worker.isBusy = 0
  -- The loop has no work left, so it is stopped.
  · have hstopped : c.stopped = true := by
      rw [h.stopped, hwork, hnone.1, hnone.2]
      rfl
    refine ⟨j + 1, ?_⟩
    rw [step_of_thread hthread, exec, if_pos hstopped]
    rfl
  · have hrunning : c.stopped = false := by
      rw [h.stopped, hwork, beq_eq_false_iff_ne]
      intro hzero
      exact hnone ⟨List.length_eq_zero_iff.mp (Nat.eq_zero_of_add_eq_zero_right hzero),
        Nat.eq_zero_of_add_eq_zero_left hzero⟩
    cases hqueue : c.queue with
    | cons handler queue =>
      refine ⟨j + 1, ?_⟩
      rw [step_of_thread hthread, exec, hrunning, hqueue]
      rfl
    | nil =>
      have hbusy : 0 < workers.countP Worker.isBusy :=
        Nat.pos_of_ne_zero fun hzero => hnone ⟨hqueue, hzero⟩
      obtain ⟨other, hother, hisBusy⟩ := List.countP_pos_iff.mp hbusy
      obtain ⟨i, hi⟩ := List.mem_iff_getElem?.mp hother
      exact ⟨i + 1, h.isSome_step_busy hmain hi hisBusy⟩

/-- **No deadlock.** As long as the main thread is not at its end, some thread can make a step. -/
theorem Serving.exists_step {k : ℕ} (hmain : PoolMain k main) (hlength : workers.length = k)
    (h : Serving main done rest workers taken c) (hrest : rest ≠ []) :
    ∃ t, (c.step true t).isSome := by
  obtain ⟨action, rest', rfl⟩ := List.exists_cons_of_ne_nil hrest
  have hthread : c.threads[0]? = some (action :: rest') := by
    rw [h.threads, List.getElem?_cons_zero]
  have hrole := hmain.isMain h.split
  cases action with
  | write | guarded | pause => exact ⟨0, isSome_step_plain h.inside hthread rfl⟩
  | post | workFinished | stop =>
    refine ⟨0, ?_⟩
    rw [step_of_thread hthread]
    rfl
  | start | run => exact hrole.elim
  | join thread =>
    obtain ⟨hreleased, hfirst, hlast⟩ := hrole
    obtain ⟨j, rfl⟩ := Nat.exists_eq_add_of_le' hfirst
    have hlt : j < workers.length := by omega
    have hworker := List.getElem?_eq_getElem hlt
    cases hphase : workers[j].phase with
    | gone =>
      refine ⟨0, ?_⟩
      have hgone := h.thread hworker
      rw [Worker.program, hphase] at hgone
      rw [step_of_thread hthread, exec, hgone]
      rfl
    | idle => exact h.exists_step_idle hmain hworker hphase hreleased
    | busy task before after =>
      refine ⟨j + 1, h.isSome_step_busy hmain hworker ?_⟩
      rw [Worker.isBusy, Worker.task, hphase]
      rfl

/-- **Once all workers are joined every handler has been served**, once and to its end. -/
theorem Serving.served_all {k : ℕ} (hlength : workers.length = k) (hk : 0 < k)
    (h : Serving main done rest workers taken c) (hjoins : ∀ j < k, .join (j + 1) ∈ done) :
    (∀ worker ∈ workers, worker.phase = .gone) ∧ taken = (posts done).length := by
  have hgone : ∀ j < k, ∃ worker, workers[j]? = some worker ∧ worker.phase = .gone :=
    fun j hj => h.joined (j + 1) (hjoins j hj)
  have hstopped : c.stopped = true := by
    obtain ⟨worker, hworker, hphase⟩ := hgone 0 hk
    exact h.gone worker (List.mem_of_getElem? hworker) hphase
  refine ⟨fun worker hworker => ?_, ?_⟩
  · obtain ⟨j, hj⟩ := List.mem_iff_getElem?.mp hworker
    obtain ⟨other, hother, hphase⟩ := hgone j (hlength ▸ (List.getElem?_eq_some_iff.mp hj).1)
    rwa [← Option.some.inj (hother.symm.trans hj)]
  · have hqueue := h.queue
    have hwork := h.work
    rw [h.stopped, beq_iff_eq] at hstopped
    have hempty : c.queue.length = 0 := by omega
    rw [hqueue, List.length_drop] at hempty
    have htaken := h.taken_le
    omega

/-- What a step writes is what its action says. -/
theorem output_step {t : ℕ} (hinside : c.inside = none) (hstep : c.step true t = some c') :
    ∃ action rest, c.threads[t]? = some (action :: rest) ∧
      c'.output = c.output ++ action.written.toList.map (Prod.mk t) := by
  obtain ⟨action, rest, hthread, hexec⟩ := step_eq_some_iff.mp hstep
  refine ⟨action, rest, hthread, ?_⟩
  cases action with
  | guarded texts =>
    rw [exec, hinside] at hexec
    obtain rfl := Option.some.inj hexec
    rfl
  | write text =>
    obtain rfl := Option.some.inj hexec
    rfl
  | pause | post | start | workFinished | stop =>
    obtain rfl := Option.some.inj hexec
    exact (List.append_nil _).symm
  | join thread =>
    obtain ⟨-, hnext⟩ := Option.ite_none_right_eq_some.mp hexec
    obtain rfl := Option.some.inj hnext
    exact (List.append_nil _).symm
  | run =>
    obtain ⟨-, rfl⟩ | ⟨handler, queue, -, -, rfl⟩ | ⟨-, -, -, rfl⟩ := exec_run_cases hexec
    · exact (List.append_nil _).symm
    · exact (List.append_nil _).symm
    · exact (List.append_nil _).symm

/-! ### What has been written -/

/-- What a thread has written, text by text. -/
def textBy (t : ℕ) (s : System α) : List α := (s.text.filter fun entry => entry.1 == t).map Prod.snd

theorem textBy_eq (t : ℕ) (c : System α) : c.textBy t = (c.writtenBy t).flatten := by
  rw [textBy, System.text, writtenBy]
  induction c.output with
  | nil => rfl
  | cons entry output ih =>
    rw [List.flatMap_cons, List.filter_append, List.map_append, ih]
    by_cases h : entry.1 = t
    · subst h
      rw [filter_written_self, List.filter_cons_of_pos (by simp), List.map_cons, List.flatten_cons]
    · rw [filter_written_of_ne h, List.filter_cons_of_neg (by simpa using h), List.nil_append]

section Written

variable (h : Serving main done rest workers taken c)

include h

theorem Serving.mem_output_iff {texts : List α} :
    texts ∈ c.output.map Prod.snd ↔
      texts ∈ writes done ∨ ∃ worker ∈ workers, texts ∈ worker.shown (posts main) := by
  have hby : ∀ t, texts ∈ c.writtenBy t ↔ (t, texts) ∈ c.output := by
    intro t
    simp [writtenBy]
  rw [← h.byMain, hby, List.mem_map]
  constructor
  · rintro ⟨⟨t, _⟩, hentry, rfl⟩
    cases t with
    | zero => exact .inl hentry
    | succ j =>
      have hlt : j < workers.length := h.writers _ hentry
      have hworker := List.getElem?_eq_getElem hlt
      refine .inr ⟨workers[j], List.getElem_mem hlt, ?_⟩
      rw [← h.byWorker j _ hworker, hby]
      exact hentry
  · rintro (hentry | ⟨worker, hworker, htexts⟩)
    · exact ⟨_, hentry, rfl⟩
    · obtain ⟨j, hj⟩ := List.mem_iff_getElem?.mp hworker
      rw [← h.byWorker j worker hj, hby] at htexts
      exact ⟨_, htexts, rfl⟩

/-- A worker that is about to write is at a handler. -/
theorem Serving.busy_of_written {worker : Worker α} {action : Action α} {rest' : List (Action α)}
    {texts : List α} (hworker : worker ∈ workers) (hprogram : worker.program = action :: rest')
    (hwritten : action.written = some texts) :
    ∃ i before after, worker.phase = .busy i before (action :: after) ∧
      (posts main)[i]? = some (before ++ action :: after) := by
  have hfollows := h.follows worker hworker
  cases hphase : worker.phase with
  | gone =>
    rw [Worker.program, hphase] at hprogram
    cases hprogram
  | idle =>
    rw [Worker.program, hphase] at hprogram
    obtain ⟨rfl, -⟩ := List.cons.inj hprogram
    cases hwritten
  | busy i before after =>
    rw [Worker.program, hphase] at hprogram
    rw [Worker.Follows, hphase] at hfollows
    cases after with
    | nil =>
      obtain ⟨rfl, -⟩ := List.cons.inj hprogram
      cases hwritten
    | cons action' after =>
      obtain ⟨rfl, -⟩ := List.cons.inj hprogram
      exact ⟨i, before, after, rfl, hfollows⟩

theorem Serving.nodup_tasks : (workers.flatMap Worker.tasks).Nodup :=
  h.perm.nodup_iff.mpr List.nodup_range

/-- No handler is taken twice. -/
theorem Serving.eq_of_mem_tasks {worker worker' : Worker α} {j j' i : ℕ}
    (hworker : workers[j]? = some worker) (hworker' : workers[j']? = some worker')
    (hi : i ∈ worker.tasks) (hi' : i ∈ worker'.tasks) : j = j' := by
  obtain ⟨-, hpair⟩ := List.nodup_flatMap.mp h.nodup_tasks
  obtain ⟨hj, rfl⟩ := List.getElem?_eq_some_iff.mp hworker
  obtain ⟨hj', rfl⟩ := List.getElem?_eq_some_iff.mp hworker'
  rw [List.pairwise_iff_getElem] at hpair
  obtain hlt | heq | hgt := Nat.lt_trichotomy j j'
  · exact (hpair j j' hj hj' hlt hi hi').elim
  · exact heq
  · exact (hpair j' j hj' hj hgt hi' hi).elim

end Written

end System

end EventLoop
