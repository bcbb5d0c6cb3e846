import BoostProjects.Cpp.Str
import BoostProjects.Library.WorkerPool
import Mathlib.Data.List.Sort

/-!
# A pool of one thread

`SimpleTest` and `Pools::Worker` post the same function ten times to a pool of one
thread and print `Added` after each. Nothing keeps the two threads from writing at the
same time, so insertions of the one come between those of the other. But each thread's
own are in order and complete: the pool runs the functions one after the other, and no
more of them than have been added (`threads_print`).
-/

namespace BoostProjects.Threads

open Cpp EventLoop System

/-! ## The programs -/

/-- What the function prints; `id` is the text of the number of its thread. -/
def report (id : Str) : List Str :=
  ["Task statred: Id:".toList, id, "\n".toList, "Task completed: Id:".toList, id, "\n".toList]

/-- The function `task` of `SimpleTest`, and `Worker::handler` -/
def task (id : Str) : List (Action Str) :=
  [.write "Task statred: Id:".toList, .write id, .write "\n".toList, .pause,
    .write "Task completed: Id:".toList, .write id, .write "\n".toList]

/-- One round of the loop that posts the functions. -/
def adding (id : Str) : List (Action Str) :=
  [.post (task id), .write "Added".toList, .write "\n".toList]

/-- The loop, `pool.join()` and what comes after it. -/
def addingTen (id : Str) (ending : List (Action Str)) : List (Action Str) :=
  (List.replicate 10 (adding id)).flatten ++ (joinAll 1 ++ ending)

/-- `SimpleTest` -/
def simpleTest (id : Str) : List (Action Str) := addingTen id []

/-- `Pools::TestPool`: `Worker::RunTest`, and `~Worker` -/
def runTest (id : Str) : List (Action Str) := addingTen id [.stop]

/-! ## What the threads can do -/

variable {id : Str} {ending done rest : List (Action Str)} {worker : Worker Str} {taken : ℕ}
  {c c' : System Str}

/-- What may come behind the join: nothing, or a stop. -/
def IsEnding (ending : List (Action Str)) : Prop := ending = [] ∨ ending = [.stop]

theorem IsEnding.cases (h : IsEnding ending) {action : Action Str} (haction : action ∈ ending) :
    action = .stop := by
  obtain rfl | rfl := h
  · cases haction
  · exact List.mem_singleton.mp haction

/-- The main thread adds the functions, joins the pool, and may stop it. -/
theorem main_cases (hending : IsEnding ending) {action : Action Str}
    (h : action ∈ addingTen id ending) :
    action = .post (task id) ∨ action = .write "Added".toList ∨ action = .write "\n".toList ∨
      action ∈ joinAll 1 ∨ action = .stop := by
  obtain hadding | hlater := List.mem_append.mp h
  · obtain ⟨round, hround, hmem⟩ := List.mem_flatten.mp hadding
    rw [List.eq_of_mem_replicate hround, adding] at hmem
    simp only [List.mem_cons, List.not_mem_nil, or_false] at hmem
    tauto
  · obtain hjoin | hlast := List.mem_append.mp hlater
    · exact .inr (.inr (.inr (.inl hjoin)))
    · exact .inr (.inr (.inr (.inr (hending.cases hlast))))

theorem poolMain_addingTen (id : Str) (hending : IsEnding ending) : PoolMain 1 (addingTen id ending) := by
  apply poolMain_joinAll
  · intro action haction
    obtain ⟨round, hround, hmem⟩ := List.mem_flatten.mp haction
    rw [List.eq_of_mem_replicate hround, adding] at hmem
    simp only [List.mem_cons, List.not_mem_nil, or_false] at hmem
    obtain rfl | rfl | rfl := hmem
    · exact .inr ⟨task id, rfl, by simp [task, Action.isPlain]⟩
    · exact .inl rfl
    · exact .inl rfl
  · exact fun action haction => .inr ⟨hending.cases haction, Nat.one_pos⟩

/-- Every function posted is the same one. -/
theorem eq_task (hending : IsEnding ending) {i : ℕ} {program : List (Action Str)}
    (h : (posts (addingTen id ending))[i]? = some program) : program = task id := by
  obtain ⟨action, haction, hposted⟩ := List.mem_filterMap.mp (List.mem_of_getElem? h)
  obtain rfl | rfl | rfl | hjoin | rfl := main_cases hending haction
  · exact (Option.some.inj hposted).symm
  · cases hposted
  · cases hposted
  · obtain rfl | ⟨j, rfl⟩ := joinAll_cases hjoin
    · cases hposted
    · cases hposted
  · cases hposted

/-- Nobody takes a lock. -/
theorem ne_guarded (hending : IsEnding ending) {workers : List (Worker Str)}
    (h : Serving (addingTen id ending) done rest workers taken c) {t : ℕ} {texts : List Str}
    {rest' : List (Action Str)} : c.threads[t]? ≠ some (.guarded texts :: rest') := by
  intro hthread
  rw [h.threads] at hthread
  cases t with
  | zero =>
    obtain rfl := Option.some.inj hthread
    have hmem : Action.guarded texts ∈ addingTen id ending := by
      rw [h.split]
      simp
    obtain heq | heq | heq | hjoin | heq := main_cases hending hmem
    · cases heq
    · cases heq
    · cases heq
    · obtain heq | ⟨j, heq⟩ := joinAll_cases hjoin
      · cases heq
      · cases heq
    · cases heq
  | succ j =>
    rw [List.getElem?_cons_succ, List.getElem?_map] at hthread
    obtain ⟨worker, hworker, hprogram⟩ := Option.map_eq_some_iff.mp hthread
    obtain ⟨i, before, after, -, hhandler⟩ :=
      h.busy_of_written (List.mem_of_getElem? hworker) hprogram rfl
    have hmem : Action.guarded texts ∈ task id := by
      rw [← eq_task hending hhandler]
      simp
    simp [task] at hmem

/-! ## What has been written -/

/-- An entry for each insertion. -/
def entries (texts : List Str) : List (List Str) := texts.map fun text => [text]

theorem writes_task (id : Str) : writes (task id) = entries (report id) := rfl

theorem entries_flatten_replicate (n : ℕ) (texts : List Str) :
    entries (List.replicate n texts).flatten = (List.replicate n (entries texts)).flatten := by
  rw [entries, List.map_flatten, List.map_replicate]
  rfl

theorem flatten_entries (texts : List Str) : (entries texts).flatten = texts := by
  rw [entries, ← List.flatMap_def, List.flatMap_singleton']

/-- What begins with entries begins with their texts. -/
theorem flatten_isPrefix {l : List (List Str)} {texts : List Str} (h : l <+: entries texts) :
    l.flatten <+: texts ∧ l.flatten.length = l.length := by
  have hl : l = entries (texts.take l.length) := by
    rw [entries, List.map_take]
    exact List.prefix_iff_eq_take.mp h
  rw [hl, flatten_entries]
  refine ⟨List.take_prefix _ _, ?_⟩
  rw [entries, List.length_map]

theorem replicate_isPrefix {β : Type*} {m n : ℕ} (h : m ≤ n) (l : List β) :
    (List.replicate m l).flatten <+: (List.replicate n l).flatten := by
  obtain ⟨k, rfl⟩ := Nat.exists_eq_add_of_le h
  rw [List.replicate_add, List.flatten_append]
  exact List.prefix_append _ _

theorem flatMap_eq_replicate {β γ : Type*} {f : β → List γ} {l : List β} {b : List γ}
    (h : ∀ a ∈ l, f a = b) : l.flatMap f = (List.replicate l.length b).flatten := by
  rw [List.flatMap_def, List.map_congr_left h, List.map_const']

theorem writes_isPrefix {before after : List (Action Str)} (h : before ++ after = task id) :
    writes before <+: entries (report id) := by
  rw [← writes_task, ← h, writes, writes, List.filterMap_append]
  exact List.prefix_append _ _

/-- The worker has written what the functions taken say; the last may not be at its end. -/
theorem shown_isPrefix (hending : IsEnding ending)
    (h : Serving (addingTen id ending) done rest [worker] taken c) :
    worker.shown (posts (addingTen id ending)) <+: (List.replicate taken (entries (report id))).flatten ∧
      (worker.phase = .gone → worker.shown (posts (addingTen id ending)) =
        (List.replicate taken (entries (report id))).flatten) := by
  have htasks : worker.tasks = List.range taken := by
    have hperm := h.perm
    rw [List.flatMap_singleton] at hperm
    refine hperm.eq_of_pairwise (fun a b _ _ hab hba => ?_)
      (h.inOrder worker (List.mem_singleton_self worker)) List.pairwise_lt_range
    exact absurd (hab.trans hba) (Nat.lt_irrefl a)
  have hserved : worker.served.flatMap
      (fun i => writes ((posts (addingTen id ending)).getD i [])) =
      (List.replicate worker.served.length (entries (report id))).flatten := by
    apply flatMap_eq_replicate
    intro i hi
    have htaken : i < taken := by
      rw [← List.mem_range, ← htasks]
      exact List.mem_append_left _ hi
    have hlt : i < (posts (addingTen id ending)).length := by
      rw [h.split, posts, List.filterMap_append, List.length_append]
      exact Nat.lt_of_lt_of_le htaken (h.taken_le.trans (Nat.le_add_right _ _))
    have hget := List.getElem?_eq_getElem hlt
    rw [List.getD_eq_getElem?_getD, hget, Option.getD_some, eq_task hending hget, writes_task]
  have hlength := congrArg List.length htasks
  rw [Worker.tasks, List.length_append, List.length_range] at hlength
  cases hphase : worker.phase with
  | idle | gone =>
    rw [Worker.task, hphase] at hlength
    have heq : worker.shown (posts (addingTen id ending)) =
        (List.replicate taken (entries (report id))).flatten := by
      rw [Worker.shown, hserved, hphase, List.append_nil, ← hlength]
      rfl
    exact ⟨heq ▸ List.prefix_rfl, fun _ => heq⟩
  | busy i before after =>
    rw [Worker.task, hphase] at hlength
    have hfollows := h.follows worker (List.mem_singleton_self worker)
    rw [Worker.Follows, hphase] at hfollows
    refine ⟨?_, fun hgone => by cases hgone⟩
    rw [Worker.shown, hserved, hphase, ← hlength, Option.toList_some, List.length_singleton,
      List.replicate_succ', List.flatten_append, List.prefix_append_right_inj]
    simpa using writes_isPrefix (eq_task hending hfollows)

/-- Every function posted but the last has been reported. -/
theorem length_posts_le {n : ℕ} {tail : List (Action Str)}
    (htail : ∀ action ∈ tail, action.posted = none)
    (h : done <+: (List.replicate n (adding id)).flatten ++ tail) :
    2 * (posts done).length ≤ (writes done).length + 2 := by
  induction n generalizing done with
  | zero =>
    have hnone : posts done = [] :=
      List.filterMap_eq_nil_iff.mpr fun action haction => htail action (h.subset haction)
    rw [hnone]
    exact Nat.zero_le _
  | succ n ih =>
    rw [List.replicate_succ, List.flatten_cons, List.append_assoc] at h
    match done, h with
    | [], _ => exact Nat.zero_le _
    | [first], h =>
      obtain ⟨rfl, -⟩ := List.cons_prefix_cons.mp h
      exact Nat.le_refl 2
    | [first, second], h =>
      obtain ⟨rfl, hsecond⟩ := List.cons_prefix_cons.mp h
      obtain ⟨rfl, -⟩ := List.cons_prefix_cons.mp hsecond
      exact Nat.le_succ 2
    | first :: second :: third :: done, h =>
      obtain ⟨rfl, hsecond⟩ := List.cons_prefix_cons.mp h
      obtain ⟨rfl, hthird⟩ := List.cons_prefix_cons.mp hsecond
      obtain ⟨rfl, hdone⟩ := List.cons_prefix_cons.mp hthird
      have hle := ih hdone
      have hposts : posts (.post (task id) :: .write "Added".toList :: .write "\n".toList :: done) =
          task id :: posts done := rfl
      have hwrites : writes
          (.post (task id) :: .write "Added".toList :: .write "\n".toList :: done) =
          ["Added".toList] :: ["\n".toList] :: writes done := rfl
      rw [hposts, hwrites, List.length_cons, List.length_cons, List.length_cons]
      omega

theorem writes_addingTen (hending : IsEnding ending) :
    writes (addingTen id ending) = entries (List.replicate 10 ["Added".toList, "\n".toList]).flatten := by
  obtain rfl | rfl := hending <;> rfl

theorem length_posts_addingTen (hending : IsEnding ending) :
    (posts (addingTen id ending)).length = 10 := by
  obtain rfl | rfl := hending <;> rfl

theorem size_pool (hending : IsEnding ending) : (pool 1 (addingTen id ending)).size ≤ 124 := by
  have hlast : programSize ending ≤ 1 := by
    obtain rfl | rfl := hending
    · exact Nat.zero_le 1
    · exact Nat.le_refl 1
  have hround : programSize (adding id) = 12 := rfl
  have hjoins : programSize (joinAll 1 : List (Action Str)) = 2 := rfl
  have hmain : programSize (addingTen id ending) ≤ 123 := by
    rw [addingTen, programSize_append, programSize_append, programSize_replicate, hround, hjoins]
    omega
  have hworker : programSize [Action.run (α := Str)] = 1 := rfl
  simp only [System.size, pool, List.replicate_one, List.map_cons, List.map_nil, List.sum_cons,
    List.sum_nil, hworker]
  omega

/-! ## Runs -/

/-- What the two threads have written at some point of a run. -/
structure Shows (id : Str) (s : System Str) : Prop where
  byWorker : s.textBy 1 <+: (List.replicate 10 (report id)).flatten
  byMain : s.textBy 0 <+: (List.replicate 10 ["Added".toList, "\n".toList]).flatten
  /-- Of the functions that the main thread has not reported the worker writes for one only. -/
  length : (s.textBy 1).length ≤ 3 * (s.textBy 0).length + 6

theorem shows_of_serving (hending : IsEnding ending)
    (h : Serving (addingTen id ending) done rest [worker] taken c) : Shows id c := by
  obtain ⟨hshown, -⟩ := shown_isPrefix hending h
  have hworker : c.writtenBy 1 = worker.shown (posts (addingTen id ending)) := h.byWorker 0 worker rfl
  have hdone : done <+: addingTen id ending := by
    rw [h.split]
    exact List.prefix_append _ _
  have htail : ∀ action ∈ joinAll 1 ++ ending, action.posted = none := by
    intro action haction
    obtain hjoin | hlast := List.mem_append.mp haction
    · obtain rfl | ⟨j, rfl⟩ := joinAll_cases hjoin <;> rfl
    · rw [hending.cases hlast]
      rfl
  have hposts := length_posts_le htail hdone
  have hwrites : writes done <+: entries (List.replicate 10 ["Added".toList, "\n".toList]).flatten := by
    rw [← writes_addingTen hending, h.split, writes, writes, List.filterMap_append]
    exact List.prefix_append _ _
  have hten : taken ≤ 10 := by
    rw [← length_posts_addingTen hending, h.split, posts, List.filterMap_append, List.length_append]
    exact h.taken_le.trans (Nat.le_add_right _ _)
  rw [← entries_flatten_replicate] at hshown
  obtain ⟨hbegins, -⟩ := flatten_isPrefix hshown
  obtain ⟨hmain, hlength⟩ := flatten_isPrefix hwrites
  refine ⟨?_, ?_, ?_⟩
  · rw [textBy_eq, hworker]
    exact hbegins.trans (replicate_isPrefix hten _)
  · rw [textBy_eq, h.byMain]
    exact hmain
  · have hle := hbegins.length_le
    have hreport : (List.replicate taken (report id)).flatten.length = taken * 6 := by
      simp [report]
    have htaken := h.taken_le
    rw [textBy_eq, textBy_eq, hworker, h.byMain, hlength]
    omega

/-- When no thread can make a step, both have written everything. -/
theorem complete_of_serving (hending : IsEnding ending)
    (h : Serving (addingTen id ending) done rest [worker] taken c)
    (hstuck : ¬ ∃ t, (c.step true t).isSome) :
    c.textBy 1 = (List.replicate 10 (report id)).flatten ∧
      c.textBy 0 = (List.replicate 10 ["Added".toList, "\n".toList]).flatten := by
  have hmain := poolMain_addingTen id hending
  obtain rfl : rest = [] := by
    by_contra hrest
    exact hstuck (h.exists_step hmain rfl hrest)
  have hsplit : addingTen id ending = done := h.split.trans (List.append_nil done)
  obtain ⟨hgone, htaken⟩ := h.served_all (k := 1) rfl Nat.one_pos (hsplit ▸ hmain.joins)
  rw [← hsplit, length_posts_addingTen hending] at htaken
  have hshown := (shown_isPrefix hending h).2 (hgone worker (List.mem_singleton_self worker))
  have hworker : c.writtenBy 1 = worker.shown (posts (addingTen id ending)) := h.byWorker 0 worker rfl
  rw [textBy_eq, textBy_eq, hworker, hshown, h.byMain, ← hsplit, writes_addingTen hending, htaken,
    ← entries_flatten_replicate, flatten_entries, flatten_entries]
  exact ⟨rfl, rfl⟩

/-- **A pool of one thread runs the functions in turn.** In every run of `SimpleTest` and
of `TestPool`, the worker prints the reports of the ten functions one after the other, the
main thread its ten lines, and the worker is at most one function ahead of them. No run
is longer than 124 steps, and where none can be made any more, everything has been
printed. -/
theorem threads_print (id : Str) (main : List (Action Str))
    (hmain : main = simpleTest id ∨ main = runTest id) (ts : List ℕ) (s : System Str)
    (hrun : Transition.run (System.step false) (pool 1 main) ts = some s) :
    Shows id s ∧ ts.length ≤ 124 ∧
      ((∀ t, s.step false t = none) →
        s.textBy 1 = (List.replicate 10 (report id)).flatten ∧
          s.textBy 0 = (List.replicate 10 ["Added".toList, "\n".toList]).flatten) := by
  obtain ⟨ending, hending, rfl⟩ : ∃ ending, IsEnding ending ∧ main = addingTen id ending := by
    obtain rfl | rfl := hmain
    · exact ⟨_, .inl rfl, rfl⟩
    · exact ⟨_, .inr rfl, rfl⟩
  have hstart : Pool 1 (addingTen id ending) (pool 1 (addingTen id ending)) :=
    ⟨poolMain_addingTen id hending, [], _, _, 0, rfl, serving_pool _ _⟩
  have hquiet : ∀ c, Pool 1 (addingTen id ending) c → Quiet c := by
    rintro c ⟨-, done, rest, workers, taken, -, hserving⟩ t u text texts after after' -
    exact ne_guarded hending hserving
  obtain ⟨c, hpool, habstracts⟩ :=
    whole_of_run (Pool 1 (addingTen id ending)) (fun c t c' h hstep => h.step hstep) hquiet hrun
      (abstracts_self rfl) hstart
  obtain ⟨-, done, rest, workers, taken, hlength, hserving⟩ := hpool
  obtain ⟨worker, rfl⟩ := List.length_eq_one_iff.mp hlength
  -- No block is ever begun, so this is the system with whole blocks.
  have hinside : s.inside = none := by
    by_contra hsome
    obtain ⟨⟨t, written⟩, hinside⟩ := Option.ne_none_iff_exists'.mp hsome
    obtain ⟨texts, rest', hthread, -⟩ := habstracts.placed t written hinside
    exact ne_guarded hending hserving (habstracts.threads ▸ hthread)
  have htext : ∀ t, s.textBy t = c.textBy t := fun t => by
    rw [textBy, habstracts.text_eq hinside, textBy]
  obtain ⟨hworker, hmainText, hlengths⟩ := shows_of_serving hending hserving
  refine ⟨⟨?_, ?_, ?_⟩, (length_le_of_run rfl hrun).trans (size_pool hending), fun hstuck => ?_⟩
  · rwa [htext]
  · rwa [htext]
  · rwa [htext, htext]
  · rw [htext, htext]
    refine complete_of_serving hending hserving fun hstep => ?_
    obtain ⟨t, ht⟩ := habstracts.exists_step hstep
    rw [hstuck t] at ht
    cases ht

/-- The worker begins its first report before the first line of the main thread. -/
theorem threads_print_first :
    ∃ s, Transition.run (System.step false) (pool 1 (simpleTest "1".toList)) [0, 1, 1, 1, 0] =
        some s ∧ Shows "1".toList s := by
  obtain ⟨s, hrun⟩ := Option.isSome_iff_exists.mp
    (show (Transition.run (System.step false) (pool 1 (simpleTest "1".toList))
      [0, 1, 1, 1, 0]).isSome by decide)
  exact ⟨s, hrun, (threads_print "1".toList _ (.inl rfl) _ s hrun).1⟩

end BoostProjects.Threads
