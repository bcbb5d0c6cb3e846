import BoostProjects.Cpp.Str
import BoostProjects.Library.WorkerPool
import Mathlib.Data.Nat.Digits.Defs

/-!
# The thread pools

`Test` and `Worker` post a hundred functions to a `thread_pool` with as many threads
as the machine has, each of which prints that it has started and, a second later,
that it has completed. Each line takes three insertions, with a mutex held.

Whatever the threads do, the lines come out whole, each once and each function's in
order; a function starts while fewer than all threads are at earlier ones; and every
schedule comes to an end, at which all of it has been printed (`pools_print`).
-/

namespace BoostProjects.Threads.ThreadPool

open Cpp EventLoop System

/-! ## The programs -/

/-- `std::cout << i` -/
def shown (i : ℕ) : Str := Nat.toDigits 10 i

/-- A line of the output. -/
inductive Line
  | started (i : ℕ)
  | completed (i : ℕ)
  | done
  deriving DecidableEq, Repr

/-- The insertions of a line. -/
def Line.texts : Line → List Str
  | .started i => ["Task started ".toList, shown i, "\n".toList]
  | .completed i => ["Task completed ".toList, shown i, "\n".toList]
  | .done => ["Done\n".toList]

/-- The function posted by `Test`, and `Worker::handler` -/
def handler (i : ℕ) : List (Action Str) :=
  [.guarded (Line.texts (.started i)), .pause, .guarded (Line.texts (.completed i))]

/-- The main thread of both: the loop of posts, `pool.join()` and what comes after it. -/
def posting (threads : ℕ) (ending : List (Action Str)) : List (Action Str) :=
  (List.range 100).map (fun i => .post (handler i)) ++ (joinAll threads ++ ending)

/-- `Test`, with the number of threads that `hardware_concurrency` gives -/
def test (threads : ℕ) : List (Action Str) := posting threads [.write "Done\n".toList]

/-- `Test2`: `Worker::Run`, and `~Worker` -/
def run (threads : ℕ) : List (Action Str) := posting threads [.stop]

/-! ## The order of the lines -/

/-- The line is a new one and may come after these. -/
def Next (threads : ℕ) (lines : List Line) (line : Line) : Prop :=
  line ∉ lines ∧ match line with
  | .started i => i < 100 ∧ (List.range i).countP (.completed · ∉ lines) < threads
  | .completed i => .started i ∈ lines
  | .done => ∀ i < 100, .completed i ∈ lines

/-- Lines that came one after the other, each when it might. -/
inductive Orderly (threads : ℕ) : List Line → Prop
  | nil : Orderly threads []
  | concat {lines : List Line} {line : Line} (h : Orderly threads lines)
      (next : Next threads lines line) : Orderly threads (lines ++ [line])

/-! ## The texts of the lines -/

theorem shown_injective : Function.Injective shown := by
  intro i j h
  have hvalue := congrArg (Nat.ofDigitChars 10 · 0) h
  simpa [shown] using hvalue

theorem texts_injective : Function.Injective Line.texts := by
  intro line line' h
  have hstarted : "Task started ".toList ≠ "Task completed ".toList := by decide
  cases line <;> cases line' <;> simp_all [Line.texts, shown_injective.eq_iff]

/-- The function whose line it is. -/
def Line.task : Line → Option ℕ
  | .started i | .completed i => some i
  | .done => none

theorem writes_handler (i : ℕ) :
    writes (handler i) = [(Line.started i).texts, (Line.completed i).texts] := rfl

/-- A function that is about to write is before one of its two lines. -/
theorem handler_split {i : ℕ} {before after : List (Action Str)} {action : Action Str}
    {texts : List Str} (h : before ++ action :: after = handler i)
    (hwritten : action.written = some texts) :
    (before = [] ∧ texts = (Line.started i).texts) ∨
      (before = [.guarded (Line.started i).texts, .pause] ∧ texts = (Line.completed i).texts) := by
  match before, h with
  | [], h =>
    obtain ⟨rfl, -⟩ := List.cons.inj h
    exact .inl ⟨rfl, (Option.some.inj hwritten).symm⟩
  | [first], h =>
    obtain ⟨-, hsecond⟩ := List.cons.inj h
    obtain ⟨rfl, -⟩ := List.cons.inj hsecond
    cases hwritten
  | [first, second], h =>
    obtain ⟨rfl, hsecond⟩ := List.cons.inj h
    obtain ⟨rfl, hthird⟩ := List.cons.inj hsecond
    obtain ⟨rfl, -⟩ := List.cons.inj hthird
    exact .inr ⟨rfl, (Option.some.inj hwritten).symm⟩
  | first :: second :: third :: before, h =>
    have hlength := congrArg List.length h
    simp [handler] at hlength

theorem task_of_mem_writes_handler {line : Line} {i : ℕ} (h : line.texts ∈ writes (handler i)) :
    line.task = some i := by
  rw [writes_handler, List.mem_cons, List.mem_singleton] at h
  obtain h | h := h
  · rw [texts_injective h]
    rfl
  · rw [texts_injective h]
    rfl

/-! ## The main thread -/

/-- What `Test` and `Run` end with. -/
def IsEnding (ending : List (Action Str)) : Prop :=
  ending = [.write "Done\n".toList] ∨ ending = [.stop]

variable {threads taken : ℕ} {ending done rest : List (Action Str)} {workers : List (Worker Str)}
  {c c' : System Str} {lines : List Line}

theorem IsEnding.poolMain (h : IsEnding ending) (hthreads : 0 < threads) :
    PoolMain threads (posting threads ending) := by
  apply poolMain_joinAll
  · intro action haction
    obtain ⟨i, -, rfl⟩ := List.mem_map.mp haction
    exact .inr ⟨handler i, rfl, by simp [handler, Action.isPlain]⟩
  · intro action haction
    obtain rfl | rfl := h
    · obtain rfl := List.mem_singleton.mp haction
      exact .inl rfl
    · exact .inr ⟨List.mem_singleton.mp haction, hthreads⟩

theorem posts_before (threads : ℕ) :
    posts ((List.range 100).map (fun i => Action.post (handler i)) ++ joinAll threads) =
      (List.range 100).map handler := by
  have hjoins : posts (joinAll threads : List (Action Str)) = [] := by
    rw [posts, List.filterMap_eq_nil_iff]
    intro action haction
    obtain rfl | ⟨j, rfl⟩ := joinAll_cases haction <;> rfl
  rw [posts] at hjoins ⊢
  rw [List.filterMap_append, hjoins, List.append_nil, List.filterMap_map]
  exact congrFun List.filterMap_eq_map (List.range 100)

theorem posts_posting (h : IsEnding ending) :
    posts (posting threads ending) = (List.range 100).map handler := by
  have hending : posts ending = [] := by
    obtain rfl | rfl := h <;> rfl
  have hbefore := posts_before threads
  rw [posts] at hending hbefore ⊢
  rw [posting, ← List.append_assoc, List.filterMap_append, hending, hbefore, List.append_nil]

theorem getElem?_posts_posting (h : IsEnding ending) {i : ℕ} {program : List (Action Str)}
    (hi : (posts (posting threads ending))[i]? = some program) : i < 100 ∧ program = handler i := by
  rw [posts_posting h, List.getElem?_map] at hi
  obtain ⟨j, hj, rfl⟩ := Option.map_eq_some_iff.mp hi
  obtain ⟨hlt, rfl⟩ := List.getElem?_eq_some_iff.mp hj
  rw [List.length_range] at hlt
  exact ⟨hlt, by rw [List.getElem_range]⟩

theorem getD_posts_posting (h : IsEnding ending) {i : ℕ} (hi : i < 100) :
    (posts (posting threads ending)).getD i [] = handler i := by
  rw [posts_posting h]
  simp [hi]

/-- What the main thread does before its ending writes nothing. -/
theorem written_eq_none {action : Action Str}
    (h : action ∈ (List.range 100).map (fun i => Action.post (handler i)) ++ joinAll threads) :
    action.written = none := by
  obtain hpost | hjoin := List.mem_append.mp h
  · obtain ⟨i, -, rfl⟩ := List.mem_map.mp hpost
    rfl
  · obtain rfl | ⟨j, rfl⟩ := joinAll_cases hjoin <;> rfl

theorem IsEnding.singleton (h : IsEnding ending) :
    ∃ action, ending = [action] ∧ ∀ texts, action.written = some texts → texts = Line.texts .done := by
  obtain rfl | rfl := h
  · exact ⟨_, rfl, fun texts htexts => (Option.some.inj htexts).symm⟩
  · exact ⟨_, rfl, fun texts htexts => by cases htexts⟩

/-- The main thread writes when there is nothing else left for it to do. -/
theorem main_written (hending : IsEnding ending) {action : Action Str} {texts : List Str}
    (hsplit : posting threads ending = done ++ action :: rest)
    (hwritten : action.written = some texts) :
    texts = Line.texts .done ∧
      done = (List.range 100).map (fun i => .post (handler i)) ++ joinAll threads := by
  obtain ⟨last, rfl, hlast⟩ := hending.singleton
  rw [posting, ← List.append_assoc] at hsplit
  obtain ⟨later, hdone, hrest⟩ | ⟨later, hbefore, hrest⟩ := List.append_eq_append_iff.mp hsplit
  · cases later with
    | nil =>
      obtain ⟨rfl, -⟩ := List.cons.inj hrest
      exact ⟨hlast texts hwritten, by rw [hdone, List.append_nil]⟩
    | cons first later => exact absurd (congrArg List.length hrest) (by simp)
  · cases later with
    | nil =>
      obtain ⟨rfl, -⟩ := List.cons.inj hrest
      exact ⟨hlast texts hwritten, by rw [hbefore, List.append_nil]⟩
    | cons first later =>
      obtain ⟨rfl, -⟩ := List.cons.inj hrest
      have hmem : action ∈ (List.range 100).map (fun i => Action.post (handler i)) ++
          joinAll threads := by
        rw [hbefore]
        simp
      rw [written_eq_none hmem] at hwritten
      cases hwritten

/-- The lines of the main thread are of no function. -/
theorem notMem_writes (hending : IsEnding ending)
    (hsplit : posting threads ending = done ++ rest) {i : ℕ} {line : Line}
    (htask : line.task = some i) : line.texts ∉ writes done := by
  intro hline
  obtain ⟨action, haction, hwritten⟩ := List.mem_filterMap.mp hline
  obtain ⟨before, after, rfl⟩ := List.append_of_mem haction
  rw [List.append_assoc, List.cons_append] at hsplit
  have hdone := texts_injective (main_written hending hsplit hwritten).1
  rw [hdone] at htask
  cases htask

theorem done_mem_writes_iff (hending : IsEnding ending) :
    Line.done.texts ∈ writes (posting threads ending) ↔ ending = [.write "Done\n".toList] := by
  have hbefore : writes ((List.range 100).map (fun i => Action.post (handler i)) ++
      joinAll threads) = [] := List.filterMap_eq_nil_iff.mpr fun _ => written_eq_none
  have hwrites : writes (posting threads ending) = writes ending := by
    rw [writes] at hbefore
    rw [posting, ← List.append_assoc, writes, List.filterMap_append, hbefore, List.nil_append, writes]
  rw [hwrites]
  obtain rfl | rfl := hending
  · exact iff_of_true (List.mem_singleton_self _) rfl
  · exact iff_of_false (fun hmem => by cases hmem) (by simp)

/-! ## When a line may come -/

/-- What holds between two steps: the lines printed are orderly. -/
structure Printed (threads : ℕ) (ending : List (Action Str)) (done rest : List (Action Str))
    (workers : List (Worker Str)) (taken : ℕ) (lines : List Line) (c : System Str) : Prop where
  length : workers.length = threads
  serving : Serving (posting threads ending) done rest workers taken c
  output : c.output.map Prod.snd = lines.map Line.texts

section Printed

variable (h : Printed threads ending done rest workers taken lines c)

include h

theorem Printed.mem_lines_iff {line : Line} :
    line ∈ lines ↔ line.texts ∈ writes done ∨
      ∃ worker ∈ workers, line.texts ∈ worker.shown (posts (posting threads ending)) := by
  rw [← h.serving.mem_output_iff, h.output, List.mem_map_of_injective texts_injective]

/-- A worker has written the lines of the functions that it has served, and the first lines of
the one that it is at. -/
theorem Printed.mem_shown (hending : IsEnding ending) {worker : Worker Str}
    (hworker : worker ∈ workers) {line : Line}
    (hline : line.texts ∈ worker.shown (posts (posting threads ending))) :
    ∃ i, line.task = some i ∧ (i ∈ worker.served ∨ ∃ before after,
      worker.phase = .busy i before after ∧ line.texts ∈ writes before) := by
  rw [Worker.shown, List.mem_append, List.mem_flatMap] at hline
  obtain ⟨i, hi, hline⟩ | hline := hline
  · refine ⟨i, ?_, .inl hi⟩
    by_cases hlt : i < 100
    · rw [getD_posts_posting hending hlt] at hline
      exact task_of_mem_writes_handler hline
    · have hnone : (posts (posting threads ending)).getD i [] = [] := by
        rw [posts_posting hending]
        simp [hlt]
      rw [hnone] at hline
      cases hline
  · have hfollows := h.serving.follows worker hworker
    cases hphase : worker.phase with
    | idle | gone =>
      rw [hphase] at hline
      cases hline
    | busy i before after =>
      rw [Worker.Follows, hphase] at hfollows
      rw [hphase] at hline
      refine ⟨i, ?_, .inr ⟨before, after, rfl, hline⟩⟩
      have hall : line.texts ∈ writes (before ++ after) := by
        rw [writes, List.filterMap_append]
        exact List.mem_append_left _ hline
      rw [(getElem?_posts_posting hending hfollows).2] at hall
      exact task_of_mem_writes_handler hall

/-- A line of the function that a worker is at has been printed by this worker. -/
theorem Printed.mem_writes (hending : IsEnding ending) {j i : ℕ} {worker : Worker Str}
    (hworker : workers[j]? = some worker)
    {before after : List (Action Str)} (hphase : worker.phase = .busy i before after) {line : Line}
    (htask : line.task = some i) (hline : line ∈ lines) : line.texts ∈ writes before := by
  have hi : i ∈ worker.tasks := by simp [Worker.tasks, Worker.task, hphase]
  obtain hmain | ⟨other, hother, hshown⟩ := h.mem_lines_iff.mp hline
  · exact absurd hmain (notMem_writes hending h.serving.split htask)
  obtain ⟨j', hj'⟩ := List.mem_iff_getElem?.mp hother
  obtain ⟨i', htask', hwhere⟩ := h.mem_shown hending hother hshown
  obtain rfl := Option.some.inj (htask.symm.trans htask')
  have hi' : i ∈ other.tasks := by
    obtain hserved | ⟨before', after', hphase', -⟩ := hwhere
    · exact List.mem_append_left _ hserved
    · simp [Worker.tasks, Worker.task, hphase']
  -- Nobody else has taken the function.
  obtain rfl := h.serving.eq_of_mem_tasks hworker hj' hi hi'
  obtain rfl := Option.some.inj (hworker.symm.trans hj')
  obtain hserved | ⟨before', after', hphase', hbefore⟩ := hwhere
  · have hpair := h.serving.inOrder worker hother
    rw [Worker.tasks, Worker.task, hphase, List.pairwise_append] at hpair
    exact absurd (hpair.2.2 i hserved i (List.mem_singleton_self i)) (Nat.lt_irrefl i)
  · rw [hphase] at hphase'
    cases hphase'
    exact hbefore

/-- A function that has been taken is completed, or a worker is at it. -/
theorem Printed.completed_or_task (hending : IsEnding ending) {i : ℕ} (hi : i < taken)
    (hlt : i < 100) : .completed i ∈ lines ∨ i ∈ workers.filterMap Worker.task := by
  obtain ⟨worker, hworker, htasks⟩ :=
    List.mem_flatMap.mp (h.serving.perm.mem_iff.mpr (List.mem_range.mpr hi))
  obtain hserved | htask := List.mem_append.mp htasks
  · refine .inl (h.mem_lines_iff.mpr (.inr ⟨worker, hworker, ?_⟩))
    refine List.mem_append_left _ (List.mem_flatMap.mpr ⟨i, hserved, ?_⟩)
    rw [getD_posts_posting hending hlt, writes_handler]
    simp
  · exact .inr (List.mem_filterMap.mpr ⟨worker, hworker, by simpa using htask⟩)

/-- Not all workers are at functions before the one that a worker is at. -/
theorem Printed.countP_lt (hending : IsEnding ending) {i : ℕ} (hlt : i < 100)
    (hi : i ∈ workers.filterMap Worker.task) :
    (List.range i).countP (.completed · ∉ lines) < threads := by
  have htaken : i < taken := by
    obtain ⟨worker, hworker, htask⟩ := List.mem_filterMap.mp hi
    have hmem : i ∈ workers.flatMap Worker.tasks :=
      List.mem_flatMap.mpr ⟨worker, hworker, List.mem_append_right _ (by simp [htask])⟩
    exact List.mem_range.mp (h.serving.perm.mem_iff.mp hmem)
  have hnodup : (i :: (List.range i).filter (.completed · ∉ lines)).Nodup := by
    refine List.nodup_cons.mpr ⟨?_, List.nodup_range.filter _⟩
    simp
  have hsubset : i :: (List.range i).filter (.completed · ∉ lines) ⊆
      workers.filterMap Worker.task := by
    rintro j hj
    obtain rfl | hj := List.mem_cons.mp hj
    · exact hi
    · obtain ⟨hrange, hopen⟩ := List.mem_filter.mp hj
      have hji := List.mem_range.mp hrange
      exact (h.completed_or_task hending (hji.trans htaken) (hji.trans hlt)).resolve_left
        (of_decide_eq_true hopen)
  have hlength := (List.subperm_of_subset hnodup hsubset).length_le
  rw [List.length_cons, ← List.countP_eq_length_filter] at hlength
  have hworkers := List.length_filterMap_le Worker.task workers
  rw [h.length] at hworkers
  omega

/-- What a worker is about to write is a line that may come next. -/
theorem Printed.next_of_worker (hending : IsEnding ending) {j : ℕ} {worker : Worker Str}
    (hworker : workers[j]? = some worker) {action : Action Str} {rest' : List (Action Str)}
    {texts : List Str} (hprogram : worker.program = action :: rest')
    (hwritten : action.written = some texts) :
    ∃ line, texts = line.texts ∧ Next threads lines line := by
  have hmem : worker ∈ workers := List.mem_of_getElem? hworker
  obtain ⟨i, before, after, hphase, hhandler⟩ :=
    h.serving.busy_of_written hmem hprogram hwritten
  obtain ⟨hlt, hhandler⟩ := getElem?_posts_posting hending hhandler
  have hi : i ∈ workers.filterMap Worker.task :=
    List.mem_filterMap.mpr ⟨worker, hmem, by rw [Worker.task, hphase]⟩
  have hnew : ∀ line : Line, line.task = some i → line.texts ∉ writes before → line ∉ lines :=
    fun line htask hbefore hline => hbefore (h.mem_writes hending hworker hphase htask hline)
  -- The worker is before one of the two lines of its function.
  obtain ⟨rfl, rfl⟩ | ⟨rfl, rfl⟩ := handler_split hhandler hwritten
  · refine ⟨.started i, rfl, hnew _ rfl (List.not_mem_nil), hlt, h.countP_lt hending hlt hi⟩
  · refine ⟨.completed i, rfl, hnew _ rfl ?_, ?_⟩
    · simp [writes, Action.written, texts_injective.eq_iff]
    · refine h.mem_lines_iff.mpr (.inr ⟨worker, hmem, List.mem_append_right _ ?_⟩)
      rw [hphase]
      exact List.mem_singleton_self _

/-- What a thread is about to write is a line that may come next. -/
theorem Printed.next (hending : IsEnding ending) (hthreads : 0 < threads) {t : ℕ}
    {action : Action Str} {rest' : List (Action Str)} {texts : List Str}
    (hthread : c.threads[t]? = some (action :: rest')) (hwritten : action.written = some texts) :
    ∃ line, texts = line.texts ∧ Next threads lines line := by
  rw [h.serving.threads] at hthread
  cases t with
  | succ j =>
    rw [List.getElem?_cons_succ, List.getElem?_map] at hthread
    obtain ⟨worker, hworker, hprogram⟩ := Option.map_eq_some_iff.mp hthread
    exact h.next_of_worker hending hworker hprogram hwritten
  | zero =>
    obtain rfl := Option.some.inj hthread
    obtain ⟨rfl, hdone⟩ := main_written hending h.serving.split hwritten
    refine ⟨.done, rfl, ?_, fun i hi => ?_⟩
    -- Nobody has written the last line.
    · intro hmem
      obtain hmain | ⟨worker, hworker, hshown⟩ := h.mem_lines_iff.mp hmem
      · rw [hdone, writes, List.filterMap_eq_nil_iff.mpr fun _ => written_eq_none] at hmain
        cases hmain
      · obtain ⟨i, htask, -⟩ := h.mem_shown hending hworker hshown
        cases htask
    -- All workers have been joined, so every function has been served.
    · have hjoins : ∀ j < threads, .join (j + 1) ∈ done := fun j hj => by
        rw [hdone]
        exact List.mem_append_right _ (mem_joinAll hj)
      obtain ⟨hgone, htaken⟩ := h.serving.served_all h.length hthreads hjoins
      have hcount : taken = 100 := by
        rw [htaken, hdone, posts_before, List.length_map, List.length_range]
      refine (h.completed_or_task hending (hcount ▸ hi) hi).resolve_right fun htask => ?_
      obtain ⟨worker, hworker, htask⟩ := List.mem_filterMap.mp htask
      rw [Worker.task, hgone worker hworker] at htask
      cases htask

end Printed

/-! ## Runs -/

/-- The lines printed by a pool in which each is written in one step. -/
structure Printing (threads : ℕ) (ending : List (Action Str)) (lines : List Line)
    (c : System Str) : Prop where
  pool : Pool threads (posting threads ending) c
  output : c.output.map Prod.snd = lines.map Line.texts
  orderly : Orderly threads lines

theorem Printing.stage (h : Printing threads ending lines c) :
    ∃ done rest workers taken, Printed threads ending done rest workers taken lines c := by
  obtain ⟨done, rest, workers, taken, hlength, hserving⟩ := h.pool.stage
  exact ⟨done, rest, workers, taken, hlength, hserving, h.output⟩

theorem Printing.step (hending : IsEnding ending) (hthreads : 0 < threads) {t : ℕ}
    (h : Printing threads ending lines c) (hstep : c.step true t = some c') :
    ∃ lines', Printing threads ending lines' c' := by
  obtain ⟨done, rest, workers, taken, hprinted⟩ := h.stage
  obtain ⟨action, rest', hthread, houtput⟩ := output_step hprinted.serving.inside hstep
  have hpool := h.pool.step hstep
  cases hwritten : action.written with
  | none =>
    rw [hwritten, Option.toList_none, List.map_nil, List.append_nil] at houtput
    exact ⟨lines, hpool, houtput ▸ h.output, h.orderly⟩
  | some texts =>
    obtain ⟨line, rfl, hnext⟩ := hprinted.next hending hthreads hthread hwritten
    refine ⟨lines ++ [line], hpool, ?_, h.orderly.concat hnext⟩
    rw [houtput, hwritten, List.map_append, List.map_append, h.output]
    rfl

/-- Only the main thread writes without the mutex, when all workers have ended. -/
theorem Printing.quiet (hending : IsEnding ending) (hthreads : 0 < threads)
    (h : Printing threads ending lines c) : Quiet c := by
  obtain ⟨done, rest, workers, taken, hprinted⟩ := h.stage
  intro t u text texts after after' hwrite hguarded
  have hserving := hprinted.serving
  rw [hserving.threads] at hwrite hguarded
  cases t with
  | succ j =>
    rw [List.getElem?_cons_succ, List.getElem?_map] at hwrite
    obtain ⟨worker, hworker, hprogram⟩ := Option.map_eq_some_iff.mp hwrite
    obtain ⟨i, before, later, -, hhandler⟩ :=
      hserving.busy_of_written (List.mem_of_getElem? hworker) hprogram rfl
    have hmem : Action.write text ∈ handler i := by
      rw [← (getElem?_posts_posting hending hhandler).2]
      simp
    simp [handler] at hmem
  | zero =>
    obtain rfl := Option.some.inj hwrite
    obtain ⟨-, hdone⟩ := main_written hending hserving.split rfl
    have hjoins : ∀ j < threads, .join (j + 1) ∈ done := fun j hj => by
      rw [hdone]
      exact List.mem_append_right _ (mem_joinAll hj)
    obtain ⟨hgone, -⟩ := hserving.served_all hprinted.length hthreads hjoins
    cases u with
    | zero => cases hguarded
    | succ j =>
      rw [List.getElem?_cons_succ, List.getElem?_map] at hguarded
      obtain ⟨worker, hworker, hprogram⟩ := Option.map_eq_some_iff.mp hguarded
      rw [Worker.program, hgone worker (List.mem_of_getElem? hworker)] at hprogram
      cases hprogram

/-- What has been printed when a run has come to `s`: lines, and the first insertions of
one that may come next. -/
structure Shows (threads : ℕ) (lines : List Line) (s : System Str) : Prop where
  orderly : Orderly threads lines
  text : ∃ part, s.text.map Prod.snd = lines.flatMap Line.texts ++ part ∧
    (part = [] ∨ ∃ line, part <+: line.texts ∧ Next threads lines line)

theorem Printing.shows {s : System Str} (hending : IsEnding ending) (hthreads : 0 < threads)
    (h : Printing threads ending lines c) (habstracts : Abstracts c s) : Shows threads lines s := by
  obtain ⟨part, htext, hpart⟩ := habstracts.text
  have hlines : c.text.map Prod.snd = lines.flatMap Line.texts := by
    rw [map_snd_text, h.output, List.flatMap_def]
  refine ⟨h.orderly, part.map Prod.snd, by rw [htext, List.map_append, hlines], ?_⟩
  cases hinside : s.inside with
  | none =>
    rw [hinside] at hpart
    exact .inl (by rw [hpart]; rfl)
  | some inside =>
    obtain ⟨t, written⟩ := inside
    rw [hinside] at hpart
    obtain ⟨texts, rest', hthread, -, rfl⟩ := hpart
    obtain ⟨done, rest, workers, taken, hprinted⟩ := h.stage
    rw [← habstracts.threads] at hthread
    obtain ⟨line, rfl, hnext⟩ := hprinted.next hending hthreads hthread rfl
    refine .inr ⟨line, ?_, hnext⟩
    rw [List.map_map]
    simpa [Function.comp_def] using List.take_prefix written line.texts

/-- When no thread can make a step the main thread is at its end, and all lines are there. -/
theorem Printing.complete (hending : IsEnding ending) (hthreads : 0 < threads)
    (h : Printing threads ending lines c) (hstuck : ¬ ∃ t, (c.step true t).isSome) :
    (∀ i < 100, .completed i ∈ lines) ∧ (.done ∈ lines ↔ ending = [.write "Done\n".toList]) := by
  obtain ⟨done, rest, workers, taken, hprinted⟩ := h.stage
  have hserving := hprinted.serving
  have hmain := h.pool.wellFormed
  obtain rfl : rest = [] := by
    by_contra hrest
    exact hstuck (hserving.exists_step hmain hprinted.length hrest)
  have hsplit : posting threads ending = done := hserving.split.trans (List.append_nil done)
  obtain ⟨hgone, htaken⟩ := hserving.served_all hprinted.length hthreads (hsplit ▸ hmain.joins)
  rw [← hsplit, posts_posting hending, List.length_map, List.length_range] at htaken
  constructor
  · intro i hi
    refine (hprinted.completed_or_task hending (htaken ▸ hi) hi).resolve_right fun htask => ?_
    obtain ⟨worker, hworker, htask⟩ := List.mem_filterMap.mp htask
    rw [Worker.task, hgone worker hworker] at htask
    cases htask
  · rw [hprinted.mem_lines_iff, ← hsplit, done_mem_writes_iff hending]
    refine or_iff_left ?_
    rintro ⟨worker, hworker, hshown⟩
    obtain ⟨i, htask, -⟩ := hprinted.mem_shown hending hworker hshown
    cases htask

theorem programSize_posting (threads : ℕ) (hending : IsEnding ending) :
    programSize (posting threads ending) = 1402 + threads := by
  have hhandlers : programSize ((List.range 100).map fun i => Action.post (handler i)) = 1400 := by
    rw [programSize_map (n := 14) _ fun _ => rfl, List.length_range]
  have hjoins : programSize ((List.range' 1 threads).map (Action.join (α := Str))) = threads := by
    rw [programSize_map (n := 1) _ fun _ => rfl, List.length_range', Nat.mul_one]
  have hlast : programSize ending = 1 := by
    obtain rfl | rfl := hending <;> rfl
  rw [posting, programSize_append, programSize_append, joinAll, programSize, hhandlers, hjoins, hlast]
  simp only [Action.size]
  omega

theorem size_pool (threads : ℕ) (hending : IsEnding ending) :
    (pool threads (posting threads ending)).size = 1402 + 2 * threads := by
  have hworkers : ((List.replicate threads [Action.run (α := Str)]).map programSize).sum =
      threads := by
    rw [List.map_replicate, List.sum_replicate_nat]
    simp [programSize, Action.size]
  simp only [System.size, pool, List.map_cons, List.sum_cons, List.map_nil, List.sum_nil, hworkers,
    programSize_posting threads hending]
  omega

theorem posting_inj {threads : ℕ} :
    posting threads ending = test threads ↔ ending = [.write "Done\n".toList] := by
  rw [test, posting, posting, List.append_right_inj, List.append_right_inj]

/-- **The pools print every line, once and whole.** In every run of `Test` and of `Run`
with one thread or more, and the functions taken by the threads in any way: the lines printed are
whole, up to the one being printed, and each comes when it may. No run is longer than
1402 steps and two for each thread, and where none can be made any more, all lines of
all functions have been printed, and `Done` after them by `Test`. -/
theorem pools_print (threads : ℕ) (hthreads : 0 < threads) (main : List (Action Str))
    (hmain : main = test threads ∨ main = run threads) (ts : List ℕ) (s : System Str)
    (hrun : Transition.run (System.step false) (pool threads main) ts = some s) :
    ∃ lines, Shows threads lines s ∧ ts.length ≤ 1402 + 2 * threads ∧
      ((∀ t, s.step false t = none) →
        s.text.map Prod.snd = lines.flatMap Line.texts ∧ (∀ i < 100, .completed i ∈ lines) ∧
          (.done ∈ lines ↔ main = test threads)) := by
  obtain ⟨ending, hending, rfl⟩ : ∃ ending, IsEnding ending ∧ main = posting threads ending := by
    obtain rfl | rfl := hmain
    · exact ⟨_, .inl rfl, rfl⟩
    · exact ⟨_, .inr rfl, rfl⟩
  have hstart : Printing threads ending [] (pool threads (posting threads ending)) :=
    ⟨⟨hending.poolMain hthreads, [], _, _, 0, List.length_replicate, serving_pool _ _⟩, rfl, .nil⟩
  obtain ⟨c, ⟨lines, hprinting⟩, habstracts⟩ :=
    whole_of_run (fun c => ∃ lines, Printing threads ending lines c)
      (fun c t c' ⟨lines, h⟩ hstep => h.step hending hthreads hstep)
      (fun c ⟨lines, h⟩ => h.quiet hending hthreads) hrun (abstracts_self rfl) ⟨[], hstart⟩
  refine ⟨lines, hprinting.shows hending hthreads habstracts, ?_, fun hstuck => ?_⟩
  · rw [← size_pool threads hending]
    exact length_le_of_run rfl hrun
  · have hnone : ¬ ∃ t, (s.step false t).isSome := by
      rintro ⟨t, ht⟩
      rw [hstuck t] at ht
      cases ht
    have hinside : s.inside = none := by
      by_contra hsome
      exact hnone (habstracts.placed.exists_step hsome)
    obtain ⟨hall, hdone⟩ :=
      hprinting.complete hending hthreads fun hstep => hnone (habstracts.exists_step hstep)
    refine ⟨?_, hall, hdone.trans posting_inj.symm⟩
    rw [habstracts.text_eq hinside, map_snd_text, hprinting.output, List.flatMap_def]

/-- A thread of two has begun the line of the first function. -/
theorem pools_print_two :
    ∃ s, Transition.run (System.step false) (pool 2 (test 2)) [0, 2, 0, 2, 2] = some s ∧
      ∃ lines, Shows 2 lines s := by
  obtain ⟨s, hrun⟩ := Option.isSome_iff_exists.mp
    (show (Transition.run (System.step false) (pool 2 (test 2)) [0, 2, 0, 2, 2]).isSome by decide)
  obtain ⟨lines, hshows, -⟩ := pools_print 2 (by decide) (test 2) (.inl rfl) _ s hrun
  exact ⟨s, hrun, lines, hshows⟩

end BoostProjects.Threads.ThreadPool
