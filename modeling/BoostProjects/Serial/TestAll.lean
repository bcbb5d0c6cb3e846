import BoostProjects.Library.Transition
import BoostProjects.Serial.Service

/-!
# Stopping the serial service

`TestAll` has two threads. The console thread passes every character it reads to
`Service::input`, which posts a handler, and calls `Service::stop` once it has
read Ctrl+C. The other thread runs the handlers of the `io_context`. Two of them
start the next asynchronous operation: `timerExpired` waits for the timer again
and `lineReceived` reads the next line. Only the former looks at `m_stop`.

`async_read_until` is a composed operation: it reads from the port until its
buffer holds a newline, and calls `lineReceived` from the completion of the last
of these reads. What `stop` can cancel is a read of the port that is still
pending. A read that has completed is queued with its bytes, and cancelling
does not change it.
-/

namespace BoostProjects.Serial

open Boost Cpp Transition

/-- Clears the display. -/
def clearDisplay : Str := "\x1b[J".toList

/-- Switches to reverse video. -/
def reverseVideo : Str := "\x1b[7m".toList

/-- Switches back from it. -/
def normalVideo : Str := "\x1b[0m".toList

/-- `CTRL_C` -/
def ctrlC : Char := '\x03'

/-- `std::isprint` in the "C" locale. -/
def isprint (c : Char) : Bool := ' ' ≤ c ∧ c ≤ '~'

/-- `std::iscntrl` in the "C" locale. -/
def iscntrl (c : Char) : Bool := c < ' ' ∨ c = '\x7f'

/-- `asio::error::operation_aborted`, which is `ECANCELED`. -/
def operationAborted : ErrorCode := .other 125

/-- What can be queued on the `io_context`. -/
inductive Handler
  /-- The lambda that the constructor posts. -/
  | banner
  /-- The lambda that `input` posts. -/
  | input (c : Char)
  | timerExpired (ec : ErrorCode)
  /-- The completion of one read of the port by `async_read_until`. -/
  | portRead (ec : ErrorCode) (bytes : Str)
  deriving DecidableEq, Repr

/-- The completion of a read that transferred bytes or needed none. -/
def Handler.IsRead : Handler → Prop
  | .portRead ec _ => ec.failed = false
  | _ => False

theorem Handler.IsRead.eq_portRead {handler : Handler} (h : handler.IsRead) :
    ∃ bytes, handler = .portRead .success bytes := by
  cases handler with
  | portRead ec bytes =>
    obtain rfl := ErrorCode.failed_eq_false_iff.mp h
    exact ⟨bytes, rfl⟩
  | banner => exact h.elim
  | input c => exact h.elim
  | timerExpired ec => exact h.elim

/-- The members of `Service`, the `io_context`, and where the two threads are. -/
structure Program where
  /-- `m_serialData` -/
  serialData : Str
  /-- `m_stop` -/
  stopped : Bool
  /-- `m_charCount` -/
  charCount : ℕ
  /-- A wait for `m_timer` is pending. -/
  waiting : Bool
  /-- A read of `m_port` is pending. -/
  reading : Bool
  /-- The handlers that are ready to run. -/
  queue : List Handler
  /-- The console thread is in its loop. -/
  console : Bool
  /-- The texts written to `std::cout`. -/
  cout : List Str
  /-- How often `async_wait` was called on `m_timer`. -/
  waits : ℕ
  /-- How often `async_read_until` was called on `m_port`. -/
  reads : ℕ
  deriving DecidableEq, Repr

namespace Program

/-- A handler is queued. -/
def post (program : Program) (handler : Handler) : Program :=
  { program with queue := program.queue ++ [handler] }

/-- A write to the standard output. -/
def print (program : Program) (output : Str) : Program :=
  { program with cout := program.cout ++ [output] }

/-! ## The timer -/

/-- `m_timer.async_wait` -/
def asyncWait (program : Program) : Program :=
  { program with waiting := true, waits := program.waits + 1 }

/-- `m_timer.cancel()` -/
def cancelTimer (program : Program) : Program :=
  if program.waiting then
    { program with waiting := false }.post (.timerExpired operationAborted)
  else program

/-- `timerExpired`, with the text that `std::ctime` gives. -/
def timerExpired (program : Program) (ec : ErrorCode) (now : Str) : Program :=
  if ec.failed || program.stopped then program
  else
    let program := program.print (rowCol 1 40 ++ clearEol ++ now)
    -- `expires_after` cancels a wait that is still pending.
    program.cancelTimer.asyncWait

/-! ## The port -/

/-- `async_read_until` starts with a read of no bytes if the buffer holds a
newline, which completes at once. -/
def readLine (program : Program) : Program :=
  let program := { program with reads := program.reads + 1 }
  if '\n' ∈ program.serialData then program.post (.portRead .success [])
  else { program with reading := true }

/-- `m_port.cancel()` -/
def cancelPort (program : Program) : Program :=
  if program.reading then
    { program with reading := false }.post (.portRead operationAborted [])
  else program

/-- `Service::lineReceived` -/
def lineReceived (program : Program) (ec : ErrorCode) : Program :=
  if ec.failed then program
  else
    let str := extract program.serialData
    let program := { program with serialData := str.rest }
    let program :=
      if str.good then program.print (bar (Service.boxes str.value).toNat) else program
    program.readLine

/-- `async_read_until` after one of its reads: it is done, or reads on. -/
def portRead (program : Program) (ec : ErrorCode) (bytes : Str) : Program :=
  let program := { program with serialData := program.serialData ++ bytes }
  if ec.failed ∨ '\n' ∈ program.serialData then program.lineReceived ec
  else { program with reading := true }

/-! ## The console -/

/-- `Service::stop` -/
def stop (program : Program) : Program :=
  { program.cancelTimer.cancelPort with stopped := true }

/-- `Service::input` -/
def input (program : Program) (c : Char) : Program := program.post (.input c)

/-- The lambda that `input` posts. -/
def showInput (program : Program) (c : Char) : Program :=
  let charCount := if program.charCount > 60 then 0 else program.charCount
  let output := rowCol 10 (10 + charCount) ++ clearEol ++
    if isprint c then [c]
    else if iscntrl c then reverseVideo ++ [Char.ofNat (c.toNat ||| 0x40)] ++ normalVideo
    else graphicCharSet ++ [graphicDiamond] ++ normalCharSet
  { program with charCount := charCount + 1 }.print output

/-- The lambda that the constructor posts. -/
def showBanner (program : Program) : Program :=
  program.print (clearDisplay ++
    rowCol 10 3 ++ "Input:".toList ++
    rowCol 12 3 ++ "Value:".toList ++
    rowCol 14 30 ++ "Type Ctrl+C to exit.".toList)

/-! ## The two threads -/

/-- The thread in `ctx.run()` runs a handler. -/
def handle (program : Program) (now : Str) : Handler → Program
  | .banner => program.showBanner
  | .input c => program.showInput c
  | .timerExpired ec => program.timerExpired ec now
  | .portRead ec bytes => program.portRead ec bytes

/-- What can happen next in either thread, or on the port. -/
inductive Event
  /-- The console thread reads a character. -/
  | getchar (c : Char)
  /-- The second that the timer waits is over. -/
  | timerFired
  | arrived (bytes : Str)
  | readFailed (ec : ErrorCode)
  /-- The thread in `ctx.run()` takes the handler at a place in the queue, at a
  time of day. -/
  | handle (i : ℕ) (now : Str)
  deriving DecidableEq, Repr

/-- One step. -/
def step (program : Program) : Event → Option Program
  | .getchar c =>
      if program.console then
        if c = ctrlC then some { program.stop with console := false }
        else some (program.input c)
      else none
  | .timerFired =>
      if program.waiting then
        some ({ program with waiting := false }.post (.timerExpired .success))
      else none
  | .arrived bytes =>
      -- A read that brings nothing would be the end of the stream, which is an error.
      if program.reading ∧ bytes ≠ [] then
        some ({ program with reading := false }.post (.portRead .success bytes))
      else none
  | .readFailed ec =>
      if program.reading ∧ ec.failed then
        some ({ program with reading := false }.post (.portRead ec []))
      else none
  | .handle i now =>
      program.queue[i]?.map fun handler =>
        { program with queue := program.queue.eraseIdx i }.handle now handler

/-- The service is constructed and its port opened, and both threads start. -/
def opened : Program :=
  readLine (asyncWait
    { serialData := [], stopped := false, charCount := 0, waiting := false, reading := false,
      queue := [.banner], console := true, cout := [], waits := 0, reads := 0 })

/-- `ctx.run()` returns. -/
def OutOfWork (program : Program) : Prop :=
  program.queue = [] ∧ program.waiting = false ∧ program.reading = false

/-- The next handler in the order of the queue. -/
def IsNext (event : Event) : Prop := ∃ now, event = .handle 0 now

/-- No handler is taken out of turn. -/
def InOrder (event : Event) : Prop := ∀ i now, event = .handle i now → i = 0

/-- Nothing is started any more, and handling what is queued ends `ctx.run()`. -/
def StoppedForGood (program : Program) : Prop :=
  ∀ events final, run step program events = some final →
    final.waits = program.waits ∧ final.reads = program.reads ∧
      CanReach step IsNext OutOfWork final

variable {program next : Program}

/-! ### Handlers only add to the queue -/

theorem lineReceived_success (program : Program) :
    program.lineReceived .success =
      { program with
        serialData := (extract program.serialData).rest
        cout := program.cout ++
          (Service.shownBy (extract program.serialData)).toList }.readLine := by
  cases hgood : (extract program.serialData).good with
  | true => simp [lineReceived, Service.shownBy, print, ErrorCode.failed, hgood]
  | false => simp [lineReceived, Service.shownBy, ErrorCode.failed, hgood]

/-- The queue grows at its end and no read is uncounted. -/
structure Extends (program next : Program) : Prop where
  queue : program.queue <+: next.queue
  reads : program.reads ≤ next.reads

theorem Extends.refl (program : Program) : Extends program program :=
  ⟨List.prefix_rfl, Nat.le_refl _⟩

theorem reads_readLine (program : Program) : program.readLine.reads = program.reads + 1 := by
  rw [readLine]
  split_ifs
  · rfl
  · rfl

theorem extends_readLine (program : Program) : Extends program program.readLine := by
  refine ⟨?_, (reads_readLine program).symm ▸ Nat.le_succ _⟩
  rw [readLine]
  split_ifs
  · exact List.prefix_append _ _
  · exact List.prefix_rfl

theorem reads_lineReceived (program : Program) :
    (program.lineReceived .success).reads = program.reads + 1 := by
  rw [lineReceived_success, reads_readLine]

theorem extends_lineReceived (program : Program) (ec : ErrorCode) :
    Extends program (program.lineReceived ec) := by
  rcases ec.failed_or_eq_success with hec | rfl
  · rw [lineReceived, if_pos hec]
    exact .refl program
  · rw [lineReceived_success]
    have hread := extends_readLine { program with
      serialData := (extract program.serialData).rest
      cout := program.cout ++ (Service.shownBy (extract program.serialData)).toList }
    exact ⟨hread.queue, hread.reads⟩

theorem extends_portRead (program : Program) (ec : ErrorCode) (bytes : Str) :
    Extends program (program.portRead ec bytes) := by
  rw [portRead]
  split_ifs
  · have hline := extends_lineReceived
      { program with serialData := program.serialData ++ bytes } ec
    exact ⟨hline.queue, hline.reads⟩
  · exact ⟨List.prefix_rfl, Nat.le_refl _⟩

theorem extends_cancelTimer (program : Program) : Extends program program.cancelTimer := by
  rw [cancelTimer]
  split_ifs
  · exact ⟨List.prefix_append _ _, Nat.le_refl _⟩
  · exact .refl program

theorem extends_timerExpired (program : Program) (ec : ErrorCode) (now : Str) :
    Extends program (program.timerExpired ec now) := by
  rw [timerExpired]
  split_ifs
  · exact .refl program
  · have hcancel := extends_cancelTimer (program.print (rowCol 1 40 ++ clearEol ++ now))
    exact ⟨hcancel.queue, hcancel.reads⟩

theorem extends_handle (program : Program) (now : Str) (handler : Handler) :
    Extends program (program.handle now handler) := by
  cases handler with
  | banner => exact ⟨List.prefix_rfl, Nat.le_refl _⟩
  | input c => exact ⟨List.prefix_rfl, Nat.le_refl _⟩
  | timerExpired ec => exact extends_timerExpired program ec now
  | portRead ec bytes => exact extends_portRead program ec bytes

/-! ### A read that has completed is handled -/

theorem step_handle_zero {handler : Handler} {rest : List Handler} (now : Str)
    (hqueue : program.queue = handler :: rest) :
    step program (.handle 0 now) = some ({ program with queue := rest }.handle now handler) := by
  rw [step, hqueue]
  rfl

theorem inOrder_handle_zero (now : Str) : InOrder (.handle 0 now) :=
  fun _ _ h => (Event.handle.inj h).1.symm

/-- Any handler comes up in time. -/
theorem canReach_handler {handler : Handler} {before after : List Handler}
    (hqueue : program.queue = before ++ handler :: after) :
    CanReach step InOrder
      (fun next => (∃ rest, next.queue = handler :: rest) ∧ program.reads ≤ next.reads)
      program := by
  induction before generalizing program after with
  | nil => exact .here ⟨⟨after, hqueue⟩, Nat.le_refl _⟩
  | cons first before ih =>
    have hstep := step_handle_zero [] hqueue
    have hextends := extends_handle
      { program with queue := before ++ handler :: after } [] first
    obtain ⟨more, hmore⟩ := hextends.queue
    rw [List.append_assoc, List.cons_append] at hmore
    refine .head hstep (inOrder_handle_zero []) ((ih hmore.symm).imp ?_ ?_)
    · exact fun event h => h
    · exact fun final h => ⟨h.1, hextends.reads.trans h.2⟩

theorem step_portRead_of_mem {bytes : Str} {rest : List Handler}
    (hqueue : program.queue = .portRead .success bytes :: rest)
    (h : '\n' ∈ program.serialData ++ bytes) :
    step program (.handle 0 []) =
      some ({ program with
        serialData := program.serialData ++ bytes, queue := rest }.lineReceived .success) := by
  rw [step_handle_zero [] hqueue, handle, portRead, if_pos (Or.inr h)]

theorem step_portRead_of_notMem {bytes : Str} {rest : List Handler}
    (hqueue : program.queue = .portRead .success bytes :: rest)
    (h : '\n' ∉ program.serialData ++ bytes) :
    step program (.handle 0 []) =
      some { program with
        serialData := program.serialData ++ bytes, queue := rest, reading := true } := by
  rw [step_handle_zero [] hqueue, handle, portRead, if_neg (not_or.mpr ⟨nofun, h⟩)]

/-- A read that completed with a newline leads to the next `async_read_until`. -/
theorem canReach_read_of_line {bytes : Str} {rest : List Handler}
    (hqueue : program.queue = .portRead .success bytes :: rest)
    (h : '\n' ∈ program.serialData ++ bytes) :
    CanReach step InOrder (fun next => program.reads < next.reads) program := by
  refine .head (step_portRead_of_mem hqueue h) (inOrder_handle_zero []) (.here ?_)
  rw [reads_lineReceived]
  exact Nat.lt_succ_self program.reads

/-- So does every other that completed: the operation reads on until a newline
arrives. -/
theorem canReach_read {bytes : Str} {before after : List Handler}
    (hqueue : program.queue = before ++ .portRead .success bytes :: after) :
    CanReach step InOrder (fun next => program.reads < next.reads) program := by
  apply (canReach_handler hqueue).trans
  rintro middle ⟨⟨rest, hrest⟩, hreads⟩
  by_cases hline : '\n' ∈ middle.serialData ++ bytes
  · apply (canReach_read_of_line hrest hline).imp
    · exact fun event h => h
    · exact fun next h => Nat.lt_of_le_of_lt hreads h
  · refine .head (step_portRead_of_notMem hrest hline) (inOrder_handle_zero []) ?_
    have harrived : step { middle with
        serialData := middle.serialData ++ bytes, queue := rest, reading := true }
        (.arrived ['\n']) = some { middle with
          serialData := middle.serialData ++ bytes
          queue := rest ++ [.portRead .success ['\n']]
          reading := false } := rfl
    refine .head harrived nofun ?_
    -- The newline is handled when what was queued before it has been.
    apply (canReach_handler rfl).trans
    rintro last ⟨⟨rest', hrest'⟩, hlast⟩
    have hnewline : '\n' ∈ last.serialData ++ ['\n'] :=
      List.mem_append_right _ (List.mem_singleton_self _)
    apply (canReach_read_of_line hrest' hnewline).imp
    · exact fun event h => h
    · exact fun next h => Nat.lt_of_le_of_lt (hreads.trans hlast) h

/-! ### After `stop` -/

/-- What `stop` queues: the completions of what it cancels. -/
def cancelled (program : Program) : List Handler :=
  (if program.waiting then [.timerExpired operationAborted] else []) ++
    if program.reading then [.portRead operationAborted []] else []

theorem stop_eq (program : Program) :
    program.stop = { program with
      stopped := true
      waiting := false
      reading := false
      queue := program.queue ++ program.cancelled } := by
  rw [stop, cancelled]
  cases hwaiting : program.waiting <;> cases hreading : program.reading <;>
    simp [cancelTimer, cancelPort, post, hwaiting, hreading]

theorem not_isRead_of_mem_cancelled {handler : Handler} (h : handler ∈ program.cancelled) :
    ¬ handler.IsRead := by
  rcases List.mem_append.mp h with h | h
  · split_ifs at h
    · obtain rfl := List.mem_singleton.mp h
      exact id
    · exact absurd h List.not_mem_nil
  · split_ifs at h
    · obtain rfl := List.mem_singleton.mp h
      exact nofun
    · exact absurd h List.not_mem_nil

theorem step_ctrlC (h : step program (.getchar ctrlC) = some next) :
    next = { program.stop with console := false } := by
  rw [step, if_pos rfl] at h
  split_ifs at h
  exact (Option.some.inj h).symm

/-- Nothing is pending, and all reads that completed are handled. -/
structure Quiet (program : Program) : Prop where
  stopped : program.stopped = true
  console : program.console = false
  waiting : program.waiting = false
  reading : program.reading = false
  queue : ∀ handler ∈ program.queue, ¬ handler.IsRead

theorem quiet_of_step_ctrlC (h : step program (.getchar ctrlC) = some next)
    (hqueue : ∀ handler ∈ program.queue, ¬ handler.IsRead) : Quiet next := by
  rw [step_ctrlC h, stop_eq]
  refine ⟨rfl, rfl, rfl, rfl, fun handler hmem => ?_⟩
  rcases List.mem_append.mp hmem with hmem | hmem
  · exact hqueue handler hmem
  · exact not_isRead_of_mem_cancelled hmem

/-- Once `m_stop` is set, only a completed read starts anything. -/
theorem handle_of_stopped (program : Program) (hstopped : program.stopped = true)
    {handler : Handler} (hread : ¬ handler.IsRead) (now : Str) :
    ∃ serialData charCount cout,
      program.handle now handler = { program with serialData, charCount, cout } := by
  cases handler with
  | banner => exact ⟨_, _, _, rfl⟩
  | input c => exact ⟨_, _, _, rfl⟩
  | timerExpired ec =>
    -- The timer looks at `m_stop` whatever its error code.
    have hreturn : (ec.failed || program.stopped) = true := by rw [hstopped, Bool.or_true]
    refine ⟨program.serialData, program.charCount, program.cout, ?_⟩
    rw [handle, timerExpired, if_pos hreturn]
  | portRead ec bytes =>
    -- The reader looks at its error code alone.
    have hfailed : ec.failed = true := eq_true_of_ne_false hread
    refine ⟨program.serialData ++ bytes, program.charCount, program.cout, ?_⟩
    rw [handle, portRead, if_pos (Or.inl hfailed), lineReceived, if_pos hfailed]

/-- A quiet program only works its queue off. -/
theorem Quiet.step_cases {event : Event} (h : Quiet program)
    (hstep : step program event = some next) :
    ∃ i < program.queue.length, ∃ serialData charCount cout,
      next = { program with
        queue := program.queue.eraseIdx i, serialData, charCount, cout } := by
  cases event with
  -- Nothing is pending and the console thread is done, so nothing happens outside.
  | getchar c => simp only [step, h.console, Bool.false_eq_true, if_false, reduceCtorEq] at hstep
  | timerFired => simp only [step, h.waiting, Bool.false_eq_true, if_false, reduceCtorEq] at hstep
  | arrived bytes =>
    simp only [step, h.reading, Bool.false_eq_true, false_and, if_false, reduceCtorEq] at hstep
  | readFailed ec =>
    simp only [step, h.reading, Bool.false_eq_true, false_and, if_false, reduceCtorEq] at hstep
  | handle i now =>
    obtain ⟨handler, hhandler, rfl⟩ := Option.map_eq_some_iff.mp hstep
    obtain ⟨hi, -⟩ := List.getElem?_eq_some_iff.mp hhandler
    have hread := h.queue handler (List.mem_of_getElem? hhandler)
    obtain ⟨serialData, charCount, cout, heq⟩ := handle_of_stopped
      { program with queue := program.queue.eraseIdx i } h.stopped hread now
    exact ⟨i, hi, serialData, charCount, cout, heq⟩

theorem Quiet.preserved {event : Event} (h : Quiet program)
    (hstep : step program event = some next) :
    Quiet next ∧ next.waits = program.waits ∧ next.reads = program.reads ∧
      next.queue.length < program.queue.length := by
  obtain ⟨i, hi, serialData, charCount, cout, rfl⟩ := h.step_cases hstep
  refine ⟨⟨h.stopped, h.console, h.waiting, h.reading, fun handler hmem => ?_⟩, rfl, rfl, ?_⟩
  · exact h.queue handler (List.mem_of_mem_eraseIdx hmem)
  · have hlength := List.length_eraseIdx_of_lt hi
    change (program.queue.eraseIdx i).length < program.queue.length
    omega

theorem Quiet.canReach_outOfWork (h : Quiet program) :
    CanReach step IsNext OutOfWork program := by
  refine CanReach.of_measure Quiet (fun program => program.queue.length) ?_ h
  intro state hstate
  cases hqueue : state.queue with
  | nil => exact Or.inl ⟨hqueue, hstate.waiting, hstate.reading⟩
  | cons handler rest =>
    -- No handler posts another, so the queue gets shorter.
    have hstep := step_handle_zero [] hqueue
    obtain ⟨hnext, -, -, hlength⟩ := hstate.preserved hstep
    rw [hqueue] at hlength
    exact Or.inr ⟨.handle 0 [], _, ⟨[], rfl⟩, hstep, hnext, hlength⟩

theorem Quiet.stoppedForGood (h : Quiet program) : StoppedForGood program := by
  intro events final hrun
  have hfinal := run_invariant
    (fun state => Quiet state ∧ state.waits = program.waits ∧ state.reads = program.reads)
    (fun state event next hstate hstep => ?_) hrun ⟨h, rfl, rfl⟩
  · exact ⟨hfinal.2.1, hfinal.2.2, hfinal.1.canReach_outOfWork⟩
  · obtain ⟨hnext, hwaits, hreads, -⟩ := hstate.1.preserved hstep
    exact ⟨hnext, hwaits.trans hstate.2.1, hreads.trans hstate.2.2⟩

/-- **Stopping is final exactly when no completed read is queued.** A timer that
has fired may be. -/
theorem stoppedForGood_iff {before : List Event}
    (hbefore : run step opened before = some program)
    (hstop : run step opened (before ++ [.getchar ctrlC]) = some next) :
    StoppedForGood next ↔ ∀ handler ∈ program.queue, ¬ handler.IsRead := by
  have hstep := (run_concat_eq_some_iff hbefore).mp hstop
  constructor
  · intro hgood handler hmem hread
    obtain ⟨bytes, rfl⟩ := hread.eq_portRead
    obtain ⟨earlier, later, hsplit⟩ := List.append_of_mem hmem
    -- What `stop` cancels is queued behind the read.
    have hqueue : next.queue =
        earlier ++ .portRead .success bytes :: (later ++ program.cancelled) := by
      rw [step_ctrlC hstep, stop_eq]
      simp only [hsplit, List.append_assoc, List.cons_append]
    obtain ⟨events, final, -, hrun, hlt⟩ := canReach_read hqueue
    exact absurd (hgood events final hrun).2.1 (Nat.ne_of_gt hlt)
  · intro hqueue
    exact (quiet_of_step_ctrlC hstep hqueue).stoppedForGood

/-- The wait had completed when `stop` was called, and is not repeated. -/
theorem stoppedForGood_timerFired :
    ∃ next, run step opened ([.timerFired] ++ [.getchar ctrlC]) = some next ∧
      .timerExpired .success ∈ next.queue ∧ StoppedForGood next := by
  refine ⟨_, rfl, by decide, (@stoppedForGood_iff _ _ [.timerFired] rfl rfl).mpr ?_⟩
  intro handler hmem
  rcases List.mem_cons.mp hmem with rfl | hmem
  · exact id
  · obtain rfl := List.mem_singleton.mp hmem
    exact id

/-- A line had arrived when `stop` was called. Its handler reads the next. -/
theorem not_stoppedForGood_line :
    ∃ next, run step opened ([.arrived ['5', '\n']] ++ [.getchar ctrlC]) = some next ∧
      ¬ StoppedForGood next := by
  refine ⟨_, rfl, fun hgood => ?_⟩
  have hreads := (hgood [.handle 0 [], .handle 0 []] _ rfl).2.1
  exact absurd hreads (by decide)

end Program

end BoostProjects.Serial
