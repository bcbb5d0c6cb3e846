import BoostProjects.Cpp.Str
import BoostProjects.Library.Recurring

/-!
# Two timers that go on

`Callback::handler` prints the numbers from 0 to 4 and then ends; the timer of
`chained_asynchronous_tasks` goes on for ever. The first is set by its last deadline, the
second by the clock: so the first makes up for a delay, and its numbers may come all at
once (`message_prints`), while the lines of the second are never closer than a second, and
a delay puts off everything after it (`timerHandler_chains`).

Neither program cancels its timer, but the handlers may be told so, and the second
looks. The clock of the first is the time of day, which can be put back.
-/

namespace BoostProjects.Timer

open Cpp Recurring Transition

/-! ## `Callback::handler` -/

/-- The members of `handler` but for the timer, and what has been printed. -/
structure Handler where
  /-- `m_count` -/
  count : ℕ := 0
  cout : Str := []

/-- A line with a number. -/
def numberLine (n : ℕ) : Str := Nat.toDigits 10 n ++ "\n".toList

/-- `handler::message` -/
def message (second : ℕ) (handler : Handler) : Handler × Again :=
  if handler.count < 5 then
    ({ count := handler.count + 1, cout := handler.cout ++ numberLine handler.count },
      .deadline second)
  else (handler, .never)

/-- The line of the destructor. -/
def lastCount (n : ℕ) : Str := "The last count : ".toList ++ numberLine n

/-- `testCallback`: the constructor, the loop and the destructor -/
def testCallback (second start : ℕ) : Program Handler where
  started := {}
  first := start + second
  call handler _ := message second handler
  finish handler := { handler with cout := handler.cout ++ lastCount handler.count }

/-- The first lines. -/
def numbers (n : ℕ) : Str := (List.range n).flatMap numberLine

theorem numbers_succ (n : ℕ) : numbers (n + 1) = numbers n ++ numberLine n := by
  rw [numbers, List.range_succ, List.flatMap_append, List.flatMap_singleton, numbers]

section Callback

variable {second start : ℕ} {t next : Timer Handler} {event : Event}

theorem testCallback_keepsTo : (testCallback second start).KeepsTo second := by
  intro handler ok
  by_cases hlt : handler.count < 5
  · exact .inl (by simp [testCallback, message, hlt])
  · exact .inr (by simp [testCallback, message, hlt])

/-- The handler's count goes with its calls. -/
structure Counts (second : ℕ) (t : Timer Handler) : Prop where
  count : t.state.count = min 5 t.calls.length
  cout : t.state.cout = numbers t.state.count ++ if t.phase = .returned then lastCount 5 else []
  waiting : ∀ deadline, t.phase = .waiting deadline → t.calls.length ≤ 5
  queued : ∀ deadline ok, t.phase = .queued deadline ok → t.calls.length ≤ 5
  handling : ∀ deadline again, t.phase = .handling deadline again →
    again = .deadline second ∧ t.calls.length ≤ 5 ∨ again = .never ∧ t.calls.length = 6
  isOver : t.phase = .idle ∨ t.phase = .returned → t.calls.length = 6

theorem counts_started (now : ℕ) : Counts second (.started (testCallback second start) now) where
  count := rfl
  cout := rfl
  waiting _ _ := Nat.zero_le 5
  queued _ _ h := by cases h
  handling _ _ h := by cases h
  isOver h := by
    obtain h | h := h
    · cases h
    · cases h

theorem message_of_lt {handler : Handler} (h : handler.count < 5) :
    message second handler =
      (⟨handler.count + 1, handler.cout ++ numberLine handler.count⟩, .deadline second) :=
  if_pos h

theorem message_of_ge {handler : Handler} (h : 5 ≤ handler.count) :
    message second handler = (handler, .never) :=
  if_neg (Nat.not_lt.mpr h)

/-- Nothing is printed when a wait ends. -/
theorem Counts.ended {deadline : ℕ} {ok : Bool} (h : Counts second t)
    (hphase : t.phase = .waiting deadline) : Counts second (t.ended deadline ok) := by
  have hcout := h.cout
  rw [hphase, if_neg (by simp)] at hcout
  refine ⟨h.count, ?_, fun _ hnext => (by cases hnext), fun _ _ _ => h.waiting _ hphase,
    fun _ _ hnext => (by cases hnext), fun hnext => ?_⟩
  · rw [Timer.ended, if_neg (by simp)]
    exact hcout
  · obtain hnext | hnext := hnext
    · cases hnext
    · cases hnext

theorem Counts.called {deadline : ℕ} {ok : Bool} (h : Counts second t)
    (hphase : t.phase = .queued deadline ok) :
    Counts second (t.called (testCallback second start) deadline ok) := by
  have hcount := h.count
  have hcout := h.cout
  have hfive := h.queued _ _ hphase
  rw [hphase, if_neg (by simp), List.append_nil] at hcout
  obtain hlt | hge := Nat.lt_or_ge t.state.count 5
  · -- A line is printed, and the timer is set again.
    have hcall : (testCallback second start).call t.state ok = _ := message_of_lt hlt
    refine ⟨?_, ?_, fun _ hnext => (by cases hnext), fun _ _ hnext => (by cases hnext),
      fun _ _ hnext => ?_, fun hnext => absurd hnext Timer.not_ended_called⟩
    · rw [Timer.called_state, hcall, Timer.length_called]
      change t.state.count + 1 = min 5 (t.calls.length + 1)
      omega
    · rw [Timer.called_phase, if_neg (by simp), List.append_nil, Timer.called_state, hcall, hcout]
      exact (numbers_succ _).symm
    · obtain ⟨-, rfl⟩ := Phase.handling.inj hnext
      refine .inl ⟨congrArg Prod.snd hcall, ?_⟩
      rw [Timer.length_called]
      omega
  · -- It is the sixth call, and the timer is not set any more.
    have hcall : (testCallback second start).call t.state ok = _ := message_of_ge hge
    refine ⟨?_, ?_, fun _ hnext => (by cases hnext), fun _ _ hnext => (by cases hnext),
      fun _ _ hnext => ?_, fun hnext => absurd hnext Timer.not_ended_called⟩
    · rw [Timer.called_state, hcall, Timer.length_called]
      change t.state.count = min 5 (t.calls.length + 1)
      omega
    · rw [Timer.called_phase, if_neg (by simp), List.append_nil, Timer.called_state, hcall]
      exact hcout
    · obtain ⟨-, rfl⟩ := Phase.handling.inj hnext
      refine .inr ⟨congrArg Prod.snd hcall, ?_⟩
      rw [Timer.length_called]
      omega

theorem Counts.step (h : Counts second t)
    (hstep : t.step (testCallback second start) event = some next) : Counts second next := by
  cases Timer.moves_of_step hstep with
  | clock now => exact ⟨h.count, h.cout, h.waiting, h.queued, h.handling, h.isOver⟩
  | expired deadline hphase hdue => exact h.ended hphase
  | cancelled deadline hphase => exact h.ended hphase
  | called deadline ok hphase => exact h.called hphase
  | returned hphase =>
    -- The destructor writes what the six calls have counted.
    have hsix := h.isOver (.inl hphase)
    have hcount := h.count
    have hcout := h.cout
    rw [hphase, if_neg (by simp), List.append_nil] at hcout
    refine ⟨hcount, ?_, fun _ hnext => (by cases hnext), fun _ _ hnext => (by cases hnext),
      fun _ _ hnext => (by cases hnext), fun _ => hsix⟩
    rw [hsix] at hcount
    simp only [testCallback, if_true]
    rw [hcout, hcount]
    rfl
  | set deadline again hphase =>
    have hcout := h.cout
    rw [hphase, if_neg (by simp), List.append_nil] at hcout
    obtain ⟨rfl, hle⟩ | ⟨rfl, hsix⟩ := h.handling _ _ hphase
    · refine ⟨h.count, ?_, fun _ _ => hle, fun _ _ hnext => (by cases hnext),
        fun _ _ hnext => (by cases hnext), fun hnext => ?_⟩
      · rw [if_neg (by simp [Again.next]), List.append_nil]
        exact hcout
      · simp [Again.next] at hnext
    · refine ⟨h.count, ?_, fun _ hnext => (by cases hnext), fun _ _ hnext => (by cases hnext),
        fun _ _ hnext => (by cases hnext), fun _ => hsix⟩
      rw [if_neg (by simp [Again.next]), List.append_nil]
      exact hcout

theorem Counts.length_le (h : Counts second t) : t.calls.length ≤ 6 := by
  cases hphase : t.phase with
  | waiting deadline => exact (h.waiting _ hphase).trans (Nat.le_succ 5)
  | queued deadline ok => exact (h.queued _ _ hphase).trans (Nat.le_succ 5)
  | handling deadline again =>
    obtain ⟨-, hle⟩ | ⟨-, hsix⟩ := h.handling _ _ hphase
    · exact hle.trans (Nat.le_succ 5)
    · exact hsix.le
  | idle => exact (h.isOver (.inl hphase)).le
  | returned => exact (h.isOver (.inr hphase)).le

/-- What is known of `testCallback` at some point of a run. -/
structure Prints (second start : ℕ) (t : Timer Handler) : Prop where
  cout : t.state.cout =
    numbers (min 5 t.calls.length) ++ if t.phase = .returned then lastCount 5 else []
  calls : t.calls.length ≤ 6
  ended : t.phase = .idle ∨ t.phase = .returned → t.calls.length = 6
  deadline : ∀ deadline, (t.phase = .waiting deadline ∨ ∃ ok, t.phase = .queued deadline ok) →
    deadline = start + second * (t.calls.length + 1)
  /-- A wait that has not been cancelled has ended when the clock said so. -/
  due : ∀ i now, t.ends[i]? = some (now, true) → start + second * (i + 1) ≤ now
  /-- Each call is that of its wait. -/
  inOrder : t.calls.map Prod.snd <+: t.ends.map Prod.snd
  /-- All that is late is made up for before the clock goes on. -/
  caughtUp : 0 < second → CanReach (Timer.step (testCallback second start)) Event.IsPrompt
    (fun final => final.now = t.now ∧
      (final.phase = .returned ∨ t.now < start + second * (final.calls.length + 1))) t

theorem deadline_eq (n : ℕ) :
    start + second * (n + 1) = (testCallback second start).first + second * n := by
  change _ = start + second + second * n
  rw [Nat.mul_succ]
  omega

theorem prints_of_invariants (hregular : Regular (testCallback second start) second t)
    (hcounts : Counts second t) : Prints second start t := by
  refine ⟨hcounts.count ▸ hcounts.cout, hcounts.length_le, hcounts.isOver, ?_, ?_, ?_,
    fun hsecond => ?_⟩
  · rintro deadline (hphase | ⟨ok, hphase⟩)
    · rw [deadline_eq]
      exact hregular.waiting _ hphase
    · rw [deadline_eq]
      exact hregular.queued _ _ hphase
  · intro i now hend
    rw [deadline_eq]
    exact hregular.due i now hend
  · rw [hregular.inOrder]
    exact List.prefix_append _ _
  · refine (hregular.canReach_caughtUp testCallback_keepsTo hsecond).imp (fun _ hevent => hevent) ?_
    rintro final ⟨hcaught, hnow, hfinal⟩
    refine ⟨hnow, hcaught.imp id ?_⟩
    rintro ⟨deadline, hphase, hlt⟩
    rw [deadline_eq, ← hfinal.waiting _ hphase, ← hnow]
    exact hlt

/-- **The numbers come by their deadlines.** In every run of `testCallback`, whatever the
clock does and whether or not the timer is cancelled: the numbers are printed in order,
the last line after the sixth call and not before; the deadlines are a second apart, and
no wait for one ends before the clock has come to it unless the timer has been cancelled;
and from everywhere the handler can make up for what is late while the clock stands still.
If the clock does not go back, no number is printed before its second either: else it can
go back while the handler is in the queue. -/
theorem message_prints (second start : ℕ) (events : List Event) (t : Timer Handler)
    (hrun : run (Timer.step (testCallback second start))
      (.started (testCallback second start) start) events = some t) :
    Prints second start t ∧
      (Obeys (Timer.step (testCallback second start)) Timer.Allows
        (.started (testCallback second start) start) events →
          ∀ i now, t.calls[i]? = some (now, true) → start + second * (i + 1) ≤ now) := by
  refine ⟨?_, fun hclock i now hcall => ?_⟩
  · have hregular : Regular (testCallback second start) second t :=
      run_invariant _ (fun _ _ _ h hstep => h.step testCallback_keepsTo hstep) hrun
        (regular_started start)
    have hcounts : Counts second t :=
      run_invariant _ (fun _ _ _ h hstep => h.step hstep) hrun (counts_started start)
    exact prints_of_invariants hregular hcounts
  · have honTime : OnTime (testCallback second start) second t :=
      run_invariant_of_obeys _
        (fun _ _ _ h hallows hstep => h.step testCallback_keepsTo hallows hstep) hrun hclock
        (onTime_started start)
    rw [deadline_eq]
    exact honTime.due i now hcall

/-- The clock is read late, and with the third number the fourth is due; while its handler
is queued the clock is put back. -/
def lateCalls : List Event :=
  [.clock 10, .expired, .called, .set, .clock 21, .expired, .called, .set, .clock 44, .expired,
    .called, .set, .expired, .clock 30, .called]

theorem message_prints_late :
    ∃ t, run (Timer.step (testCallback 10 0)) (.started (testCallback 10 0) 0) lateCalls = some t ∧
      t.state.cout = "0\n1\n2\n3\n".toList ∧ t.calls.getLast? = some (30, true) ∧ Prints 10 0 t :=
  ⟨_, rfl, by decide, by decide, (message_prints 10 0 lateCalls _ rfl).1⟩

end Callback

/-! ## `chained_asynchronous_tasks` -/

/-- What has been printed. -/
structure Chained where
  cout : Str := []
  cerr : Str := []

/-- The lines begin with the time, which is left out. -/
def expiredLine : Str := "Handler: Timer expired.\n".toList

/-- The line for an error. -/
def errorLine (message : Str) : Str := "Handler error: ".toList ++ message ++ "\n".toList

/-- `timer_handler`; `message` is that of the error that a cancelled wait ends with. -/
def timerHandler (message : Str) (second : ℕ) (chained : Chained) (ok : Bool) : Chained × Again :=
  if ok then ({ chained with cout := chained.cout ++ expiredLine }, .clock second)
  else ({ chained with cerr := chained.cerr ++ errorLine message }, .never)

/-- `Timer::chained_asynchronous_tasks`, and `Chained_Asynchronous_Tasks::run` -/
def chainedAsynchronousTasks (message : Str) (second start : ℕ) : Program Chained where
  started := {}
  first := start + 3 * second
  call := timerHandler message second
  finish := id

section Chained

variable {message : Str} {second start : ℕ} {t next : Timer Chained} {event : Event}

theorem chained_keepsApart : (chainedAsynchronousTasks message second start).KeepsApart second :=
  fun _ => ⟨rfl, rfl⟩

/-- The calls so far, and whether the timer is set. -/
structure Calls (message : Str) (second : ℕ) (t : Timer Chained) : Prop where
  cout : t.state.cout = (List.replicate (t.calls.countP (·.2)) expiredLine).flatten
  cerr : t.state.cerr = (List.replicate (t.calls.countP (!·.2)) (errorLine message)).flatten
  waiting : ∀ deadline, t.phase = .waiting deadline → ∀ call ∈ t.calls, call.2 = true
  queued : ∀ deadline ok, t.phase = .queued deadline ok → ∀ call ∈ t.calls, call.2 = true
  handling : ∀ deadline again, t.phase = .handling deadline again →
    again = .clock second ∧ (∀ call ∈ t.calls, call.2 = true) ∨
      again = .never ∧
        ∃ before now, t.calls = before ++ [(now, false)] ∧ ∀ call ∈ before, call.2 = true
  isOver : t.phase = .idle ∨ t.phase = .returned →
    ∃ before now, t.calls = before ++ [(now, false)] ∧ ∀ call ∈ before, call.2 = true

theorem calls_started (now : ℕ) :
    Calls message second (.started (chainedAsynchronousTasks message second start) now) where
  cout := rfl
  cerr := rfl
  waiting _ _ _ hcall := by cases hcall
  queued _ _ h := by cases h
  handling _ _ h := by cases h
  isOver h := by
    obtain h | h := h
    · cases h
    · cases h

theorem flatten_replicate_succ (n : ℕ) (line : Str) :
    (List.replicate (n + 1) line).flatten = (List.replicate n line).flatten ++ line := by
  rw [List.replicate_succ', List.flatten_append, List.flatten_singleton]

/-- Nothing is printed when a wait ends. -/
theorem Calls.ended {deadline : ℕ} {ok : Bool} (h : Calls message second t)
    (hphase : t.phase = .waiting deadline) : Calls message second (t.ended deadline ok) := by
  refine ⟨h.cout, h.cerr, fun _ hnext => (by cases hnext), fun _ _ _ => h.waiting _ hphase,
    fun _ _ hnext => (by cases hnext), fun hnext => ?_⟩
  obtain hnext | hnext := hnext
  · cases hnext
  · cases hnext

theorem Calls.called {deadline : ℕ} {ok : Bool} (h : Calls message second t)
    (hphase : t.phase = .queued deadline ok) :
    Calls message second
      (t.called (chainedAsynchronousTasks message second start) deadline ok) := by
  have hqueued := h.queued _ _ hphase
  refine ⟨?_, ?_, fun _ hnext => (by cases hnext), fun _ _ hnext => (by cases hnext),
    fun _ _ hnext => ?_, fun hnext => absurd hnext Timer.not_ended_called⟩
  · rw [Timer.called_calls, List.countP_append, Timer.called_state]
    cases ok with
    | true => exact (congrArg (· ++ _) h.cout).trans (flatten_replicate_succ _ _).symm
    | false => exact h.cout
  · rw [Timer.called_calls, List.countP_append, Timer.called_state]
    cases ok with
    | true => exact h.cerr
    | false => exact (congrArg (· ++ _) h.cerr).trans (flatten_replicate_succ _ _).symm
  · obtain ⟨-, rfl⟩ := Phase.handling.inj hnext
    cases ok with
    | true =>
      refine .inl ⟨rfl, fun call hcall => ?_⟩
      obtain hbefore | rfl := Timer.mem_called.mp hcall
      · exact hqueued call hbefore
      · rfl
    | false => exact .inr ⟨rfl, t.calls, t.now, rfl, hqueued⟩

theorem Calls.step (h : Calls message second t)
    (hstep : t.step (chainedAsynchronousTasks message second start) event = some next) :
    Calls message second next := by
  cases Timer.moves_of_step hstep with
  | clock now => exact ⟨h.cout, h.cerr, h.waiting, h.queued, h.handling, h.isOver⟩
  | expired deadline hphase hdue => exact h.ended hphase
  | cancelled deadline hphase => exact h.ended hphase
  | called deadline ok hphase => exact h.called hphase
  | returned hphase =>
    exact ⟨h.cout, h.cerr, fun _ hnext => (by cases hnext), fun _ _ hnext => (by cases hnext),
      fun _ _ hnext => (by cases hnext), fun _ => h.isOver (.inl hphase)⟩
  | set deadline again hphase =>
    obtain ⟨rfl, hall⟩ | ⟨rfl, hlast⟩ := h.handling _ _ hphase
    · refine ⟨h.cout, h.cerr, fun _ _ => hall, fun _ _ hnext => (by cases hnext),
        fun _ _ hnext => (by cases hnext), fun hnext => ?_⟩
      simp [Again.next] at hnext
    · exact ⟨h.cout, h.cerr, fun _ hnext => (by cases hnext), fun _ _ hnext => (by cases hnext),
        fun _ _ hnext => (by cases hnext), fun _ => hlast⟩

/-- The clock goes on from here, and nobody cancels the timer. -/
def Expires (t : Timer Chained) (event : Event) : Prop := t.Allows event ∧ event ≠ .cancelled

/-- What is known of the chained tasks at some point of a run. -/
structure Chains (message : Str) (second start : ℕ) (t : Timer Chained) : Prop where
  cout : t.state.cout = (List.replicate (t.calls.countP (·.2)) expiredLine).flatten
  cerr : t.state.cerr = (List.replicate (t.calls.countP (!·.2)) (errorLine message)).flatten
  /-- The loop ends only when the timer has been cancelled, and only then an error is printed. -/
  ended : t.phase = .idle ∨ t.phase = .returned → ∃ call ∈ t.calls, call.2 = false
  last : ∀ before call, t.calls = before ++ [call] → ∀ earlier ∈ before, earlier.2 = true
  apart : t.calls.Pairwise fun call later => later.2 = true → call.1 + second ≤ later.1
  due : ∀ i now, t.calls[i]? = some (now, true) → start + second * (i + 3) ≤ now
  /-- Another line can always be printed, unless the timer has been cancelled. -/
  more : (∀ wait ∈ t.ends, wait.2 = true) →
    CanReach (Timer.step (chainedAsynchronousTasks message second start)) (Expires t)
      (fun final => final.state.cout = t.state.cout ++ expiredLine) t

theorem Calls.last (h : Calls message second t) {before : List (ℕ × Bool)} {call : ℕ × Bool}
    (hcalls : t.calls = before ++ [call]) : ∀ earlier ∈ before, earlier.2 = true := by
  have hall : (∀ call ∈ t.calls, call.2 = true) → ∀ earlier ∈ before, earlier.2 = true :=
    fun hall earlier hearlier => hall earlier (hcalls ▸ List.mem_append_left _ hearlier)
  have hlast : (∃ before' now, t.calls = before' ++ [(now, false)] ∧
      ∀ call ∈ before', call.2 = true) → ∀ earlier ∈ before, earlier.2 = true := by
    rintro ⟨before', now, hcalls', hbefore⟩
    obtain ⟨rfl, -⟩ := List.append_inj' (hcalls.symm.trans hcalls') rfl
    exact hbefore
  cases hphase : t.phase with
  | waiting deadline => exact hall (h.waiting _ hphase)
  | queued deadline ok => exact hall (h.queued _ _ hphase)
  | handling deadline again =>
    obtain ⟨-, hok⟩ | ⟨-, hended⟩ := h.handling _ _ hphase
    · exact hall hok
    · exact hlast hended
  | idle => exact hlast (h.isOver (.inl hphase))
  | returned => exact hlast (h.isOver (.inr hphase))

/-- The handler of a timer that has expired prints a line. -/
theorem canReach_called {deadline : ℕ} (hphase : t.phase = .queued deadline true) :
    CanReach (Timer.step (chainedAsynchronousTasks message second start)) (Expires t)
      (fun final => final.state.cout = t.state.cout ++ expiredLine) t := by
  have hcalled : t.step (chainedAsynchronousTasks message second start) .called =
      some (t.called (chainedAsynchronousTasks message second start) deadline true) := by
    simp only [Timer.step, hphase]
  exact .head hcalled ⟨trivial, fun heq => by cases heq⟩ (.here rfl)

/-- The clock goes on until the timer expires. -/
theorem canReach_expired {deadline : ℕ} (hphase : t.phase = .waiting deadline) :
    CanReach (Timer.step (chainedAsynchronousTasks message second start)) (Expires t)
      (fun final => final.state.cout = t.state.cout ++ expiredLine) t := by
  have hclock : t.step (chainedAsynchronousTasks message second start)
      (.clock (max t.now deadline)) = some { t with now := max t.now deadline } := rfl
  -- The clock may be past the deadline already.
  refine .head hclock ⟨Nat.le_max_left _ _, fun heq => by cases heq⟩ ?_
  have hexpired : Timer.step (chainedAsynchronousTasks message second start)
      { t with now := max t.now deadline } .expired =
        some (Timer.ended deadline true { t with now := max t.now deadline }) := by
    simp only [Timer.step, hphase, if_pos (Nat.le_max_right t.now deadline)]
  refine .head hexpired ⟨trivial, fun heq => by cases heq⟩ ?_
  have hthen := @canReach_called message second start
    (Timer.ended deadline true { t with now := max t.now deadline }) deadline rfl
  refine hthen.imp (fun event hevent => ⟨?_, hevent.2⟩) fun _ hcout => hcout
  cases event with
  | clock now => exact (Nat.le_max_left t.now deadline).trans hevent.1
  | expired | cancelled | called | set | returned => trivial

theorem Calls.more (h : Calls message second t) (hinOrder : t.InOrder)
    (hall : ∀ wait ∈ t.ends, wait.2 = true) :
    CanReach (Timer.step (chainedAsynchronousTasks message second start)) (Expires t)
      (fun final => final.state.cout = t.state.cout ++ expiredLine) t := by
  have hflags : ∀ ok ∈ t.calls.map Prod.snd ++ t.phase.pending, ok = true := by
    rw [← hinOrder]
    exact List.forall_mem_map.mpr hall
  -- No handler has been told of an error, nor will the one that is queued.
  have hnot : ¬ ∃ before now, t.calls = before ++ [(now, false)] ∧
      ∀ call ∈ before, call.2 = true := by
    rintro ⟨before, now, hcalls, -⟩
    cases hflags false (List.mem_append_left _ (by simp [hcalls]))
  cases hphase : t.phase with
  | waiting deadline => exact canReach_expired hphase
  | queued deadline ok =>
    obtain rfl : ok = true := hflags ok (by simp [hphase, Phase.pending])
    exact canReach_called hphase
  | handling deadline again =>
    obtain ⟨rfl, -⟩ | ⟨-, hended⟩ := h.handling _ _ hphase
    · -- The handler sets the timer first.
      have hset : t.step (chainedAsynchronousTasks message second start) .set =
          some { t with phase := .waiting (t.now + second) } := by
        simp only [Timer.step, hphase]
        rfl
      have hthen := @canReach_expired message second start
        { t with phase := .waiting (t.now + second) } _ rfl
      exact .head hset ⟨trivial, fun heq => by cases heq⟩
        (hthen.imp (fun _ hevent => hevent) fun _ hcout => hcout)
    · exact absurd hended hnot
  | idle => exact absurd (h.isOver (.inl hphase)) hnot
  | returned => exact absurd (h.isOver (.inr hphase)) hnot

/-- **The lines come a second apart.** In every run of the chained tasks whose clock does
not go back: a line is printed for each time that the timer has expired; the first not
before three seconds, and each at least a second after the one before, so that a delay is
never made up for; and the loop goes on for ever, unless the timer is cancelled. -/
theorem timerHandler_chains (message : Str) (second start : ℕ) (events : List Event)
    (t : Timer Chained)
    (hclock : Obeys (Timer.step (chainedAsynchronousTasks message second start)) Timer.Allows
      (.started (chainedAsynchronousTasks message second start) start) events)
    (hrun : run (Timer.step (chainedAsynchronousTasks message second start))
      (.started (chainedAsynchronousTasks message second start) start) events = some t) :
    Chains message second start t := by
  have hspaced : Spaced (chainedAsynchronousTasks message second start) second t :=
    run_invariant_of_obeys _ (fun _ _ _ h hallows hstep => h.step chained_keepsApart hallows hstep)
      hrun hclock (spaced_started start)
  have hcalls : Calls message second t :=
    run_invariant _ (fun _ _ _ h hstep => h.step hstep) hrun (calls_started start)
  have hinOrder : t.InOrder :=
    run_invariant _ (fun _ _ _ h hstep => h.step hstep) hrun (Timer.inOrder_started start)
  refine ⟨hcalls.cout, hcalls.cerr, fun hended => ?_, fun _ _ => hcalls.last, hspaced.apart, ?_,
    hcalls.more hinOrder⟩
  · obtain ⟨before, now, hlast, -⟩ := hcalls.isOver hended
    exact ⟨(now, false), hlast ▸ List.mem_append_right _ (List.mem_singleton_self _), rfl⟩
  · intro i now hcall
    have hdue := hspaced.due i now hcall
    have hfirst : (chainedAsynchronousTasks message second start).first = start + 3 * second := rfl
    rw [hfirst] at hdue
    rw [Nat.mul_add]
    omega

/-- The second line is late, and so is the third. -/
def lateLines : List Event :=
  [.clock 30, .expired, .called, .set, .clock 65, .expired, .called, .set, .clock 75, .expired,
    .called]

theorem timerHandler_chains_late :
    ∃ t, run (Timer.step (chainedAsynchronousTasks "canceled".toList 10 0))
        (.started (chainedAsynchronousTasks "canceled".toList 10 0) 0) lateLines = some t ∧
      t.calls = [(30, true), (65, true), (75, true)] ∧ Chains "canceled".toList 10 0 t :=
  ⟨_, rfl, rfl, timerHandler_chains _ _ _ lateLines _
    (by simp [lateLines, Obeys, Timer.Allows, Timer.step, Timer.started, Timer.ended, Timer.called,
      chainedAsynchronousTasks, timerHandler, Again.next]) rfl⟩

end Chained

end BoostProjects.Timer
