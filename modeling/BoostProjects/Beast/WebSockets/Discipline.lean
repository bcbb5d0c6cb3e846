import BoostProjects.Beast.WebSockets.Session
import BoostProjects.Library.Transition

/-!
# What the WebSocket session does after a failure

Four of the five callbacks return when they are given an error. `on_read` returns
on `websocket::error::closed`, but after any other error it reports the failure
and goes on to the echo.

Whether a run is disciplined is read off its history. While it is, the history
holds no failure as long as an operation is in flight, so each callback either
goes on from a clean history or ends it.
-/

namespace BoostProjects.Beast.WebSockets

open Boost Cpp Transition

/-! ## Histories -/

/-- The entry is a line on the standard error stream. -/
def Entry.isReport : Entry → Bool
  | .reported _ _ => true
  | _ => false

/-- Nothing is started after an operation has failed, and at most one failure is
reported. -/
structure Disciplined (history : List Entry) : Prop where
  stops : ∀ before op errorCode after, history = before ++ .completed op errorCode :: after →
    errorCode.failed → ∀ op', Entry.started op' ∉ after
  once : history.countP Entry.isReport ≤ 1

/-- Nothing has failed and nothing has been reported. -/
structure Unfailed (history : List Entry) : Prop where
  succeeded : ∀ op errorCode, .completed op errorCode ∈ history → errorCode.failed = false
  silent : history.countP Entry.isReport = 0

section Histories

variable {history tail : List Entry} {op op' : Operation} {errorCode : StreamCode}

theorem Unfailed.disciplined (h : Unfailed history) : Disciplined history := by
  refine ⟨?_, by rw [h.silent]; exact Nat.zero_le 1⟩
  rintro before op errorCode after rfl hfailed
  have hcode := h.succeeded op errorCode (by simp)
  rw [hcode] at hfailed
  exact nomatch hfailed

/-- A success is followed by the next operation. -/
theorem Unfailed.append_success (h : Unfailed history) (hcode : errorCode.failed = false) :
    Unfailed (history ++ [.completed op errorCode, .started op']) := by
  refine ⟨fun op'' code hmem => ?_, ?_⟩
  · simp only [List.mem_append, List.mem_cons, List.not_mem_nil, or_false, Entry.completed.injEq,
      reduceCtorEq] at hmem
    rcases hmem with hold | ⟨-, rfl⟩
    · exact h.succeeded op'' code hold
    · exact hcode
  · simp [List.countP_append, h.silent, Entry.isReport]

/-- A failure after which nothing is started. -/
theorem Unfailed.disciplined_append (h : Unfailed history) (hstarts : ∀ op', .started op' ∉ tail)
    (honce : tail.countP Entry.isReport ≤ 1) :
    Disciplined (history ++ .completed op errorCode :: tail) := by
  constructor
  · intro before op' code after hsplit hfailed op'' hstarted
    rcases List.append_eq_append_iff.mp hsplit with ⟨middle, rfl, hmiddle⟩ | ⟨middle, rfl, hmiddle⟩
    · -- The failure is this one or comes after it.
      have hmem : Entry.started op'' ∈ Entry.completed op errorCode :: tail := by
        rw [hmiddle]
        exact List.mem_append_right middle (List.mem_cons_of_mem _ hstarted)
      rcases List.mem_cons.mp hmem with heq | htail
      · exact nomatch heq
      · exact hstarts op'' htail
    · cases middle with
      | nil =>
        obtain ⟨-, rfl⟩ := List.cons.inj hmiddle
        exact hstarts op'' hstarted
      | cons first middle =>
        obtain ⟨rfl, -⟩ := List.cons.inj hmiddle
        have hcode := h.succeeded op' code (by simp)
        rw [hcode] at hfailed
        exact nomatch hfailed
  · rw [List.countP_append, h.silent, Nat.zero_add]
    simpa [Entry.isReport] using honce

/-- A failure after which something is started. -/
theorem not_disciplined_append (hfailed : errorCode.failed = true) (hstarts : .started op' ∈ tail) :
    ¬ Disciplined (history ++ .completed op errorCode :: tail) :=
  fun h => h.stops history op errorCode tail rfl hfailed op' hstarts

end Histories

namespace Session

/-! ## What the handlers add to the history -/

section Handle

variable {session : Session} {outcome : Outcome} {pending : Pending}

/-- After a success the next operation is started. -/
theorem handle_of_success (h : outcome.errorCode = .success) (pending : Pending) :
    ∃ next, (session.handle outcome pending).inFlight = session.inFlight ++ [next] ∧
      (session.handle outcome pending).history =
        session.history ++ [.started next.operation] := by
  obtain ⟨errorCode, message⟩ := outcome
  obtain rfl := h
  cases pending with
  | handshake => exact ⟨.accept, rfl, rfl⟩
  | accept => exact ⟨.read, rfl, rfl⟩
  | read => exact ⟨.write _, rfl, rfl⟩
  | write reply => exact ⟨.read, rfl, rfl⟩

/-- After an error all callbacks but `on_read` report it and stop. -/
theorem handle_of_failed (h : outcome.errorCode.failed = true) (hpending : pending ≠ .read) :
    ∃ what, (session.handle outcome pending).inFlight = session.inFlight ∧
      (session.handle outcome pending).history =
        session.history ++ [.reported what outcome.errorCode] := by
  cases pending with
  | handshake =>
    rw [handle, onHandshake, if_pos h]
    exact ⟨_, rfl, rfl⟩
  | accept =>
    rw [handle, onAccept, if_pos h]
    exact ⟨_, rfl, rfl⟩
  | read => exact absurd rfl hpending
  | write reply =>
    rw [handle, onWrite, if_pos h, deliver, if_pos h]
    exact ⟨_, rfl, rfl⟩

theorem handle_read_of_closed (h : outcome.errorCode = .closed) :
    (session.handle outcome .read).inFlight = session.inFlight ∧
      (session.handle outcome .read).history = session.history := by
  rw [handle, onRead, if_pos h]
  exact ⟨rfl, rfl⟩

/-- After any other error `on_read` reports it and starts a write. -/
theorem handle_read_of_failed (h : outcome.errorCode.failed = true)
    (hclosed : outcome.errorCode ≠ .closed) :
    ∃ reply, (session.handle outcome .read).inFlight = session.inFlight ++ [.write reply] ∧
      (session.handle outcome .read).history =
        session.history ++ [.reported "read".toList outcome.errorCode] ++ [.started .write] := by
  rw [handle, onRead, if_neg hclosed, if_pos h]
  exact ⟨_, rfl, rfl⟩

end Handle

/-! ## One step -/

/-- A read handler is given no error but `websocket::error::closed`. -/
def ReadsSoundly (session : Session) : Event → Prop
  | .complete outcome => session.inFlight.head? = some .read → outcome.errorCode.failed →
      outcome.errorCode = .closed
  | _ => True

instance (session : Session) : ∀ event, Decidable (session.ReadsSoundly event)
  | .complete _ => @instDecidableForall _ _ inferInstance (@instDecidableForall _ _ _ _)
  | .transmit _ | .returns => isTrue trivial

/-- An operation in flight was the last thing in the history, and a failure that
was reported is there too. -/
structure Recorded (session : Session) : Prop where
  last : session.inFlight = [] ∨ ∃ before pending, session.inFlight = [pending] ∧
    session.history = before ++ [.started pending.operation]
  blamed : (∀ op errorCode, .completed op errorCode ∈ session.history →
    errorCode.failed = false) → session.history.countP Entry.isReport = 0

theorem Recorded.started : Recorded Session.started :=
  ⟨Or.inr ⟨[], .handshake, rfl, rfl⟩, fun _ => rfl⟩

/-- While an operation of a disciplined session is in flight, nothing has
failed. -/
theorem Recorded.unfailed {session : Session} (h : session.Recorded)
    (hdisciplined : Disciplined session.history) (hinFlight : session.inFlight ≠ []) :
    Unfailed session.history := by
  obtain ⟨before, pending, -, hhistory⟩ := h.last.resolve_left hinFlight
  have hsucceeded : ∀ op errorCode, .completed op errorCode ∈ session.history →
      errorCode.failed = false := by
    intro op errorCode hmem
    rw [hhistory, List.mem_append, List.mem_singleton] at hmem
    obtain ⟨first, second, rfl⟩ := List.append_of_mem (hmem.resolve_right nofun)
    rw [Bool.eq_false_iff]
    intro hfailed
    refine hdisciplined.stops first op errorCode (second ++ [.started pending.operation]) ?_
      hfailed pending.operation (by simp)
    rw [hhistory, List.append_assoc, List.cons_append]
  exact ⟨hsucceeded, h.blamed hsucceeded⟩

/-- How an operation in flight can end: with a success, after which the next is
started; with an error, after which none is; or with the error of a read after
which a write is started. -/
inductive Ends (session next : Session) (pending : Pending) (errorCode : StreamCode) : Prop
  | goesOn (later : Pending) (success : errorCode = .success) (inFlight : next.inFlight = [later])
      (history : next.history = session.history ++
        [.completed pending.operation errorCode, .started later.operation])
  | stops (tail : List Entry) (failed : errorCode.failed = true)
      (sound : pending = .read → errorCode = .closed) (inFlight : next.inFlight = [])
      (report : tail = [] ∨ ∃ what, tail = [.reported what errorCode])
      (history : next.history =
        session.history ++ .completed pending.operation errorCode :: tail)
  | slips (reply : Write) (failed : errorCode.failed = true) (read : pending = .read)
      (unsound : errorCode ≠ .closed) (inFlight : next.inFlight = [.write reply])
      (history : next.history = session.history ++ .completed pending.operation errorCode ::
        [.reported "read".toList errorCode, .started .write])

section Step

variable {session next : Session} {event : Event}

theorem Recorded.ends {outcome : Outcome} (h : session.Recorded)
    (hstep : session.step (.complete outcome) = some next) :
    ∃ pending, session.inFlight = [pending] ∧ Ends session next pending outcome.errorCode := by
  obtain ⟨pending, rest, -, hinFlight, -, rfl⟩ := step_complete hstep
  obtain ⟨before, pending', hsingle, -⟩ := h.last.resolve_left (by simp [hinFlight])
  obtain ⟨rfl, rfl⟩ := List.cons.inj (hinFlight.symm.trans hsingle)
  refine ⟨pending, hinFlight, ?_⟩
  by_cases hfailed : outcome.errorCode.failed = true
  · by_cases hread : pending = .read
    · subst hread
      by_cases hclosed : outcome.errorCode = .closed
      · obtain ⟨hnone, hhistory⟩ :=
          @handle_read_of_closed (session.retire .read [] outcome.errorCode) outcome hclosed
        exact .stops [] hfailed (fun _ => hclosed) hnone (Or.inl rfl) hhistory
      · obtain ⟨reply, hwrite, hhistory⟩ :=
          @handle_read_of_failed (session.retire .read [] outcome.errorCode) outcome hfailed
            hclosed
        refine .slips reply hfailed rfl hclosed hwrite ?_
        rw [hhistory, retire, List.append_assoc, List.append_assoc]
        rfl
    · obtain ⟨what, hnone, hhistory⟩ :=
        @handle_of_failed (session.retire pending [] outcome.errorCode) outcome pending hfailed
          hread
      refine .stops _ hfailed (fun h => absurd h hread) hnone (Or.inr ⟨what, rfl⟩) ?_
      rw [hhistory, retire, List.append_assoc]
      rfl
  · have hsuccess := StreamCode.failed_eq_false_iff.mp (Bool.eq_false_iff.mpr hfailed)
    obtain ⟨later, hlater, hhistory⟩ :=
      @handle_of_success (session.retire pending [] outcome.errorCode) outcome hsuccess pending
    refine .goesOn later hsuccess hlater ?_
    rw [hhistory, retire, List.append_assoc]
    rfl

/-- Steps between two handlers add nothing to the history. -/
theorem history_step_of_ne_complete (h : session.Recorded)
    (hevent : ∀ outcome, event ≠ .complete outcome) (hstep : session.step event = some next) :
    next.history = session.history ∧ next.Recorded := by
  cases event with
  | complete outcome => exact absurd rfl (hevent outcome)
  | transmit count =>
    obtain ⟨write, rest, hinFlight, -, -, rfl⟩ := step_transmit hstep
    refine ⟨rfl, ?_, h.blamed⟩
    obtain ⟨before, pending, hsingle, hhistory⟩ := h.last.resolve_left (by simp [hinFlight])
    obtain ⟨rfl, rfl⟩ := List.cons.inj (hinFlight.symm.trans hsingle)
    exact Or.inr ⟨before, _, rfl, hhistory⟩
  | returns =>
    obtain ⟨call, -, rfl⟩ := step_returns hstep
    exact ⟨rfl, h.last, h.blamed⟩

theorem Recorded.step (h : session.Recorded) (hstep : session.step event = some next) :
    next.Recorded := by
  by_cases hevent : ∃ outcome, event = .complete outcome
  · obtain ⟨outcome, rfl⟩ := hevent
    obtain ⟨pending, hinFlight, hends⟩ := h.ends hstep
    -- A failure in the history leaves nothing to be shown about reports.
    have hblamed : ∀ tail, outcome.errorCode.failed = true → next.history =
        session.history ++ .completed pending.operation outcome.errorCode :: tail →
        (∀ op errorCode, .completed op errorCode ∈ next.history → errorCode.failed = false) →
          next.history.countP Entry.isReport = 0 := by
      intro tail hfailed hhistory hall
      have hcode := hall pending.operation outcome.errorCode (by simp [hhistory])
      rw [hcode] at hfailed
      exact nomatch hfailed
    cases hends with
    | goesOn later success hlater history =>
      refine ⟨Or.inr ⟨session.history ++ [.completed pending.operation outcome.errorCode], later,
        hlater, ?_⟩, fun hall => ?_⟩
      · rw [history, List.append_cons]
      · rw [history, List.countP_append, h.blamed fun op code hmem =>
          hall op code (by rw [history]; exact List.mem_append_left _ hmem)]
        rfl
    | stops tail failed sound hnone report history =>
      exact ⟨Or.inl hnone, hblamed tail failed history⟩
    | slips reply failed read unsound hwrite history =>
      refine ⟨Or.inr ⟨session.history ++ [.completed pending.operation outcome.errorCode,
        .reported "read".toList outcome.errorCode], .write reply, hwrite, ?_⟩,
        hblamed _ failed history⟩
      rw [history, List.append_assoc]
      rfl
  · exact (history_step_of_ne_complete h (not_exists.mp hevent) hstep).2

/-- A step keeps the discipline unless a read handler slips. -/
theorem Recorded.disciplined_step_iff (h : session.Recorded)
    (hdisciplined : Disciplined session.history) (hstep : session.step event = some next) :
    Disciplined next.history ↔ session.ReadsSoundly event := by
  by_cases hevent : ∃ outcome, event = .complete outcome
  · obtain ⟨outcome, rfl⟩ := hevent
    obtain ⟨pending, hinFlight, hends⟩ := h.ends hstep
    have hunfailed := h.unfailed hdisciplined (by simp [hinFlight])
    have hhead : session.inFlight.head? = some .read ↔ pending = .read := by simp [hinFlight]
    rw [ReadsSoundly, hhead]
    cases hends with
    | goesOn later success hlater history =>
      rw [history, success]
      exact iff_of_true (hunfailed.append_success rfl).disciplined nofun
    | stops tail failed sound hnone report history =>
      rw [history]
      refine iff_of_true (hunfailed.disciplined_append ?_ ?_) fun hread _ => sound hread
      · rintro op hmem
        rcases report with rfl | ⟨what, rfl⟩ <;> simp at hmem
      · rcases report with rfl | ⟨what, rfl⟩ <;> simp [Entry.isReport]
    | slips reply failed read unsound hwrite history =>
      rw [history]
      have hstarts : Entry.started .write ∈
          [.reported "read".toList outcome.errorCode, .started .write] := by simp
      exact iff_of_false (not_disciplined_append failed hstarts)
        fun hsound => unsound (hsound read failed)
  · rw [(history_step_of_ne_complete h (not_exists.mp hevent) hstep).1]
    refine iff_of_true hdisciplined ?_
    cases event with
    | complete outcome => exact absurd ⟨outcome, rfl⟩ hevent
    | transmit | returns => trivial

end Step

/-- **Disciplined, exactly when.** In a run of the session nothing is started
after a failure and at most one failure is reported, if and only if no read
handler of the run is given an error other than `websocket::error::closed`. -/
theorem disciplined_iff_readsSoundly (events : List Event) (session : Session)
    (hrun : run step Session.started events = some session) :
    Always step (fun session => Disciplined session.history) Session.started events ↔
      Obeys step ReadsSoundly Session.started events :=
  always_iff_obeys Recorded _ (fun _ _ _ h hstep => h.step hstep)
    (fun _ _ _ h hdisciplined hstep => h.disciplined_step_iff hdisciplined hstep) hrun
    Recorded.started (Unfailed.disciplined ⟨by simp [Session.started, onRun, start], rfl⟩)

/-- A message is echoed, and then the peer closes. -/
theorem disciplined_closed :
    Always step (fun session => Disciplined session.history) Session.started
      [.complete { errorCode := .success }, .complete { errorCode := .success },
        .complete ⟨.success, ⟨true, "hi".toList⟩⟩, .transmit 4, .returns,
        .complete { errorCode := .success }, .complete { errorCode := .closed }] := by
  obtain ⟨session, hrun⟩ := Option.isSome_iff_exists.mp
    (show (run step Session.started
      [.complete { errorCode := .success }, .complete { errorCode := .success },
        .complete ⟨.success, ⟨true, "hi".toList⟩⟩, .transmit 4, .returns,
        .complete { errorCode := .success }, .complete { errorCode := .closed }]).isSome by decide)
  exact (disciplined_iff_readsSoundly _ session hrun).mpr (by decide)

/-- The first read fails: it is reported, and a write is started. -/
theorem not_disciplined_read_fails :
    ¬ ∀ (events : List Event) (session : Session),
      run step Session.started events = some session → Disciplined session.history := by
  intro hall
  obtain ⟨session, hrun, hhistory⟩ := Option.map_eq_some_iff.mp
    (show (run step Session.started
        [.complete { errorCode := .success }, .complete { errorCode := .success },
          .complete { errorCode := .code (.other 110) }]).map Session.history =
      some [.started .handshake, .completed .handshake .success, .started .accept,
        .completed .accept .success, .started .read, .completed .read (.code (.other 110)),
        .reported "read".toList (.code (.other 110)), .started .write] by decide)
  have hdisciplined := hall _ session hrun
  rw [hhistory] at hdisciplined
  exact hdisciplined.stops [.started .handshake, .completed .handshake .success,
    .started .accept, .completed .accept .success, .started .read] .read _ _ rfl rfl .write
    (by simp)

end Session

end BoostProjects.Beast.WebSockets
