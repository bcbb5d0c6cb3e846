import BoostProjects.AsioTcpServer.Echo

/-!
# What follows the close of a session

A session closes itself when a handler is given an error. Asio does not take back
the result of an operation that has completed by then, so a handler that was
queued with a success still runs, and the read handler then starts two operations
on the closed socket: it does not look whether the session has been closed.

The read handler closes the session only when it is the one read in flight that
failed. So it is the handler of a failed write that may run while a successful
read is queued, and `terminal_iff_closesQuietly` says that nothing else keeps the
close from being the session's last call.
-/

namespace BoostProjects.AsioTcpServer

open Boost Memory Transition

/-- The read has its bytes, and its handler is queued. -/
def ReadOp.Succeeded (read : ReadOp) : Prop := read.result.map Prod.fst = some .success

instance (read : ReadOp) : Decidable read.Succeeded := inferInstanceAs (Decidable (_ = _))

namespace Connection

/-- `close` has run. -/
def Closed (conn : Connection) : Prop := Call.close ∈ conn.io.calls

instance (conn : Connection) : Decidable conn.Closed := inferInstanceAs (Decidable (_ ∈ _))

/-- The operations started so far. -/
def starts (conn : Connection) : List Call := conn.io.calls.filter (· ≠ .close)

/-- No later step starts an operation. -/
def Terminal (conn : Connection) : Prop :=
  ∀ later final, run step conn later = some final → final.starts = conn.starts

/-- A handler is queued with bytes that were read. -/
def Queued (conn : Connection) : Prop := ∃ read ∈ conn.io.reads, read.Succeeded

instance (conn : Connection) : Decidable conn.Queued := inferInstanceAs (Decidable (∃ _ ∈ _, _))

/-- If the event runs the handler of a failed write, then no successful read is
queued. -/
def ClosesQuietly (conn : Connection) : Event → Prop
  | .runWrite op =>
    (conn.io.writes[op]?.map fun write => write.error.failed) = some true → ¬ conn.Queued
  | _ => True

instance (conn : Connection) (event : Event) : Decidable (conn.ClosesQuietly event) :=
  match event with
  | .runWrite _ => @instDecidableForall (_ = _) (¬ _) _ _
  | .receive _ _ | .failRead _ _ | .transmit _ _ | .failWrite _ _ | .runRead _ => instDecidableTrue

/-! ### One step -/

section Step

variable {conn next : Connection} {event : Event} {op : ℕ}

/-- A closed session has a closed socket. -/
def Shut (conn : Connection) : Prop := conn.Closed → conn.session.socketOpen = false

theorem closed_close (conn : Connection) : conn.close.Closed := by
  simp [Closed, close]

@[simp] theorem starts_close (conn : Connection) : conn.close.starts = conn.starts := by
  simp [starts, close]

theorem closed_readHandler_success {n : ℕ} :
    (conn.readHandler .success n).Closed ↔ conn.Closed := by
  rw [readHandler_success]
  simp [Closed]

/-- The handler of a read with bytes starts a write and the next read. -/
theorem starts_readHandler_success {n : ℕ} :
    (conn.readHandler .success n).starts =
      conn.starts ++ [.asyncWrite (conn.session.rxUsed + n), .asyncReadSome 0 rxSize] := by
  rw [readHandler_success]
  simp [starts]

theorem succeeded_iff {read : ReadOp} {ec : ErrorCode} {n : ℕ} (h : read.result = some (ec, n)) :
    read.Succeeded ↔ ec = .success := by
  simp [ReadOp.Succeeded, h]

/-- Fewer reads in flight queue no handler that was not queued. -/
theorem not_queued_of_subset (h : ¬ conn.Queued)
    (hreads : ∀ read ∈ next.io.reads, read.Succeeded → read ∈ conn.io.reads) : ¬ next.Queued := by
  rintro ⟨read, hread, hsucceeded⟩
  exact h ⟨read, hreads read hread hsucceeded, hsucceeded⟩

theorem Shut.step (h : conn.Shut) (hstep : conn.step event = some next) : next.Shut := by
  cases event with
  | runRead op =>
    obtain ⟨before, read, after, ec, n, -, -, -, rfl⟩ := step_runRead hstep
    rcases ec.failed_or_eq_success with hfailed | rfl
    · rw [readHandler_of_failed hfailed]
      exact fun _ => rfl
    · intro hclosed
      exact h (closed_readHandler_success.mp hclosed)
  | runWrite op =>
    obtain ⟨before, write, after, -, -, -, rfl⟩ := step_runWrite hstep
    rw [writeHandler]
    split_ifs
    · exact fun _ => rfl
    · exact h
  | _ =>
    obtain ⟨hcalls, hopen⟩ := frame_step hstep (by simp) (by simp)
    rwa [Shut, Closed, hcalls, hopen]

/-- The session is closed, and no handler is queued that would start something. -/
structure Done (conn : Connection) : Prop where
  closed : conn.Closed
  shut : conn.session.socketOpen = false
  quiet : ¬ conn.Queued

/-- That stays so, and nothing is started. -/
theorem Done.step (h : conn.Done) (hstep : conn.step event = some next) :
    next.Done ∧ next.starts = conn.starts := by
  have hnotOpen : ¬ conn.session.socketOpen := Bool.eq_false_iff.mp h.shut
  cases event with
  | receive op bytes =>
    obtain ⟨before, read, after, -, hopen, -, -, -, -⟩ := step_receive hstep
    exact absurd hopen hnotOpen
  | failRead op ec =>
    obtain ⟨before, read, after, hreads, -, hfailed, rfl⟩ := step_failRead hstep
    refine ⟨⟨h.closed, h.shut, not_queued_of_subset h.quiet fun other hother hsucceeded => ?_⟩, rfl⟩
    rw [hreads]
    rcases List.mem_append.mp hother with hbefore | hafter
    · exact List.mem_append_left _ hbefore
    rcases List.mem_cons.mp hafter with rfl | hafter
    · rw [(succeeded_iff rfl).mp hsucceeded] at hfailed
      exact absurd hfailed Bool.false_ne_true
    · exact List.mem_append_right _ (List.mem_cons_of_mem _ hafter)
  | transmit op count =>
    obtain ⟨before, write, after, -, hopen, -, -, -, -⟩ := step_transmit hstep
    exact absurd hopen hnotOpen
  | failWrite op ec =>
    obtain ⟨before, write, after, -, -, -, -, rfl⟩ := step_failWrite hstep
    exact ⟨⟨h.closed, h.shut, h.quiet⟩, rfl⟩
  | runRead op =>
    obtain ⟨before, read, after, ec, n, hreads, -, hresult, rfl⟩ := step_runRead hstep
    -- The read did not succeed, so its handler only closes the socket again.
    have hfailed : ec.failed := by
      refine ec.failed_or_eq_success.resolve_right fun hsuccess => h.quiet ⟨read, ?_, ?_⟩
      · rw [hreads]
        exact List.mem_append_right _ List.mem_cons_self
      · exact (succeeded_iff hresult).mpr hsuccess
    rw [readHandler_of_failed hfailed]
    refine ⟨⟨closed_close _, rfl, not_queued_of_subset h.quiet fun other hother _ => ?_⟩,
      starts_close _⟩
    rw [hreads]
    exact (List.sublist_cons_self read after).append_left before |>.subset hother
  | runWrite op =>
    obtain ⟨before, write, after, -, -, -, rfl⟩ := step_runWrite hstep
    rw [writeHandler]
    split_ifs
    · exact ⟨⟨closed_close _, rfl, h.quiet⟩, starts_close _⟩
    · exact ⟨⟨h.closed, h.shut, h.quiet⟩, rfl⟩

/-! ### What is terminal -/

theorem Done.terminal (h : conn.Done) : conn.Terminal := by
  intro later final hrun
  refine (run_invariant (fun state => state.Done ∧ state.starts = conn.starts) ?_ hrun
    ⟨h, rfl⟩).2
  rintro state event next ⟨hdone, hstarts⟩ hstep
  obtain ⟨hnext, hsame⟩ := hdone.step hstep
  exact ⟨hnext, hsame.trans hstarts⟩

/-- The queued handler may be the next to run. -/
theorem not_terminal_of_queued (h : conn.Queued) : ¬ conn.Terminal := by
  obtain ⟨read, hread, hsucceeded⟩ := h
  obtain ⟨op, hop⟩ := List.getElem?_of_mem hread
  obtain ⟨⟨ec, n⟩, hresult, rfl⟩ := Option.map_eq_some_iff.mp hsucceeded
  intro hterminal
  have hstep : conn.step (.runRead op) = some (readHandler .success n
      { conn with io := { conn.io with reads := conn.io.reads.eraseIdx op } }) := by
    simp only [Connection.step, hop, Option.bind_some, hresult, Option.map_some]
  have hstarts := hterminal [.runRead op] _ (run_cons_eq_some_iff.mpr ⟨_, hstep, rfl⟩)
  rw [starts_readHandler_success] at hstarts
  exact absurd (List.append_right_eq_self.mp hstarts) (List.cons_ne_nil _ _)

theorem terminal_iff_not_queued (hshut : conn.Shut) (hclosed : conn.Closed) :
    conn.Terminal ↔ ¬ conn.Queued := by
  constructor
  · intro hterminal hqueued
    exact not_terminal_of_queued hqueued hterminal
  · intro hquiet
    exact Done.terminal ⟨hclosed, hshut hclosed, hquiet⟩

/-- Of the steps of a session whose close is terminal so far, just those that run
the handler of a failed write past a queued success end that. -/
theorem terminal_step_iff (hwhole : conn.ReadsWhole) (hshut : conn.Shut)
    (h : conn.Closed → ¬ conn.Queued) (hstep : conn.step event = some next) :
    (next.Closed → ¬ next.Queued) ↔ conn.ClosesQuietly event := by
  by_cases hclosed : conn.Closed
  · -- Nothing is queued, and that stays so.
    have hdone : conn.Done := ⟨hclosed, hshut hclosed, h hclosed⟩
    refine iff_of_true (fun _ => (hdone.step hstep).1.quiet) ?_
    cases event with
    | runWrite op => exact fun _ => hdone.quiet
    | _ => trivial
  cases event with
  | runRead op =>
    obtain ⟨before, read, after, ec, n, hreads, -, -, rfl⟩ := step_runRead hstep
    obtain ⟨rfl, rfl, -, -⟩ := hwhole.split hreads
    refine iff_of_true (fun hnext => ?_) trivial
    rcases ec.failed_or_eq_success with hfailed | rfl
    · -- It was the only read in flight.
      rw [readHandler_of_failed hfailed]
      simp [Queued, close]
    · exact absurd (closed_readHandler_success.mp hnext) hclosed
  | runWrite op =>
    obtain ⟨before, write, after, hwrites, rfl, -, rfl⟩ := step_runWrite hstep
    have hevent : conn.ClosesQuietly (.runWrite before.length) ↔
        (write.error.failed → ¬ conn.Queued) := by
      simp [ClosesQuietly, hwrites]
    rw [hevent, writeHandler]
    split_ifs with hfailed
    · simp only [closed_close, forall_const, hfailed]
      rfl
    · exact iff_of_true (fun hnext => absurd hnext hclosed) (fun h => absurd h hfailed)
  | _ =>
    -- The session is as little closed as before.
    obtain ⟨hcalls, -⟩ := frame_step hstep (by simp) (by simp)
    rw [Closed, hcalls]
    exact iff_of_true (fun hnext => absurd hnext hclosed) trivial

end Step

/-! ### Runs -/

theorem shut_accepted (rx : Cells Byte rxSize) (tx : Cells Byte txSize) :
    (accepted rx tx).Shut := by
  simp [Shut, Closed, accepted, start, doRead, asyncReadSome]

theorem not_closed_accepted (rx : Cells Byte rxSize) (tx : Cells Byte txSize) :
    ¬ (accepted rx tx).Closed := by
  simp [Closed, accepted, start, doRead, asyncReadSome]

/-- **The close is terminal, exactly when.** In a run of a session, no operation is
started after any state in which `close` has run, if and only if each step that
runs the handler of a failed write finds no successful read queued. -/
theorem terminal_iff_closesQuietly (rx : Cells Byte rxSize) (tx : Cells Byte txSize)
    (events : List Event) (conn : Connection)
    (hrun : run step (accepted rx tx) events = some conn) :
    Always step (fun conn => conn.Closed → conn.Terminal) (accepted rx tx) events ↔
      Obeys step ClosesQuietly (accepted rx tx) events := by
  refine always_iff_obeys (fun conn => conn.ReadsWhole ∧ conn.Shut) _ ?_ ?_ hrun
    ⟨ReadsWhole.accepted rx tx, shut_accepted rx tx⟩ ?_
  · rintro state event next ⟨hwhole, hshut⟩ hstep
    exact ⟨hwhole.step hstep, hshut.step hstep⟩
  · rintro state event next ⟨hwhole, hshut⟩ hstate hstep
    have hquiet : state.Closed → ¬ state.Queued := fun hclosed =>
      (terminal_iff_not_queued hshut hclosed).mp (hstate hclosed)
    rw [← terminal_step_iff hwhole hshut hquiet hstep]
    exact forall_congr' fun hclosed => terminal_iff_not_queued (hshut.step hstep) hclosed
  · intro hclosed
    exact absurd hclosed (not_closed_accepted rx tx)

/-- A write fails while the next read is pending, and both handlers run. -/
theorem terminal_of_pending_read :
    ∃ conn, run step (accepted (fun _ => 0) (fun _ => 0))
        [.receive 0 [65], .runRead 0, .failWrite 0 (.other 32), .runWrite 0,
          .failRead 0 (.other 9), .runRead 0] = some conn ∧
      Always step (fun conn => conn.Closed → conn.Terminal) (accepted (fun _ => 0) (fun _ => 0))
        [.receive 0 [65], .runRead 0, .failWrite 0 (.other 32), .runWrite 0,
          .failRead 0 (.other 9), .runRead 0] := by
  obtain ⟨conn, hrun⟩ := Option.isSome_iff_exists.mp
    (show (run step (accepted (fun _ => 0) (fun _ => 0))
      [.receive 0 [65], .runRead 0, .failWrite 0 (.other 32), .runWrite 0,
        .failRead 0 (.other 9), .runRead 0]).isSome by decide)
  exact ⟨conn, hrun, (terminal_iff_closesQuietly _ _ _ conn hrun).mpr (by decide)⟩

/-- **The close is not terminal.** The second byte has been read when the write of
the first one fails; the handler of the failed write closes the session, and the
handler of the read then starts a write and a read. -/
theorem not_terminal_of_closed :
    ¬ ∀ (rx : Cells Byte rxSize) (tx : Cells Byte txSize) (events : List Event)
        (conn : Connection), run step (accepted rx tx) events = some conn →
      conn.Closed → conn.Terminal := by
  intro hall
  obtain ⟨conn, hrun, hstate⟩ := Option.map_eq_some_iff.mp
    (show (run step (accepted (fun _ => 0) (fun _ => 0))
        [.receive 0 [65], .runRead 0, .receive 0 [66], .failWrite 0 (.other 32), .runWrite 0]).map
      (fun conn => decide (conn.Closed ∧ conn.Queued)) = some true by decide)
  obtain ⟨hclosed, hqueued⟩ := decide_eq_true_iff.mp hstate
  exact not_terminal_of_queued hqueued (hall _ _ _ conn hrun hclosed)

end Connection

end BoostProjects.AsioTcpServer
