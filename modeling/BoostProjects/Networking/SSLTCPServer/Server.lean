import BoostProjects.Networking.SSLTCPServer.Session

/-!
# The TLS server and its sessions

`server` creates a session for every accept. The handler of the accept starts the
session or deletes it, and then creates the next; a session that has been started
lives until one of its own handlers deletes it.

Nothing but these handlers knows the session: a raw pointer is bound into the
accept and then into the operations of the session. Here a pointer is the place
of the session in the order of creation. Deleting a session takes nothing off any
list, so a session might be deleted twice, and a handler run after the deletion.
-/

namespace BoostProjects.Networking.SSLTCPServer.SSL1

open Boost HalfDuplex Transition

/-- `server`, and the sessions that it has created. -/
structure Server where
  /-- The sessions created so far, deleted or not. -/
  sessions : List Connection
  /-- The session each pending `async_accept` carries. -/
  accepts : List ℕ

namespace Server

/-- `std::terminate` has been called. -/
def terminated (server : Server) : Bool :=
  server.sessions.any fun conn => conn.program.terminated

/-- A handler runs in the session `this`. -/
def withSession (this : ℕ) (handler : Connection → Connection) (server : Server) : Server :=
  { server with sessions := server.sessions.modify this handler }

/-- `server::start_accept` -/
def startAccept (server : Server) : Server :=
  { sessions := server.sessions ++ [{ program := {} }]
    accepts := server.accepts ++ [server.sessions.length] }

/-- `server::handle_accept`. If the session is deleted, its `socket.shutdown()`
ends as given. -/
def handleAccept (newSession : ℕ) (error shutdown : ErrorCode) (server : Server) : Server :=
  let server :=
    if !error.failed then server.withSession newSession start
    else server.withSession newSession (deleteThis shutdown)
  -- The exception ends the process here.
  if server.terminated then server else server.startAccept

/-- What can happen next: an accept completes and its handler runs, or something
happens to a session. -/
inductive Event
  | accept (op : ℕ) (error shutdown : ErrorCode)
  | session (this : ℕ) (event : HalfDuplex.Event Byte Failed)
  deriving DecidableEq, Repr

/-- One step of the server, or of one of its sessions, while the process lives. -/
def step (server : Server) (event : Event) : Option Server :=
  if server.terminated then none
  else match event with
    | .accept op error shutdown =>
      server.accepts[op]?.map fun newSession =>
        handleAccept newSession error shutdown
          { server with accepts := server.accepts.eraseIdx op }
    | .session this event =>
      server.sessions[this]?.bind fun conn =>
        (SSL1.session.step conn event).map fun next =>
          { server with sessions := server.sessions.set this next }

/-- The server as its constructor leaves it. -/
def started : Server := startAccept { sessions := [], accepts := [] }

end Server

/-! ## What becomes of a session -/

/-- A step of a session keeps its operations and its storage, or it is the handler
of a failure. -/
theorem session_step_cases {conn next : Connection} {event : HalfDuplex.Event Byte Failed}
    (h : session.step conn event = some next) :
    (next.inFlight.length = conn.inFlight.length ∧
      next.program.deletions = conn.program.deletions ∧
      next.program.terminated = conn.program.terminated) ∨
    ∃ i task moved failed, event = .run i ∧
      conn.inFlight[i]? = some ⟨task, moved, some (.failure failed)⟩ ∧
      next = deleteThis failed.shutdown { conn with inFlight := conn.inFlight.eraseIdx i } := by
  cases event with
  | arrive i bytes =>
    obtain ⟨capacity, moved, -, -, rfl⟩ := Party.step_arrive h
    exact Or.inl ⟨List.length_set, rfl, rfl⟩
  | transmit i count =>
    obtain ⟨length, moved, -, -, rfl⟩ := Party.step_transmit h
    exact Or.inl ⟨List.length_set, rfl, rfl⟩
  | succeed i =>
    obtain ⟨task, moved, -, -, rfl⟩ := Party.step_succeed h
    exact Or.inl ⟨List.length_set, rfl, rfl⟩
  | fail i failed =>
    obtain ⟨task, moved, -, rfl⟩ := Party.step_fail h
    exact Or.inl ⟨List.length_set, rfl, rfl⟩
  | run i =>
    obtain ⟨task, moved, outcome, hop, rfl⟩ := Party.step_run h
    cases outcome with
    | success =>
      rw [handle_success]
      refine Or.inl ⟨?_, rfl, rfl⟩
      obtain ⟨hi, -⟩ := List.getElem?_eq_some_iff.mp hop
      rw [Link.start, List.length_append, List.length_eraseIdx_of_lt hi, List.length_singleton]
      omega
    | failure failed =>
      exact Or.inr ⟨i, task, moved, failed, rfl, hop, handle_failure task failed moved _⟩

/-- An operation less is a deletion more. -/
theorem holdings_step {conn next : Connection} {event : HalfDuplex.Event Byte Failed}
    (h : session.step conn event = some next) :
    next.inFlight.length + next.program.deletions =
      conn.inFlight.length + conn.program.deletions := by
  rcases session_step_cases h with ⟨hlength, hdeletions, -⟩ | ⟨i, task, moved, failed, -, hop, rfl⟩
  · rw [hlength, hdeletions]
  · obtain ⟨hi, -⟩ := List.getElem?_eq_some_iff.mp hop
    have hlength := List.length_eraseIdx_of_lt hi
    simp only [deleteThis, Session.delete, hlength]
    omega

namespace Server

/-- What the handler of an accept does to its session. -/
def accepted (error shutdown : ErrorCode) : Connection → Connection :=
  if error.failed then deleteThis shutdown else start

theorem handleAccept_eq (newSession : ℕ) (error shutdown : ErrorCode) (server : Server) :
    handleAccept newSession error shutdown server =
      let server' := server.withSession newSession (accepted error shutdown)
      if server'.terminated then server' else server'.startAccept := by
  rw [handleAccept, accepted]
  cases error.failed <;> rfl

theorem terminated_eq_false_iff {server : Server} :
    server.terminated = false ↔ ∀ conn ∈ server.sessions, conn.program.terminated = false := by
  simp [terminated]

section Inversion

variable {server next : Server}

theorem step_accept {op : ℕ} {error shutdown : ErrorCode}
    (h : server.step (.accept op error shutdown) = some next) :
    server.terminated = false ∧ ∃ newSession, server.accepts[op]? = some newSession ∧
      next = handleAccept newSession error shutdown
        { server with accepts := server.accepts.eraseIdx op } := by
  rw [step, Option.ite_none_left_eq_some] at h
  obtain ⟨newSession, hop, hnext⟩ := Option.map_eq_some_iff.mp h.2
  exact ⟨Bool.eq_false_iff.mpr h.1, newSession, hop, hnext.symm⟩

theorem step_session {this : ℕ} {event : HalfDuplex.Event Byte Failed}
    (h : server.step (.session this event) = some next) :
    server.terminated = false ∧ ∃ conn conn', server.sessions[this]? = some conn ∧
      SSL1.session.step conn event = some conn' ∧
      next = { server with sessions := server.sessions.set this conn' } := by
  rw [step, Option.ite_none_left_eq_some] at h
  obtain ⟨conn, hconn, h'⟩ := Option.bind_eq_some_iff.mp h.2
  obtain ⟨conn', hstep, hnext⟩ := Option.map_eq_some_iff.mp h'
  exact ⟨Bool.eq_false_iff.mpr h.1, conn, conn', hconn, hstep, hnext.symm⟩

end Inversion

end Server

end BoostProjects.Networking.SSLTCPServer.SSL1
