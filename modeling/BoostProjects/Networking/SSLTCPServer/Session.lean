import BoostProjects.Boost.Completion

/-!
# The session of the TLS echo server

`session` lives on the heap and deletes itself when one of its handlers is given
an error. Its destructor calls `socket.shutdown()` without an error code, which
throws when the shutdown fails; an exception that leaves a destructor ends the
process.

What becomes of the storage is kept in `deletions`: the operations of a session
do not know whether the session they carry has been deleted.
-/

namespace BoostProjects.Networking.SSLTCPServer.SSL1

open Boost HalfDuplex Memory

/-- `max_length` -/
def maxLength : ℕ := 1024

/-- `session`, and what has become of it. -/
structure Session where
  data : Cells Byte maxLength := fun _ => 0
  /-- How often the session has been deleted. -/
  deletions : ℕ := 0
  /-- An exception has left the destructor, and `std::terminate` been called. -/
  terminated : Bool := false

/-- A failure of an operation, and how a shutdown by the handler that is given it
would end. -/
structure Failed where
  error : Failure
  shutdown : ErrorCode := .success
  deriving DecidableEq, Repr

/-- A session, its socket and what has been transferred. -/
abbrev Connection := Link Session Byte Failed

/-- The code that a handler is given. -/
def error : Outcome Failed → ErrorCode
  | .success => .success
  | .failure failed => failed.error.1

/-- How a shutdown by the handler would end. -/
def shutdown : Outcome Failed → ErrorCode
  | .success => .success
  | .failure failed => failed.shutdown

/-- `~session`, where `socket.shutdown()` ends as given, and the release of the
storage. -/
def Session.delete (shutdown : ErrorCode) (session : Session) : Session :=
  { session with
    deletions := session.deletions + 1
    terminated := session.terminated || shutdown.failed }

/-- `delete this` -/
def deleteThis (shutdown : ErrorCode) (conn : Connection) : Connection :=
  { conn with program := conn.program.delete shutdown }

/-- `session::start` -/
def start (conn : Connection) : Connection := conn.start .handshake

/-- `session::handle_handshake` -/
def handleHandshake (error shutdown : ErrorCode) (conn : Connection) : Connection :=
  if !error.failed then conn.start (.read maxLength) else deleteThis shutdown conn

/-- `session::handle_read` -/
def handleRead (error : ErrorCode) (bytesTransferred : ℕ) (shutdown : ErrorCode)
    (conn : Connection) : Connection :=
  if !error.failed then conn.start (.write bytesTransferred) else deleteThis shutdown conn

/-- `session::handle_write` -/
def handleWrite (error shutdown : ErrorCode) (conn : Connection) : Connection :=
  if !error.failed then conn.start (.read maxLength) else deleteThis shutdown conn

/-- The session, as a party of the stream. -/
def session : Party Session Byte Failed maxLength where
  buffer := Session.data
  fill session bytes := { session with data := session.data.store 0 bytes }
  buffer_fill _ _ := rfl
  handle
    | .handshake, outcome, _ => handleHandshake (error outcome) (shutdown outcome)
    | .read _, outcome, bytesTransferred =>
      handleRead (error outcome) bytesTransferred (shutdown outcome)
    | .write _, outcome, _ => handleWrite (error outcome) (shutdown outcome)
  started := start { program := {} }

/-! ## What the handlers do -/

/-- After a success every handler starts the next operation. -/
theorem handle_success (task : Task) (moved : ℕ) (conn : Connection) :
    session.handle task .success moved conn =
      conn.start (match task with
        | .read _ => .write moved
        | _ => .read maxLength) := by
  cases task <;> rfl

/-- After a failure every handler deletes the session. -/
theorem handle_failure (task : Task) (failed : Failed) (moved : ℕ) (conn : Connection) :
    session.handle task (.failure failed) moved conn = deleteThis failed.shutdown conn := by
  have hfailed : (!failed.error.1.failed) ≠ true := by simp [failed.error.2]
  cases task with
  | handshake | read | write => exact if_neg hfailed

/-- The session reads into the whole of `data`. -/
def Awaits (_ : Session) : Task → Prop
  | .read capacity => capacity = maxLength
  | _ => True

theorem session_alternates : session.Alternates Awaits where
  started := ⟨.handshake, id, trivial, rfl, rfl⟩
  capacity _ _ h := h
  fill _ task _ h := by cases task <;> exact h
  replies link _ moved _ := ⟨link.program, trivial, rfl, handle_success _ moved link⟩
  listens link task moved _ hread := by
    refine ⟨link.program, maxLength, rfl, ?_⟩
    cases task with
    | read capacity => exact absurd rfl (hread capacity)
    | handshake | write => exact handle_success _ moved link
  stops link task failed moved _ := ⟨_, handle_failure task failed moved link⟩

end BoostProjects.Networking.SSLTCPServer.SSL1
