import BoostProjects.Boost.Completion

/-!
# The session of the TCP echo server

`Session` echoes with two callbacks that call each other: the one of a read
starts a write of what has been read, the one of a write starts the next read.
After an error a callback starts nothing.
-/

namespace BoostProjects.Networking.TCPEchoServerClient

open Boost HalfDuplex Memory

/-- `max_length` -/
def maxLength : ℕ := 1024

/-- `Session`, but for its socket. -/
structure Session where
  data : Cells Byte maxLength := fun _ => 0

/-- A session, its socket and what has been transferred. -/
abbrev Connection := Link Session Byte Failure

/-- `Session::do_read` -/
def doRead (conn : Connection) : Connection := conn.start (.read maxLength)

/-- `Session::do_write` -/
def doWrite (length : ℕ) (conn : Connection) : Connection := conn.start (.write length)

/-- `Session::start` -/
def start (conn : Connection) : Connection := doRead conn

/-- The callback of `async_read_some`. -/
def readHandler (ec : ErrorCode) (length : ℕ) (conn : Connection) : Connection :=
  if ec.failed then conn else doWrite length conn

/-- The callback of `async_write`. -/
def writeHandler (ec : ErrorCode) (conn : Connection) : Connection :=
  if ec.failed then conn else doRead conn

/-- The session, as a party of the stream. -/
def session : Party Session Byte Failure maxLength where
  buffer := Session.data
  fill session bytes := { data := session.data.store 0 bytes }
  buffer_fill _ _ := rfl
  handle
    | .read _, outcome, length => readHandler (errorCode outcome) length
    | .write _, outcome, _ => writeHandler (errorCode outcome)
    -- The session starts no handshake.
    | .handshake, _, _ => id
  started := start { program := {} }

/-- The session reads into the whole of `data`. -/
def Awaits (_ : Session) : Task → Prop
  | .handshake => False
  | .read capacity => capacity = maxLength
  | .write _ => True

theorem session_alternates : session.Alternates Awaits where
  started := ⟨.read maxLength, id, rfl, rfl, rfl⟩
  capacity _ _ h := h
  fill _ _ _ h := h
  replies link _ moved _ := ⟨link.program, trivial, rfl, rfl⟩
  listens link task _ hawaits hread := by
    cases task with
    | handshake => exact hawaits.elim
    | read capacity => exact absurd rfl (hread capacity)
    | write length => exact ⟨link.program, maxLength, rfl, rfl⟩
  stops link task error _ hawaits := by
    refine ⟨link.program, ?_⟩
    cases task with
    | handshake => exact hawaits.elim
    | read capacity => exact if_pos error.2
    | write length => exact if_pos error.2

end BoostProjects.Networking.TCPEchoServerClient
