import BoostProjects.Boost.Completion

/-!
# The coroutines of the echo servers

A coroutine is suspended at a `co_await` of its body, and goes on from there when
the operation it awaits is over: with the number of bytes transferred, or with an
exception, which ends its loop. So its state is where it is suspended, and its
local variables.

The loop of `EchoServer_One::session` has one array for all its turns. In
`EchoServer_Refactor` the body of the loop is a coroutine of its own, `echo_once`,
which `echo` awaits; each call of it has an array of its own, in which nothing is
left of the call before.
-/

namespace BoostProjects.Asio.Coroutines.CoroutineApps

open Boost HalfDuplex Memory

/-- The `co_await` at which a coroutine is suspended. -/
inductive Point
  | reading
  | writing
  /-- The coroutine has returned. -/
  | returned
  deriving DecidableEq, Repr

/-- A line on the console. -/
inductive Line
  /-- The number of bytes a read has brought. -/
  | transferred (count : ℕ)
  /-- `"Session done \n"` -/
  | sessionDone
  /-- `report_error(component, ec)` -/
  | error (component : String) (ec : ErrorCode)
  /-- `echo Exception:` and the `what()` of the error. -/
  | exception (ec : ErrorCode)
  deriving DecidableEq, Repr

/-- The frame of a coroutine. -/
structure Frame (size : ℕ) where
  /-- The local array. -/
  array : Cells Byte size
  point : Point := .reading
  console : List Line := []

/-- A coroutine, its socket and what has been transferred. -/
abbrev Connection (size : ℕ) := Link (Frame size) Byte Failure

section Body

variable {size : ℕ} (listen : Connection size → Connection size) (report : ErrorCode → Line)

/-- From `co_await socket.async_read_some` to `co_await async_write`. -/
def reply (bytes : ℕ) (conn : Connection size) : Connection size :=
  { conn with program := { conn.program with
      point := .writing
      console := conn.program.console ++ [Line.transferred bytes] } }.start (.write bytes)

/-- The `catch` around the loop. -/
def catchError (ec : ErrorCode) (conn : Connection size) : Connection size :=
  { conn with program := { conn.program with
      point := .returned
      console := conn.program.console ++ [report ec] } }

/-- A coroutine goes on. Its loop begins with `listen`, and an exception is
reported by `report`. -/
def resume (result : Except ErrorCode ℕ) (conn : Connection size) : Connection size :=
  match conn.program.point, result with
  | .reading, .ok bytes => reply bytes conn
  | .writing, .ok _ => listen conn
  | .returned, _ => conn
  | _, .error ec => catchError report ec conn

/-- The program of a coroutine that starts with `listen`. -/
def coroutine (array : Cells Byte size) : Party (Frame size) Byte Failure size where
  buffer := Frame.array
  fill frame bytes := { frame with array := frame.array.store 0 bytes }
  buffer_fill _ _ := rfl
  handle _ outcome moved := resume listen report (awaited outcome moved)
  started := listen { program := { array } }

end Body

/-! ## The two coroutines -/

namespace EchoServerOne

/-- The size of the local array `data`. -/
def size : ℕ := 1024

/-- The loop of `session`, up to `co_await socket.async_read_some`. -/
def read (conn : Connection size) : Connection size :=
  { conn with program := { conn.program with point := .reading } }.start (.read size)

/-- The `catch` of `session`. -/
def report (ec : ErrorCode) : Line :=
  if ec = eof then .sessionDone else .error "Session" ec

/-- `session`, where `data` holds at first what was in its storage. -/
def session (data : Cells Byte size) : Party (Frame size) Byte Failure size :=
  coroutine read report data

end EchoServerOne

namespace EchoServerRefactor

/-- The size of the local array `buffer`. -/
def size : ℕ := 128

/-- `echo_once`, up to `co_await socket.async_read_some`. When the call begins its
array holds what is in the storage, which `fresh` says. -/
def echoOnce (fresh : Frame size → Cells Byte size) (conn : Connection size) : Connection size :=
  { conn with program := { conn.program with
      array := fresh conn.program
      point := .reading } }.start (.read size)

/-- `echo`, whose loop awaits one `echo_once` after the other. -/
def echo (fresh : Frame size → Cells Byte size) : Party (Frame size) Byte Failure size :=
  coroutine (echoOnce fresh) .exception fun _ => 0

end EchoServerRefactor

/-! ## Half-duplex echoes -/

/-- The operation awaited at each point. -/
def Awaits {size : ℕ} (frame : Frame size) : Task → Prop
  | .handshake => False
  | .read capacity => frame.point = .reading ∧ capacity = size
  | .write _ => frame.point = .writing

section Resume

variable {size bytes : ℕ} {ec : ErrorCode} {conn : Connection size}
  {listen : Connection size → Connection size} {report : ErrorCode → Line}

theorem Awaits.point_ne_returned {frame : Frame size} {task : Task} (h : Awaits frame task) :
    frame.point ≠ .returned := by
  cases task with
  | handshake => exact h.elim
  | read capacity =>
    rw [h.1]
    exact nofun
  | write length =>
    rw [show frame.point = .writing from h]
    exact nofun

theorem resume_reading (h : conn.program.point = .reading) :
    resume listen report (.ok bytes) conn = reply bytes conn := by
  simp only [resume, h]

theorem resume_writing (h : conn.program.point = .writing) :
    resume listen report (.ok bytes) conn = listen conn := by
  simp only [resume, h]

theorem resume_error (h : conn.program.point ≠ .returned) :
    resume listen report (.error ec) conn = catchError report ec conn := by
  cases hpoint : conn.program.point with
  | reading | writing => simp only [resume, hpoint]
  | returned => exact absurd hpoint h

/-- A coroutine alternates if `listen` does nothing but to start a read into the
whole of its array. -/
theorem coroutine_alternates (array : Cells Byte size)
    (hlisten : ∀ conn, ∃ program : Frame size, program.point = .reading ∧
      listen conn = { conn with program }.start (.read size)) :
    (coroutine listen report array).Alternates Awaits where
  started := by
    obtain ⟨program, hpoint, hstart⟩ := hlisten { program := { array } }
    refine ⟨.read size, id, ?_⟩
    change Awaits (listen _).program _ ∧ (listen _).inFlight = _ ∧ (listen _).trace = _
    rw [hstart]
    exact ⟨⟨hpoint, rfl⟩, rfl, rfl⟩
  capacity _ _ h := h.2
  fill _ task _ h := by cases task <;> exact h
  replies link _ moved hawaits := ⟨(reply moved link).program, rfl, rfl, resume_reading hawaits.1⟩
  listens link task _ hawaits hread := by
    cases task with
    | handshake => exact hawaits.elim
    | read capacity => exact absurd rfl (hread capacity)
    | write length =>
      obtain ⟨program, hpoint, hstart⟩ := hlisten link
      exact ⟨program, size, ⟨hpoint, rfl⟩, (resume_writing hawaits).trans hstart⟩
  stops link _ error _ hawaits :=
    ⟨(catchError report error.1 link).program, resume_error hawaits.point_ne_returned⟩

end Resume

theorem EchoServerOne.session_alternates (data : Cells Byte EchoServerOne.size) :
    (EchoServerOne.session data).Alternates Awaits :=
  coroutine_alternates data fun conn => ⟨(EchoServerOne.read conn).program, rfl, rfl⟩

theorem EchoServerRefactor.echo_alternates
    (fresh : Frame EchoServerRefactor.size → Cells Byte EchoServerRefactor.size) :
    (EchoServerRefactor.echo fresh).Alternates Awaits :=
  coroutine_alternates _ fun conn => ⟨(EchoServerRefactor.echoOnce fresh conn).program, rfl, rfl⟩

end BoostProjects.Asio.Coroutines.CoroutineApps
