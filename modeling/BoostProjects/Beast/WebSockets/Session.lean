import BoostProjects.Boost.ErrorCode
import BoostProjects.Cpp.Str
import Mathlib.Logic.Function.Basic

/-!
# The asynchronous WebSocket session

`Session` accepts a WebSocket connection over TLS and then reads a message,
writes it back in brackets and reads the next.

The reply is a local variable of `on_read`, and `async_write` is given no copy of
it: the stream reads the caller's bytes when it comes to send them. So memory is
part of the state. Each call of `on_read` has a variable `responseData` of its
own, which holds its bytes until the call returns; the stream may take bytes of
it before that, while `async_write` is still being called, or afterwards, until
the handler of the write is called.
-/

namespace BoostProjects.Beast.WebSockets

open Boost Cpp

/-- An error code that may be `websocket::error::closed`. -/
inductive StreamCode
  | closed
  | code (errorCode : ErrorCode)
  deriving DecidableEq, Repr

namespace StreamCode

/-- No error. -/
def success : StreamCode := .code .success

/-- The conversion to `bool`. -/
def failed : StreamCode → Bool
  | .closed => true
  | .code errorCode => errorCode.failed

theorem failed_eq_false_iff {code : StreamCode} : code.failed = false ↔ code = success := by
  cases code with
  | closed => simp [failed, success]
  | code errorCode => simp [failed, success]

end StreamCode

/-- A message, as the peer sends it. -/
structure Message where
  text : Bool := false
  bytes : Str := []
  deriving DecidableEq, Repr

/-- How an operation completes: with an error code, and for a read with what it
has read of a message, which after an error may be a part. -/
structure Outcome where
  errorCode : StreamCode
  message : Message := {}
  deriving DecidableEq, Repr

/-- An `async_write` of the `responseData` of one call of `on_read`. -/
structure Write where
  /-- The call whose variable the buffer points to. -/
  call : ℕ
  length : ℕ
  text : Bool
  /-- The bytes taken so far; `none` where there was nothing to take. -/
  taken : List (Option Char) := []
  deriving DecidableEq, Repr

/-- The operations of the stream. -/
inductive Operation
  | handshake
  | accept
  | read
  | write
  deriving DecidableEq, Repr

/-- An operation in flight. -/
inductive Pending
  | handshake
  | accept
  | read
  | write (write : Write)
  deriving DecidableEq, Repr

/-- Which operation it is. -/
def Pending.operation : Pending → Operation
  | .handshake => .handshake
  | .accept => .accept
  | .read => .read
  | .write _ => .write

/-- The operation can complete in this way. A write succeeds when its whole buffer
has been taken. -/
def Pending.Completes : Pending → Outcome → Prop
  | .write reply, outcome => outcome.errorCode.failed ∨ reply.taken.length = reply.length
  | _, _ => True

instance (pending : Pending) (outcome : Outcome) : Decidable (pending.Completes outcome) := by
  cases pending <;> unfold Pending.Completes <;> infer_instance

/-- What happens on a stream, as far as it concerns failures. -/
inductive Entry
  | started (op : Operation)
  | completed (op : Operation) (errorCode : StreamCode)
  | reported (what : Str) (errorCode : StreamCode)
  deriving DecidableEq, Repr

/-- `Session`, the operations in flight, and what has happened on the stream. -/
structure Session where
  /-- The member `buffer`. -/
  buffer : Str
  /-- `wsStream.got_text()` -/
  gotText : Bool
  /-- What `wsStream.text` has last been set to. -/
  text : Bool
  /-- The variable `responseData` of each call of `on_read`, while it lives. -/
  memory : ℕ → Option Str
  /-- The number of calls of `on_read` that got as far as this variable. -/
  calls : ℕ
  /-- The call that has not returned. -/
  running : Option ℕ
  /-- The operations in flight, oldest first. -/
  inFlight : List Pending
  history : List Entry
  /-- The messages that reads have brought. -/
  received : List Message
  /-- The messages that have been sent, with the bytes that were taken. -/
  sent : List (Bool × List (Option Char))

namespace Session

variable (session : Session)

/-! ## The handlers -/

/-- An operation is started. -/
def start (pending : Pending) : Session :=
  { session with
    inFlight := session.inFlight ++ [pending]
    history := session.history ++ [.started pending.operation] }

/-- `fail` -/
def fail (errorCode : StreamCode) (what : Str) : Session :=
  { session with history := session.history ++ [.reported what errorCode] }

/-- `Session::on_run` -/
def onRun : Session := session.start .handshake

/-- `Session::on_handshake` -/
def onHandshake (errorCode : StreamCode) : Session :=
  if errorCode.failed then session.fail errorCode "handshake".toList
  else session.start .accept

/-- `Session::do_read` -/
def doRead : Session := session.start .read

/-- `Session::on_accept` -/
def onAccept (errorCode : StreamCode) : Session :=
  if errorCode.failed then session.fail errorCode "accept".toList
  else session.doRead

/-- The end of `on_read`, up to and including the call of `async_write`. -/
def echo : Session :=
  let session := { session with text := session.gotText }
  let responseData := "[".toList ++ session.buffer ++ "]".toList
  let call := session.calls
  let session := { session with
    memory := Function.update session.memory call (some responseData)
    calls := call + 1
    running := some call }
  session.start (.write { call, length := responseData.length, text := session.text })

/-- `Session::on_read` -/
def onRead (errorCode : StreamCode) : Session :=
  -- This indicates that the session was closed.
  if errorCode = .closed then session
  else
    -- There is no `return` with this `fail`.
    let session := if errorCode.failed then session.fail errorCode "read".toList else session
    session.echo

/-- `Session::on_write` -/
def onWrite (errorCode : StreamCode) : Session :=
  if errorCode.failed then session.fail errorCode "write".toList
  else { session with buffer := [] }.doRead

/-! ## The stream -/

/-- A read completes: what it has read is in `buffer`. -/
def receive (outcome : Outcome) : Session :=
  { session with
    buffer := session.buffer ++ outcome.message.bytes
    gotText := outcome.message.text
    received :=
      if outcome.errorCode.failed then session.received
      else session.received ++ [outcome.message] }

/-- A write completes: unless it failed, its message has been sent. -/
def deliver (write : Write) (outcome : Outcome) : Session :=
  if outcome.errorCode.failed then session
  else { session with sent := session.sent ++ [(write.text, write.taken)] }

/-- The next `count` bytes that a write takes of its buffer. -/
def bytesAt (write : Write) (count : ℕ) : List (Option Char) :=
  match session.memory write.call with
  | some responseData => ((responseData.drop write.taken.length).take count).map some
  | none => List.replicate count none

/-- `pending` is over, and `rest` is still in flight. -/
def retire (pending : Pending) (rest : List Pending) (errorCode : StreamCode) : Session :=
  { session with
    inFlight := rest
    history := session.history ++ [.completed pending.operation errorCode] }

/-- The handler of an operation that has completed. -/
def handle (outcome : Outcome) : Pending → Session
  | .handshake => session.onHandshake outcome.errorCode
  | .accept => session.onAccept outcome.errorCode
  | .read => (session.receive outcome).onRead outcome.errorCode
  | .write write => (session.deliver write outcome).onWrite outcome.errorCode

/-- What can happen next. -/
inductive Event
  /-- The oldest operation in flight completes and its handler runs; `on_read`
  runs as far as its call of `async_write`. -/
  | complete (outcome : Outcome)
  /-- The stream takes the next `count` bytes of the buffer of a write. -/
  | transmit (count : ℕ)
  /-- `on_read` returns. -/
  | returns
  deriving DecidableEq, Repr

/-- One step. While a call of `on_read` runs, no other handler does. -/
def step (session : Session) : Event → Option Session
  | .complete outcome =>
    match session.running, session.inFlight with
    | none, pending :: rest =>
      if pending.Completes outcome then
        some ((session.retire pending rest outcome.errorCode).handle outcome pending)
      else none
    | _, _ => none
  | .transmit count =>
    match session.inFlight with
    | .write write :: rest =>
      if 0 < count ∧ write.taken.length + count ≤ write.length then
        some { session with
          inFlight := .write
            { write with taken := write.taken ++ session.bytesAt write count } :: rest }
      else none
    | _ => none
  | .returns =>
    session.running.map fun call =>
      -- The local variables of the call are gone.
      { session with
        memory := Function.update session.memory call none
        running := none }

/-- A session whose `run` has been called and has dispatched `on_run`. -/
def started : Session :=
  onRun
    { buffer := [], gotText := false, text := false, memory := fun _ => none, calls := 0,
      running := none, inFlight := [], history := [], received := [], sent := [] }

/-! ## What each step does -/

section Inversion

variable {session next : Session}

theorem step_complete {outcome : Outcome} (h : session.step (.complete outcome) = some next) :
    ∃ pending rest, session.running = none ∧ session.inFlight = pending :: rest ∧
      pending.Completes outcome ∧
      next = (session.retire pending rest outcome.errorCode).handle outcome pending := by
  rw [step] at h
  split at h
  · next pending rest hrunning hinFlight =>
    rw [Option.ite_none_right_eq_some] at h
    exact ⟨pending, rest, hrunning, hinFlight, h.1, (Option.some.inj h.2).symm⟩
  · exact nomatch h

theorem step_transmit {count : ℕ} (h : session.step (.transmit count) = some next) :
    ∃ write rest, session.inFlight = .write write :: rest ∧ 0 < count ∧
      write.taken.length + count ≤ write.length ∧
      next = { session with
        inFlight := .write
          { write with taken := write.taken ++ session.bytesAt write count } :: rest } := by
  rw [step] at h
  split at h
  · next write rest hinFlight =>
    rw [Option.ite_none_right_eq_some] at h
    exact ⟨write, rest, hinFlight, h.1.1, h.1.2, (Option.some.inj h.2).symm⟩
  · exact nomatch h

theorem step_returns (h : session.step .returns = some next) :
    ∃ call, session.running = some call ∧
      next = { session with
        memory := Function.update session.memory call none
        running := none } := by
  obtain ⟨call, hrunning, h⟩ := Option.map_eq_some_iff.mp h
  exact ⟨call, hrunning, h.symm⟩

end Inversion

end Session

end BoostProjects.Beast.WebSockets
