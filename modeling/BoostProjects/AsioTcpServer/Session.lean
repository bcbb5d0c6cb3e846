import BoostProjects.Boost.ErrorCode
import BoostProjects.Library.Lists
import BoostProjects.Library.Memory

/-!
# One session of the TCP server

`Session` is the object: its socket, its two arrays and their fill counts.
`SocketIo` is what Asio holds for that socket: the operations in flight, each
with its result once it has one, and the bytes that have crossed the wire in
each direction. A `Connection` is the two together, and the handlers of the
source are functions on it.

A handler runs to its end, as the single thread of the `io_context` makes it do.
Between two handlers the system fills `rx` for a pending read and sends part of
`tx` for a pending write, reading `tx` as it is at that moment. Every pending
write may be served next, so two writes may interleave.
-/

namespace BoostProjects.AsioTcpServer

open Boost Memory

/-- A `char` of the buffers. -/
abbrev Byte := UInt8

/-- `RX_SIZE` -/
def rxSize : ℕ := 4096

/-- `TX_SIZE` -/
def txSize : ℕ := 4096

/-- The members of a `Session`. The arrays have no initializer, so a new session
holds whatever their storage held. -/
structure Session where
  /-- The socket is open: accepted and not closed. -/
  socketOpen : Bool
  rx : Cells Byte rxSize
  tx : Cells Byte txSize
  rxUsed : ℕ := 0
  txUsed : ℕ := 0

/-- An `async_read_some` into `rx` from `offset` on, with what its handler will
be given once it has completed. -/
structure ReadOp where
  offset : ℕ
  length : ℕ
  result : Option (ErrorCode × ℕ) := none
  deriving DecidableEq, Repr

/-- An `async_write` of the first `length` cells of `tx`, of which `sent` have
been transmitted. -/
structure WriteOp where
  length : ℕ
  sent : ℕ := 0
  error : ErrorCode := .success
  deriving DecidableEq, Repr

/-- Nothing of the buffer is left to transmit. -/
def WriteOp.Spent (write : WriteOp) : Prop := write.sent = write.length

instance (write : WriteOp) : Decidable write.Spent := inferInstanceAs (Decidable (_ = _))

/-- The calls a session makes on its socket. -/
inductive Call
  | asyncReadSome (offset length : ℕ)
  | asyncWrite (length : ℕ)
  | close
  deriving DecidableEq, Repr

/-- What Asio holds for the socket of one session. -/
structure SocketIo where
  reads : List ReadOp := []
  writes : List WriteOp := []
  /-- The bytes received from the peer so far. -/
  received : List Byte := []
  /-- The bytes sent to the peer so far. -/
  sent : List Byte := []
  /-- The calls made on the socket so far. -/
  calls : List Call := []
  deriving DecidableEq, Repr

/-- A session and what Asio holds for its socket. -/
structure Connection where
  session : Session
  io : SocketIo

namespace Connection

/-- `socket.async_read_some`, into `rx` from `offset` on. -/
def asyncReadSome (offset length : ℕ) (conn : Connection) : Connection :=
  { conn with io := { conn.io with
      reads := conn.io.reads ++ [{ offset, length }]
      calls := conn.io.calls ++ [.asyncReadSome offset length] } }

/-- `async_write` of the first bytes of `tx`. -/
def asyncWrite (length : ℕ) (conn : Connection) : Connection :=
  { conn with io := { conn.io with
      writes := conn.io.writes ++ [{ length }]
      calls := conn.io.calls ++ [.asyncWrite length] } }

/-! ## The handlers -/

/-- `Session::do_read` -/
def doRead (conn : Connection) : Connection :=
  conn.asyncReadSome conn.session.rxUsed (rxSize - conn.session.rxUsed)

/-- `Session::start` -/
def start (conn : Connection) : Connection := conn.doRead

/-- `Session::do_write` -/
def doWrite (conn : Connection) : Connection := conn.asyncWrite conn.session.txUsed

/-- `Session::on_data` -/
def onData (conn : Connection) : Connection :=
  doWrite { conn with session := { conn.session with
    tx := conn.session.tx.store 0 (conn.session.rx.slice 0 conn.session.rxUsed)
    txUsed := conn.session.rxUsed
    rxUsed := 0 } }

/-- `Session::close`: the operations still pending can then only fail. -/
def close (conn : Connection) : Connection :=
  { session := { conn.session with socketOpen := false }
    io := { conn.io with calls := conn.io.calls ++ [.close] } }

/-- The handler given to `async_read_some`. -/
def readHandler (ec : ErrorCode) (n : ℕ) (conn : Connection) : Connection :=
  if ec.failed then conn.close
  else
    let conn := { conn with session := { conn.session with rxUsed := conn.session.rxUsed + n } }
    -- The next read is started without waiting for the write of this one.
    conn.onData.doRead

theorem readHandler_of_failed {ec : ErrorCode} (h : ec.failed) (n : ℕ) (conn : Connection) :
    readHandler ec n conn = conn.close := by
  rw [readHandler, if_pos h]

/-- A successful read is copied to `tx`, a write of it is started, and the next
read fills `rx` from its start. -/
theorem readHandler_success (n : ℕ) (conn : Connection) :
    readHandler .success n conn = {
      session := { conn.session with
        tx := conn.session.tx.store 0 (conn.session.rx.slice 0 (conn.session.rxUsed + n))
        txUsed := conn.session.rxUsed + n
        rxUsed := 0 }
      io := { conn.io with
        reads := conn.io.reads ++ [{ offset := 0, length := rxSize }]
        writes := conn.io.writes ++ [{ length := conn.session.rxUsed + n }]
        calls := conn.io.calls ++ [.asyncWrite (conn.session.rxUsed + n)] ++
          [.asyncReadSome 0 rxSize] } } := rfl

/-- The handler given to `async_write`. -/
def writeHandler (ec : ErrorCode) (conn : Connection) : Connection :=
  if ec.failed then conn.close else conn

/-! ## The steps -/

/-- What can happen next on a connection. Operations are named by their position
among those in flight, so any of them may be the next to make progress. -/
inductive Event
  /-- The pending read `op` completes with these bytes. -/
  | receive (op : ℕ) (bytes : List Byte)
  /-- The pending read `op` completes with an error. -/
  | failRead (op : ℕ) (ec : ErrorCode)
  /-- The pending write `op` transmits its next `count` bytes. -/
  | transmit (op count : ℕ)
  /-- The pending write `op` fails. -/
  | failWrite (op : ℕ) (ec : ErrorCode)
  /-- The handler of the completed read `op` runs. -/
  | runRead (op : ℕ)
  /-- The handler of the completed write `op` runs. -/
  | runWrite (op : ℕ)
  deriving DecidableEq, Repr

/-- One step of a connection: bytes are moved, or a handler is run. -/
def step (conn : Connection) : Event → Option Connection
  | .receive op bytes =>
    -- The bytes are in `rx` before the handler hears of them.
    conn.io.reads[op]?.bind fun read =>
      if conn.session.socketOpen ∧ read.result = none ∧ bytes ≠ [] ∧
          bytes.length ≤ read.length then
        some {
          session := { conn.session with rx := conn.session.rx.store read.offset bytes }
          io := { conn.io with
            reads := conn.io.reads.set op { read with result := some (.success, bytes.length) }
            received := conn.io.received ++ bytes } }
      else none
  | .failRead op ec =>
    conn.io.reads[op]?.bind fun read =>
      -- A read that has its bytes can no longer fail.
      if read.result = none ∧ ec.failed then
        some { conn with io := { conn.io with
          reads := conn.io.reads.set op { read with result := some (ec, 0) } } }
      else none
  | .transmit op count =>
    -- What is sent is in `tx` now, not when the write was started.
    conn.io.writes[op]?.bind fun write =>
      if conn.session.socketOpen ∧ write.error = .success ∧ 0 < count ∧
          write.sent + count ≤ write.length then
        some { conn with io := { conn.io with
          writes := conn.io.writes.set op { write with sent := write.sent + count }
          sent := conn.io.sent ++ conn.session.tx.slice write.sent count } }
      else none
  | .failWrite op ec =>
    conn.io.writes[op]?.bind fun write =>
      -- A write that has sent its whole buffer has succeeded.
      if ¬ write.Spent ∧ write.error = .success ∧ ec.failed then
        some { conn with io := { conn.io with
          writes := conn.io.writes.set op { write with error := ec } } }
      else none
  | .runRead op =>
    -- Any completed operation may be the next whose handler runs.
    conn.io.reads[op]?.bind fun read => read.result.map fun result =>
      readHandler result.1 result.2
        { conn with io := { conn.io with reads := conn.io.reads.eraseIdx op } }
  | .runWrite op =>
    conn.io.writes[op]?.bind fun write =>
      -- Part of the buffer does not complete the write.
      if write.Spent ∨ write.error.failed then
        some (writeHandler write.error
          { conn with io := { conn.io with writes := conn.io.writes.eraseIdx op } })
      else none

/-! ## What each step does -/

section Inversion

variable {conn next : Connection} {op : ℕ}

theorem step_receive {bytes : List Byte} (h : conn.step (.receive op bytes) = some next) :
    ∃ before read after, conn.io.reads = before ++ read :: after ∧
      conn.session.socketOpen ∧ read.result = none ∧ bytes ≠ [] ∧
      bytes.length ≤ read.length ∧
      next = {
        session := { conn.session with rx := conn.session.rx.store read.offset bytes }
        io := { conn.io with
          reads := before ++ { read with result := some (.success, bytes.length) } :: after
          received := conn.io.received ++ bytes } } := by
  obtain ⟨before, read, after, hsplit, rfl, h⟩ := Lists.exists_split_of_bind h
  rw [Option.ite_none_right_eq_some] at h
  obtain ⟨⟨hopen, hnone, hne, hle⟩, h⟩ := h
  refine ⟨before, read, after, hsplit, hopen, hnone, hne, hle, ?_⟩
  rw [← Option.some.inj h, hsplit, Lists.set_split]

theorem step_failRead {ec : ErrorCode} (h : conn.step (.failRead op ec) = some next) :
    ∃ before read after, conn.io.reads = before ++ read :: after ∧
      read.result = none ∧ ec.failed ∧
      next = { conn with io := { conn.io with
        reads := before ++ { read with result := some (ec, 0) } :: after } } := by
  obtain ⟨before, read, after, hsplit, rfl, h⟩ := Lists.exists_split_of_bind h
  rw [Option.ite_none_right_eq_some] at h
  obtain ⟨⟨hnone, hfailed⟩, h⟩ := h
  refine ⟨before, read, after, hsplit, hnone, hfailed, ?_⟩
  rw [← Option.some.inj h, hsplit, Lists.set_split]

theorem step_transmit {count : ℕ} (h : conn.step (.transmit op count) = some next) :
    ∃ before write after, conn.io.writes = before ++ write :: after ∧
      conn.session.socketOpen ∧ write.error = .success ∧ 0 < count ∧
      write.sent + count ≤ write.length ∧
      next = { conn with io := { conn.io with
        writes := before ++ { write with sent := write.sent + count } :: after
        sent := conn.io.sent ++ conn.session.tx.slice write.sent count } } := by
  obtain ⟨before, write, after, hsplit, rfl, h⟩ := Lists.exists_split_of_bind h
  rw [Option.ite_none_right_eq_some] at h
  obtain ⟨⟨hopen, herror, hpos, hle⟩, h⟩ := h
  refine ⟨before, write, after, hsplit, hopen, herror, hpos, hle, ?_⟩
  rw [← Option.some.inj h, hsplit, Lists.set_split]

theorem step_failWrite {ec : ErrorCode} (h : conn.step (.failWrite op ec) = some next) :
    ∃ before write after, conn.io.writes = before ++ write :: after ∧
      ¬ write.Spent ∧ write.error = .success ∧ ec.failed ∧
      next = { conn with io := { conn.io with
        writes := before ++ { write with error := ec } :: after } } := by
  obtain ⟨before, write, after, hsplit, rfl, h⟩ := Lists.exists_split_of_bind h
  rw [Option.ite_none_right_eq_some] at h
  obtain ⟨⟨hspent, herror, hfailed⟩, h⟩ := h
  refine ⟨before, write, after, hsplit, hspent, herror, hfailed, ?_⟩
  rw [← Option.some.inj h, hsplit, Lists.set_split]

theorem step_runRead (h : conn.step (.runRead op) = some next) :
    ∃ before read after ec n, conn.io.reads = before ++ read :: after ∧
      before.length = op ∧ read.result = some (ec, n) ∧
      next = readHandler ec n { conn with io := { conn.io with reads := before ++ after } } := by
  obtain ⟨before, read, after, hsplit, rfl, h⟩ := Lists.exists_split_of_bind h
  obtain ⟨⟨ec, n⟩, hresult, h⟩ := Option.map_eq_some_iff.mp h
  refine ⟨before, read, after, ec, n, hsplit, rfl, hresult, ?_⟩
  rw [← h, hsplit, Lists.eraseIdx_split]

theorem step_runWrite (h : conn.step (.runWrite op) = some next) :
    ∃ before write after, conn.io.writes = before ++ write :: after ∧
      before.length = op ∧ (write.Spent ∨ write.error.failed) ∧
      next = writeHandler write.error
        { conn with io := { conn.io with writes := before ++ after } } := by
  obtain ⟨before, write, after, hsplit, rfl, h⟩ := Lists.exists_split_of_bind h
  rw [Option.ite_none_right_eq_some] at h
  obtain ⟨hdone, h⟩ := h
  refine ⟨before, write, after, hsplit, rfl, hdone, ?_⟩
  rw [← Option.some.inj h, hsplit, Lists.eraseIdx_split]

/-- Only the handlers call the socket. -/
theorem frame_step {event : Event} (h : conn.step event = some next)
    (hread : ∀ op, event ≠ .runRead op) (hwrite : ∀ op, event ≠ .runWrite op) :
    next.io.calls = conn.io.calls ∧ next.session.socketOpen = conn.session.socketOpen := by
  cases event with
  | receive op bytes =>
    obtain ⟨before, read, after, -, -, -, -, -, rfl⟩ := step_receive h
    exact ⟨rfl, rfl⟩
  | failRead op ec =>
    obtain ⟨before, read, after, -, -, -, rfl⟩ := step_failRead h
    exact ⟨rfl, rfl⟩
  | transmit op count =>
    obtain ⟨before, write, after, -, -, -, -, -, rfl⟩ := step_transmit h
    exact ⟨rfl, rfl⟩
  | failWrite op ec =>
    obtain ⟨before, write, after, -, -, -, -, rfl⟩ := step_failWrite h
    exact ⟨rfl, rfl⟩
  | runRead op => exact absurd rfl (hread op)
  | runWrite op => exact absurd rfl (hwrite op)

end Inversion

/-! ## How a connection ends -/

/-- The socket is open and `close` has not run. -/
def Live (conn : Connection) : Prop :=
  conn.session.socketOpen ∧ Call.close ∉ conn.io.calls

/-- The event runs a read or write handler with an error, as it does at the end
of the peer's stream. -/
def Ends (conn : Connection) : Event → Prop
  | .runRead op =>
    ∃ read ec n, conn.io.reads[op]? = some read ∧ read.result = some (ec, n) ∧ ec.failed
  | .runWrite op => ∃ write, conn.io.writes[op]? = some write ∧ write.error.failed
  | _ => False

theorem not_live_close (conn : Connection) : ¬ conn.close.Live := by
  simp [Live, close]

/-- A live connection stays live until one of its handlers is given an error. -/
theorem Live.step_iff {conn next : Connection} {event : Event} (h : conn.Live)
    (hstep : conn.step event = some next) : next.Live ↔ ¬ conn.Ends event := by
  cases event with
  | runRead op =>
    obtain ⟨before, read, after, ec, n, hreads, rfl, hresult, rfl⟩ := step_runRead hstep
    have hends : conn.Ends (.runRead before.length) ↔ ec.failed := by
      simp [Ends, hreads, hresult]
    rw [hends]
    rcases ec.failed_or_eq_success with hfailed | rfl
    · rw [readHandler_of_failed hfailed]
      exact iff_of_false (not_live_close _) (not_not_intro hfailed)
    -- A success starts a write and the next read, and closes nothing.
    · rw [readHandler_success]
      refine iff_of_true ⟨h.1, ?_⟩ Bool.false_ne_true
      simpa using h.2
  | runWrite op =>
    obtain ⟨before, write, after, hwrites, rfl, -, rfl⟩ := step_runWrite hstep
    have hends : conn.Ends (.runWrite before.length) ↔ write.error.failed := by
      simp [Ends, hwrites]
    rw [hends, writeHandler]
    split_ifs with hfailed
    · exact iff_of_false (not_live_close _) (not_not_intro hfailed)
    · exact iff_of_true h hfailed
  | _ =>
    obtain ⟨hcalls, hopen⟩ := frame_step hstep (by simp) (by simp)
    refine iff_of_true ?_ not_false
    rwa [Live, hopen, hcalls]

/-- Nothing can happen on a connection with no operation in flight. -/
theorem step_eq_none {conn : Connection} (hreads : conn.io.reads = [])
    (hwrites : conn.io.writes = []) (event : Event) : conn.step event = none := by
  cases event <;> simp [step, hreads, hwrites]

/-- A connection just accepted, with its session started. -/
def accepted (rx : Cells Byte rxSize) (tx : Cells Byte txSize) : Connection :=
  start { session := { socketOpen := true, rx, tx }, io := {} }

end Connection

end BoostProjects.AsioTcpServer
