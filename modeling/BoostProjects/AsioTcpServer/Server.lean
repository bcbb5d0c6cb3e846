import BoostProjects.AsioTcpServer.Session
import BoostProjects.Library.Transition
import Mathlib.Algebra.Ring.Nat
import Mathlib.Data.List.FinRange

/-!
# The accept loop and its pool of sessions

The server keeps its sessions in the slots of a fixed array. An accept in flight
has taken a slot for the session it will start; its handler starts the session
or releases the slot, and then takes the next free slot for the next accept.
The sessions then live on in their slots, each with its own operations.
-/

namespace BoostProjects.AsioTcpServer

open Boost Memory

/-- `MAX_SESSIONS` -/
def maxSessions : ℕ := 128

instance : NeZero maxSessions := ⟨by decide⟩

/-- A `Session*` into the pool. -/
abbrev Slot := Fin maxSessions

/-- An `async_accept` into the socket of the session in `slot`. -/
structure AcceptOp where
  slot : Slot
  result : Option ErrorCode := none
  deriving DecidableEq, Repr

/-- `Server`, with the operations that Asio holds for it. -/
structure Server where
  /-- The array `sessions` of the pool. -/
  slots : Slot → Option Session
  /-- What Asio holds for the socket in each slot. -/
  io : Slot → SocketIo
  accepts : List AcceptOp

namespace Server

/-- Run a handler of the session in `slot`. A slot that has been released has no
session for it to act on. -/
def withSession (slot : Slot) (handler : Connection → Connection) (server : Server) : Server :=
  match server.slots slot with
  | some session =>
    let conn := handler { session, io := server.io slot }
    { server with
      slots := Function.update server.slots slot (some conn.session)
      io := Function.update server.io slot conn.io }
  | none => server

/-- The storage of the slots: what the arrays of a session emplaced there hold
before anything is written to them. -/
structure Storage where
  rx : Slot → Cells Byte rxSize
  tx : Slot → Cells Byte txSize

variable (storage : Storage)

/-- `SessionPool::acquire`: a new session, with a new socket, in the first free
slot. -/
def acquire (server : Server) : Server × Option Slot :=
  match (List.finRange maxSessions).find? fun slot => (server.slots slot).isNone with
  | some slot =>
    -- The handlers of the slot's last socket are still queued.
    ({ server with
        slots := Function.update server.slots slot
          (some { socketOpen := false, rx := storage.rx slot, tx := storage.tx slot })
        io := Function.update server.io slot
          { reads := (server.io slot).reads, writes := (server.io slot).writes } },
      some slot)
  | none => (server, none)

/-- `SessionPool::release` -/
def release (slot : Slot) (server : Server) : Server :=
  { server with slots := Function.update server.slots slot none }

/-- `Server::do_accept` -/
def doAccept (server : Server) : Server :=
  match server.acquire storage with
  | (server, some slot) => { server with accepts := server.accepts ++ [{ slot }] }
  -- The pool is exhausted: no accept is started, now or later.
  | (server, none) => server

/-- The handler given to `async_accept`. -/
def acceptHandler (slot : Slot) (ec : ErrorCode) (server : Server) : Server :=
  doAccept storage <|
    if ec.failed then server.release slot else server.withSession slot Connection.start

/-- What can happen next: an accept completes, its handler runs, or one session
makes a step of its own. -/
inductive Event
  | acceptCompletes (op : ℕ) (ec : ErrorCode)
  | runAccept (op : ℕ)
  | session (slot : Slot) (event : Connection.Event)
  deriving DecidableEq, Repr

/-- An accept that succeeds leaves the socket of its session connected. -/
def connect (slot : Slot) (ec : ErrorCode) (server : Server) : Server :=
  if ec.failed then server
  else server.withSession slot fun conn =>
    { conn with session := { conn.session with socketOpen := true } }

/-- One step of the server: an accept completes, its handler runs, or a session goes on. -/
def step (server : Server) : Event → Option Server
  | .acceptCompletes op ec =>
    server.accepts[op]?.bind fun accept =>
      if accept.result = none then
        some (connect accept.slot ec { server with
          accepts := server.accepts.set op { accept with result := some ec } })
      else none
  | .runAccept op =>
    server.accepts[op]?.bind fun accept => accept.result.map fun ec =>
      acceptHandler storage accept.slot ec
        { server with accepts := server.accepts.eraseIdx op }
  | .session slot event =>
    (server.slots slot).bind fun session =>
      (Connection.step { session, io := server.io slot } event).map fun conn =>
        { server with
          slots := Function.update server.slots slot (some conn.session)
          io := Function.update server.io slot conn.io }

/-- The server after `Server::start`. -/
def started : Server :=
  doAccept storage { slots := fun _ => none, io := fun _ => {}, accepts := [] }

end Server

end BoostProjects.AsioTcpServer
