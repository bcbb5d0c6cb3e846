import BoostProjects.Beast.Http.HandleRequest

/-!
# The HTTPS sessions

Two programs serve one connection each: `do_session`, which blocks in every
operation, and the class `session`, which starts an operation and goes on in its
completion handler.

The outside world is a list of outcomes, one for each operation in the order
they complete. A blocking program is a function of that list, which returns what
it has done when the outcomes run out; the asynchronous one is a state with the
handlers of the operations in flight, and `complete` runs the next handler. Both
keep the same `Log`.
-/

namespace BoostProjects.Beast.Http

open Boost Cpp

/-! ## Operations on a request -/

/-- A default-constructed `http::request<http::string_body>`. -/
def Request.fresh : Request :=
  { method := .unknown, target := [], version := 11, fields := [], body := [] }

/-- `request.clear()`, which erases the header fields only. -/
def Request.clear (request : Request) : Request := { request with fields := [] }

/-- `http::read` of the request `received` into `request`: the start line is
set, the fields and the bytes of the body are appended. -/
def Request.read (request received : Request) : Request :=
  { method := received.method
    target := received.target
    version := received.version
    fields := request.fields ++ received.fields
    body := request.body ++ received.body }

/-! ## What a session does and meets -/

/-- What `handle_request` depends on besides its arguments. -/
structure World where
  platform : Platform
  files : FileSystem

/-- The response of `handle_request`. -/
def World.respond (world : World) (docRoot : Str) (request : Request) : Response :=
  (handleRequest world.platform world.files docRoot request).response

/-- How an operation completes: its error code, for a read that succeeds the
request that arrived, and the world in which the program goes on. -/
structure Outcome where
  errorCode : ErrorCode
  received : Request
  world : World

/-- An operation on the stream. -/
inductive Operation
  | handshake
  | read
  | write (response : Response)
  | shutdown
  deriving DecidableEq

/-- What a session has done so far: the operations it started, the requests it
gave to `handle_request`, and the lines `fail` has written. -/
structure Log where
  started : List Operation
  handled : List Request
  reported : List (Str × ErrorCode)

/-- Nothing has been done. -/
def Log.empty : Log := { started := [], handled := [], reported := [] }

namespace Log

/-- An operation is started. -/
def start (log : Log) (op : Operation) : Log := { log with started := log.started ++ [op] }

/-- A request is handed to `handle_request`. -/
def handle (log : Log) (request : Request) : Log :=
  { log with handled := log.handled ++ [request] }

/-- `fail` -/
def fail (log : Log) (errorCode : ErrorCode) (what : Str) : Log :=
  if errorCode = .streamTruncated then log
  else { log with reported := log.reported ++ [(what, errorCode)] }

end Log

/-! ## `HTTPS_Server_Sync::do_session` -/

namespace Sync

variable (docRoot : Str)

/-- The end of `do_session`, after its loop. -/
def shutdown (outcomes : List Outcome) (log : Log) : Log :=
  let log := log.start .shutdown
  match outcomes with
  -- The outcomes have run out, so the call has not returned.
  | [] => log
  | outcome :: _ =>
      if outcome.errorCode.failed then log.fail outcome.errorCode "shutdown".toList else log

/-- The loop of `do_session`. -/
def loop (outcomes : List Outcome) (log : Log) : Log :=
  let req := Request.fresh
  let log := log.start .read
  match outcomes with
  | [] => log
  | outcome :: rest =>
      if outcome.errorCode = .endOfStream then shutdown rest log
      else if outcome.errorCode.failed then log.fail outcome.errorCode "read".toList
      else
        let req := req.read outcome.received
        let log := log.handle req
        let message := outcome.world.respond docRoot req
        let keepAlive := message.header.keepAlive
        let log := log.start (.write message)
        match rest with
        | [] => log
        | outcome :: rest =>
            if outcome.errorCode.failed then log.fail outcome.errorCode "write".toList
            else if ! keepAlive then shutdown rest log
            else loop rest log

/-- `do_session`, as far as its operations have ended. -/
def doSession (outcomes : List Outcome) : Log :=
  let log := Log.empty.start .handshake
  match outcomes with
  | [] => log
  | outcome :: rest =>
      if outcome.errorCode.failed then log.fail outcome.errorCode "handshake".toList
      else loop docRoot rest log

end Sync

/-! ## `HTTPS_Server_ASync::session` -/

namespace ASync

/-- A completion handler with what is bound into it. -/
inductive Handler
  | onHandshake
  | onRead
  | onWrite (keepAlive : Bool)
  | onShutdown
  deriving DecidableEq

/-- The session with the handlers of its operations in flight, oldest first. -/
structure Session where
  docRoot : Str
  request : Request
  inFlight : List Handler
  log : Log

namespace Session

variable (session : Session)

/-- An operation is started, and its handler waits for it. -/
def start (op : Operation) (handler : Handler) : Session :=
  { session with log := session.log.start op, inFlight := session.inFlight ++ [handler] }

/-- `fail` -/
def fail (errorCode : ErrorCode) (what : Str) : Session :=
  { session with log := session.log.fail errorCode what }

/-- `session::do_read` -/
def doRead : Session :=
  let session := { session with request := session.request.clear }
  session.start .read .onRead

/-- `session::do_close` -/
def doClose : Session := session.start .shutdown .onShutdown

/-- `session::send_response` -/
def sendResponse (message : Response) : Session :=
  session.start (.write message) (.onWrite message.header.keepAlive)

/-- `session::on_run` -/
def onRun : Session := session.start .handshake .onHandshake

/-- `session::on_handshake` -/
def onHandshake (outcome : Outcome) : Session :=
  if outcome.errorCode.failed then session.fail outcome.errorCode "handshake".toList
  else session.doRead

/-- `handle_request` takes the request by rvalue reference and leaves it as it
is. -/
def onRead (outcome : Outcome) : Session :=
  if outcome.errorCode = .endOfStream then session.doClose
  else if outcome.errorCode.failed then session.fail outcome.errorCode "read".toList
  else
    let message := outcome.world.respond session.docRoot session.request
    -- `std::move(request)` is only a cast: the body stays in the member.
    let session := { session with log := session.log.handle session.request }
    session.sendResponse message

/-- `session::on_write` -/
def onWrite (keepAlive : Bool) (outcome : Outcome) : Session :=
  if outcome.errorCode.failed then session.fail outcome.errorCode "write".toList
  else if ! keepAlive then session.doClose
  else session.doRead

/-- `session::on_shutdown` -/
def onShutdown (outcome : Outcome) : Session :=
  if outcome.errorCode.failed then session.fail outcome.errorCode "shutdown".toList
  else session

/-- `http::async_read` completes: what it has read is in the request. -/
def received (outcome : Outcome) : Session :=
  if outcome.errorCode.failed then session
  else { session with request := session.request.read outcome.received }

/-- The oldest operation in flight completes and its handler runs. -/
def complete (outcome : Outcome) : Session :=
  match session.inFlight with
  | [] => session
  | handler :: rest =>
      -- The operation is over when its handler runs, and may be started again.
      let session := { session with inFlight := rest }
      match handler with
      | .onHandshake => session.onHandshake outcome
      | .onRead => (session.received outcome).onRead outcome
      | .onWrite keepAlive => session.onWrite keepAlive outcome
      | .onShutdown => session.onShutdown outcome

end Session

/-- A session whose `run` has been called and has dispatched `on_run`. -/
def started (docRoot : Str) : Session :=
  Session.onRun { docRoot, request := .fresh, inFlight := [], log := .empty }

/-- The session after the given outcomes. -/
def after (docRoot : Str) (outcomes : List Outcome) : Session :=
  outcomes.foldl Session.complete (started docRoot)

end ASync

end BoostProjects.Beast.Http
