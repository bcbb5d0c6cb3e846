import BoostProjects.Beast.Http.Session
import BoostProjects.Library.Dialogue

/-!
# The connection protocol of the HTTPS sessions

The protocol, as a dialogue: `next` says for each operation and its outcome
which operation follows. `do_session` and the class `session` both follow it, so
for every list of outcomes they start the same operations, down to the responses
they write, and report the same failures.

`Protocol` is what a reader wants to know of the operations started; each of its
fields is a case of the dialogue.
-/

namespace BoostProjects.Beast.Http

open Boost Cpp Dialogue

variable {docRoot : Str}

/-- The operation that follows an operation with its outcome. -/
def next (docRoot : Str) : Operation → Outcome → Option Operation
  | .handshake, outcome => if outcome.errorCode.failed then none else some .read
  | .read, outcome =>
      if outcome.errorCode = .endOfStream then some .shutdown
      else if outcome.errorCode.failed then none
      else some (.write (outcome.world.respond docRoot outcome.received))
  | .write response, outcome =>
      if outcome.errorCode.failed then none
      else if response.header.keepAlive then some .read
      else some .shutdown
  | .shutdown, _ => none

/-- What `fail` is told the operation is. -/
def Operation.what : Operation → Str
  | .handshake => "handshake".toList
  | .read => "read".toList
  | .write _ => "write".toList
  | .shutdown => "shutdown".toList

/-- The request that an operation with its outcome brings. -/
def arrived : Operation → Outcome → Option Request
  | .read, outcome => if outcome.errorCode.failed then none else some outcome.received
  | _, _ => none

/-- The line that an operation with its outcome has written. -/
def report (op : Operation) (outcome : Outcome) : Option (Str × ErrorCode) :=
  if outcome.errorCode.failed = true ∧ outcome.errorCode ≠ .streamTruncated ∧
      ¬ (op = .read ∧ outcome.errorCode = .endOfStream) then
    some (op.what, outcome.errorCode)
  else none

/-- The five ways on from an operation. -/
inductive Leads (docRoot : Str) : Operation → Outcome → Operation → Prop
  | handshaken {outcome : Outcome} (success : outcome.errorCode = .success) :
      Leads docRoot .handshake outcome .read
  | endOfStream {outcome : Outcome} (endOfStream : outcome.errorCode = .endOfStream) :
      Leads docRoot .read outcome .shutdown
  | answered {outcome : Outcome} (success : outcome.errorCode = .success) :
      Leads docRoot .read outcome (.write (outcome.world.respond docRoot outcome.received))
  | keptAlive {response : Response} {outcome : Outcome} (success : outcome.errorCode = .success)
      (keepAlive : response.header.keepAlive = true) :
      Leads docRoot (.write response) outcome .read
  | closed {response : Response} {outcome : Outcome} (success : outcome.errorCode = .success)
      (keepAlive : response.header.keepAlive = false) :
      Leads docRoot (.write response) outcome .shutdown

section Next

variable {outcome : Outcome}

theorem next_of_failed (op : Operation) (h : outcome.errorCode.failed = true)
    (hread : op = .read → outcome.errorCode ≠ .endOfStream) : next docRoot op outcome = none := by
  cases op with
  | read => rw [next, if_neg (hread rfl), if_pos h]
  | handshake | write => rw [next, if_pos h]
  | shutdown => rfl

theorem next_handshake_of_success (h : ¬ outcome.errorCode.failed = true) :
    next docRoot .handshake outcome = some .read :=
  if_neg h

theorem next_read_of_endOfStream (h : outcome.errorCode = .endOfStream) :
    next docRoot .read outcome = some .shutdown :=
  if_pos h

theorem next_read_of_success (h : ¬ outcome.errorCode.failed = true) :
    next docRoot .read outcome =
      some (.write (outcome.world.respond docRoot outcome.received)) := by
  have heof : outcome.errorCode ≠ .endOfStream := by
    intro heof
    rw [heof] at h
    exact h rfl
  rw [next, if_neg heof, if_neg h]

theorem next_write_of_keepAlive {response : Response} (h : ¬ outcome.errorCode.failed = true)
    (hkeep : response.header.keepAlive = true) :
    next docRoot (.write response) outcome = some .read := by
  rw [next, if_neg h, if_pos hkeep]

theorem next_write_of_not_keepAlive {response : Response} (h : ¬ outcome.errorCode.failed = true)
    (hkeep : ¬ response.header.keepAlive = true) :
    next docRoot (.write response) outcome = some .shutdown := by
  rw [next, if_neg h, if_neg hkeep]

theorem leads_of_next {op op' : Operation} (h : next docRoot op outcome = some op') :
    Leads docRoot op outcome op' := by
  by_cases hfailed : outcome.errorCode.failed = true
  -- Of all errors, only the end of the stream leads anywhere.
  · by_cases heof : op = .read ∧ outcome.errorCode = .endOfStream
    · obtain ⟨rfl, heof⟩ := heof
      rw [next_read_of_endOfStream heof] at h
      obtain rfl := Option.some.inj h
      exact .endOfStream heof
    · rw [next_of_failed op hfailed fun hread hcode => heof ⟨hread, hcode⟩] at h
      exact nomatch h
  · have hsuccess := outcome.errorCode.failed_or_eq_success.resolve_left hfailed
    cases op with
    | handshake =>
      rw [next_handshake_of_success hfailed] at h
      obtain rfl := Option.some.inj h
      exact .handshaken hsuccess
    | read =>
      rw [next_read_of_success hfailed] at h
      obtain rfl := Option.some.inj h
      exact .answered hsuccess
    | write response =>
      by_cases hkeep : response.header.keepAlive = true
      · rw [next_write_of_keepAlive hfailed hkeep] at h
        obtain rfl := Option.some.inj h
        exact .keptAlive hsuccess hkeep
      · rw [next_write_of_not_keepAlive hfailed hkeep] at h
        obtain rfl := Option.some.inj h
        exact .closed hsuccess (Bool.eq_false_iff.mpr hkeep)
    | shutdown => exact nomatch h

theorem arrived_of_failed (op : Operation) (h : outcome.errorCode.failed = true) :
    arrived op outcome = none := by
  cases op with
  | read => exact if_pos h
  | handshake | write | shutdown => rfl

theorem arrived_read_of_success (h : ¬ outcome.errorCode.failed = true) :
    arrived .read outcome = some outcome.received :=
  if_neg h

theorem arrived_of_ne_read (op : Operation) (h : op ≠ .read) : arrived op outcome = none := by
  cases op with
  | read => exact absurd rfl h
  | handshake | write | shutdown => rfl

theorem report_of_success (op : Operation) (h : ¬ outcome.errorCode.failed = true) :
    report op outcome = none :=
  if_neg fun hreport => h hreport.1

end Next

/-- `handle_request` does not look at the body of the request. -/
theorem World.respond_eq (world : World) (docRoot : Str) (request : Request) (body : Str) :
    world.respond docRoot { request with body } = world.respond docRoot request := rfl

/-! ## The blocking session -/

namespace Log

/-- The log after an operation has completed and a request, if one has arrived,
has been handled. -/
def settle (log : Log) (op : Operation) (outcome : Outcome) (request : Option Request) : Log :=
  { log with
    handled := log.handled ++ request.toList
    reported := log.reported ++ (report op outcome).toList }

/-- The log of a dialogue that goes on with `op`. -/
def followed (docRoot : Str) (log : Log) (op : Operation) (outcomes : List Outcome) : Log :=
  { started := log.started ++ trace (next docRoot) op outcomes
    handled := log.handled ++ emitted (next docRoot) arrived op outcomes
    reported := log.reported ++ emitted (next docRoot) report op outcomes }

variable (log : Log) {op op' : Operation} {outcome : Outcome} {rest : List Outcome}

theorem followed_nil : log.followed docRoot op [] = log.start op := by
  simp [followed, start]

theorem followed_cons_of_some (h : next docRoot op outcome = some op') :
    log.followed docRoot op (outcome :: rest) =
      ((log.start op).settle op outcome (arrived op outcome)).followed docRoot op' rest := by
  simp [followed, settle, start, trace_cons_of_some h, emitted_cons_of_some h]

theorem followed_cons_of_none (h : next docRoot op outcome = none) :
    log.followed docRoot op (outcome :: rest) =
      (log.start op).settle op outcome (arrived op outcome) := by
  simp [followed, settle, start, trace_cons_of_none h, emitted_cons_of_none h]

theorem settle_of_failed (op : Operation) (hfailed : outcome.errorCode.failed = true)
    (hread : op = .read → outcome.errorCode ≠ .endOfStream) :
    log.settle op outcome none = log.fail outcome.errorCode op.what := by
  unfold settle report fail
  by_cases htruncated : outcome.errorCode = .streamTruncated
  · simp [htruncated]
  · have hreport : ¬ (op = .read ∧ outcome.errorCode = .endOfStream) := fun h => hread h.1 h.2
    simp [htruncated, hfailed, hreport]

theorem settle_of_endOfStream (h : outcome.errorCode = .endOfStream) :
    log.settle .read outcome none = log := by
  simp [settle, report, h]

theorem settle_of_success (op : Operation) (h : ¬ outcome.errorCode.failed = true) :
    log.settle op outcome none = log := by
  simp [settle, report_of_success op h]

theorem settle_some_of_success (op : Operation) (h : ¬ outcome.errorCode.failed = true)
    (request : Request) : log.settle op outcome (some request) = log.handle request := by
  simp [settle, report_of_success op h, handle]

/-- A failure that stops the session is reported, and nothing follows. -/
theorem followed_of_failed (op : Operation) (hfailed : outcome.errorCode.failed = true)
    (hread : op = .read → outcome.errorCode ≠ .endOfStream) :
    log.followed docRoot op (outcome :: rest) =
      (log.start op).fail outcome.errorCode op.what := by
  rw [log.followed_cons_of_none (next_of_failed op hfailed hread), arrived_of_failed op hfailed,
    settle_of_failed _ op hfailed hread]

/-- A request that was read is handled and answered. -/
theorem followed_read_of_success (hread : ¬ outcome.errorCode.failed = true) :
    log.followed docRoot .read (outcome :: rest) =
      ((log.start .read).handle outcome.received).followed docRoot
        (.write (outcome.world.respond docRoot outcome.received)) rest := by
  rw [log.followed_cons_of_some (next_read_of_success hread), arrived_read_of_success hread,
    settle_some_of_success _ .read hread]

/-- Any other success leaves nothing in the log but what was started. -/
theorem followed_of_success (op : Operation) (hop : op ≠ .read)
    (hsuccess : ¬ outcome.errorCode.failed = true) (hnext : next docRoot op outcome = some op') :
    log.followed docRoot op (outcome :: rest) =
      (log.start op).followed docRoot op' rest := by
  rw [log.followed_cons_of_some hnext, arrived_of_ne_read op hop, settle_of_success _ op hsuccess]

end Log

namespace Sync

theorem shutdown_eq (outcomes : List Outcome) (log : Log) :
    shutdown outcomes log = log.followed docRoot .shutdown outcomes := by
  cases outcomes with
  | nil => exact (log.followed_nil).symm
  | cons outcome rest =>
    rw [log.followed_cons_of_none rfl, shutdown]
    by_cases hfailed : outcome.errorCode.failed = true
    · rw [if_pos hfailed]
      exact (Log.settle_of_failed _ .shutdown hfailed nofun).symm
    · rw [if_neg hfailed]
      exact (Log.settle_of_success _ .shutdown hfailed).symm

/-- One turn of the loop is a read and, if a request arrives, a write. -/
theorem loop_eq (outcomes : List Outcome) (log : Log) :
    loop docRoot outcomes log = log.followed docRoot .read outcomes := by
  fun_induction loop docRoot outcomes log with
  | case1 log => exact (log.followed_nil).symm
  | case2 log started outcome rest heof =>
    rw [log.followed_cons_of_some (next_read_of_endOfStream heof),
      arrived_of_failed .read (by rw [heof]; rfl), Log.settle_of_endOfStream _ heof, shutdown_eq]
  | case3 log started outcome rest heof hfailed =>
    exact (log.followed_of_failed .read hfailed fun _ => heof).symm
  -- The outcomes run out while the response is being written.
  | case4 log req started outcome heof hread =>
    rw [log.followed_read_of_success hread, Log.followed_nil]
    rfl
  | case5 log req started outcome heof hread received handled message writing written rest
      hfailed =>
    rw [log.followed_read_of_success hread, Log.followed_of_failed _ (.write _) hfailed nofun]
    rfl
  -- The response is not keep-alive, so the loop is left for the shutdown.
  | case6 log req started outcome heof hread received handled message keepAlive writing written
      rest hwritten hclose =>
    have hkeep : ¬ (outcome.world.respond docRoot outcome.received).header.keepAlive = true :=
      Bool.eq_false_iff.mp ((Bool.not_eq_true' _).mp hclose)
    rw [log.followed_read_of_success hread,
      Log.followed_of_success _ (.write _) nofun hwritten
        (next_write_of_not_keepAlive hwritten hkeep),
      shutdown_eq]
    rfl
  -- The response is keep-alive, and the next turn starts with a read.
  | case7 log req started outcome heof hread received handled message keepAlive writing written
      rest hwritten hopen ih =>
    have hkeep : (outcome.world.respond docRoot outcome.received).header.keepAlive = true := by
      cases h : (outcome.world.respond docRoot outcome.received).header.keepAlive with
      | true => rfl
      | false => exact absurd ((Bool.not_eq_true' _).mpr h) hopen
    rw [log.followed_read_of_success hread,
      Log.followed_of_success _ (.write _) nofun hwritten (next_write_of_keepAlive hwritten hkeep),
      ih]
    rfl

/-- `do_session` follows the protocol. -/
theorem doSession_eq (outcomes : List Outcome) :
    doSession docRoot outcomes = Log.empty.followed docRoot .handshake outcomes := by
  cases outcomes with
  | nil => exact (Log.empty.followed_nil).symm
  | cons outcome rest =>
    rw [doSession]
    by_cases hfailed : outcome.errorCode.failed = true
    · rw [if_pos hfailed]
      exact (Log.empty.followed_of_failed .handshake hfailed nofun).symm
    · rw [if_neg hfailed, loop_eq]
      exact (Log.empty.followed_of_success .handshake nofun hfailed
        (next_handshake_of_success hfailed)).symm

end Sync

/-! ## The asynchronous session -/

namespace ASync

/-- The handler that is waiting while an operation is in flight. -/
def handlerOf : Operation → Handler
  | .handshake => .onHandshake
  | .read => .onRead
  | .write response => .onWrite response.header.keepAlive
  | .shutdown => .onShutdown

/-- `op`, and nothing else, is in flight. A read has been given a request
without header fields. -/
structure InFlight (docRoot : Str) (session : Session) (op : Operation) : Prop where
  handlers : session.inFlight = [handlerOf op]
  root : session.docRoot = docRoot
  fields : op = .read → session.request.fields = []

/-- The session after `op` has completed, by the protocol. -/
def Session.advance (session : Session) (op : Operation) (outcome : Outcome) : Session :=
  let request := ((arrived op outcome).map session.request.read).getD session.request
  let log := session.log.settle op outcome ((arrived op outcome).map session.request.read)
  match next session.docRoot op outcome with
  | none => { session with request, log, inFlight := [] }
  | some op' =>
      { session with
        request := if op' = .read then request.clear else request
        log := log.start op'
        inFlight := [handlerOf op'] }

section Advance

variable (session : Session) (op : Operation) (outcome : Outcome)

theorem started_advance :
    (session.advance op outcome).log.started =
      session.log.started ++ (next session.docRoot op outcome).toList := by
  unfold Session.advance
  cases next session.docRoot op outcome with
  | none => exact (List.append_nil _).symm
  | some op' => rfl

theorem reported_advance :
    (session.advance op outcome).log.reported =
      session.log.reported ++ (report op outcome).toList := by
  unfold Session.advance
  cases next session.docRoot op outcome <;> rfl

theorem handled_advance :
    (session.advance op outcome).log.handled =
      session.log.handled ++ ((arrived op outcome).map session.request.read).toList := by
  unfold Session.advance
  cases next session.docRoot op outcome <;> rfl

/-- Nothing but a read touches the body of the request. -/
theorem body_advance :
    (session.advance op outcome).request.body =
      (((arrived op outcome).map session.request.read).getD session.request).body := by
  unfold Session.advance
  cases next session.docRoot op outcome with
  | none => rfl
  | some op' =>
    by_cases hop : op' = .read
    · simp only [hop, if_true]
      rfl
    · simp only [hop, if_false]

end Advance

variable {session : Session} {op op' : Operation} {outcome : Outcome}

theorem InFlight.advance (h : InFlight docRoot session op)
    (hnext : next docRoot op outcome = some op') :
    InFlight docRoot (session.advance op outcome) op' := by
  unfold Session.advance
  rw [h.root, hnext]
  refine ⟨rfl, rfl, fun hread => ?_⟩
  simp only [hread, if_true]
  rfl

theorem InFlight.complete_handshake (h : InFlight docRoot session .handshake) :
    session.complete outcome = { session with inFlight := [] }.onHandshake outcome := by
  rw [Session.complete, h.handlers]
  rfl

theorem InFlight.complete_read (h : InFlight docRoot session .read) :
    session.complete outcome =
      ({ session with inFlight := [] }.received outcome).onRead outcome := by
  rw [Session.complete, h.handlers]
  rfl

theorem InFlight.complete_write {response : Response}
    (h : InFlight docRoot session (.write response)) :
    session.complete outcome =
      { session with inFlight := [] }.onWrite response.header.keepAlive outcome := by
  rw [Session.complete, h.handlers]
  rfl

theorem InFlight.complete_shutdown (h : InFlight docRoot session .shutdown) :
    session.complete outcome = { session with inFlight := [] }.onShutdown outcome := by
  rw [Session.complete, h.handlers]
  rfl

theorem InFlight.complete_of_failed (h : InFlight docRoot session op)
    (hfailed : outcome.errorCode.failed = true)
    (hread : op = .read → outcome.errorCode ≠ .endOfStream) :
    session.complete outcome = session.advance op outcome := by
  -- Each handler reports the error under the name of its operation and starts nothing.
  have hlog := session.log.settle_of_failed op hfailed hread
  have hadvance : session.advance op outcome =
      { session with log := session.log.fail outcome.errorCode op.what, inFlight := [] } := by
    rw [Session.advance, next_of_failed op hfailed hread, arrived_of_failed op hfailed, ← hlog]
    rfl
  rw [hadvance]
  cases op with
  | read =>
    rw [h.complete_read, Session.received, if_pos hfailed, Session.onRead, if_neg (hread rfl),
      if_pos hfailed]
    rfl
  | handshake =>
    rw [h.complete_handshake, Session.onHandshake, if_pos hfailed]
    rfl
  | write response =>
    rw [h.complete_write, Session.onWrite, if_pos hfailed]
    rfl
  | shutdown =>
    rw [h.complete_shutdown, Session.onShutdown, if_pos hfailed]
    rfl

/-- Completing the operation in flight is one step of the protocol. -/
theorem InFlight.complete_eq (h : InFlight docRoot session op) (outcome : Outcome) :
    session.complete outcome = session.advance op outcome := by
  by_cases hfailed : outcome.errorCode.failed = true
  -- The end of the stream is the one error that does not stop the session.
  · by_cases heof : op = .read ∧ outcome.errorCode = .endOfStream
    · obtain ⟨rfl, heof⟩ := heof
      rw [h.complete_read, Session.received, if_pos hfailed, Session.onRead, if_pos heof,
        Session.advance, next_read_of_endOfStream heof, arrived_of_failed .read hfailed]
      simp only [Option.map_none, session.log.settle_of_endOfStream heof]
      rfl
    · exact h.complete_of_failed hfailed fun hread hcode => heof ⟨hread, hcode⟩
  · cases op with
    | handshake =>
      rw [h.complete_handshake, Session.onHandshake, if_neg hfailed, Session.advance,
        next_handshake_of_success hfailed]
      simp only [arrived, Option.map_none, session.log.settle_of_success .handshake hfailed]
      rfl
    | read =>
      have heof : outcome.errorCode ≠ .endOfStream := by
        intro heof
        rw [heof] at hfailed
        exact hfailed rfl
      -- The body may hold what earlier requests left, which the response ignores.
      have hrequest : session.request.read outcome.received =
          { outcome.received with body := session.request.body ++ outcome.received.body } := by
        rw [Request.read, h.fields rfl, List.nil_append]
      rw [h.complete_read, Session.received, if_neg hfailed, Session.onRead, if_neg heof,
        if_neg hfailed, Session.advance, next_read_of_success hfailed,
        arrived_read_of_success hfailed]
      simp only [Option.map_some, session.log.settle_some_of_success .read hfailed, hrequest,
        World.respond_eq]
      rfl
    | write response =>
      rw [h.complete_write, Session.onWrite, if_neg hfailed, Session.advance]
      -- The flag bound into the handler is the one of the response being written.
      by_cases hkeep : response.header.keepAlive = true
      · rw [next_write_of_keepAlive hfailed hkeep]
        simp only [hkeep, arrived, Option.map_none,
          session.log.settle_of_success (.write response) hfailed]
        rfl
      · rw [next_write_of_not_keepAlive hfailed hkeep]
        simp only [hkeep, arrived, Option.map_none,
          session.log.settle_of_success (.write response) hfailed]
        rfl
    | shutdown =>
      rw [h.complete_shutdown, Session.onShutdown, if_neg hfailed, Session.advance]
      simp only [next, arrived, Option.map_none, session.log.settle_of_success .shutdown hfailed]
      rfl

theorem inFlight_started (docRoot : Str) : InFlight docRoot (started docRoot) .handshake :=
  ⟨rfl, rfl, nofun⟩

/-- The class `session` follows the protocol. -/
theorem follows (docRoot : Str) :
    Follows (next docRoot) Session.complete (InFlight docRoot) (·.inFlight = []) where
  continues session op outcome op' h hnext := by
    rw [h.complete_eq]
    exact h.advance hnext
  stops session op outcome h hnext := by
    rw [h.complete_eq, Session.advance, h.root, hnext]
  rests session outcome hidle := by
    rw [Session.complete, hidle]

theorem started_after (outcomes : List Outcome) :
    (after docRoot outcomes).log.started = trace (next docRoot) .handshake outcomes := by
  refine (follows docRoot).log_run (·.log.started) ?_ (inFlight_started docRoot) outcomes
  intro session op outcome h
  rw [h.complete_eq, started_advance, h.root]

theorem reported_after (outcomes : List Outcome) :
    (after docRoot outcomes).log.reported =
      emitted (next docRoot) report .handshake outcomes := by
  refine (follows docRoot).log_run (·.log.reported) ?_ (inFlight_started docRoot) outcomes
  intro session op outcome h
  rw [h.complete_eq, reported_advance]

theorem length_inFlight_after (docRoot : Str) (outcomes : List Outcome) :
    (after docRoot outcomes).inFlight.length ≤ 1 := by
  rcases (follows docRoot).run (inFlight_started docRoot) outcomes with ⟨op, h⟩ | hidle
  · exact (congrArg List.length h.handlers).le
  · exact (congrArg List.length hidle).le.trans (Nat.zero_le 1)

end ASync

/-! ## The protocol -/

/-- After a handshake a read, after a read a write or the shutdown, after a
write a read or the shutdown, and nothing after the shutdown. -/
def Operation.MayPrecede : Operation → Operation → Prop
  | .handshake, .read => True
  | .read, .write _ => True
  | .read, .shutdown => True
  | .write _, .read => True
  | .write _, .shutdown => True
  | _, _ => False

/-- The protocol, said of the operations started and the outcomes, place by
place. -/
structure Protocol (docRoot : Str) (outcomes : List Outcome) (started : List Operation) :
    Prop where
  first : started.head? = some .handshake
  alternates : started.IsChain Operation.MayPrecede
  /-- The response to a request that was read is the next operation. -/
  answers : ∀ (i : ℕ) (outcome : Outcome), started[i]? = some .read →
    outcomes[i]? = some outcome → outcome.errorCode = .success →
      started[i + 1]? = some (.write (outcome.world.respond docRoot outcome.received))
  /-- No read starts after a response that is not keep-alive. -/
  closes : ∀ (i : ℕ) (response : Response), started[i]? = some (.write response) →
    response.header.keepAlive = false → started[i + 1]? ≠ some .read
  /-- The shutdown starts after the end of the stream or such a response. -/
  shutsDown : ∀ i : ℕ, started[i + 1]? = some .shutdown →
    ∃ outcome : Outcome, outcomes[i]? = some outcome ∧
      (started[i]? = some .read ∧ outcome.errorCode = .endOfStream ∨
        ∃ response : Response, started[i]? = some (.write response) ∧
          response.header.keepAlive = false ∧ outcome.errorCode = .success)
  /-- Nothing starts after any other failure. -/
  stops : ∀ (i : ℕ) (outcome : Outcome), outcomes[i]? = some outcome →
    outcome.errorCode.failed = true →
      ¬ (started[i]? = some .read ∧ outcome.errorCode = .endOfStream) → started[i + 1]? = none

theorem Leads.mayPrecede {op op' : Operation} {outcome : Outcome}
    (h : Leads docRoot op outcome op') : op.MayPrecede op' := by
  cases h <;> trivial

/-- Every operation after the first was led to by the one before it. -/
theorem leads_of_getElem?_succ {outcomes : List Outcome} {i : ℕ} {op' : Operation}
    (h : (trace (next docRoot) .handshake outcomes)[i + 1]? = some op') :
    ∃ op outcome, (trace (next docRoot) .handshake outcomes)[i]? = some op ∧
      outcomes[i]? = some outcome ∧ Leads docRoot op outcome op' := by
  rw [trace_getElem?_succ] at h
  obtain ⟨op, hop, h⟩ := Option.bind_eq_some_iff.mp h
  obtain ⟨outcome, houtcome, hnext⟩ := Option.bind_eq_some_iff.mp h
  exact ⟨op, outcome, hop, houtcome, leads_of_next hnext⟩

theorem protocol_trace (docRoot : Str) (outcomes : List Outcome) :
    Protocol docRoot outcomes (trace (next docRoot) .handshake outcomes) where
  first := rfl
  alternates := trace_isChain Operation.MayPrecede (fun _ _ _ h => (leads_of_next h).mayPrecede) _ _
  answers i outcome hstarted houtcome hsuccess := by
    rw [trace_getElem?_succ, hstarted, houtcome]
    exact next_read_of_success (by rw [hsuccess]; nofun)
  closes i response hstarted hkeep hread := by
    obtain ⟨op, outcome, hop, -, hleads⟩ := leads_of_getElem?_succ hread
    -- After a response there is only one way to a read, and it needs keep-alive.
    obtain rfl := Option.some.inj (hstarted.symm.trans hop)
    cases hleads with
    | keptAlive _ hkept => exact Bool.noConfusion (hkept.symm.trans hkeep)
  shutsDown i hshutdown := by
    obtain ⟨op, outcome, hop, houtcome, hleads⟩ := leads_of_getElem?_succ hshutdown
    refine ⟨outcome, houtcome, ?_⟩
    -- Of the five ways on, two lead to the shutdown.
    cases hleads with
    | endOfStream heof => exact Or.inl ⟨hop, heof⟩
    | closed hsuccess hclosed => exact Or.inr ⟨_, hop, hclosed, hsuccess⟩
  stops i outcome houtcome hfailed hread := by
    rw [trace_getElem?_succ, houtcome]
    cases hstarted : (trace (next docRoot) .handshake outcomes)[i]? with
    | none => rfl
    | some op =>
      refine next_of_failed op hfailed fun hop heof => hread ⟨?_, heof⟩
      rw [hstarted, hop]

/-- The two sessions report the same failures. -/
theorem reported_doSession (docRoot : Str) (outcomes : List Outcome) :
    (Sync.doSession docRoot outcomes).reported =
      (ASync.after docRoot outcomes).log.reported := by
  rw [Sync.doSession_eq, ASync.reported_after]
  rfl

/-- **One protocol.** For every list of outcomes the two sessions start the same
operations, which keep to the protocol, and the asynchronous one never has two
in flight. -/
theorem sessions_follow_protocol (docRoot : Str) (outcomes : List Outcome) :
    (Sync.doSession docRoot outcomes).started =
        (ASync.after docRoot outcomes).log.started ∧
      Protocol docRoot outcomes (Sync.doSession docRoot outcomes).started ∧
      (ASync.after docRoot outcomes).inFlight.length ≤ 1 := by
  have hsync : (Sync.doSession docRoot outcomes).started =
      trace (next docRoot) .handshake outcomes := by
    rw [Sync.doSession_eq]
    rfl
  refine ⟨?_, ?_, ASync.length_inFlight_after docRoot outcomes⟩
  · rw [hsync, ASync.started_after]
  · rw [hsync]
    exact protocol_trace docRoot outcomes

end BoostProjects.Beast.Http
