import BoostProjects.Library.Lists
import BoostProjects.Networking.SSLTCPServer.Server

/-!
# Who owns a session

Every session is carried by one pending handler until it is deleted. The handlers
hand it on: the one of the accept to that of the handshake, and from there a read
to a write and back. Counting does not tell the handlers apart: the accepts that
carry a session, its operations in flight and its deletions are always one in all.
-/

namespace BoostProjects.Networking.SSLTCPServer.SSL1

open Boost HalfDuplex Transition

/-- A pending handler. -/
inductive Handler
  | handleAccept
  | handleHandshake
  | handleRead
  | handleWrite
  deriving DecidableEq, Repr

/-- The handler of an operation. -/
def Handler.of : Task → Handler
  | .handshake => handleHandshake
  | .read _ => handleRead
  | .write _ => handleWrite

namespace Server

/-- The pending handlers that carry the session `this`. -/
def carriers (server : Server) (this : ℕ) : List Handler :=
  (server.accepts.filter (· == this)).map (fun _ => Handler.handleAccept) ++
    (server.sessions[this]?.toList.flatMap Link.inFlight).map fun op => Handler.of op.task

/-- Each session is carried by exactly one pending handler or has been deleted
once, and the one pending accept carries one of them. -/
structure Owned (server : Server) : Prop where
  carried : ∀ this conn, server.sessions[this]? = some conn → conn.program.deletions = 0 →
    ∃ handler, server.carriers this = [handler]
  deleted : ∀ this conn, server.sessions[this]? = some conn → conn.program.deletions ≠ 0 →
    conn.program.deletions = 1 ∧ server.carriers this = []
  accepting : ∃ this conn, server.accepts = [this] ∧ server.sessions[this]? = some conn ∧
    conn.program.deletions = 0

/-- The accepts, the operations and the deletions of each session are one in all. -/
structure Balanced (server : Server) : Prop where
  accepts : server.terminated = false → ∃ this < server.sessions.length, server.accepts = [this]
  balance : ∀ this conn, server.sessions[this]? = some conn →
    server.accepts.count this + (conn.inFlight.length + conn.program.deletions) = 1

section Balance

variable {server next : Server} {event : Event} {this : ℕ} {conn : Connection}

/-- A new session is added with the accept that carries it. -/
theorem Balanced.startAccept (haccepts : server.accepts = [])
    (hbalance : ∀ (this : ℕ) (conn : Connection), server.sessions[this]? = some conn →
      conn.inFlight.length + conn.program.deletions = 1) : server.startAccept.Balanced := by
  refine ⟨fun _ => ⟨server.sessions.length, ?_, ?_⟩, fun this conn hconn => ?_⟩
  · simp [Server.startAccept]
  · simp [Server.startAccept, haccepts]
  · have hcount : server.startAccept.accepts = [server.sessions.length] := by
      simp [Server.startAccept, haccepts]
    rw [hcount]
    rcases Lists.getElem?_concat hconn with hold | ⟨rfl, rfl⟩
    · obtain ⟨hlt, -⟩ := List.getElem?_eq_some_iff.mp hold
      rw [List.count_singleton, if_neg (by simpa using hlt.ne'), Nat.zero_add]
      exact hbalance this conn hold
    · rw [List.count_singleton_self]
      rfl

theorem balanced_started : started.Balanced :=
  .startAccept rfl (fun _ _ => nofun)

/-- The session an accept carries has no operation and has not been deleted. -/
theorem Balanced.carried (h : server.Balanced) (haccepts : server.accepts = [this])
    (hconn : server.sessions[this]? = some conn) :
    conn.inFlight = [] ∧ conn.program.deletions = 0 := by
  have hbalance := h.balance this conn hconn
  rw [haccepts, List.count_singleton_self] at hbalance
  exact ⟨List.length_eq_zero_iff.mp (by omega), by omega⟩

/-- A handler of the session that an accept carries leaves it an operation or
deletes it. -/
theorem Balanced.withSession (h : server.Balanced) (haccepts : server.accepts = [this])
    {handler : Connection → Connection}
    (hhandler : ∀ conn, (handler conn).inFlight.length + (handler conn).program.deletions =
      conn.inFlight.length + conn.program.deletions + 1) (other : ℕ) (conn : Connection)
    (hconn : (server.withSession this handler).sessions[other]? = some conn) :
    conn.inFlight.length + conn.program.deletions = 1 := by
  rw [Server.withSession, List.getElem?_modify] at hconn
  obtain ⟨conn', hconn', rfl⟩ := Option.map_eq_some_iff.mp hconn
  have hbalance := h.balance other conn' hconn'
  rw [haccepts, List.count_singleton] at hbalance
  by_cases hother : this = other
  · rw [if_pos (by simpa using hother)] at hbalance
    rw [if_pos hother, hhandler]
    omega
  · rw [if_neg (by simpa using hother), Nat.zero_add] at hbalance
    rw [if_neg hother]
    exact hbalance

/-- The handler of the accept hands its session on or deletes it, and then there
is a new one, unless the process has ended. -/
theorem Balanced.handleAccept (h : server.Balanced) (haccepts : server.accepts = [this])
    (error shutdown : ErrorCode) :
    (Server.handleAccept this error shutdown { server with accepts := [] }).Balanced := by
  have hhandler : ∀ conn, (accepted error shutdown conn).inFlight.length +
      (accepted error shutdown conn).program.deletions =
        conn.inFlight.length + conn.program.deletions + 1 := by
    intro conn
    rw [accepted]
    split_ifs with hfailed
    · rfl
    · simp [start, Link.start]
      omega
  have hbalance := h.withSession haccepts hhandler
  rw [handleAccept_eq]
  dsimp only
  split_ifs with hterminated
  · refine ⟨fun hrunning => ?_, fun other conn hconn => ?_⟩
    · rw [hterminated] at hrunning
      exact Bool.noConfusion hrunning
    · exact (Nat.zero_add _).trans (hbalance other conn hconn)
  · exact .startAccept rfl hbalance

theorem Balanced.step (h : server.Balanced) (hstep : server.step event = some next) :
    next.Balanced := by
  cases event with
  | accept op error shutdown =>
    obtain ⟨hterminated, newSession, hop, rfl⟩ := step_accept hstep
    obtain ⟨this, -, haccepts⟩ := h.accepts hterminated
    rw [haccepts] at hop
    obtain ⟨rfl, rfl⟩ := Lists.getElem?_singleton hop
    have hlast : server.accepts.eraseIdx 0 = [] := by rw [haccepts, List.eraseIdx_cons_zero]
    rw [hlast]
    exact h.handleAccept haccepts error shutdown
  | session this event =>
    obtain ⟨hterminated, conn, conn', hconn, hstep', rfl⟩ := step_session hstep
    obtain ⟨this', hthis, haccepts⟩ := h.accepts hterminated
    refine ⟨fun _ => ⟨this', ?_, haccepts⟩, fun other conn'' hother => ?_⟩
    · rw [List.length_set]
      exact hthis
    · by_cases heq : this = other
      · obtain rfl := heq
        rw [List.getElem?_set_self (List.getElem?_eq_some_iff.mp hconn).1] at hother
        obtain rfl := Option.some.inj hother
        rw [holdings_step hstep']
        exact h.balance this conn hconn
      · rw [List.getElem?_set_ne heq] at hother
        exact h.balance other conn'' hother

end Balance

/-! ### Ownership -/

theorem length_carriers {server : Server} {this : ℕ} {conn : Connection}
    (hconn : server.sessions[this]? = some conn) :
    (server.carriers this).length = server.accepts.count this + conn.inFlight.length := by
  simp [carriers, hconn, List.count_eq_length_filter]

theorem Balanced.owned {server : Server} (h : server.Balanced)
    (hterminated : server.terminated = false) : server.Owned := by
  refine ⟨fun this conn hconn hlive => ?_, fun this conn hconn hdeleted => ?_, ?_⟩
  · have hbalance := h.balance this conn hconn
    refine List.length_eq_one_iff.mp ?_
    rw [length_carriers hconn]
    omega
  · have hbalance := h.balance this conn hconn
    refine ⟨by omega, List.length_eq_zero_iff.mp ?_⟩
    rw [length_carriers hconn]
    omega
  · obtain ⟨this, hthis, haccepts⟩ := h.accepts hterminated
    have hconn := List.getElem?_eq_getElem hthis
    exact ⟨this, _, haccepts, hconn, (h.carried haccepts hconn).2⟩

/-! ### No shutdown throws -/

/-- If a destructor runs at the event, or because of the failure it reports, its
shutdown succeeds. -/
def Event.ShutsDown : Event → Prop
  | .accept _ error shutdown => error.failed → shutdown.failed = false
  | .session _ (.fail _ failed) => failed.shutdown.failed = false
  | .session _ _ => True

instance (event : Event) : Decidable event.ShutsDown := by
  cases event with
  | accept => unfold Event.ShutsDown; infer_instance
  | session this event => cases event <;> unfold Event.ShutsDown <;> infer_instance

end Server

/-- No shutdown has thrown, nor will one that has been decided. -/
structure Graceful (conn : Connection) : Prop where
  running : conn.program.terminated = false
  shutdowns : ∀ op ∈ conn.inFlight, ∀ failed, op.outcome = some (.failure failed) →
    failed.shutdown.failed = false

theorem Graceful.new : Graceful { program := {} } := ⟨rfl, nofun⟩

theorem Graceful.deleteThis {conn : Connection} (h : Graceful conn) {shutdown : ErrorCode}
    (hshutdown : shutdown.failed = false) : Graceful (deleteThis shutdown conn) := by
  refine ⟨?_, h.shutdowns⟩
  simp [SSL1.deleteThis, Session.delete, h.running, hshutdown]

theorem Graceful.start {conn : Connection} (h : Graceful conn) (task : Task) :
    Graceful (conn.start task) := by
  refine ⟨h.running, fun op hop => ?_⟩
  rcases List.mem_append.mp hop with hold | hnew
  · exact h.shutdowns op hold
  · obtain rfl := List.mem_singleton.mp hnew
    exact fun _ => nofun

/-- An operation is replaced by one whose failure, if it is one, is graceful. -/
theorem Graceful.set {conn : Connection} (h : Graceful conn) {i : ℕ} {op : Op Failed}
    (hop : ∀ failed, op.outcome = some (.failure failed) → failed.shutdown.failed = false) :
    ∀ op' ∈ conn.inFlight.set i op, ∀ failed, op'.outcome = some (.failure failed) →
      failed.shutdown.failed = false := by
  intro op' hmem
  rcases List.mem_or_eq_of_mem_set hmem with hold | rfl
  · exact h.shutdowns op' hold
  · exact hop

theorem Graceful.step {conn next : Connection} {event : HalfDuplex.Event Byte Failed}
    (h : Graceful conn) (hevent : ∀ i failed, event = .fail i failed →
      failed.shutdown.failed = false) (hstep : session.step conn event = some next) :
    Graceful next := by
  cases event with
  | arrive i bytes =>
    obtain ⟨capacity, moved, -, -, rfl⟩ := Party.step_arrive hstep
    exact ⟨h.running, h.set (fun _ => nofun)⟩
  | transmit i count =>
    obtain ⟨length, moved, -, -, rfl⟩ := Party.step_transmit hstep
    exact ⟨h.running, h.set (fun _ => nofun)⟩
  | succeed i =>
    obtain ⟨task, moved, -, -, rfl⟩ := Party.step_succeed hstep
    exact ⟨h.running, h.set (fun _ => nofun)⟩
  | fail i failed =>
    obtain ⟨task, moved, -, rfl⟩ := Party.step_fail hstep
    refine ⟨h.running, h.set fun failed' hfailed => ?_⟩
    obtain rfl := Outcome.failure.inj (Option.some.inj hfailed)
    exact hevent i failed rfl
  | run i =>
    obtain ⟨task, moved, outcome, hop, rfl⟩ := Party.step_run hstep
    have hrest : Graceful { conn with inFlight := conn.inFlight.eraseIdx i } :=
      ⟨h.running, fun op hmem => h.shutdowns op (List.mem_of_mem_eraseIdx hmem)⟩
    cases outcome with
    | success =>
      rw [handle_success]
      exact hrest.start _
    | failure failed =>
      rw [handle_failure]
      exact hrest.deleteThis (h.shutdowns _ (List.mem_of_getElem? hop) failed rfl)

namespace Server

theorem graceful_step {server next : Server} {event : Event}
    (h : ∀ conn ∈ server.sessions, Graceful conn) (hevent : event.ShutsDown)
    (hstep : server.step event = some next) : ∀ conn ∈ next.sessions, Graceful conn := by
  cases event with
  | accept op error shutdown =>
    obtain ⟨-, this, -, rfl⟩ := step_accept hstep
    have hhandler : ∀ conn, Graceful conn → Graceful (accepted error shutdown conn) := by
      intro conn hconn
      rw [accepted]
      split_ifs with hfailed
      · exact hconn.deleteThis (hevent hfailed)
      · exact hconn.start .handshake
    have hsessions := Lists.forall_mem_modify h hhandler this
    rw [handleAccept_eq]
    dsimp only
    split_ifs with hterminated
    · exact hsessions
    · exact List.forall_mem_append.mpr ⟨hsessions, List.forall_mem_singleton.mpr Graceful.new⟩
  | session this event =>
    obtain ⟨-, conn, conn', hconn, hstep', rfl⟩ := step_session hstep
    intro conn'' hmem
    rcases List.mem_or_eq_of_mem_set hmem with hold | rfl
    · exact h conn'' hold
    · refine (h conn (List.mem_of_getElem? hconn)).step ?_ hstep'
      rintro i failed rfl
      exact hevent

/-- **Ownership.** If no shutdown throws, then in every state of a run each
session is carried by exactly one pending handler or has been deleted once. -/
theorem owned_of_run (events : List Event) (server : Server)
    (hshutdowns : ∀ event ∈ events, event.ShutsDown)
    (hrun : run step started events = some server) : server.Owned := by
  obtain ⟨hbalanced, hgraceful⟩ := run_invariant_of_obeys
    (fun server => server.Balanced ∧ ∀ conn ∈ server.sessions, Graceful conn)
    (fun _ _ _ h hevent hstep => ⟨h.1.step hstep, graceful_step h.2 hevent hstep⟩) hrun
    (obeys_of_forall hshutdowns) ⟨balanced_started, by simp [started, startAccept, Graceful.new]⟩
  exact hbalanced.owned (terminated_eq_false_iff.mpr fun conn hconn => (hgraceful conn hconn).running)

/-- Two clients: one has been echoed a byte and is gone, the other shakes hands
when the next accept fails. -/
theorem owned_of_run_two : ∃ server,
    run step started
      [.accept 0 .success .success, .session 0 (.succeed 0), .session 0 (.run 0),
        .session 0 (.arrive 0 [7]), .accept 0 .success .success, .session 0 (.run 0),
        .session 0 (.transmit 0 1), .session 0 (.succeed 0), .session 0 (.run 0),
        .session 0 (.fail 0 { error := ⟨eof, rfl⟩ }), .session 0 (.run 0),
        .accept 0 (.other 24) .success] = some server ∧ server.Owned := by
  obtain ⟨server, hrun⟩ := Option.isSome_iff_exists.mp
    (show (run step started
      [.accept 0 .success .success, .session 0 (.succeed 0), .session 0 (.run 0),
        .session 0 (.arrive 0 [7]), .accept 0 .success .success, .session 0 (.run 0),
        .session 0 (.transmit 0 1), .session 0 (.succeed 0), .session 0 (.run 0),
        .session 0 (.fail 0 { error := ⟨eof, rfl⟩ }), .session 0 (.run 0),
        .accept 0 (.other 24) .success]).isSome by decide)
  exact ⟨server, hrun, owned_of_run _ server (by decide) hrun⟩

end Server

end BoostProjects.Networking.SSLTCPServer.SSL1
