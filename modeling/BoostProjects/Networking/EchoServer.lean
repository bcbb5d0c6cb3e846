import BoostProjects.Library.Interleaving
import BoostProjects.Networking.TCPEchoServerClient

/-!
# The TCP echo server

`Server` accepts one connection after the other, and each gets a `Session` of its
own. The sessions share the thread and nothing else, so the server is an
interleaving of them: a connection is served as if it were the only one, whatever
the others do, and errors of `async_accept` do not end the accepting.
-/

namespace BoostProjects.Networking.TCPEchoServerClient

open Boost HalfDuplex Transition

/-- A server, with the number of its accepts in flight and its sessions in the order
in which they were accepted. -/
structure Server where
  accepting : ℕ := 0
  sessions : List Connection := []

/-- `Server::do_accept` -/
def Server.doAccept (server : Server) : Server :=
  { server with accepting := server.accepting + 1 }

/-- The callback of `async_accept`. -/
def Server.acceptHandler (ec : ErrorCode) (server : Server) : Server :=
  let server :=
    if ec.failed then server
    else { server with sessions := server.sessions ++ [start { program := {} }] }
  server.doAccept

/-- A server that has been made. -/
def Server.made : Server := doAccept {}

/-- What can happen next to the server and its sessions. -/
inductive ServerEvent
  /-- The accept in flight completes, and its callback runs. -/
  | accepted (ec : ErrorCode)
  | session (i : ℕ) (event : Event Byte Failure)

/-- A client is accepted. -/
def ServerEvent.accepts : ServerEvent → Bool
  | .accepted ec => !ec.failed
  | .session _ _ => false

/-- One step of the server, or of one of its sessions. -/
def Server.step (server : Server) : ServerEvent → Option Server
  | .accepted ec =>
    if 0 < server.accepting then
      some (acceptHandler ec { server with accepting := server.accepting - 1 })
    else none
  | .session i event =>
    server.sessions[i]?.bind fun conn =>
      (session.step conn event).map fun next =>
        { server with sessions := server.sessions.set i next }

/-! ## The server as an interleaving -/

/-- What a server's event is to its sessions. -/
def ServerEvent.toSessions : ServerEvent → Option (Interleaving.Event (Event Byte Failure))
  | .accepted ec => if ec.failed then none else some .add
  | .session i event => some (.step i event)

/-- What an event of the sessions is to the server. -/
def ofSessions : Interleaving.Event (Event Byte Failure) → ServerEvent
  | .add => .accepted .success
  | .step i event => .session i event

/-- The events of one session. -/
def own (i : ℕ) (events : List ServerEvent) : List (Event Byte Failure) :=
  Interleaving.own i (events.filterMap ServerEvent.toSessions)

theorem Server.step_accepted {server next : Server} {ec : ErrorCode}
    (h : server.step (.accepted ec) = some next) :
    next = acceptHandler ec { server with accepting := server.accepting - 1 } := by
  rw [Server.step, Option.ite_none_right_eq_some] at h
  exact (Option.some.inj h.2).symm

/-- After an error the server goes on as before. -/
theorem Server.accepted_failed {server : Server} {ec : ErrorCode} (h : server.accepting = 1)
    (hec : ec.failed = true) :
    acceptHandler ec { server with accepting := server.accepting - 1 } = server := by
  obtain ⟨accepting, sessions⟩ := server
  obtain rfl : accepting = 1 := h
  rw [acceptHandler, if_pos hec]
  rfl

theorem Server.step_session {server next : Server} {i : ℕ} {event : Event Byte Failure}
    (h : server.step (.session i event) = some next) :
    next.accepting = server.accepting ∧
      Interleaving.step session.step session.started server.sessions (.step i event) =
        some next.sessions := by
  rw [Server.step, Option.bind_eq_some_iff] at h
  obtain ⟨conn, hconn, h⟩ := h
  obtain ⟨conn', hstep, rfl⟩ := Option.map_eq_some_iff.mp h
  exact ⟨rfl, Interleaving.step_of_component hconn hstep⟩

/-- One accept is in flight, and the sessions are an interleaving. -/
theorem Server.run_sessions {server final : Server} {events : List ServerEvent}
    (haccepting : server.accepting = 1) (hrun : run Server.step server events = some final) :
    final.accepting = 1 ∧
      run (Interleaving.step session.step session.started) server.sessions
        (events.filterMap ServerEvent.toSessions) = some final.sessions := by
  induction events generalizing server with
  | nil =>
    obtain rfl := Option.some.inj hrun
    exact ⟨haccepting, rfl⟩
  | cons event events ih =>
    obtain ⟨next, hstep, hrest⟩ := run_cons_eq_some_iff.mp hrun
    cases event with
    | accepted ec =>
      obtain rfl := step_accepted hstep
      rcases ec.failed_or_eq_success with hec | rfl
      · have hnone : ServerEvent.toSessions (.accepted ec) = none := if_pos hec
        rw [accepted_failed haccepting hec] at hrest
        rw [List.filterMap_cons_none hnone]
        exact ih haccepting hrest
      · have hadd : (acceptHandler .success { server with accepting := server.accepting - 1 }) =
            { accepting := server.accepting - 1 + 1
              sessions := server.sessions ++ [session.started] } := rfl
        rw [hadd, haccepting] at hrest
        obtain ⟨hfinal, hsessions⟩ := ih rfl hrest
        exact ⟨hfinal, run_cons_eq_some_iff.mpr ⟨_, rfl, hsessions⟩⟩
    | session i event =>
      obtain ⟨hnext, hsession⟩ := step_session hstep
      obtain ⟨hfinal, hsessions⟩ := ih (hnext.trans haccepting) hrest
      exact ⟨hfinal, run_cons_eq_some_iff.mpr ⟨_, hsession, hsessions⟩⟩

/-- A step of the sessions is one of the server. -/
theorem Server.step_of_session {server : Server} {i : ℕ} {event : Event Byte Failure}
    {sessions : List Connection}
    (h : Interleaving.step session.step session.started server.sessions (.step i event) =
      some sessions) :
    server.step (.session i event) = some { server with sessions } := by
  obtain ⟨conn, conn', hconn, hstep, rfl⟩ := Interleaving.step_step h
  rw [Server.step, hconn, Option.bind_some, hstep, Option.map_some]

/-- The event accepts a connection, or is one of session `i` that is no failure. -/
def ServerEvent.Serves (i : ℕ) : ServerEvent → Prop
  | .accepted ec => ec = .success
  | .session j event => j = i ∧ event.Succeeds

/-- A connection that is accepted next can be served in full, and nothing happens to
the others meanwhile. -/
theorem Server.canServe {server : Server} (haccepting : server.accepting = 1)
    (pieces : List (List Byte)) (hpieces : ∀ piece ∈ pieces, piece.length ≤ maxLength) :
    CanReach Server.step
      (ServerEvent.Serves server.sessions.length)
      (fun final => ∃ conn, final = { accepting := 1, sessions := server.sessions ++ [conn] } ∧
        received conn.trace = pieces.flatten ∧ sent conn.trace = pieces.flatten) server := by
  have hstep : server.step (.accepted .success) =
      some { accepting := 1, sessions := server.sessions ++ [session.started] } := by
    rw [Server.step, haccepting]
    rfl
  have hconn : (server.sessions ++ [session.started])[server.sessions.length]? =
      some session.started := List.getElem?_concat_length
  have hsessions := @Interleaving.canReach_set _ _ _ session.started _ _ _ _ _ hconn
    (session_alternates.isEcho.echoes pieces hpieces)
  have hsteps : ∀ sessions event next,
      (∃ own : Event Byte Failure, event = .step server.sessions.length own ∧ own.Succeeds) →
      Interleaving.step session.step session.started sessions event = some next →
      (ofSessions event).Serves server.sessions.length ∧
        Server.step { accepting := 1, sessions } (ofSessions event) =
          some { accepting := 1, sessions := next } := by
    rintro sessions _ next ⟨own, rfl, hown⟩ hstep
    exact ⟨⟨rfl, hown⟩, step_of_session hstep⟩
  have hlift := hsessions.lift _ ofSessions hsteps
  refine .head hstep (Eq.refl ErrorCode.success) (hlift.imp (fun _ hevent => hevent) ?_)
  rintro _ ⟨_, ⟨conn, ⟨hreceived, hsent⟩, rfl⟩, rfl⟩
  refine ⟨conn, ?_, hreceived, hsent⟩
  rw [List.set_append_right _ _ le_rfl, Nat.sub_self]
  rfl

theorem countP_toSessions (events : List ServerEvent) :
    (events.filterMap ServerEvent.toSessions).countP Interleaving.Event.isAdd =
      events.countP ServerEvent.accepts := by
  induction events with
  | nil => rfl
  | cons event events ih =>
    cases event with
    | session i event => exact ih
    | accepted ec =>
      rcases ec.failed_or_eq_success with hec | rfl
      · have hnone : ServerEvent.toSessions (.accepted ec) = none := if_pos hec
        rw [List.filterMap_cons_none hnone, ih, List.countP_cons_of_neg]
        simp [ServerEvent.accepts, hec]
      · have hsome : ServerEvent.toSessions (.accepted .success) = some .add := rfl
        rw [List.filterMap_cons_some hsome, List.countP_cons_of_pos rfl, ih,
          List.countP_cons_of_pos rfl]

/-- **Every connection is served as if it were the only one.** In every run of the
server, with any errors of its accepts and any schedule of its sessions, one accept
is in flight, there are as many sessions as accepts that have succeeded, and each
of them is where its own events lead, so that it has echoed its own input. The next
connection can be served in full, and the others stay where they are. -/
theorem server_serves (events : List ServerEvent) (server : Server)
    (hrun : run Server.step .made events = some server) :
    server.accepting = 1 ∧
      server.sessions.length = events.countP ServerEvent.accepts ∧
      (∀ i conn, server.sessions[i]? = some conn →
        run session.step session.started (own i events) = some conn ∧
          sent conn.trace <+: received conn.trace) ∧
      ∀ pieces : List (List Byte), (∀ piece ∈ pieces, piece.length ≤ maxLength) →
        CanReach Server.step
          (ServerEvent.Serves server.sessions.length)
          (fun final => ∃ conn,
            final = { accepting := 1, sessions := server.sessions ++ [conn] } ∧
              received conn.trace = pieces.flatten ∧ sent conn.trace = pieces.flatten) server := by
  obtain ⟨haccepting, hsessions⟩ := Server.run_sessions rfl hrun
  refine ⟨haccepting, ?_, fun i conn hconn => ?_, Server.canServe haccepting⟩
  · rw [Interleaving.run_length hsessions, countP_toSessions]
    exact Nat.zero_add _
  · have hown := Interleaving.run_added hsessions (Nat.zero_le i) hconn
    exact ⟨hown, session_alternates.isEcho.echoed conn ⟨_, hown⟩⟩

/-- An accept that fails, and two connections whose events alternate. -/
theorem server_serves_two : ∃ server : Server,
    run Server.step .made
        [.accepted (.other 24), .accepted .success, .session 0 (.arrive 0 [1, 2]),
          .accepted .success, .session 1 (.arrive 0 [3]), .session 0 (.run 0),
          .session 1 (.run 0), .session 0 (.transmit 0 2)] = some server ∧
      server.accepting = 1 ∧ server.sessions.length = 2 := by
  obtain ⟨server, hserver⟩ : ∃ server : Server, run Server.step .made
      [.accepted (.other 24), .accepted .success, .session 0 (.arrive 0 [1, 2]),
        .accepted .success, .session 1 (.arrive 0 [3]), .session 0 (.run 0),
        .session 1 (.run 0), .session 0 (.transmit 0 2)] = some server := ⟨_, rfl⟩
  have hserves := server_serves _ server hserver
  exact ⟨server, hserver, hserves.1, hserves.2.1⟩

end BoostProjects.Networking.TCPEchoServerClient
