import BoostProjects.Networking.SSLTCPServer.Ownership

/-!
# What a failure leaves of the TLS server

A handler that is given an error deletes its session, and touches no other. But
the destructor shuts the connection down, which may fail too, and then throws.
-/

namespace BoostProjects.Networking.SSLTCPServer.SSL1

open Boost HalfDuplex Transition

namespace Server

/-- The event gives an error to a handler that carries `this`; if the destructor
then runs, its shutdown ends as given. -/
inductive Delivers (server : Server) : Event → ℕ → ErrorCode → Prop
  | accept {op this : ℕ} {error : ErrorCode} (shutdown : ErrorCode)
      (carries : server.accepts[op]? = some this) (errs : error.failed = true) :
      Delivers server (.accept op error shutdown) this shutdown
  | session {this i moved : ℕ} {conn : Connection} {task : Task} {failed : Failed}
      (carries : server.sessions[this]? = some conn)
      (errs : conn.inFlight[i]? = some ⟨task, moved, some (.failure failed)⟩) :
      Delivers server (.session this (.run i)) this failed.shutdown

/-- What becomes of the accept at an event that gives an error to a handler. -/
def AcceptsAgain (server next : Server) : Event → Prop
  | .accept _ _ _ =>
    -- A new session is created, and the accept pending carries it.
    next.accepts = [server.sessions.length] ∧
      next.sessions.length = server.sessions.length + 1 ∧
      next.sessions[server.sessions.length]? = some { program := {} }
  | .session _ _ =>
    next.accepts = server.accepts ∧ next.sessions.length = server.sessions.length

/-- The server is as it was, with exactly the session `this` removed. -/
structure Isolated (server : Server) (event : Event) (this : ℕ) (next : Server) : Prop where
  removed : ∃ conn, next.sessions[this]? = some conn ∧ conn.program.deletions = 1 ∧
    next.carriers this = []
  others : ∀ other < server.sessions.length, other ≠ this →
    next.sessions[other]? = server.sessions[other]? ∧
      next.carriers other = server.carriers other
  accepts : server.AcceptsAgain next event
  running : next.terminated = false

section Deletion

variable {server : Server} {this : ℕ} {conn : Connection} {shutdown : ErrorCode}

/-- A session has been deleted, by a handler that leaves the accepts as given. -/
def deleted (server : Server) (this : ℕ) (conn : Connection) (shutdown : ErrorCode)
    (accepts : List ℕ) : Server :=
  { sessions := server.sessions.set this (deleteThis shutdown conn), accepts }

/-- The process ends exactly if the shutdown fails. -/
theorem terminated_deleted (h : server.terminated = false) (hthis : this < server.sessions.length)
    (hconn : conn.program.terminated = false) (accepts : List ℕ) :
    (server.deleted this conn shutdown accepts).terminated = shutdown.failed := by
  have hdeleted : (deleteThis shutdown conn).program.terminated = shutdown.failed := by
    rw [deleteThis, Session.delete, hconn, Bool.false_or]
  cases hshutdown : shutdown.failed with
  | true =>
    have hmem := List.mem_set hthis (deleteThis shutdown conn)
    exact List.any_eq_true.mpr ⟨_, hmem, hdeleted.trans hshutdown⟩
  | false =>
    refine terminated_eq_false_iff.mpr fun conn' hconn' => ?_
    rcases List.mem_or_eq_of_mem_set hconn' with hold | rfl
    · exact terminated_eq_false_iff.mp h conn' hold
    · exact hdeleted.trans hshutdown

theorem carriers_congr {next : Server} {other : ℕ}
    (hsessions : next.sessions[other]? = server.sessions[other]?)
    (haccepts : next.accepts.filter (· == other) = server.accepts.filter (· == other)) :
    next.carriers other = server.carriers other := by
  rw [carriers, carriers, hsessions, haccepts]

end Deletion

section Step

variable {server next : Server} {event : Event} {this : ℕ} {shutdown : ErrorCode}

/-- What the handlers do: the accept's goes on to the next accept. -/
theorem Delivers.step (h : server.Delivers event this shutdown) (hbalanced : server.Balanced)
    (hstep : server.step event = some next) :
    ∃ conn, this < server.sessions.length ∧ conn.program.terminated = false ∧
      conn.inFlight = [] ∧ conn.program.deletions = 0 ∧
      next = match event with
        | .accept _ _ _ =>
          if shutdown.failed then server.deleted this conn shutdown []
          else (server.deleted this conn shutdown []).startAccept
        | .session _ _ => server.deleted this conn shutdown server.accepts := by
  cases h with
  | @accept op _ error _ hcarries hfailed =>
    obtain ⟨hterminated, newSession, hop, rfl⟩ := step_accept hstep
    obtain rfl := Option.some.inj (hcarries.symm.trans hop)
    obtain ⟨this', hthis, haccepts⟩ := hbalanced.accepts hterminated
    rw [haccepts] at hop
    obtain ⟨rfl, rfl⟩ := Lists.getElem?_singleton hop
    have hconn := List.getElem?_eq_getElem hthis
    obtain ⟨hidle, hlive⟩ := hbalanced.carried haccepts hconn
    have hrunning := terminated_eq_false_iff.mp hterminated _ (List.getElem_mem hthis)
    refine ⟨_, hthis, hrunning, hidle, hlive, ?_⟩
    have hdeleted : Server.withSession this (accepted error shutdown)
        { server with accepts := server.accepts.eraseIdx 0 } =
          server.deleted this server.sessions[this] shutdown [] := by
      rw [Server.withSession, List.modify_eq_set_getElem?, hconn, accepted, if_pos hfailed, haccepts]
      rfl
    rw [handleAccept_eq, hdeleted]
    dsimp only
    rw [terminated_deleted hterminated hthis hrunning]
  | @session _ i _ _ _ _ hcarries hfailed =>
    obtain ⟨hterminated, conn, conn', hconn, hstep', rfl⟩ := step_session hstep
    obtain rfl := Option.some.inj (hcarries.symm.trans hconn)
    obtain ⟨task, moved, outcome, hop, rfl⟩ := Party.step_run hstep'
    obtain ⟨rfl, rfl, houtcome⟩ := Op.mk.inj (Option.some.inj (hfailed.symm.trans hop))
    obtain rfl := Option.some.inj houtcome
    obtain ⟨hthis, rfl⟩ := List.getElem?_eq_some_iff.mp hconn
    -- The handler's operation was all there was of the session.
    obtain ⟨hi, -⟩ := List.getElem?_eq_some_iff.mp hop
    have hlength := List.length_eraseIdx_of_lt hi
    have hbalance := hbalanced.balance this _ hconn
    have hidle : (server.sessions[this].inFlight.eraseIdx i) = [] :=
      List.length_eq_zero_iff.mp (by omega)
    have hlive : server.sessions[this].program.deletions = 0 := by omega
    have hrunning := terminated_eq_false_iff.mp hterminated _ (List.getElem_mem hthis)
    refine ⟨{ server.sessions[this] with inFlight := server.sessions[this].inFlight.eraseIdx i },
      hthis, hrunning, hidle, hlive, ?_⟩
    rw [handle_failure]
    rfl

theorem startAccept_terminated : server.startAccept.terminated = server.terminated := by
  simp [Server.startAccept, terminated]

/-- Nothing pending carries a session that has been deleted. -/
theorem Balanced.carriers_eq_nil (h : server.Balanced) {conn : Connection}
    (hconn : server.sessions[this]? = some conn) (hdeleted : conn.program.deletions = 1) :
    server.carriers this = [] := by
  have hbalance := h.balance this conn hconn
  refine List.length_eq_zero_iff.mp ?_
  rw [length_carriers hconn]
  omega

/-- A failure that the destructor survives takes nothing but its session. -/
theorem Delivers.isolated (h : server.Delivers event this shutdown) (hbalanced : server.Balanced)
    (hstep : server.step event = some next) (hshutdown : shutdown.failed = false) :
    server.Isolated event this next := by
  obtain ⟨conn, hthis, hrunning, hidle, hlive, hnext⟩ := h.step hbalanced hstep
  have hnextBalanced := hbalanced.step hstep
  have hdeletions : (deleteThis shutdown conn).program.deletions = 1 := by
    rw [deleteThis, Session.delete, hlive]
  have hself : (server.sessions.set this (deleteThis shutdown conn))[this]? =
      some (deleteThis shutdown conn) := List.getElem?_set_self hthis
  cases h with
  | @accept op _ error _ hcarries herror =>
    obtain ⟨hterminated, -⟩ := step_accept hstep
    obtain ⟨accepting, -, haccepts⟩ := hbalanced.accepts hterminated
    obtain ⟨-, rfl⟩ := Lists.getElem?_singleton (haccepts ▸ hcarries)
    have hnext : next = (server.deleted this conn shutdown []).startAccept :=
      hnext.trans (if_neg (by simp [hshutdown]))
    have hold : ∀ other < server.sessions.length, next.sessions[other]? =
        (server.sessions.set this (deleteThis shutdown conn))[other]? := by
      intro other hother
      rw [hnext]
      exact List.getElem?_append_left (List.length_set.symm ▸ hother)
    have hlength : (server.sessions.set this (deleteThis shutdown conn)).length =
        server.sessions.length := List.length_set
    have hnew : next.accepts = [server.sessions.length] := by
      rw [hnext]
      exact congrArg (fun n => [n]) hlength
    refine ⟨⟨_, (hold this hthis).trans hself, hdeletions, ?_⟩, fun other hother hne => ?_, ?_, ?_⟩
    · exact hnextBalanced.carriers_eq_nil ((hold this hthis).trans hself) hdeletions
    · have hsame := (hold other hother).trans (List.getElem?_set_ne hne.symm)
      refine ⟨hsame, carriers_congr hsame ?_⟩
      rw [hnew, haccepts]
      simp [hother.ne', hne.symm]
    · refine ⟨hnew, ?_, ?_⟩
      · rw [hnext]
        simp [Server.startAccept, deleted]
      · rw [hnext, ← hlength]
        exact List.getElem?_concat_length
    · rw [hnext, startAccept_terminated, terminated_deleted hterminated hthis hrunning, hshutdown]
  | @session _ _ _ _ _ failed =>
    obtain ⟨hterminated, -⟩ := step_session hstep
    obtain rfl : next = server.deleted this conn failed.shutdown server.accepts := hnext
    refine ⟨⟨_, hself, hdeletions, hnextBalanced.carriers_eq_nil hself hdeletions⟩,
      fun other hother hne => ?_, ⟨rfl, List.length_set⟩, ?_⟩
    · have hsame : (server.sessions.set this (deleteThis failed.shutdown conn))[other]? =
          server.sessions[other]? := List.getElem?_set_ne hne.symm
      exact ⟨hsame, carriers_congr hsame rfl⟩
    · rw [terminated_deleted hterminated hthis hrunning, hshutdown]

/-- If the shutdown throws, the process ends. -/
theorem Delivers.terminated (h : server.Delivers event this shutdown)
    (hbalanced : server.Balanced) (hstep : server.step event = some next)
    (hshutdown : shutdown.failed = true) : next.terminated = true := by
  obtain ⟨conn, hthis, hrunning, hidle, hlive, hnext⟩ := h.step hbalanced hstep
  cases h with
  | accept =>
    obtain ⟨hterminated, -⟩ := step_accept hstep
    rw [hnext.trans (if_pos hshutdown), terminated_deleted hterminated hthis hrunning, hshutdown]
  | session =>
    obtain ⟨hterminated, -⟩ := step_session hstep
    obtain rfl : next = server.deleted this conn _ server.accepts := hnext
    rw [terminated_deleted hterminated hthis hrunning, hshutdown]

end Step

theorem balanced_of_reachable {server : Server} (h : Reachable step started server) :
    server.Balanced := by
  obtain ⟨events, hrun⟩ := h
  exact run_invariant Balanced (fun _ _ _ h hstep => h.step hstep) hrun balanced_started

/-- **Isolation, exactly when.** An error given to a handler removes its session
and leaves everything else as it was, if and only if the shutdown in the
destructor succeeds. -/
theorem isolated_iff (server next : Server) (event : Event) (this : ℕ) (shutdown : ErrorCode)
    (hreachable : Reachable step started server) (hdelivers : server.Delivers event this shutdown)
    (hstep : server.step event = some next) :
    server.Isolated event this next ↔ shutdown.failed = false := by
  have hbalanced := balanced_of_reachable hreachable
  constructor
  · intro hisolated
    by_contra hshutdown
    have hterminated := hdelivers.terminated hbalanced hstep (Bool.not_eq_false _ ▸ hshutdown)
    rw [hisolated.running] at hterminated
    exact nomatch hterminated
  · intro hshutdown
    exact hdelivers.isolated hbalanced hstep hshutdown

/-- Two clients are connected, and the first has closed its end when it is read from. -/
def readFails : List Event :=
  [.accept 0 .success .success, .accept 0 .success .success, .session 0 (.succeed 0),
    .session 0 (.run 0), .session 0 (.fail 0 { error := ⟨eof, rfl⟩ })]

/-- The shutdown of its session succeeds. -/
theorem isolated_iff_read_fails : ∃ server next : Server,
    run step started readFails = some server ∧ server.step (.session 0 (.run 0)) = some next ∧
    server.Isolated (.session 0 (.run 0)) 0 next := by
  obtain ⟨server, hrun, hfound⟩ := Option.map_eq_some_iff.mp
    (show (run step started readFails).map
          (fun server => (server.sessions[0]?.map Link.inFlight,
            (server.step (.session 0 (.run 0))).isSome)) =
      some (some [⟨.read maxLength, 0, some (.failure { error := ⟨eof, rfl⟩ })⟩], true)
      by decide)
  obtain ⟨hsession, hstep⟩ := Prod.mk.inj hfound
  obtain ⟨conn, hconn, hinFlight⟩ := Option.map_eq_some_iff.mp hsession
  obtain ⟨next, hnext⟩ := Option.isSome_iff_exists.mp hstep
  have hop : conn.inFlight[0]? =
      some ⟨.read maxLength, 0, some (.failure { error := ⟨eof, rfl⟩ })⟩ := by
    rw [hinFlight]
    rfl
  exact ⟨server, next, hrun, hnext, (isolated_iff server next _ 0 .success ⟨_, hrun⟩
    (Delivers.session hconn hop) hnext).mpr rfl⟩

/-- The first accept fails, and the session it carries, which was never connected,
cannot be shut down. -/
theorem not_isolated_accept_fails :
    ¬ ∀ (server next : Server) (event : Event) (this : ℕ) (shutdown : ErrorCode),
      Reachable step started server → server.Delivers event this shutdown →
        server.step event = some next → server.Isolated event this next := by
  intro hall
  have hdelivers : started.Delivers (.accept 0 (.other 24) (.other 107)) 0 (.other 107) :=
    .accept _ rfl rfl
  have hisolated := hall started _ _ 0 _ ⟨[], rfl⟩ hdelivers rfl
  exact nomatch hisolated.running

end Server

end BoostProjects.Networking.SSLTCPServer.SSL1
