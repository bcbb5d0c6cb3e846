import BoostProjects.AsioTcpServer.Server

/-!
# The slots of the pool

`Pooled` is what holds between any two handlers of the server: at most one accept
is in flight, its slot is occupied by a session on which nothing has been
started, and no operation is in flight for a free slot.

Under it the pool keeps a slot occupied for ever once its session has been
started: `close` does not release it. So every occupied slot is in use exactly as
long as no connection has ended, which is `slotsInUse_iff_no_connection_ends`.
-/

namespace BoostProjects.AsioTcpServer

open Boost Transition

namespace Server

variable {storage : Storage}

/-! ### What each function does -/

theorem withSession_of_eq_some {server : Server} {slot : Slot} {session : Session}
    (h : server.slots slot = some session) (handler : Connection → Connection) :
    server.withSession slot handler =
      { server with
        slots := Function.update server.slots slot
          (some (handler { session, io := server.io slot }).session)
        io := Function.update server.io slot (handler { session, io := server.io slot }).io } := by
  rw [withSession, h]

/-- `doAccept` takes a free slot, or finds none and starts nothing. -/
theorem doAccept_cases (storage : Storage) (server : Server) :
    (∃ slot, server.slots slot = none ∧ server.doAccept storage =
      { slots := Function.update server.slots slot
          (some { socketOpen := false, rx := storage.rx slot, tx := storage.tx slot })
        io := Function.update server.io slot
          { reads := (server.io slot).reads, writes := (server.io slot).writes }
        accepts := server.accepts ++ [{ slot }] }) ∨
    ((∀ slot, (server.slots slot).isSome) ∧ server.doAccept storage = server) := by
  rw [doAccept, acquire]
  rcases Lists.find?_isNone_cases server.slots with ⟨slot, hfind, hfree⟩ | ⟨hfind, htaken⟩
  · rw [hfind]
    exact Or.inl ⟨slot, hfree, rfl⟩
  · rw [hfind]
    exact Or.inr ⟨htaken, rfl⟩

section Inversion

variable {server next : Server}

theorem step_acceptCompletes {op : ℕ} {ec : ErrorCode}
    (h : server.step storage (.acceptCompletes op ec) = some next) :
    ∃ before accept after, server.accepts = before ++ accept :: after ∧
      accept.result = none ∧
      next = connect accept.slot ec { server with
        accepts := before ++ { accept with result := some ec } :: after } := by
  obtain ⟨before, accept, after, hsplit, rfl, h⟩ := Lists.exists_split_of_bind h
  rw [Option.ite_none_right_eq_some] at h
  obtain ⟨hnone, h⟩ := h
  refine ⟨before, accept, after, hsplit, hnone, ?_⟩
  rw [← Option.some.inj h, hsplit, Lists.set_split]

theorem step_runAccept {op : ℕ} (h : server.step storage (.runAccept op) = some next) :
    ∃ before accept after ec, server.accepts = before ++ accept :: after ∧
      accept.result = some ec ∧
      next = acceptHandler storage accept.slot ec { server with accepts := before ++ after } := by
  obtain ⟨before, accept, after, hsplit, rfl, h⟩ := Lists.exists_split_of_bind h
  obtain ⟨ec, hresult, h⟩ := Option.map_eq_some_iff.mp h
  refine ⟨before, accept, after, ec, hsplit, hresult, ?_⟩
  rw [← h, hsplit, Lists.eraseIdx_split]

theorem step_session {slot : Slot} {event : Connection.Event}
    (h : server.step storage (.session slot event) = some next) :
    ∃ session conn, server.slots slot = some session ∧
      Connection.step { session, io := server.io slot } event = some conn ∧
      next = { server with
        slots := Function.update server.slots slot (some conn.session)
        io := Function.update server.io slot conn.io } := by
  obtain ⟨session, hsession, h⟩ := Option.bind_eq_some_iff.mp h
  obtain ⟨conn, hconn, h⟩ := Option.map_eq_some_iff.mp h
  exact ⟨session, conn, hsession, hconn, h.symm⟩

end Inversion

/-! ### The invariant of the pool -/

/-- Nothing has been started on the socket of this slot. -/
def Untouched (server : Server) (slot : Slot) : Prop :=
  (server.io slot).reads = [] ∧ (server.io slot).writes = [] ∧ (server.io slot).calls = []

/-- What holds of the pool between any two handlers of the server. -/
structure Pooled (server : Server) : Prop where
  single : server.accepts.length ≤ 1
  /-- The slot of an accept holds a session, connected once the accept has
  succeeded. -/
  occupied : ∀ accept ∈ server.accepts, ∃ session, server.slots accept.slot = some session ∧
    (accept.result = some .success → session.socketOpen)
  untouched : ∀ accept ∈ server.accepts, server.Untouched accept.slot
  free : ∀ slot, server.slots slot = none →
    (server.io slot).reads = [] ∧ (server.io slot).writes = []

/-- The one accept in flight, when there is one. -/
theorem Pooled.split {server : Server} (h : server.Pooled) {before after : List AcceptOp}
    {accept : AcceptOp} (haccepts : server.accepts = before ++ accept :: after) :
    before = [] ∧ after = [] ∧ accept ∈ server.accepts := by
  have hsingle := h.single
  rw [haccepts, List.length_append, List.length_cons] at hsingle
  exact ⟨List.length_eq_zero_iff.mp (by omega), List.length_eq_zero_iff.mp (by omega),
    by simp [haccepts]⟩

theorem Pooled.doAccept {server : Server} (h : server.Pooled) (hnone : server.accepts = []) :
    (server.doAccept storage).Pooled := by
  rcases doAccept_cases storage server with ⟨slot, hfree, heq⟩ | ⟨-, heq⟩
  -- The new accept is the only one, in a slot whose last operations are all over.
  · obtain ⟨hreads, hwrites⟩ := h.free slot hfree
    rw [heq]
    refine ⟨by simp [hnone], ?_, ?_, ?_⟩
    · intro accept haccept
      simp only [hnone, List.nil_append, List.mem_singleton] at haccept
      subst haccept
      exact ⟨_, Function.update_self .., by simp⟩
    · intro accept haccept
      simp only [hnone, List.nil_append, List.mem_singleton] at haccept
      subst haccept
      simp [Untouched, hreads, hwrites]
    · intro other hother
      by_cases hsame : other = slot
      · subst hsame
        simp at hother
      · simp only [Function.update_of_ne hsame] at hother ⊢
        exact h.free other hother
  · rwa [heq]

theorem Pooled.started : (Server.started storage).Pooled :=
  Pooled.doAccept ⟨by simp, by simp, by simp, by simp⟩ rfl

/-- A slot on which a session event happens is not the one of an accept. -/
theorem Pooled.slot_ne {server : Server} (h : server.Pooled) {slot : Slot}
    {event : Connection.Event} {session : Session} {conn : Connection}
    (hstep : Connection.step { session, io := server.io slot } event = some conn) :
    ∀ accept ∈ server.accepts, accept.slot ≠ slot := by
  rintro accept haccept rfl
  obtain ⟨hreads, hwrites, -⟩ := h.untouched accept haccept
  rw [Connection.step_eq_none hreads hwrites] at hstep
  cases hstep

/-- Replacing the session in an occupied slot that no accept holds. -/
theorem Pooled.update {server : Server} (h : server.Pooled) {slot : Slot}
    (hslot : ∀ accept ∈ server.accepts, accept.slot ≠ slot) (conn : Connection) :
    Pooled { server with
      slots := Function.update server.slots slot (some conn.session)
      io := Function.update server.io slot conn.io } := by
  refine ⟨h.single, fun accept haccept => ?_, fun accept haccept => ?_, fun other hother => ?_⟩
  · simpa only [Function.update_of_ne (hslot accept haccept)] using h.occupied accept haccept
  · simpa only [Untouched, Function.update_of_ne (hslot accept haccept)] using
      h.untouched accept haccept
  · by_cases hsame : other = slot
    · subst hsame
      simp at hother
    · simp only [Function.update_of_ne hsame] at hother ⊢
      exact h.free other hother

/-- The accept handler, once the accept is no longer in flight. -/
theorem Pooled.acceptHandler {server : Server} (h : server.Pooled) {accept : AcceptOp}
    (haccepts : server.accepts = [accept]) (ec : ErrorCode) :
    (Server.acceptHandler storage accept.slot ec { server with accepts := [] }).Pooled := by
  have hmem : accept ∈ server.accepts := by rw [haccepts]; exact List.mem_singleton_self _
  obtain ⟨session, hsession, -⟩ := h.occupied accept hmem
  obtain ⟨hreads, hwrites, -⟩ := h.untouched accept hmem
  have hidle : Pooled { server with accepts := [] } := ⟨by simp, by simp, by simp, h.free⟩
  have hkept : Server.slots { server with accepts := [] } accept.slot = some session := hsession
  rw [Server.acceptHandler]
  split_ifs with hfailed
  -- The session of a failed accept was never started, so its slot is free and idle.
  · refine Pooled.doAccept ⟨by simp [release], by simp [release], by simp [release], ?_⟩ rfl
    intro slot hslot
    by_cases hsame : slot = accept.slot
    · subst hsame
      exact ⟨hreads, hwrites⟩
    · exact h.free slot (by simpa [release, Function.update_of_ne hsame] using hslot)
  -- The started session has operations of its own now, but no accept holds its slot.
  · rw [withSession_of_eq_some hkept]
    exact Pooled.doAccept (hidle.update (by simp) _) rfl

/-- The completion of the accept in flight. -/
theorem Pooled.connect {server : Server} (h : server.Pooled) {accept : AcceptOp}
    (haccepts : server.accepts = [accept]) (ec : ErrorCode) :
    (Server.connect accept.slot ec
      { server with accepts := [{ accept with result := some ec }] }).Pooled := by
  have hmem : accept ∈ server.accepts := by rw [haccepts]; exact List.mem_singleton_self _
  obtain ⟨session, hsession, -⟩ := h.occupied accept hmem
  have huntouched := h.untouched accept hmem
  have hkept : Server.slots { server with accepts := [{ accept with result := some ec }] }
      accept.slot = some session := hsession
  rw [Server.connect]
  split_ifs with hfailed
  · refine ⟨by simp, ?_, ?_, h.free⟩
    · rintro _ hother
      obtain rfl := List.mem_singleton.mp hother
      refine ⟨session, hsession, fun hec => absurd hfailed ?_⟩
      obtain rfl := Option.some.inj hec
      exact Bool.false_ne_true
    · rintro _ hother
      obtain rfl := List.mem_singleton.mp hother
      exact huntouched
  · rw [withSession_of_eq_some hkept]
    refine ⟨by simp, by simp, ?_, fun slot hslot => ?_⟩
    · rintro _ hother
      obtain rfl := List.mem_singleton.mp hother
      simpa [Untouched] using huntouched
    · by_cases hsame : slot = accept.slot
      · subst hsame
        simp at hslot
      · simp only [Function.update_of_ne hsame] at hslot ⊢
        exact h.free slot hslot

theorem Pooled.step {server next : Server} {event : Event} (h : server.Pooled)
    (hstep : server.step storage event = some next) : next.Pooled := by
  cases event with
  | acceptCompletes op ec =>
    obtain ⟨before, accept, after, haccepts, -, rfl⟩ := step_acceptCompletes hstep
    obtain ⟨rfl, rfl, -⟩ := h.split haccepts
    exact h.connect haccepts ec
  | runAccept op =>
    obtain ⟨before, accept, after, ec, haccepts, -, rfl⟩ := step_runAccept hstep
    obtain ⟨rfl, rfl, -⟩ := h.split haccepts
    exact h.acceptHandler haccepts ec
  | session slot event =>
    obtain ⟨session, conn, -, hconn, rfl⟩ := step_session hstep
    -- An untouched session has nothing in flight, so this one is not the accept's.
    exact h.update (h.slot_ne hconn) conn

/-! ### Slots in use -/

/-- The connection of the session in this slot. -/
def connection (server : Server) (slot : Slot) (session : Session) : Connection :=
  { session, io := server.io slot }

/-- Every occupied slot is the one of the accept in flight or holds a session
that `close` has not run on and whose socket is open. -/
def SlotsInUse (server : Server) : Prop :=
  ∀ slot session, server.slots slot = some session →
    (∃ accept ∈ server.accepts, accept.slot = slot) ∨ (server.connection slot session).Live

/-- No handler of a session is run with an error. -/
def KeepsConnections (server : Server) : Event → Prop
  | .session slot event => ∀ session, server.slots slot = some session →
      ¬ (server.connection slot session).Ends event
  | _ => True

theorem SlotsInUse.doAccept {server : Server} (h : server.SlotsInUse) :
    (server.doAccept storage).SlotsInUse := by
  rcases doAccept_cases storage server with ⟨slot, -, heq⟩ | ⟨-, heq⟩
  · rw [heq]
    intro other session hsession
    by_cases hsame : other = slot
    · exact Or.inl ⟨{ slot }, by simp, hsame.symm⟩
    · simp only [Function.update_of_ne hsame] at hsession
      rcases h other session hsession with ⟨accept, haccept, hslot⟩ | hlive
      · exact Or.inl ⟨accept, List.mem_append_left _ haccept, hslot⟩
      · exact Or.inr (by simpa only [connection, Function.update_of_ne hsame] using hlive)
  · rwa [heq]

theorem SlotsInUse.started : (Server.started storage).SlotsInUse :=
  SlotsInUse.doAccept (by intro slot session h; cases h)

/-- Away from the slot of the accept in flight, every occupied slot is live. -/
theorem SlotsInUse.live {server : Server} (h : server.SlotsInUse) {accept : AcceptOp}
    (haccepts : server.accepts = [accept]) {slot : Slot} {session : Session}
    (hsession : server.slots slot = some session) (hslot : slot ≠ accept.slot) :
    (server.connection slot session).Live := by
  rcases h slot session hsession with ⟨other, hother, rfl⟩ | hlive
  · rw [haccepts, List.mem_singleton] at hother
    exact absurd (congrArg AcceptOp.slot hother) hslot
  · exact hlive

theorem SlotsInUse.connect {server : Server} (hpool : server.Pooled) (h : server.SlotsInUse)
    {accept : AcceptOp} (haccepts : server.accepts = [accept]) (ec : ErrorCode) :
    (Server.connect accept.slot ec
      { server with accepts := [{ accept with result := some ec }] }).SlotsInUse := by
  obtain ⟨session, hsession, -⟩ := hpool.occupied accept (by simp [haccepts])
  have hkept : Server.slots { server with accepts := [{ accept with result := some ec }] }
      accept.slot = some session := hsession
  intro slot other hother
  by_cases hsame : slot = accept.slot
  · refine Or.inl ⟨{ accept with result := some ec }, ?_, hsame.symm⟩
    rw [Server.connect]
    split_ifs
    · exact List.mem_singleton_self _
    · rw [withSession_of_eq_some hkept]
      exact List.mem_singleton_self _
  · right
    rw [Server.connect] at hother ⊢
    split_ifs at hother ⊢
    · exact h.live haccepts hother hsame
    · rw [withSession_of_eq_some hkept] at hother ⊢
      simp only [Function.update_of_ne hsame] at hother
      simpa only [connection, Function.update_of_ne hsame] using h.live haccepts hother hsame

theorem SlotsInUse.acceptHandler {server : Server} (hpool : server.Pooled)
    (h : server.SlotsInUse) {accept : AcceptOp} (haccepts : server.accepts = [accept])
    {ec : ErrorCode} (hresult : accept.result = some ec) :
    (Server.acceptHandler storage accept.slot ec { server with accepts := [] }).SlotsInUse := by
  have hmem : accept ∈ server.accepts := by rw [haccepts]; exact List.mem_singleton_self _
  obtain ⟨session, hsession, hopen⟩ := hpool.occupied accept hmem
  obtain ⟨-, -, hcalls⟩ := hpool.untouched accept hmem
  have hkept : Server.slots { server with accepts := [] } accept.slot = some session := hsession
  refine SlotsInUse.doAccept fun slot other hother => Or.inr ?_
  split_ifs at hother ⊢ with hfailed
  · -- The slot of a failed accept is free again.
    have hsame : slot ≠ accept.slot := by
      rintro rfl
      simp [release] at hother
    simp only [release, Function.update_of_ne hsame] at hother
    exact h.live haccepts hother hsame
  · obtain rfl := ec.failed_or_eq_success.resolve_left hfailed
    rw [withSession_of_eq_some hkept] at hother ⊢
    by_cases hsame : slot = accept.slot
    · subst hsame
      simp only [Function.update_self, Option.some.injEq] at hother
      subst hother
      simpa [connection, Connection.Live, Connection.start, Connection.doRead,
        Connection.asyncReadSome, hcalls] using hopen hresult
    · simp only [Function.update_of_ne hsame] at hother
      simpa only [connection, Function.update_of_ne hsame] using h.live haccepts hother hsame

/-- One step keeps every slot in use exactly when it ends no connection. -/
theorem SlotsInUse.step_iff {server next : Server} {event : Event} (hpool : server.Pooled)
    (h : server.SlotsInUse) (hstep : server.step storage event = some next) :
    next.SlotsInUse ↔ server.KeepsConnections event := by
  cases event with
  | acceptCompletes op ec =>
    obtain ⟨before, accept, after, haccepts, -, rfl⟩ := step_acceptCompletes hstep
    obtain ⟨rfl, rfl, -⟩ := hpool.split haccepts
    exact iff_of_true (h.connect hpool haccepts ec) trivial
  | runAccept op =>
    obtain ⟨before, accept, after, ec, haccepts, hresult, rfl⟩ := step_runAccept hstep
    obtain ⟨rfl, rfl, -⟩ := hpool.split haccepts
    exact iff_of_true (h.acceptHandler hpool haccepts hresult) trivial
  | session slot event =>
    obtain ⟨session, conn, hsession, hconn, rfl⟩ := step_session hstep
    have hslot := hpool.slot_ne hconn
    -- No accept holds this slot, so what keeps it in use is that it is live.
    have hlive : (server.connection slot session).Live := by
      refine (h slot session hsession).resolve_left ?_
      rintro ⟨accept, haccept, hsame⟩
      exact hslot accept haccept hsame
    have hkeeps : server.KeepsConnections (.session slot event) ↔
        ¬ (server.connection slot session).Ends event := by
      simp [KeepsConnections, hsession]
    rw [hkeeps, ← hlive.step_iff hconn]
    constructor
    · intro hnext
      have hthis := hnext slot conn.session (Function.update_self ..)
      have hlater := hthis.resolve_left fun ⟨accept, haccept, hsame⟩ =>
        hslot accept haccept hsame
      simpa [connection] using hlater
    · intro hconnLive other session' hsession'
      by_cases hsame : other = slot
      · subst hsame
        simp only [Function.update_self, Option.some.injEq] at hsession'
        subst hsession'
        exact Or.inr (by simpa [connection] using hconnLive)
      · simp only [Function.update_of_ne hsame] at hsession'
        rcases h other session' hsession' with hheld | hother
        · exact Or.inl hheld
        · exact Or.inr (by simpa only [connection, Function.update_of_ne hsame] using hother)

/-- **The pool leaks exactly the slots of ended connections.** In a run of the
server every occupied slot stays in use if and only if no read or write handler
is ever run with an error. -/
theorem slotsInUse_iff_no_connection_ends (storage : Storage) (events : List Event)
    (server : Server) (hrun : run (step storage) (started storage) events = some server) :
    Always (step storage) SlotsInUse (started storage) events ↔
      Obeys (step storage) KeepsConnections (started storage) events :=
  always_iff_obeys Pooled SlotsInUse (fun _ _ _ h hstep => h.step hstep)
    (fun _ _ _ hpool h hstep => h.step_iff hpool hstep) hrun Pooled.started SlotsInUse.started

/-- A client that connects and sends nothing, with the two accepts around it. -/
theorem slotsInUse_one_client :
    ∃ server, run (step ⟨fun _ _ => 0, fun _ _ => 0⟩) (started ⟨fun _ _ => 0, fun _ _ => 0⟩)
        [.acceptCompletes 0 .success, .runAccept 0] = some server ∧
      (Always (step ⟨fun _ _ => 0, fun _ _ => 0⟩) SlotsInUse
          (started ⟨fun _ _ => 0, fun _ _ => 0⟩) [.acceptCompletes 0 .success, .runAccept 0] ↔
        Obeys (step ⟨fun _ _ => 0, fun _ _ => 0⟩) KeepsConnections
          (started ⟨fun _ _ => 0, fun _ _ => 0⟩) [.acceptCompletes 0 .success, .runAccept 0]) := by
  obtain ⟨server, hrun⟩ := Option.isSome_iff_exists.mp
    (show (run (step ⟨fun _ _ => 0, fun _ _ => 0⟩) (started ⟨fun _ _ => 0, fun _ _ => 0⟩)
      [.acceptCompletes 0 .success, .runAccept 0]).isSome by decide)
  exact ⟨server, hrun, slotsInUse_iff_no_connection_ends _ _ server hrun⟩

/-- **The pool leaks.** The first client connects and closes its end: its handler
closes the socket, and the slot stays taken. -/
theorem not_slotsInUse :
    ¬ ∀ (storage : Storage) (server : Server),
      Reachable (step storage) (started storage) server → server.SlotsInUse := by
  intro hall
  obtain ⟨server, hrun, hleak⟩ := Option.map_eq_some_iff.mp
    (show (run (step ⟨fun _ _ => 0, fun _ _ => 0⟩) (started ⟨fun _ _ => 0, fun _ _ => 0⟩)
        [.acceptCompletes 0 .success, .runAccept 0, .session 0 (.failRead 0 eof),
          .session 0 (.runRead 0)]).map
      (fun server => ((server.slots 0).map (·.socketOpen), server.accepts)) =
        some (some false, [{ slot := 1 }]) by decide)
  obtain ⟨hslot, haccepts⟩ := Prod.mk.inj hleak
  obtain ⟨session, hsession, hclosed⟩ := Option.map_eq_some_iff.mp hslot
  rcases hall _ server ⟨_, hrun⟩ 0 session hsession with ⟨accept, haccept, hzero⟩ | hlive
  · rw [haccepts, List.mem_singleton] at haccept
    subst haccept
    exact absurd hzero (by decide)
  · exact absurd hlive.1 (by simp [connection, hclosed])

/-! ### A slot is taken for good -/

/-- The slot holds a session that has been started. -/
def Taken (server : Server) (slot : Slot) : Prop :=
  (server.slots slot).isSome ∧ ∀ accept ∈ server.accepts, accept.slot ≠ slot

theorem Taken.doAccept {server : Server} {slot : Slot} (h : server.Taken slot) :
    (server.doAccept storage).Taken slot := by
  rcases doAccept_cases storage server with ⟨free, hfree, heq⟩ | ⟨-, heq⟩
  · -- The slot acquired was free, and a taken one is not.
    have hne : slot ≠ free := by
      rintro rfl
      have hsome := h.1
      rw [hfree] at hsome
      cases hsome
    rw [heq]
    refine ⟨by simpa only [Function.update_of_ne hne] using h.1, ?_⟩
    intro accept haccept
    rcases List.mem_append.mp haccept with hold | hnew
    · exact h.2 accept hold
    · obtain rfl := List.mem_singleton.mp hnew
      exact hne.symm
  · rwa [heq]

/-- Acting on the session of another slot. -/
theorem Taken.withSession {server : Server} {slot other : Slot} (h : server.Taken slot)
    (hne : slot ≠ other) (handler : Connection → Connection) :
    (server.withSession other handler).Taken slot := by
  cases hsession : server.slots other with
  | none => simpa [Server.withSession, hsession] using h
  | some session =>
    rw [withSession_of_eq_some hsession]
    exact ⟨by simpa only [Function.update_of_ne hne] using h.1, h.2⟩

/-- Whatever happens to its connection, a started session keeps its slot. -/
theorem Taken.step {server next : Server} {event : Event} {slot : Slot} (h : server.Taken slot)
    (hstep : server.step storage event = some next) : next.Taken slot := by
  cases event with
  | acceptCompletes op ec =>
    obtain ⟨before, accept, after, haccepts, -, rfl⟩ := step_acceptCompletes hstep
    have hne : slot ≠ accept.slot := (h.2 accept (by simp [haccepts])).symm
    have hmarked : Taken { server with
        accepts := before ++ { accept with result := some ec } :: after } slot := by
      refine ⟨h.1, fun other hother => ?_⟩
      rcases List.mem_append.mp hother with hbefore | hrest
      · exact h.2 other (by simp [haccepts, hbefore])
      rcases List.mem_cons.mp hrest with rfl | hafter
      · exact hne.symm
      · exact h.2 other (by simp [haccepts, hafter])
    rw [Server.connect]
    split_ifs
    · exact hmarked
    · exact hmarked.withSession hne _
  | runAccept op =>
    obtain ⟨before, accept, after, ec, haccepts, -, rfl⟩ := step_runAccept hstep
    have hne : slot ≠ accept.slot := (h.2 accept (by simp [haccepts])).symm
    have hrest : Taken { server with accepts := before ++ after } slot :=
      ⟨h.1, fun other hother => h.2 other (by
        rw [haccepts]
        simp only [List.mem_append, List.mem_cons] at hother ⊢
        tauto)⟩
    -- Released or started, it is the slot of the accept that changes.
    rw [Server.acceptHandler]
    refine Taken.doAccept ?_
    split_ifs
    · exact ⟨by simpa only [release, Function.update_of_ne hne] using hrest.1, hrest.2⟩
    · exact hrest.withSession hne _
  | session other event =>
    obtain ⟨session, conn, -, -, rfl⟩ := step_session hstep
    refine ⟨?_, h.2⟩
    by_cases hsame : slot = other
    · subst hsame
      simp
    · simpa only [Function.update_of_ne hsame] using h.1

/-- **A slot serves one client.** Once the session in a slot has been started the
slot is never free again, and no later accept is given it. -/
theorem Taken.run {server final : Server} {slot : Slot} {events : List Event}
    (h : server.Taken slot)
    (hrun : Transition.run (Server.step storage) server events = some final) :
    final.Taken slot :=
  run_invariant (Taken · slot) (fun _ _ _ h hstep => h.step hstep) hrun h

end Server

end BoostProjects.AsioTcpServer
