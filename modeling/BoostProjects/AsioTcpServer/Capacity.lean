import BoostProjects.AsioTcpServer.Lifetime
import Mathlib.Data.Fintype.Card

/-!
# How many connections the server ever serves

A slot that a session has been started in is never given back, since nothing but
the handler of a failed accept calls `release`. So the slots in service count the
sessions started (`inService_of_run`), and the server starts one in each slot and
no more: it goes on accepting exactly as long as it has started fewer than
`maxSessions`, whatever its connections do meanwhile.
-/

namespace BoostProjects.AsioTcpServer.Server

open Boost Transition

variable {storage : Storage}

/-- The slots whose session has been started: the accept in flight holds none of
them. -/
def inService (server : Server) : Finset Slot :=
  Finset.univ.filter fun slot =>
    (server.slots slot).isSome ∧ ∀ accept ∈ server.accepts, accept.slot ≠ slot

/-- The event runs the handler of an accept that succeeded. -/
def startsSession (server : Server) : Event → Bool
  | .runAccept op => (server.accepts[op]?.bind AcceptOp.result).any fun ec => !ec.failed
  | _ => false

/-- What holds between two handlers: if no accept is in flight, no slot is free. -/
structure Balanced (server : Server) : Prop where
  pooled : server.Pooled
  full : Numbered.Full server

/-! ## What the steps do to the slots in service -/

theorem mem_inService {server : Server} {slot : Slot} :
    slot ∈ server.inService ↔
      (server.slots slot).isSome ∧ ∀ accept ∈ server.accepts, accept.slot ≠ slot := by
  rw [inService, Finset.mem_filter]
  exact and_iff_right (Finset.mem_univ slot)

/-- The slots in service depend on which slots are occupied and on the accepts only. -/
theorem inService_congr {server server' : Server}
    (hslots : ∀ slot, (server'.slots slot).isSome ↔ (server.slots slot).isSome)
    (haccepts : server'.accepts.map AcceptOp.slot = server.accepts.map AcceptOp.slot) :
    server'.inService = server.inService := by
  have hheld : ∀ server : Server, ∀ slot, (∀ accept ∈ server.accepts, accept.slot ≠ slot) ↔
      slot ∉ server.accepts.map AcceptOp.slot := by
    intro server slot
    simp
  ext slot
  rw [mem_inService, mem_inService, hslots slot, hheld, hheld, haccepts]

/-- The slot taken for the next accept is not in service yet. -/
theorem inService_doAccept {server : Server} :
    (server.doAccept storage).inService = server.inService := by
  rcases doAccept_cases storage server with ⟨slot, hfree, heq⟩ | ⟨-, heq⟩
  · rw [heq]
    ext other
    rw [mem_inService, mem_inService]
    by_cases hsame : other = slot
    · subst hsame
      simp [hfree]
    · simp [Function.update_of_ne hsame, Ne.symm hsame, or_imp, forall_and]
  · rw [heq]

theorem full_doAccept (server : Server) : Numbered.Full (server.doAccept storage) := by
  have hfull : Numbered.Full (Numbered.doAccept storage ⟨server, fun _ => none, 0⟩).server :=
    Numbered.full_doAccept _
  rwa [Numbered.server_doAccept] at hfull

/-- The handler of an accept puts its slot in service, or gives it back. -/
theorem inService_acceptHandler {server : Server} (h : server.Pooled) {accept : AcceptOp}
    (haccepts : server.accepts = [accept]) (ec : ErrorCode) :
    (Server.acceptHandler storage accept.slot ec { server with accepts := [] }).inService =
      if ec.failed then server.inService else insert accept.slot server.inService := by
  have hmem : accept ∈ server.accepts := by rw [haccepts]; exact List.mem_singleton_self _
  obtain ⟨session, hsession, -⟩ := h.occupied accept hmem
  rw [Server.acceptHandler, inService_doAccept]
  split_ifs with hfailed
  · ext slot
    rw [mem_inService, mem_inService, haccepts]
    by_cases hsame : slot = accept.slot
    · subst hsame
      simp [release]
    · simp [release, Function.update_of_ne hsame, Ne.symm hsame]
  · ext slot
    have hkept := Numbered.isSome_withSession { server with accepts := [] } accept.slot
      Connection.start slot
    have hidle : Server.slots { server with accepts := [] } accept.slot = some session := hsession
    have hnone : (Server.withSession accept.slot Connection.start
        { server with accepts := [] }).accepts = [] := by
      rw [withSession_of_eq_some hidle]
    rw [Finset.mem_insert, mem_inService, mem_inService, hkept, hnone, haccepts]
    by_cases hsame : slot = accept.slot
    · subst hsame
      simp [hsession]
    · simp [hsame, Ne.symm hsame]

theorem startsSession_runAccept {server next : Server} {op : ℕ} {accept : AcceptOp}
    {ec : ErrorCode} (hstep : server.step storage (.runAccept op) = some next)
    (haccepts : server.accepts = [accept]) (hresult : accept.result = some ec) :
    server.startsSession (.runAccept op) = !ec.failed := by
  obtain ⟨other, hother, -⟩ := Option.bind_eq_some_iff.mp hstep
  have hsame : other = accept := by
    have hmem := List.mem_of_getElem? hother
    rwa [haccepts, List.mem_singleton] at hmem
  rw [startsSession, hother, hsame, Option.bind_some, hresult, Option.any_some]

/-- A session that is started puts one more slot in service; nothing else changes them. -/
theorem card_inService_step {server next : Server} {event : Event} (h : server.Balanced)
    (hstep : server.step storage event = some next) :
    next.inService.card = server.inService.card + (server.startsSession event).toNat := by
  cases event with
  | acceptCompletes op ec =>
    obtain ⟨before, accept, after, haccepts, -, rfl⟩ := step_acceptCompletes hstep
    have hsame : inService (connect accept.slot ec { server with
        accepts := before ++ { accept with result := some ec } :: after }) = server.inService := by
      apply inService_congr
      · intro slot
        rw [Server.connect]
        split_ifs
        · exact Iff.rfl
        · exact Numbered.isSome_withSession _ _ _ slot
      · rw [Numbered.accepts_connect, haccepts]
        simp
    rw [hsame]
    rfl
  | runAccept op =>
    obtain ⟨before, accept, after, ec, haccepts, hresult, rfl⟩ := step_runAccept hstep
    obtain ⟨rfl, rfl, hmem⟩ := h.pooled.split haccepts
    rw [List.nil_append, inService_acceptHandler h.pooled haccepts, startsSession_runAccept hstep
      haccepts hresult]
    rcases ec.failed_or_eq_success with hfailed | rfl
    · rw [if_pos hfailed, hfailed]
      rfl
    · have hnew : accept.slot ∉ server.inService := fun hslot =>
        (mem_inService.mp hslot).2 accept hmem rfl
      exact Finset.card_insert_of_notMem hnew
  | session slot event =>
    obtain ⟨session, conn, hsession, -, rfl⟩ := step_session hstep
    have hsame : inService { server with
        slots := Function.update server.slots slot (some conn.session)
        io := Function.update server.io slot conn.io } = server.inService := by
      apply inService_congr
      · intro other
        by_cases hother : other = slot
        · subst hother
          simp [hsession]
        · simp [Function.update_of_ne hother]
      · rfl
    rw [hsame]
    rfl

theorem Balanced.step {server next : Server} {event : Event} (h : server.Balanced)
    (hstep : server.step storage event = some next) : next.Balanced := by
  refine ⟨h.pooled.step hstep, ?_⟩
  cases event with
  | acceptCompletes op ec =>
    obtain ⟨before, accept, after, -, -, rfl⟩ := step_acceptCompletes hstep
    intro hnone
    rw [Numbered.accepts_connect] at hnone
    exact absurd hnone (by simp)
  | runAccept op =>
    obtain ⟨before, accept, after, ec, -, -, rfl⟩ := step_runAccept hstep
    exact full_doAccept _
  | session slot event =>
    obtain ⟨session, conn, hsession, -, rfl⟩ := step_session hstep
    intro hnone other
    by_cases hother : other = slot
    · subst hother
      simp
    · simpa [Function.update_of_ne hother] using h.full hnone other

/-! ## Runs -/

/-- How many sessions a run of the server starts. -/
def sessionsStarted (storage : Storage) (server : Server) (events : List Event) : ℕ :=
  tally (step storage) startsSession server events

theorem inService_of_run {server final : Server} {events : List Event} (h : server.Balanced)
    (hrun : run (step storage) server events = some final) :
    final.inService.card = server.inService.card + sessionsStarted storage server events :=
  stock_of_run Balanced (fun server => server.inService.card) (fun _ _ _ h hstep => h.step hstep)
    (fun _ _ _ h hstep => card_inService_step h hstep) hrun h

theorem card_inService_le (server : Server) : server.inService.card ≤ maxSessions :=
  (Finset.card_le_univ _).trans_eq (Fintype.card_fin _)

/-- No accept is in flight exactly when every slot is in service. -/
theorem Balanced.accepts_eq_nil_iff {server : Server} (h : server.Balanced) :
    server.accepts = [] ↔ server.inService.card = maxSessions := by
  have hcard : Fintype.card Slot = maxSessions := Fintype.card_fin _
  rw [← hcard, Finset.card_eq_iff_eq_univ, Finset.eq_univ_iff_forall]
  constructor
  · intro hnone slot
    rw [mem_inService, hnone]
    exact ⟨h.full hnone slot, by simp⟩
  · intro hall
    rw [List.eq_nil_iff_forall_not_mem]
    intro accept haccept
    exact (mem_inService.mp (hall accept.slot)).2 accept haccept rfl

theorem Balanced.started : (Server.started storage).Balanced :=
  ⟨Pooled.started, full_doAccept _⟩

theorem card_inService_started : (Server.started storage).inService.card = 0 := by
  rw [Server.started, inService_doAccept, Finset.card_eq_zero, Finset.eq_empty_iff_forall_notMem]
  intro slot hslot
  exact absurd (mem_inService.mp hslot).1 Bool.false_ne_true

/-! ## The next connection -/

/-- The accept in flight can complete in any way. -/
theorem exists_step_acceptCompletes (storage : Storage) {server : Server} {accept : AcceptOp}
    (haccepts : server.accepts = [accept]) (hpending : accept.result = none) (ec : ErrorCode) :
    ∃ next, server.step storage (.acceptCompletes 0 ec) = some next ∧
      next.accepts = [{ accept with result := some ec }] := by
  refine ⟨connect accept.slot ec { server with accepts := [{ accept with result := some ec }] },
    ?_, Numbered.accepts_connect _ _ _⟩
  simp [step, haccepts, hpending]

/-- The handler of a completed accept can run. -/
theorem exists_step_runAccept (storage : Storage) {server : Server} {accept : AcceptOp} {ec : ErrorCode}
    (haccepts : server.accepts = [accept]) (hresult : accept.result = some ec) :
    ∃ next, server.step storage (.runAccept 0) = some next := by
  refine ⟨acceptHandler storage accept.slot ec { server with accepts := [] }, ?_⟩
  simp [step, haccepts, hresult]

/-- A connection can be accepted and its session started. -/
def CanStart (storage : Storage) (server : Server) : Prop :=
  ∃ events final, run (step storage) server events = some final ∧
    sessionsStarted storage server events = 1

/-- A step that starts nothing may come first. -/
theorem CanStart.head {server next : Server} {event : Event} (h : next.CanStart storage)
    (hstep : server.step storage event = some next) (hevent : server.startsSession event = false) :
    server.CanStart storage := by
  obtain ⟨events, final, hrun, hcount⟩ := h
  refine ⟨event :: events, final, run_cons_eq_some_iff.mpr ⟨next, hstep, hrun⟩, ?_⟩
  rw [sessionsStarted, tally_cons hstep, hevent]
  simpa [sessionsStarted] using hcount

theorem canStart_of_success {server : Server} {accept : AcceptOp}
    (haccepts : server.accepts = [accept]) (hresult : accept.result = some .success) :
    server.CanStart storage := by
  obtain ⟨next, hstep⟩ := exists_step_runAccept storage haccepts hresult
  refine ⟨[.runAccept 0], next, run_cons_eq_some_iff.mpr ⟨next, hstep, rfl⟩, ?_⟩
  rw [sessionsStarted, tally_cons hstep, startsSession_runAccept hstep haccepts hresult]
  rfl

theorem canStart_of_pending {server : Server} {accept : AcceptOp}
    (haccepts : server.accepts = [accept]) (hpending : accept.result = none) :
    server.CanStart storage := by
  obtain ⟨next, hstep, hnext⟩ :=
    exists_step_acceptCompletes storage haccepts hpending .success
  exact (canStart_of_success hnext rfl).head hstep rfl

/-- After an accept that failed another is started. -/
theorem accepts_of_failed {server next : Server} {accept : AcceptOp} {ec : ErrorCode}
    (haccepts : server.accepts = [accept]) (hresult : accept.result = some ec)
    (hfailed : ec.failed) (hstep : server.step storage (.runAccept 0) = some next) :
    ∃ slot, next.accepts = [{ slot }] := by
  have hnext : next = doAccept storage (release accept.slot { server with accepts := [] }) := by
    simpa [step, haccepts, hresult, acceptHandler, hfailed] using hstep.symm
  rw [hnext]
  rcases doAccept_cases storage (release accept.slot { server with accepts := [] })
    with ⟨slot, -, heq⟩ | ⟨hfull, -⟩
  · exact ⟨slot, by rw [heq]; rfl⟩
  · exact absurd (hfull accept.slot) (by simp [release])

/-- As long as an accept is in flight a further connection can be served. -/
theorem Balanced.canStart {server : Server} (h : server.Balanced) (hsome : server.accepts ≠ []) :
    server.CanStart storage := by
  obtain ⟨accept, haccepts⟩ : ∃ accept, server.accepts = [accept] :=
    List.length_eq_one_iff.mp
      (Nat.le_antisymm h.pooled.single (List.length_pos_iff.mpr hsome))
  cases hresult : accept.result with
  | none => exact canStart_of_pending haccepts hresult
  | some ec =>
    rcases ec.failed_or_eq_success with hfailed | rfl
    -- The handler gives the slot back, so the next accept finds one.
    · obtain ⟨next, hstep⟩ := exists_step_runAccept storage haccepts hresult
      obtain ⟨slot, hnext⟩ := accepts_of_failed haccepts hresult hfailed hstep
      refine (canStart_of_pending hnext rfl).head hstep ?_
      rw [startsSession_runAccept hstep haccepts hresult, hfailed, Bool.not_true]
    · exact canStart_of_success haccepts hresult

/-- **The server serves `maxSessions` connections in its life.** However its accepts
and its connections fare, it never starts more sessions; it has an accept in flight
exactly while it has started fewer, and as long as it has, it can start another; when
none is in flight, none ever will be. -/
theorem serves_maxSessions (storage : Storage) (events : List Event) (server : Server)
    (hrun : run (step storage) (started storage) events = some server) :
    sessionsStarted storage (started storage) events ≤ maxSessions ∧
    (server.accepts = [] ↔
      sessionsStarted storage (started storage) events = maxSessions) ∧
    (server.accepts ≠ [] → server.CanStart storage) ∧
    (server.accepts = [] → ∀ later final, run (step storage) server later = some final →
      final.accepts = [] ∧ sessionsStarted storage server later = 0) := by
  have hbalanced : server.Balanced :=
    run_invariant Balanced (fun _ _ _ h hstep => h.step hstep) hrun .started
  have hcount := inService_of_run .started hrun
  rw [card_inService_started, Nat.zero_add] at hcount
  rw [← hcount]
  refine ⟨card_inService_le server, hbalanced.accepts_eq_nil_iff, hbalanced.canStart, ?_⟩
  intro hnone later final hlater
  -- All slots are in service, and their number only grows.
  have hfinal : final.Balanced :=
    run_invariant Balanced (fun _ _ _ h hstep => h.step hstep) hlater hbalanced
  have hgrown := inService_of_run hbalanced hlater
  have hfull := hbalanced.accepts_eq_nil_iff.mp hnone
  have hbound := card_inService_le final
  exact ⟨hfinal.accepts_eq_nil_iff.mpr (by omega), by omega⟩

/-- A first client connects; there is room for more. -/
theorem serves_maxSessions_one :
    let storage : Storage := ⟨fun _ _ => 0, fun _ _ => 0⟩
    ∃ server, run (step storage) (started storage) [.acceptCompletes 0 .success, .runAccept 0] =
        some server ∧
      (server.accepts = [] ↔ sessionsStarted storage (started storage)
        [.acceptCompletes 0 .success, .runAccept 0] = maxSessions) := by
  obtain ⟨server, hrun⟩ := Option.isSome_iff_exists.mp
    (show (run (step ⟨fun _ _ => 0, fun _ _ => 0⟩) (started ⟨fun _ _ => 0, fun _ _ => 0⟩)
      [.acceptCompletes 0 .success, .runAccept 0]).isSome by decide)
  exact ⟨server, hrun, (serves_maxSessions _ _ server hrun).2.1⟩

end BoostProjects.AsioTcpServer.Server
