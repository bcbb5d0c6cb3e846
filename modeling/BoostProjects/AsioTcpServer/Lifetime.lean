import BoostProjects.AsioTcpServer.Pool

/-!
# The sessions that handlers refer to

A handler holds a `Session*` into the pool, and a slot of the pool that has been
released may be given to a new session at the same address. To say that a
handler finds the session that started its operation, sessions need a name that
is not their address: `Numbered` is the server with the sessions numbered in the
order in which they were emplaced. Without the numbers it is the server.

A slot is released only by a failed accept, on whose session nothing has been
started. So from the moment a session starts an operation it keeps its slot.
-/

namespace BoostProjects.AsioTcpServer

open Boost Transition

/-- The server, with the number of the session that each occupied slot holds. -/
structure Numbered where
  server : Server
  serials : Slot → Option ℕ
  /-- The number of sessions emplaced so far. -/
  made : ℕ

namespace Numbered

variable (storage : Server.Storage)

/-- `SessionPool::acquire`: the session emplaced is given the next number. -/
def acquire (numbered : Numbered) : Numbered × Option Slot :=
  match numbered.server.acquire storage with
  | (server, some slot) =>
    ({ server
       serials := Function.update numbered.serials slot (some numbered.made)
       made := numbered.made + 1 },
      some slot)
  | (server, none) => ({ numbered with server }, none)

/-- `SessionPool::release` -/
def release (slot : Slot) (numbered : Numbered) : Numbered :=
  { numbered with
    server := numbered.server.release slot
    serials := Function.update numbered.serials slot none }

/-- `Server::do_accept` -/
def doAccept (numbered : Numbered) : Numbered :=
  match numbered.acquire storage with
  | (numbered, some slot) =>
    { numbered with
      server := { numbered.server with accepts := numbered.server.accepts ++ [{ slot }] } }
  | (numbered, none) => numbered

/-- The handler given to `async_accept`. -/
def acceptHandler (slot : Slot) (ec : ErrorCode) (numbered : Numbered) : Numbered :=
  doAccept storage <|
    if ec.failed then numbered.release slot
    else { numbered with server := numbered.server.withSession slot Connection.start }

/-- Only the handler of an accept emplaces or releases a session. -/
def step (numbered : Numbered) : Server.Event → Option Numbered
  | .runAccept op =>
    numbered.server.accepts[op]?.bind fun accept => accept.result.map fun ec =>
      acceptHandler storage accept.slot ec
        { numbered with
          server := { numbered.server with
            accepts := numbered.server.accepts.eraseIdx op } }
  | event => (numbered.server.step storage event).map fun server => { numbered with server }

/-- The server after `Server::start`. -/
def started : Numbered :=
  doAccept storage
    { server := { slots := fun _ => none, io := fun _ => {}, accepts := [] }
      serials := fun _ => none
      made := 0 }

variable {storage}

/-! ### The numbers change nothing -/

theorem server_doAccept (numbered : Numbered) :
    (numbered.doAccept storage).server = numbered.server.doAccept storage := by
  unfold doAccept acquire Server.doAccept
  rcases numbered.server.acquire storage with ⟨server, _ | slot⟩ <;> rfl

theorem server_acceptHandler (slot : Slot) (ec : ErrorCode) (numbered : Numbered) :
    (numbered.acceptHandler storage slot ec).server =
      numbered.server.acceptHandler storage slot ec := by
  rw [acceptHandler, server_doAccept, Server.acceptHandler]
  split_ifs <;> rfl

theorem server_started : (started storage).server = Server.started storage :=
  server_doAccept _

/-- A step of the numbered server is a step of the server. -/
theorem map_server_step (numbered : Numbered) (event : Server.Event) :
    (numbered.step storage event).map Numbered.server = numbered.server.step storage event := by
  cases event with
  | runAccept op =>
    rw [step, Server.step]
    cases numbered.server.accepts[op]? with
    | none => rfl
    | some accept =>
      cases hresult : accept.result with
      | none => simp [hresult]
      | some ec => simp [hresult, server_acceptHandler]
  | acceptCompletes op ec => simp [step, Function.comp_def]
  | session slot event => simp [step, Function.comp_def]

theorem server_of_step {numbered next : Numbered} {event : Server.Event}
    (h : numbered.step storage event = some next) :
    numbered.server.step storage event = some next.server := by
  rw [← map_server_step, h]
  rfl

/-! ### What each function does -/

/-- `doAccept` numbers the session in a free slot, or finds none. -/
theorem doAccept_cases (storage : Server.Storage) (numbered : Numbered) :
    (∃ slot, numbered.server.slots slot = none ∧ numbered.doAccept storage =
      { server :=
          { slots := Function.update numbered.server.slots slot
              (some { socketOpen := false, rx := storage.rx slot, tx := storage.tx slot })
            io := Function.update numbered.server.io slot
              { reads := (numbered.server.io slot).reads
                writes := (numbered.server.io slot).writes }
            accepts := numbered.server.accepts ++ [{ slot }] }
        serials := Function.update numbered.serials slot (some numbered.made)
        made := numbered.made + 1 }) ∨
    ((∀ slot, (numbered.server.slots slot).isSome) ∧ numbered.doAccept storage = numbered) := by
  rw [doAccept, acquire, Server.acquire]
  rcases Lists.find?_isNone_cases numbered.server.slots with
    ⟨slot, hfind, hfree⟩ | ⟨hfind, htaken⟩
  · rw [hfind]
    exact Or.inl ⟨slot, hfree, rfl⟩
  · rw [hfind]
    exact Or.inr ⟨htaken, rfl⟩

section Inversion

variable {numbered next : Numbered}

theorem step_runAccept {op : ℕ} (h : numbered.step storage (.runAccept op) = some next) :
    ∃ before accept after ec, numbered.server.accepts = before ++ accept :: after ∧
      accept.result = some ec ∧
      next = acceptHandler storage accept.slot ec
        { numbered with server := { numbered.server with accepts := before ++ after } } := by
  obtain ⟨before, accept, after, hsplit, rfl, h⟩ := Lists.exists_split_of_bind h
  obtain ⟨ec, hresult, h⟩ := Option.map_eq_some_iff.mp h
  refine ⟨before, accept, after, ec, hsplit, hresult, ?_⟩
  rw [← h, hsplit, Lists.eraseIdx_split]

/-- Any other step leaves the numbers alone. -/
theorem step_of_ne_runAccept {event : Server.Event} (hevent : ∀ op, event ≠ .runAccept op)
    (h : numbered.step storage event = some next) :
    next.serials = numbered.serials ∧ next.made = numbered.made := by
  cases event with
  | runAccept op => exact absurd rfl (hevent op)
  | acceptCompletes op ec =>
    obtain ⟨server, -, rfl⟩ := Option.map_eq_some_iff.mp h
    exact ⟨rfl, rfl⟩
  | session slot event =>
    obtain ⟨server, -, rfl⟩ := Option.map_eq_some_iff.mp h
    exact ⟨rfl, rfl⟩

end Inversion

/-! ### The invariant -/

/-- The occupied slots are those with a number, and no two have the same. -/
structure Distinct (numbered : Numbered) : Prop where
  occupied : ∀ slot, (numbered.serials slot).isSome ↔ (numbered.server.slots slot).isSome
  made : ∀ slot serial, numbered.serials slot = some serial → serial < numbered.made
  apart : ∀ slot slot' serial, numbered.serials slot = some serial →
    numbered.serials slot' = some serial → slot = slot'

/-- Without an accept in flight there is no free slot. -/
def Full (server : Server) : Prop :=
  server.accepts = [] → ∀ slot, (server.slots slot).isSome

/-- A server in which the same slots are occupied. -/
theorem Distinct.of_isSome {numbered : Numbered} (h : numbered.Distinct) {server : Server}
    (hsame : ∀ slot, (server.slots slot).isSome ↔ (numbered.server.slots slot).isSome) :
    Distinct { numbered with server } :=
  ⟨fun slot => (h.occupied slot).trans (hsame slot).symm, h.made, h.apart⟩

theorem Distinct.release {numbered : Numbered} (h : numbered.Distinct) (slot : Slot) :
    (numbered.release slot).Distinct := by
  have hkept : ∀ other serial, (numbered.release slot).serials other = some serial →
      numbered.serials other = some serial := by
    intro other serial hserial
    by_cases hsame : other = slot
    · subst hsame
      simp [Numbered.release] at hserial
    · simpa only [Numbered.release, Function.update_of_ne hsame] using hserial
  refine ⟨fun other => ?_, fun other serial hserial => h.made other serial (hkept _ _ hserial),
    fun other other' serial hserial hserial' =>
      h.apart other other' serial (hkept _ _ hserial) (hkept _ _ hserial')⟩
  by_cases hsame : other = slot
  · subst hsame
    simp [Numbered.release, Server.release]
  · simpa only [Numbered.release, Server.release, Function.update_of_ne hsame] using
      h.occupied other

/-- The next number is new, and goes to a slot without one. -/
theorem Distinct.doAccept {numbered : Numbered} (h : numbered.Distinct) :
    (numbered.doAccept storage).Distinct := by
  rcases doAccept_cases storage numbered with ⟨slot, -, heq⟩ | ⟨-, heq⟩
  · rw [heq]
    refine ⟨fun other => ?_, fun other serial hserial => ?_,
      fun other other' serial hserial hserial' => ?_⟩
    · by_cases hsame : other = slot
      · subst hsame
        simp
      · simpa only [Function.update_of_ne hsame] using h.occupied other
    · by_cases hsame : other = slot
      · subst hsame
        simp only [Function.update_self, Option.some.injEq] at hserial
        subst hserial
        exact Nat.lt_succ_self _
      · simp only [Function.update_of_ne hsame] at hserial
        exact Nat.lt_succ_of_lt (h.made other serial hserial)
    · by_cases hsame : other = slot <;> by_cases hsame' : other' = slot
      · rw [hsame, hsame']
      · subst hsame
        simp only [Function.update_self, Option.some.injEq, Function.update_of_ne hsame'] at hserial hserial'
        subst hserial
        exact absurd (h.made other' _ hserial') (Nat.lt_irrefl _)
      · subst hsame'
        simp only [Function.update_self, Option.some.injEq, Function.update_of_ne hsame] at hserial hserial'
        subst hserial'
        exact absurd (h.made other _ hserial) (Nat.lt_irrefl _)
      · simp only [Function.update_of_ne hsame, Function.update_of_ne hsame'] at hserial hserial'
        exact h.apart other other' serial hserial hserial'
  · rwa [heq]

theorem full_doAccept (numbered : Numbered) : Full (numbered.doAccept storage).server := by
  rcases doAccept_cases storage numbered with ⟨slot, -, heq⟩ | ⟨hfull, heq⟩
  · rw [heq]
    exact fun hnone => absurd hnone (by simp)
  · rw [heq]
    exact fun _ => hfull

/-- Acting on a session neither fills nor frees a slot. -/
theorem isSome_withSession (server : Server) (slot : Slot) (handler : Connection → Connection)
    (other : Slot) :
    ((server.withSession slot handler).slots other).isSome ↔ (server.slots other).isSome := by
  cases hsession : server.slots slot with
  | none => simp [Server.withSession, hsession]
  | some session =>
    rw [Server.withSession_of_eq_some hsession]
    by_cases hsame : other = slot
    · subst hsame
      simp [hsession]
    · simp only [Function.update_of_ne hsame]

theorem accepts_connect (server : Server) (slot : Slot) (ec : ErrorCode) :
    (server.connect slot ec).accepts = server.accepts := by
  unfold Server.connect Server.withSession
  split_ifs
  · rfl
  · cases server.slots slot <;> rfl

/-- What holds of the numbers between two handlers. -/
structure Tracked (numbered : Numbered) : Prop where
  pooled : numbered.server.Pooled
  distinct : numbered.Distinct
  full : Full numbered.server

theorem Tracked.started : (Numbered.started storage).Tracked := by
  refine ⟨?_, Distinct.doAccept ⟨by simp, by simp, by simp⟩, full_doAccept _⟩
  rw [server_started]
  exact Server.Pooled.started

theorem Tracked.step {numbered next : Numbered} {event : Server.Event} (h : numbered.Tracked)
    (hstep : numbered.step storage event = some next) : next.Tracked := by
  have hserver := server_of_step hstep
  have hpooled := h.pooled.step hserver
  cases event with
  | acceptCompletes op ec =>
    obtain ⟨server, -, rfl⟩ := Option.map_eq_some_iff.mp hstep
    obtain ⟨before, accept, after, haccepts, -, hnext⟩ := Server.step_acceptCompletes hserver
    have hsame : ∀ slot, (server.slots slot).isSome ↔ (numbered.server.slots slot).isSome := by
      intro slot
      simp only at hnext
      rw [hnext, Server.connect]
      split_ifs
      · exact Iff.rfl
      · exact isSome_withSession _ _ _ slot
    refine ⟨hpooled, h.distinct.of_isSome hsame, fun hnone => ?_⟩
    simp only at hnext hnone
    rw [hnext, accepts_connect] at hnone
    exact absurd hnone (by simp)
  | runAccept op =>
    obtain ⟨before, accept, after, ec, -, -, rfl⟩ := step_runAccept hstep
    refine ⟨hpooled, ?_, full_doAccept _⟩
    rw [acceptHandler]
    refine Distinct.doAccept ?_
    have hrest : Distinct { numbered with
        server := { numbered.server with accepts := before ++ after } } :=
      h.distinct.of_isSome fun _ => Iff.rfl
    split_ifs
    · exact hrest.release accept.slot
    · exact hrest.of_isSome (isSome_withSession _ _ _)
  | session slot event =>
    obtain ⟨server, -, rfl⟩ := Option.map_eq_some_iff.mp hstep
    obtain ⟨session, conn, hsession, -, hnext⟩ := Server.step_session hserver
    simp only at hnext
    have hsame : ∀ slot, (server.slots slot).isSome ↔ (numbered.server.slots slot).isSome := by
      intro other
      rw [hnext]
      by_cases hother : other = slot
      · subst hother
        simp [hsession]
      · simp only [Function.update_of_ne hother]
    refine ⟨hpooled, h.distinct.of_isSome hsame, fun hnone other => ?_⟩
    rw [hnext] at hnone
    exact (hsame other).mpr (h.full hnone other)

/-! ### Handlers and their sessions -/

/-- A read or a write is in flight on the socket in this slot. -/
def Pending (server : Server) (slot : Slot) : Prop :=
  (server.io slot).reads ≠ [] ∨ (server.io slot).writes ≠ []

/-- A slot with an operation in flight holds a session that has been started. -/
theorem taken_of_pending {server : Server} (h : server.Pooled) {slot : Slot}
    (hpending : Pending server slot) : server.Taken slot := by
  constructor
  · rw [Option.isSome_iff_ne_none]
    intro hnone
    obtain ⟨hreads, hwrites⟩ := h.free slot hnone
    exact hpending.elim (· hreads) (· hwrites)
  · rintro accept haccept rfl
    obtain ⟨hreads, hwrites, -⟩ := h.untouched accept haccept
    exact hpending.elim (· hreads) (· hwrites)

/-- Only a free slot is given a number. -/
theorem serials_doAccept {numbered : Numbered} {slot : Slot}
    (hoccupied : (numbered.server.slots slot).isSome) :
    (numbered.doAccept storage).serials slot = numbered.serials slot := by
  rcases doAccept_cases storage numbered with ⟨free, hfree, heq⟩ | ⟨-, heq⟩
  · have hne : slot ≠ free := by
      rintro rfl
      rw [hfree] at hoccupied
      cases hoccupied
    rw [heq]
    exact Function.update_of_ne hne _ _
  · rw [heq]

/-- The session put into a free slot has nothing in flight. -/
theorem isSome_of_pending_doAccept {numbered : Numbered} {slot : Slot}
    (hfree : numbered.server.slots slot = none →
      (numbered.server.io slot).reads = [] ∧ (numbered.server.io slot).writes = [])
    (hpending : Pending (numbered.doAccept storage).server slot) :
    (numbered.server.slots slot).isSome := by
  rw [Option.isSome_iff_ne_none]
  intro hnone
  obtain ⟨hreads, hwrites⟩ := hfree hnone
  rcases doAccept_cases storage numbered with ⟨free, -, heq⟩ | ⟨hfull, -⟩
  · rw [heq] at hpending
    by_cases hsame : slot = free
    · subst hsame
      simp [Pending, hreads, hwrites] at hpending
    · simp [Pending, Function.update_of_ne hsame, hreads, hwrites] at hpending
  · have hsome := hfull slot
    rw [hnone] at hsome
    cases hsome

section Step

variable {numbered next : Numbered} {event : Server.Event} {slot : Slot}

/-- A started session keeps its slot and its number. -/
theorem serials_step_of_taken (h : numbered.server.Taken slot)
    (hstep : numbered.step storage event = some next) :
    next.serials slot = numbered.serials slot := by
  by_cases hevent : ∃ op, event = .runAccept op
  · obtain ⟨op, rfl⟩ := hevent
    obtain ⟨before, accept, after, ec, haccepts, -, rfl⟩ := step_runAccept hstep
    have hne : slot ≠ accept.slot := (h.2 accept (by simp [haccepts])).symm
    rw [acceptHandler, serials_doAccept]
    · split_ifs
      · exact Function.update_of_ne hne _ _
      · rfl
    · split_ifs
      · simpa only [release, Server.release, Function.update_of_ne hne] using h.1
      · exact (isSome_withSession _ _ _ slot).mpr h.1
  · exact congrFun (step_of_ne_runAccept (not_exists.mp hevent) hstep).1 slot

/-- The session that starts an operation is the one that holds the slot before
the step as after it. -/
theorem serials_step_of_pending (h : numbered.Tracked)
    (hstep : numbered.step storage event = some next) (hpending : Pending next.server slot) :
    next.serials slot = numbered.serials slot := by
  by_cases hevent : ∃ op, event = .runAccept op
  · obtain ⟨op, rfl⟩ := hevent
    obtain ⟨before, accept, after, ec, haccepts, -, rfl⟩ := step_runAccept hstep
    have hmem : accept ∈ numbered.server.accepts := by simp [haccepts]
    obtain ⟨session, hsession, -⟩ := h.pooled.occupied accept hmem
    obtain ⟨hreads, hwrites, -⟩ := h.pooled.untouched accept hmem
    rw [acceptHandler] at hpending ⊢
    split_ifs at hpending ⊢ with hfailed
    · -- The slot of a failed accept is free, and nothing is in flight there.
      have hoccupied := isSome_of_pending_doAccept ?_ hpending
      · have hne : slot ≠ accept.slot := by
          rintro rfl
          simp [release, Server.release] at hoccupied
        rw [serials_doAccept hoccupied]
        exact Function.update_of_ne hne _ _
      · intro hnone
        by_cases hsame : slot = accept.slot
        · subst hsame
          exact ⟨hreads, hwrites⟩
        · simp only [release, Server.release, Function.update_of_ne hsame] at hnone
          exact h.pooled.free slot hnone
    · have hoccupied := isSome_of_pending_doAccept ?_ hpending
      · rw [serials_doAccept hoccupied]
      · intro hnone
        have hsome : Server.slots { numbered.server with accepts := before ++ after }
            accept.slot = some session := hsession
        rw [Server.withSession_of_eq_some hsome] at hnone ⊢
        by_cases hsame : slot = accept.slot
        · subst hsame
          simp at hnone
        · simp only [Function.update_of_ne hsame] at hnone ⊢
          exact h.pooled.free slot hnone
  · exact congrFun (step_of_ne_runAccept (not_exists.mp hevent) hstep).1 slot

end Step

/-- What the pool, the accept loop and the handlers keep between two handlers. -/
structure Sound (storage : Server.Storage) (numbered : Numbered) : Prop where
  single : numbered.server.accepts.length ≤ 1
  /-- The slot of the accept is occupied, and nothing has been started there. -/
  waiting : ∀ accept ∈ numbered.server.accepts,
    (numbered.server.slots accept.slot).isSome ∧ numbered.server.Untouched accept.slot
  full : numbered.server.accepts = [] → ∀ slot, (numbered.server.slots slot).isSome
  /-- Every live session has a number, and two of them are in two slots. -/
  occupied : ∀ slot, (numbered.serials slot).isSome ↔ (numbered.server.slots slot).isSome
  apart : ∀ slot slot' serial, numbered.serials slot = some serial →
    numbered.serials slot' = some serial → slot = slot'
  /-- The session that starts an operation holds the slot before and after. -/
  starts : ∀ event next slot, numbered.step storage event = some next →
    Pending next.server slot → next.serials slot = numbered.serials slot
  /-- The session with an operation in flight holds its slot from then on. -/
  keeps : ∀ slot, Pending numbered.server slot → ∃ serial, numbered.serials slot = some serial ∧
    ∀ later final, run (step storage) numbered later = some final →
      final.serials slot = some serial

/-- A started session keeps its slot and its number along every run. -/
theorem serials_run_of_taken {numbered final : Numbered} {slot : Slot}
    {events : List Server.Event} (h : numbered.server.Taken slot)
    (hrun : run (step storage) numbered events = some final) :
    final.serials slot = numbered.serials slot := by
  have hkept := run_invariant
    (fun later => later.server.Taken slot ∧ later.serials slot = numbered.serials slot) ?_ hrun
    ⟨h, rfl⟩
  · exact hkept.2
  · rintro later event next ⟨htaken, hsame⟩ hstep
    exact ⟨htaken.step (server_of_step hstep),
      (serials_step_of_taken htaken hstep).trans hsame⟩

theorem Tracked.sound {numbered : Numbered} (h : numbered.Tracked) : Sound storage numbered where
  single := h.pooled.single
  waiting accept haccept := by
    obtain ⟨session, hsession, -⟩ := h.pooled.occupied accept haccept
    exact ⟨Option.isSome_of_eq_some hsession, h.pooled.untouched accept haccept⟩
  full := h.full
  occupied := h.distinct.occupied
  apart := h.distinct.apart
  starts _ _ _ hstep hpending := serials_step_of_pending h hstep hpending
  keeps slot hpending := by
    have htaken := taken_of_pending h.pooled hpending
    obtain ⟨serial, hserial⟩ := Option.isSome_iff_exists.mp
      ((h.distinct.occupied slot).mpr htaken.1)
    refine ⟨serial, hserial, fun later final hrun => ?_⟩
    rw [serials_run_of_taken htaken hrun, hserial]

/-- **The sessions outlive their handlers.** Between any two handlers of a run of
the server at most one accept is in flight, on an occupied slot where nothing has
been started; without one every slot is occupied; and a session that has started
an operation is still the one in its slot when the handler runs. -/
theorem sound_of_run (storage : Server.Storage) (events : List Server.Event)
    (numbered : Numbered) (hrun : run (step storage) (started storage) events = some numbered) :
    Sound storage numbered :=
  (run_invariant Tracked (fun _ _ _ h hstep => h.step hstep) hrun Tracked.started).sound

/-- An accept that fails: its slot is released and acquired again. -/
theorem sound_of_run_failed_accept :
    ∃ numbered, run (step ⟨fun _ _ => 0, fun _ _ => 0⟩) (started ⟨fun _ _ => 0, fun _ _ => 0⟩)
        [.acceptCompletes 0 (.other 24), .runAccept 0] = some numbered ∧
      Sound ⟨fun _ _ => 0, fun _ _ => 0⟩ numbered := by
  obtain ⟨numbered, hrun⟩ := Option.isSome_iff_exists.mp
    (show (run (step ⟨fun _ _ => 0, fun _ _ => 0⟩) (started ⟨fun _ _ => 0, fun _ _ => 0⟩)
      [.acceptCompletes 0 (.other 24), .runAccept 0]).isSome by decide)
  exact ⟨numbered, hrun, sound_of_run _ _ numbered hrun⟩

end Numbered

end BoostProjects.AsioTcpServer
