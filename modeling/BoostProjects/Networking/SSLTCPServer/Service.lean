import BoostProjects.Boost.Completion
import BoostProjects.Cpp.Str
import BoostProjects.Library.OneByOne

/-!
# The blocking TLS server

`SSL2::Server` runs a thread that accepts a client, answers it, and only then looks at
`m_stop` and accepts the next. An error of a client is printed and ends that client; an
error of the acceptor leaves the thread as an exception, and that ends the process.

`stop` does not wake the thread: if it is at its `accept`, `join` waits until one more
client has come (`clients_answered`).
-/

namespace BoostProjects.Networking.SSLTCPServer.SSL2

open Boost Cpp OneByOne Transition

/-! ## One client -/

/-- Where `handle_client` is. -/
inductive Stage
  | handshaking
  | reading
  | processing
  | responding
  /-- The client is handled, and its stream closed. -/
  | ended
  deriving DecidableEq, Repr

/-- The call that `handle_client` is in, as an exception of it names it. -/
def Stage.operation : Stage → Str
  | .handshaking => "handshake".toList
  | .reading => "read_until".toList
  | .responding => "write".toList
  | .processing | .ended => []

/-- A client, as far as it has been handled. -/
structure Client where
  stage : Stage := .handshaking
  /-- `request` -/
  request : Str := []
  sent : Str := []
  /-- What has been printed to `std::cerr`. -/
  errors : List Str := []

/-- `response` -/
def response : Str := "Response\n".toList

/-- How a call of `handle_client` goes on. -/
inductive Step
  | handshaken
  /-- A read of `read_until` -/
  | received (bytes : Str)
  | slept
  /-- A part of the response has been sent. -/
  | wrote (length : ℕ)
  /-- `system_error` -/
  | failed (error : Failure)

variable (code : ErrorCode → Str) (what : Str → ErrorCode → Str)

/-- What the handler of the exception prints, where `code` is the text of an error, and
`what` that of an exception with an error of an operation. -/
def errorOccured (operation : Str) (error : Failure) : Str :=
  "Error occured! Error code = ".toList ++ code error.1 ++ ". Message: ".toList ++
    what operation error.1

/-- The call that the client is in throws. -/
def fail (client : Client) (error : Failure) : Client :=
  { client with
    stage := .ended
    errors := client.errors ++ [errorOccured code what client.stage.operation error] }

/-- `Service::handle_client` -/
def handleClient (client : Client) : Step → Option Client
  | .handshaken =>
    match client.stage with
    | .handshaking => some { client with stage := .reading }
    | _ => none
  | .received bytes =>
    match client.stage with
    | .reading =>
      let request := client.request ++ bytes
      some { client with request, stage := if '\n' ∈ request then .processing else .reading }
    | _ => none
  | .slept =>
    match client.stage with
    | .processing => some { client with stage := .responding }
    | _ => none
  | .wrote length =>
    match client.stage with
    | .responding =>
      if client.sent.length + length ≤ response.length then
        let sent := response.take (client.sent.length + length)
        some { client with sent, stage := if sent = response then .ended else .responding }
      else none
    | _ => none
  | .failed error =>
    match client.stage with
    | .handshaking | .reading | .responding => some (fail code what client error)
    | .processing | .ended => none

/-- `Acceptor::accept`, from the client that it is given. -/
def service : Service Client Step where
  started := {}
  step := handleClient code what
  ended client := client.stage == .ended

variable {code what} {client next : Client}

/-- What is known of a client. -/
structure Valid (code : ErrorCode → Str) (what : Str → ErrorCode → Str) (client : Client) :
    Prop where
  sent : client.sent <+: response
  waiting : client.stage = .handshaking ∨ client.stage = .reading ∨ client.stage = .processing →
    client.sent = []
  asked : client.stage = .processing ∨ client.stage = .responding ∨ client.sent ≠ [] →
    '\n' ∈ client.request
  errors : client.errors = [] ∨
    client.stage = .ended ∧ ∃ (stage : Stage) (error : Failure), stage ≠ .ended ∧
      client.errors = [errorOccured code what stage.operation error]
  answered : client.stage = .ended → client.errors = [] → client.sent = response

theorem Valid.errors_eq (h : Valid code what client) (hover : client.stage ≠ .ended) :
    client.errors = [] := by
  obtain hnone | ⟨hstage, -⟩ := h.errors
  · exact hnone
  · exact absurd hstage hover

theorem Valid.fail (h : Valid code what client) (hover : client.stage ≠ .ended) (error : Failure) :
    Valid code what (fail code what client error) where
  sent := h.sent
  waiting hstage := by simp [SSL2.fail] at hstage
  asked hstage := by
    obtain hstage | hstage | hsent := hstage
    · cases hstage
    · cases hstage
    · exact h.asked (.inr (.inr hsent))
  errors := .inr ⟨rfl, client.stage, error, hover, by simp [SSL2.fail, h.errors_eq hover]⟩
  answered _ hnone := by simp [SSL2.fail] at hnone

theorem Valid.step {event : Step} (h : Valid code what client)
    (hstep : handleClient code what client event = some next) : Valid code what next := by
  cases event with
  | handshaken =>
    cases hstage : client.stage <;> simp only [handleClient, hstage, reduceCtorEq] at hstep
    obtain rfl := Option.some.inj hstep
    have hsent := h.waiting (.inl hstage)
    have herrors := h.errors_eq (by rw [hstage]; exact nofun)
    refine ⟨h.sent, fun _ => hsent, ?_, .inl herrors, nofun⟩
    rintro (hnext | hnext | hnext)
    · cases hnext
    · cases hnext
    · exact absurd hsent hnext
  | received bytes =>
    cases hstage : client.stage <;> simp only [handleClient, hstage, reduceCtorEq] at hstep
    obtain rfl := Option.some.inj hstep
    have hsent := h.waiting (.inr (.inl hstage))
    have herrors := h.errors_eq (by rw [hstage]; exact nofun)
    by_cases hline : '\n' ∈ client.request ++ bytes
    · simp only [if_pos hline]
      exact ⟨h.sent, fun _ => hsent, fun _ => hline, .inl herrors, nofun⟩
    · simp only [if_neg hline]
      refine ⟨h.sent, fun _ => hsent, ?_, .inl herrors, nofun⟩
      rintro (hnext | hnext | hnext)
      · cases hnext
      · cases hnext
      · exact absurd hsent hnext
  | slept =>
    cases hstage : client.stage <;> simp only [handleClient, hstage, reduceCtorEq] at hstep
    obtain rfl := Option.some.inj hstep
    have herrors := h.errors_eq (by rw [hstage]; exact nofun)
    exact ⟨h.sent, fun hnext => by simp at hnext, fun _ => h.asked (.inl hstage), .inl herrors,
      nofun⟩
  | wrote length =>
    cases hstage : client.stage <;> simp only [handleClient, hstage, reduceCtorEq] at hstep
    obtain ⟨hfits, hstep⟩ := Option.ite_none_right_eq_some.mp hstep
    obtain rfl := Option.some.inj hstep
    have herrors := h.errors_eq (by rw [hstage]; exact nofun)
    have hline := h.asked (.inr (.inl hstage))
    refine ⟨List.take_prefix _ _, ?_, fun _ => hline, .inl herrors, ?_⟩
    · intro hnext
      split_ifs at hnext <;> simp at hnext
    · intro hnext _
      by_contra hpart
      rw [if_neg hpart] at hnext
      cases hnext
  | failed error =>
    cases hstage : client.stage <;> simp only [handleClient, hstage, reduceCtorEq] at hstep
    all_goals
      obtain rfl := Option.some.inj hstep
      exact h.fail (by rw [hstage]; exact nofun) error

/-- The event is no error. -/
def Step.Succeeds : Step → Prop
  | .failed _ => False
  | _ => True

theorem canReach_responding (h : Valid code what client) (hstage : client.stage = .responding) :
    CanReach (handleClient code what) Step.Succeeds
      (fun c => c.sent = response ∧ c.stage = .ended) client := by
  have hle := h.sent.length_le
  have hall : client.sent.length + (response.length - client.sent.length) = response.length := by
    omega
  have hstep : handleClient code what client (.wrote (response.length - client.sent.length)) =
      some { client with sent := response, stage := .ended } := by
    simp only [handleClient, hstage]
    rw [hall, if_pos le_rfl, List.take_length, if_pos rfl]
  exact .head hstep trivial (.here ⟨rfl, rfl⟩)

theorem canReach_processing (h : Valid code what client) (hstage : client.stage = .processing) :
    CanReach (handleClient code what) Step.Succeeds
      (fun c => c.sent = response ∧ c.stage = .ended) client := by
  have hstep : handleClient code what client .slept =
      some { client with stage := .responding } := by
    simp only [handleClient, hstage]
  exact .head hstep trivial (canReach_responding (h.step hstep) rfl)

theorem canReach_reading (h : Valid code what client) (hstage : client.stage = .reading) :
    CanReach (handleClient code what) Step.Succeeds
      (fun c => c.sent = response ∧ c.stage = .ended) client := by
  have hline : '\n' ∈ client.request ++ "\n".toList :=
    List.mem_append_right _ (List.mem_singleton_self _)
  have hstep : handleClient code what client (.received "\n".toList) =
      some { client with request := client.request ++ "\n".toList, stage := .processing } := by
    simp only [handleClient, hstage, if_pos hline]
  exact .head hstep trivial (canReach_processing (h.step hstep) rfl)

/-- A client that is not over can be answered. -/
theorem canReach_answered (h : Valid code what client) (hover : client.stage ≠ .ended) :
    CanReach (handleClient code what) Step.Succeeds
      (fun c => c.sent = response ∧ c.stage = .ended) client := by
  cases hstage : client.stage with
  | ended => exact absurd hstage hover
  | responding => exact canReach_responding h hstage
  | processing => exact canReach_processing h hstage
  | reading => exact canReach_reading h hstage
  | handshaking =>
    have hstep : handleClient code what client .handshaken =
        some { client with stage := .reading } := by
      simp only [handleClient, hstage]
    exact .head hstep trivial (canReach_reading (h.step hstep) rfl)

theorem canReach_over (h : Valid code what client) :
    CanReach (handleClient code what) Step.Succeeds
      (fun c => (service code what).ended c = true) client := by
  by_cases hover : client.stage = .ended
  · exact .here (beq_iff_eq.mpr hover)
  · exact (canReach_answered h hover).imp (fun _ hevent => hevent) fun _ hc => beq_iff_eq.mpr hc.2

/-! ## The server -/

/-- What holds of the server after `events`. An error of the acceptor leaves the loop of the
thread and ends the process: nothing can follow then (`threw`). -/
structure Serves (code : ErrorCode → Str) (what : Str → ErrorCode → Str)
    (events : List (Event Step)) (s : Server Client) : Prop where
  serving : ∀ client, s.loop = .serving client → Valid code what client
  served : ∀ client ∈ s.served, Valid code what client ∧ client.stage = .ended
  /-- One client is served at a time. -/
  clients : s.clients = tally (Server.step (service code what)) Server.isAccepted {} events
  late : tally (Server.step (service code what)) Server.isLate {} events ≤ 1
  joined : s.joined = true → s.stop = true ∧ s.loop.hasReturned = true
  /-- `stop` can return without a further client unless the thread is waiting for one, or
  an error of the acceptor has ended the process. -/
  stops : CanReach (Server.step (service code what)) (Event.Without Step.Succeeds)
    (fun final => final.joined = true) s ↔ s.loop ≠ .accepting ∧ s.loop ≠ .threw
  /-- Until it is stopped, or ended so, a further client can be answered. -/
  serves : s.stop = false → s.loop ≠ .threw →
    CanReach (Server.step (service code what)) (Event.Serves Step.Succeeds) (fun final =>
      ∃ before client, final.served = s.served ++ before ++ [client] ∧ client.sent = response) s

end BoostProjects.Networking.SSLTCPServer.SSL2
