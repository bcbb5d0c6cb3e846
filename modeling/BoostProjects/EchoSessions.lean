import BoostProjects.Asio.Coroutines.CoroutineApps
import BoostProjects.Networking.SSLTCPServer.Session
import BoostProjects.Networking.TCPEchoServerClient

/-!
# The half-duplex echo sessions

Two callback machines and two coroutines that all do the same: the bytes they
send are those they receive, whatever the size of their buffers.
-/

namespace BoostProjects.EchoSessions

open Asio.Coroutines.CoroutineApps Boost HalfDuplex Memory Networking Transition

/-- The sessions, with what the storage of their uninitialized arrays holds. -/
inductive Program
  /-- `TCPEchoServerClient::Session` -/
  | tcpSession
  /-- `SSL_TCPServer::SSL1::session` -/
  | sslSession
  /-- `EchoServer_One::session` -/
  | session (data : Cells Byte EchoServerOne.size)
  /-- `EchoServer_Refactor::echo` -/
  | echo (fresh : Frame EchoServerRefactor.size → Cells Byte EchoServerRefactor.size)

namespace Program

/-- What a session has in memory. -/
def State : Program → Type
  | tcpSession => TCPEchoServerClient.Session
  | sslSession => SSLTCPServer.SSL1.Session
  | session _ => Frame EchoServerOne.size
  | echo _ => Frame EchoServerRefactor.size

/-- What the handlers are told about a failure. -/
def Failed : Program → Type
  | sslSession => SSLTCPServer.SSL1.Failed
  | tcpSession | session _ | echo _ => Failure

/-- The size of the buffer of a session. -/
def size : Program → ℕ
  | tcpSession => TCPEchoServerClient.maxLength
  | sslSession => SSLTCPServer.SSL1.maxLength
  | session _ => EchoServerOne.size
  | echo _ => EchoServerRefactor.size

/-- The session, as a party of the stream. -/
def party : (program : Program) → Party program.State Byte program.Failed program.size
  | tcpSession => TCPEchoServerClient.session
  | sslSession => SSLTCPServer.SSL1.session
  | session data => EchoServerOne.session data
  | echo fresh => EchoServerRefactor.echo fresh

theorem party_isEcho (program : Program) : IsEcho program.party := by
  cases program with
  | tcpSession => exact TCPEchoServerClient.session_alternates.isEcho
  | sslSession => exact SSLTCPServer.SSL1.session_alternates.isEcho
  | session data => exact (EchoServerOne.session_alternates data).isEcho
  | echo fresh => exact (EchoServerRefactor.echo_alternates fresh).isEcho

end Program

/-- The run has come to rest without an error on a write. -/
structure Completed (program : Program) (events : List (Event Byte program.Failed))
    (link : Link program.State Byte program.Failed) : Prop where
  run : run program.party.step program.party.started events = some link
  clean : Obeys program.party.step Link.KeepsWrites program.party.started events
  atRest : link.AtRest

/-- **One echo.** Every session is a half-duplex echo, so on the same input any
two of them have the same output. -/
theorem sessions_echo :
    (∀ program : Program, IsEcho program.party) ∧
      ∀ program₁ program₂ events₁ events₂ link₁ link₂, Completed program₁ events₁ link₁ →
        Completed program₂ events₂ link₂ → received link₁.trace = received link₂.trace →
          sent link₁.trace = sent link₂.trace := by
  refine ⟨Program.party_isEcho, ?_⟩
  intro program₁ program₂ events₁ events₂ link₁ link₂ h₁ h₂ hreceived
  calc sent link₁.trace
      = received link₁.trace := program₁.party_isEcho.settled events₁ link₁ h₁.run h₁.clean h₁.atRest
    _ = received link₂.trace := hreceived
    _ = sent link₂.trace :=
      (program₂.party_isEcho.settled events₂ link₂ h₂.run h₂.clean h₂.atRest).symm

/-- A run is complete if nothing but a read is in flight in the end. -/
theorem completed_of_reads {program : Program} {events : List (Event Byte program.Failed)}
    {capacity : ℕ} {trace : List (Transfer Byte)}
    (hrun : (run program.party.step program.party.started events).map
      (fun link => (link.inFlight, link.trace)) = some ([{ task := .read capacity }], trace))
    (hclean : Obeys program.party.step Link.KeepsWrites program.party.started events) :
    ∃ link, Completed program events link ∧ link.trace = trace := by
  obtain ⟨link, hlink, hpair⟩ := Option.map_eq_some_iff.mp hrun
  obtain ⟨hinFlight, htrace⟩ := Prod.mk.inj hpair
  refine ⟨link, ⟨hlink, hclean, fun op hop => ?_⟩, htrace⟩
  rw [hinFlight, List.mem_singleton] at hop
  exact hop ▸ ⟨⟨capacity, rfl⟩, rfl⟩

/-- Three bytes, read at once by one session and in two pieces by another. -/
theorem sessions_echo_pieces : ∃ link₁ link₂,
    received (link₁ : Link Program.tcpSession.State Byte Program.tcpSession.Failed).trace =
        [1, 2, 3] ∧
      sent link₁.trace =
        sent (link₂ : Link (Program.echo fun _ _ => 0).State Byte
          (Program.echo fun _ _ => 0).Failed).trace := by
  obtain ⟨link₁, h₁, htrace₁⟩ := @completed_of_reads .tcpSession
    [.arrive 0 [1, 2, 3], .run 0, .transmit 0 3, .succeed 0, .run 0]
    TCPEchoServerClient.maxLength [.input [1, 2, 3], .output [1, 2, 3]] (by rfl) (by decide)
  obtain ⟨link₂, h₂, htrace₂⟩ := @completed_of_reads (.echo fun _ _ => 0)
    [.arrive 0 [1, 2], .run 0, .transmit 0 1, .transmit 0 1, .succeed 0, .run 0,
      .arrive 0 [3], .run 0, .transmit 0 1, .succeed 0, .run 0]
    EchoServerRefactor.size [.input [1, 2], .output [1], .output [2], .input [3], .output [3]]
    (by rfl) (by decide)
  refine ⟨link₁, link₂, by rw [htrace₁]; rfl, ?_⟩
  exact sessions_echo.2 _ _ _ _ link₁ link₂ h₁ h₂ (by rw [htrace₁, htrace₂]; rfl)

end BoostProjects.EchoSessions
