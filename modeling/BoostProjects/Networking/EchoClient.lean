import BoostProjects.EchoSessions

/-!
# The TCP echo client against a session

`client` writes its whole request, reads as many bytes as it has written, at most
what `reply` has room for, and prints them. On the other side of the connection
is any of the half-duplex sessions that take its bytes as they are: the session of
`SSL1` waits for a handshake that `client` does not begin.

The bytes on their way are not stored: what the session may receive next goes on
from what it has received, among the bytes written, and so in the other
direction. Every schedule of the two sides, and every cutting of the bytes, is a
list of events.
-/

namespace BoostProjects.Networking.TCPEchoServerClient

open Boost HalfDuplex Memory Transition

/-! ## The system -/

/-- Where `client` is, once it is connected: in `asio::write`, in `asio::read` with
what it has read so far, behind its output, or in its `catch`. -/
inductive Client
  | writing
  | reading (reply : List Byte)
  | printed (reply : List Byte)
  | caught (ec : ErrorCode)
  deriving DecidableEq, Repr

/-- `reply.size()` -/
def replySize : ℕ := 1024

/-- The size of `asio::buffer(reply, request.size())`. -/
def expected (request : List Byte) : ℕ := min replySize request.length

/-- The client, what its socket has taken of the request, and the session. -/
structure System (σ ε : Type) where
  client : Client := .writing
  wrote : List Byte := []
  session : Link σ Byte ε

/-- What can happen next on either side. -/
inductive Action (ε : Type)
  /-- The socket takes the next bytes of the request. -/
  | write (count : ℕ)
  /-- `asio::write` returns. -/
  | written
  /-- Bytes of the reply arrive. -/
  | read (piece : List Byte)
  /-- `asio::read` returns, and the reply is printed. -/
  | print
  /-- A call of the client throws. -/
  | throw (error : Failure)
  | session (event : Event Byte ε)

/-- What arrives at the session goes on from what it has received. -/
def Delivers {σ ε : Type} (wrote : List Byte) (session : Link σ Byte ε) : Event Byte ε → Prop
  | .arrive _ bytes => bytes ≠ [] ∧ received session.trace ++ bytes <+: wrote
  | _ => True

section Step

variable {σ ε : Type} {cap : ℕ} (request : List Byte) (party : Party σ Byte ε cap)

instance (wrote : List Byte) (session : Link σ Byte ε) (event : Event Byte ε) :
    Decidable (Delivers wrote session event) :=
  match event with
  | .arrive _ bytes =>
    inferInstanceAs (Decidable (bytes ≠ [] ∧ received session.trace ++ bytes <+: wrote))
  | .transmit _ _ | .succeed _ | .fail _ _ | .run _ => isTrue trivial

/-- Nothing has been sent, and the session has started its first operation. -/
def System.started : System σ ε := { session := party.started }

/-- One step of either side, or of the connection between them. -/
def System.step (system : System σ ε) : Action ε → Option (System σ ε)
  | .write count =>
    match system.client with
    | .writing =>
      if 0 < count ∧ system.wrote.length + count ≤ request.length then
        some { system with wrote := request.take (system.wrote.length + count) }
      else none
    | _ => none
  | .written =>
    match system.client with
    | .writing =>
      if system.wrote.length = request.length then some { system with client := .reading [] }
      else none
    | _ => none
  | .read piece =>
    match system.client with
    | .reading reply =>
      if piece ≠ [] ∧ reply.length + piece.length ≤ expected request ∧
          reply ++ piece <+: sent system.session.trace then
        some { system with client := .reading (reply ++ piece) }
      else none
    | _ => none
  | .print =>
    match system.client with
    | .reading reply =>
      if reply.length = expected request then some { system with client := .printed reply }
      else none
    | _ => none
  | .throw error =>
    match system.client with
    | .writing | .reading _ => some { system with client := .caught error.1 }
    | _ => none
  | .session event =>
    if Delivers system.wrote system.session event then
      (party.step system.session event).map fun session => { system with session }
    else none

end Step

/-! ## What each side has passed on -/

/-- What the client has read. -/
def Client.reply : Client → List Byte
  | .reading reply | .printed reply => reply
  | .writing | .caught _ => []

section Safety

variable {σ ε : Type} {cap : ℕ} {request : List Byte} {party : Party σ Byte ε cap}
  {system next : System σ ε}

/-- Each side has of the other one's bytes the first ones. -/
structure Conserves (request : List Byte) (party : Party σ Byte ε cap) (system : System σ ε) :
    Prop where
  session : Reachable party.step party.started system.session
  wrote : system.wrote <+: request
  arrived : received system.session.trace <+: system.wrote
  reply : system.client.reply <+: sent system.session.trace
  room : system.client.reply.length ≤ expected request
  all : ∀ reply, system.client = .reading reply ∨ system.client = .printed reply →
    system.wrote = request
  enough : ∀ reply, system.client = .printed reply → reply.length = expected request

theorem conserves_started (htrace : party.started.trace = []) :
    Conserves request party (System.started party) where
  session := ⟨[], rfl⟩
  wrote := List.nil_prefix
  arrived := by
    rw [System.started, htrace]
    exact List.nil_prefix
  reply := List.nil_prefix
  room := Nat.zero_le _
  all := by
    rintro reply (h | h) <;> exact nomatch h
  enough _ := nofun

theorem step_write {count : ℕ} (h : system.step request party (.write count) = some next) :
    system.client = .writing ∧ system.wrote.length + count ≤ request.length ∧
      next = { system with wrote := request.take (system.wrote.length + count) } := by
  rw [System.step] at h
  split at h
  · next hclient =>
    rw [Option.ite_none_right_eq_some] at h
    exact ⟨hclient, h.1.2, (Option.some.inj h.2).symm⟩
  · exact nomatch h

theorem step_written (h : system.step request party .written = some next) :
    system.client = .writing ∧ system.wrote.length = request.length ∧
      next = { system with client := .reading [] } := by
  rw [System.step] at h
  split at h
  · next hclient =>
    rw [Option.ite_none_right_eq_some] at h
    exact ⟨hclient, h.1, (Option.some.inj h.2).symm⟩
  · exact nomatch h

theorem step_read {piece : List Byte}
    (h : system.step request party (.read piece) = some next) :
    ∃ reply, system.client = .reading reply ∧ (reply ++ piece).length ≤ expected request ∧
      reply ++ piece <+: sent system.session.trace ∧
      next = { system with client := .reading (reply ++ piece) } := by
  rw [System.step] at h
  split at h
  · next reply hclient =>
    rw [Option.ite_none_right_eq_some] at h
    refine ⟨reply, hclient, ?_, h.1.2.2, (Option.some.inj h.2).symm⟩
    rw [List.length_append]
    exact h.1.2.1
  · exact nomatch h

theorem step_print (h : system.step request party .print = some next) :
    ∃ reply, system.client = .reading reply ∧ reply.length = expected request ∧
      next = { system with client := .printed reply } := by
  rw [System.step] at h
  split at h
  · next reply hclient =>
    rw [Option.ite_none_right_eq_some] at h
    exact ⟨reply, hclient, h.1, (Option.some.inj h.2).symm⟩
  · exact nomatch h

theorem step_throw {error : Failure}
    (h : system.step request party (.throw error) = some next) :
    next = { system with client := .caught error.1 } := by
  rw [System.step] at h
  split at h
  · exact (Option.some.inj h).symm
  · exact (Option.some.inj h).symm
  · exact nomatch h

theorem step_session {event : Event Byte ε}
    (h : system.step request party (.session event) = some next) :
    Delivers system.wrote system.session event ∧
      ∃ session, party.step system.session event = some session ∧
        next = { system with session } := by
  rw [System.step, Option.ite_none_right_eq_some, Option.map_eq_some_iff] at h
  obtain ⟨hdelivers, session, hstep, rfl⟩ := h
  exact ⟨hdelivers, session, hstep, rfl⟩

variable {awaits : σ → Task → Prop} (halternates : party.Alternates awaits)
include halternates

theorem Conserves.step (h : Conserves request party system) {action : Action ε}
    (hstep : system.step request party action = some next) : Conserves request party next := by
  cases action with
  | write count =>
    obtain ⟨hclient, hcount, rfl⟩ := step_write hstep
    have hwrote : system.wrote <+: request.take (system.wrote.length + count) := by
      refine List.prefix_of_prefix_length_le h.wrote (List.take_prefix _ _) ?_
      rw [List.length_take]
      omega
    refine { h with wrote := List.take_prefix _ _, arrived := h.arrived.trans hwrote, all := ?_ }
    rintro reply (hreply | hreply) <;> exact nomatch hclient.symm.trans hreply
  | written =>
    obtain ⟨hclient, hlength, rfl⟩ := step_written hstep
    refine { h with reply := List.nil_prefix, room := Nat.zero_le _, all := fun _ _ => ?_,
                    enough := fun _ => nofun }
    exact h.wrote.eq_of_length hlength
  | read piece =>
    obtain ⟨reply, hclient, hroom, hreply, rfl⟩ := step_read hstep
    refine { h with reply := hreply, room := hroom, all := fun _ _ => ?_, enough := fun _ => nofun }
    exact h.all reply (Or.inl hclient)
  | print =>
    obtain ⟨reply, hclient, hlength, rfl⟩ := step_print hstep
    have hreply := h.reply
    rw [hclient] at hreply
    refine { h with reply := hreply, room := hlength.le,
                    all := fun _ _ => h.all reply (Or.inl hclient), enough := ?_ }
    rintro _ ⟨⟩
    exact hlength
  | throw error =>
    obtain rfl := step_throw hstep
    refine { h with reply := List.nil_prefix, room := Nat.zero_le _, all := ?_,
                    enough := fun _ => nofun }
    rintro reply (hreply | hreply) <;> exact nomatch hreply
  | session event =>
    obtain ⟨hdelivers, session, hsession, rfl⟩ := step_session hstep
    have hphase := Phase.of_reachable halternates h.session
    have hreceived := hphase.received_step halternates hsession
    have hsent := sent_isPrefix (hphase.trace_step halternates hsession)
    refine { h with session := ?_, arrived := ?_, reply := h.reply.trans hsent }
    · obtain ⟨events, hrun⟩ := h.session
      exact ⟨events ++ [event], (run_concat_eq_some_iff hrun).mpr hsession⟩
    · rw [hreceived]
      cases event with
      | arrive i bytes => exact hdelivers.2
      | transmit | succeed | fail | run => exact (List.append_nil _).symm ▸ h.arrived

/-- What the client prints is the beginning of its request. -/
theorem Conserves.printed (h : Conserves request party system) {reply : List Byte}
    (hclient : system.client = .printed reply) : reply = request.take replySize := by
  have hreply : reply <+: request := by
    have hprinted := h.reply
    rw [hclient] at hprinted
    calc reply <+: sent system.session.trace := hprinted
      _ <+: received system.session.trace := halternates.isEcho.echoed _ h.session
      _ <+: system.wrote := h.arrived
      _ <+: request := h.wrote
  rw [List.prefix_iff_eq_take.mp hreply, h.enough reply hclient, expected,
    List.take_eq_take_iff, Nat.min_assoc, Nat.min_self]

end Safety

/-! ## The reply arrives -/

/-- Nothing fails. -/
def Action.Succeeds {ε : Type} : Action ε → Prop
  | .throw _ => False
  | .session event => event.Succeeds
  | _ => True

section Progress

variable {σ ε : Type} {cap : ℕ} {request : List Byte} {party : Party σ Byte ε cap}
  {system next : System σ ε} {awaits : σ → Task → Prop}

/-- Nothing has failed. -/
structure Healthy (request : List Byte) (party : Party σ Byte ε cap) (system : System σ ε) :
    Prop where
  conserves : Conserves request party system
  unfailed : system.session.Unfailed
  client : ∀ ec, system.client ≠ .caught ec

theorem delivers_of_isOwn {wrote : List Byte} {session : Link σ Byte ε} {event : Event Byte ε}
    (h : event.IsOwn) : Delivers wrote session event := by
  cases event with
  | arrive i bytes => exact h.elim
  | transmit | succeed | fail | run => trivial

theorem step_session_of_delivers {event : Event Byte ε} {session : Link σ Byte ε}
    (hdelivers : Delivers system.wrote system.session event)
    (hstep : party.step system.session event = some session) :
    system.step request party (.session event) = some { system with session } := by
  rw [System.step, if_pos hdelivers, hstep, Option.map_some]

variable (halternates : party.Alternates awaits)
include halternates

theorem healthy_started : Healthy request party (System.started party) where
  conserves := by
    obtain ⟨task, -, -, -, htrace⟩ := halternates.started
    exact conserves_started htrace
  unfailed := unfailed_started halternates
  client _ := nofun

theorem Healthy.step (h : Healthy request party system) {action : Action ε}
    (haction : action.Succeeds) (hstep : system.step request party action = some next) :
    Healthy request party next := by
  refine ⟨h.conserves.step halternates hstep, ?_, ?_⟩
  · cases action with
    | write count =>
      obtain ⟨-, -, rfl⟩ := step_write hstep
      exact h.unfailed
    | written =>
      obtain ⟨-, -, rfl⟩ := step_written hstep
      exact h.unfailed
    | read piece =>
      obtain ⟨reply, -, -, -, rfl⟩ := step_read hstep
      exact h.unfailed
    | print =>
      obtain ⟨reply, -, -, rfl⟩ := step_print hstep
      exact h.unfailed
    | throw error => exact haction.elim
    | session event =>
      obtain ⟨-, session, hsession, rfl⟩ := step_session hstep
      have hphase := Phase.of_reachable halternates h.conserves.session
      exact h.unfailed.step halternates hphase haction hsession
  · intro ec
    cases action with
    | write count =>
      obtain ⟨-, -, rfl⟩ := step_write hstep
      exact h.client ec
    | written =>
      obtain ⟨-, -, rfl⟩ := step_written hstep
      exact nofun
    | read piece =>
      obtain ⟨reply, -, -, -, rfl⟩ := step_read hstep
      exact nofun
    | print =>
      obtain ⟨reply, -, -, rfl⟩ := step_print hstep
      exact nofun
    | throw error => exact haction.elim
    | session event =>
      obtain ⟨-, session, -, rfl⟩ := step_session hstep
      exact h.client ec

/-- The session has received `bytes` and waits, and the client stands where it did. -/
structure Waiting (client : Client) (request : List Byte) (party : Party σ Byte ε cap)
    (awaits : σ → Task → Prop) (bytes : List Byte) (system : System σ ε) : Prop where
  healthy : Healthy request party system
  client : system.client = client
  listens : Listens cap awaits bytes system.session

/-- The session works off what it has received. -/
theorem Healthy.waiting (h : Healthy request party system) :
    CanReach (System.step request party) Action.Succeeds
      (Waiting system.client request party awaits (received system.session.trace)) system := by
  have hphase := Phase.of_reachable halternates h.conserves.session
  have hlift : CanReach (System.step request party) Action.Succeeds _ system :=
    (hphase.listens halternates h.unfailed).lift (fun session => { system with session })
      Action.session fun _ _ _ hown hstep =>
        ⟨hown.succeeds, step_session_of_delivers (delivers_of_isOwn hown) hstep⟩
  have hkeeps := hlift.keeping (Healthy request party)
    (fun _ _ _ haction hhealthy hstep => hhealthy.step halternates haction hstep) h
  refine hkeeps.imp (fun _ haction => haction) ?_
  rintro final ⟨⟨session, hlistens, rfl⟩, hhealthy⟩
  exact ⟨hhealthy, rfl, hlistens⟩

variable {reply bytes rest : List Byte}

/-- A session that waits takes the next piece of the request. -/
theorem Waiting.hear (h : Waiting (.reading reply) request party awaits bytes system)
    {piece : List Byte} (hpiece : piece ≠ []) (hlength : piece.length ≤ cap)
    (hbegins : bytes ++ piece <+: request) :
    CanReach (System.step request party) Action.Succeeds
      (Waiting (.reading reply) request party awaits (bytes ++ piece)) system := by
  have hwrote : system.wrote = request := h.healthy.conserves.all reply (Or.inl h.client)
  have hdelivers : Delivers system.wrote system.session (.arrive 0 piece : Event Byte ε) := by
    rw [Delivers, hwrote, h.listens.received]
    exact ⟨hpiece, hbegins⟩
  have hsession : ∃ session, party.step system.session (.arrive 0 piece) = some session := by
    rw [Party.step, h.listens.single]
    exact ⟨_, if_pos hlength⟩
  obtain ⟨session, hsession⟩ := hsession
  have hstep : system.step request party (.session (.arrive 0 piece)) =
      some { system with session } := step_session_of_delivers hdelivers hsession
  have haction : Action.Succeeds (.session (.arrive 0 piece : Event Byte ε)) := trivial
  have hphase := Phase.of_reachable halternates h.healthy.conserves.session
  have hreceived : received session.trace = bytes ++ piece := by
    rw [hphase.received_step halternates hsession, h.listens.received]
    rfl
  have hnext := (h.healthy.step halternates haction hstep).waiting halternates
  rw [hreceived] at hnext
  exact .head hstep haction (hnext.imp (fun _ haction => haction) fun _ hwaiting =>
    { hwaiting with client := hwaiting.client.trans h.client })

/-- It receives what is left of the request, piece by piece. -/
theorem Waiting.receives (hcap : 0 < cap)
    (h : Waiting (.reading reply) request party awaits bytes system)
    (hrest : bytes ++ rest = request) :
    CanReach (System.step request party) Action.Succeeds
      (Waiting (.reading reply) request party awaits request) system := by
  induction hlength : rest.length using Nat.strong_induction_on generalizing system bytes rest with
  | _ n ih =>
    by_cases hnil : rest = []
    · rw [hnil, List.append_nil] at hrest
      exact .here (hrest ▸ h)
    · have hpos : 0 < rest.length := List.length_pos_iff.mpr hnil
      have hpiece : rest.take cap ≠ [] := by
        rw [← List.length_pos_iff, List.length_take]
        omega
      have hsplit : bytes ++ rest.take cap ++ rest.drop cap = request := by
        rw [List.append_assoc, List.take_append_drop, hrest]
      refine (h.hear halternates hpiece (List.length_take_le cap rest) ⟨_, hsplit⟩).trans
        fun _ hnext => ih _ ?_ hnext hsplit rfl
      rw [List.length_drop]
      omega

/-- A reply of the right length is printed. -/
theorem Healthy.prints (h : Healthy request party system) (hclient : system.client = .reading reply)
    (hlength : reply.length = expected request) :
    CanReach (System.step request party) Action.Succeeds
      (fun final => final.client = .printed (request.take replySize)) system := by
  have hstep : system.step request party .print = some { system with client := .printed reply } := by
    rw [System.step, hclient]
    exact if_pos hlength
  have haction : (Action.print : Action ε).Succeeds := trivial
  have hnext := h.step halternates haction hstep
  have hreply : reply = request.take replySize := hnext.conserves.printed halternates rfl
  exact .head hstep trivial (.here (congrArg Client.printed hreply))

/-- The client reads what the session has sent, and prints it. -/
theorem Waiting.prints (h : Waiting (.reading reply) request party awaits request system) :
    CanReach (System.step request party) Action.Succeeds
      (fun final => final.client = .printed (request.take replySize)) system := by
  have hreading : system.session.Reading :=
    ⟨{ task := .read cap }, by rw [h.listens.single]; exact List.mem_singleton_self _,
      ⟨cap, rfl⟩, nofun⟩
  have hsent : sent system.session.trace = request :=
    (halternates.isEcho.caughtUp _ h.healthy.conserves.session hreading).trans h.listens.received
  have hreply := h.healthy.conserves.reply
  have hroom := h.healthy.conserves.room
  rw [h.client, Client.reply] at hreply hroom
  obtain hlt | heq := Nat.lt_or_eq_of_le hroom
  · have hlength : expected request ≤ request.length := Nat.min_le_right _ _
    have hbegins : reply ++ (request.drop reply.length).take (expected request - reply.length) =
        request.take (expected request) := by
      rw [hsent] at hreply
      calc reply ++ (request.drop reply.length).take (expected request - reply.length)
          = request.take reply.length ++
              (request.drop reply.length).take (expected request - reply.length) := by
            rw [← List.prefix_iff_eq_take.mp hreply]
        _ = request.take (reply.length + (expected request - reply.length)) :=
            List.take_add.symm
        _ = request.take (expected request) := by rw [Nat.add_sub_cancel' hroom]
    generalize (request.drop reply.length).take (expected request - reply.length) = piece at hbegins
    have htotal : reply.length + piece.length = expected request := by
      rw [← List.length_append, hbegins, List.length_take, Nat.min_eq_left hlength]
    have hpiece : piece ≠ [] := by
      rintro rfl
      exact Nat.ne_of_lt hlt htotal
    have hstep : system.step request party (.read piece) =
        some { system with client := .reading (reply ++ piece) } := by
      rw [System.step, h.client]
      refine if_pos ⟨hpiece, htotal.le, ?_⟩
      rw [hsent, hbegins]
      exact List.take_prefix _ _
    have haction : (Action.read piece : Action ε).Succeeds := trivial
    refine .head hstep haction ((h.healthy.step halternates haction hstep).prints halternates rfl ?_)
    rw [List.length_append, htotal]
  · exact h.healthy.prints halternates h.client heq

/-- While the client reads, the session can receive the rest of the request, and the
client the reply. -/
theorem Healthy.completes_reading (h : Healthy request party system) (hcap : 0 < cap)
    (hclient : system.client = .reading reply) :
    CanReach (System.step request party) Action.Succeeds
      (fun final => final.client = .printed (request.take replySize)) system := by
  have hwrote : system.wrote = request := h.conserves.all reply (Or.inl hclient)
  obtain ⟨rest, hrest⟩ := hwrote ▸ h.conserves.arrived
  have hwaiting := h.waiting halternates
  rw [hclient] at hwaiting
  refine hwaiting.trans fun _ hwaits => ?_
  exact (hwaits.receives halternates hcap hrest).trans fun _ hall => hall.prints halternates

theorem Healthy.completes_writing (h : Healthy request party system) (hcap : 0 < cap)
    (hclient : system.client = .writing) (hlength : system.wrote.length = request.length) :
    CanReach (System.step request party) Action.Succeeds
      (fun final => final.client = .printed (request.take replySize)) system := by
  have hstep : system.step request party .written =
      some { system with client := .reading [] } := by
    rw [System.step, hclient]
    exact if_pos hlength
  have haction : (Action.written : Action ε).Succeeds := trivial
  exact .head hstep haction
    ((h.step halternates haction hstep).completes_reading halternates hcap rfl)

/-- While nothing has failed, the client can come to print its request. -/
theorem Healthy.completes (h : Healthy request party system) (hcap : 0 < cap) :
    CanReach (System.step request party) Action.Succeeds
      (fun final => final.client = .printed (request.take replySize)) system := by
  cases hclient : system.client with
  | caught ec => exact absurd hclient (h.client ec)
  | printed reply => exact .here (hclient.trans (congrArg _ (h.conserves.printed halternates hclient)))
  | reading reply => exact h.completes_reading halternates hcap hclient
  | writing =>
    obtain hlt | heq := Nat.lt_or_eq_of_le h.conserves.wrote.length_le
    · have hcount : system.wrote.length + (request.length - system.wrote.length) =
          request.length := Nat.add_sub_cancel' hlt.le
      have hstep : system.step request party (.write (request.length - system.wrote.length)) =
          some { system with wrote := request } := by
        rw [System.step, hclient]
        refine (if_pos ⟨Nat.sub_pos_of_lt hlt, hcount.le⟩).trans ?_
        rw [hcount, List.take_length]
      have haction : (Action.write (request.length - system.wrote.length) : Action ε).Succeeds :=
        trivial
      exact .head hstep haction
        ((h.step halternates haction hstep).completes_writing halternates hcap hclient rfl)
    · exact h.completes_writing halternates hcap hclient heq

end Progress

/-! ## The sessions without TLS -/

/-- The session reads what the client writes, with no handshake before it. -/
def IsPlain : EchoSessions.Program → Prop
  | .sslSession => False
  | .tcpSession | .session _ | .echo _ => True

theorem party_alternates {program : EchoSessions.Program} (hplain : IsPlain program) :
    0 < program.size ∧ ∃ awaits, program.party.Alternates awaits := by
  cases program with
  | tcpSession => exact ⟨Nat.succ_pos _, _, session_alternates⟩
  | sslSession => exact hplain.elim
  | session data =>
    exact ⟨Nat.succ_pos _, _, Asio.Coroutines.CoroutineApps.EchoServerOne.session_alternates data⟩
  | echo fresh =>
    exact ⟨Nat.succ_pos _, _, Asio.Coroutines.CoroutineApps.EchoServerRefactor.echo_alternates fresh⟩

/-- **The client prints what it has sent.** Against every session without TLS and in
every schedule, what is printed is the request, as far as the reply has room for it; and
while nothing has failed, the client can come to print it. -/
theorem client_prints_request (program : EchoSessions.Program) (hplain : IsPlain program)
    (request : List Byte) (actions : List (Action program.Failed))
    (system : System program.State program.Failed)
    (hrun : run (System.step request program.party) (.started program.party) actions =
      some system) :
    (∀ reply, system.client = .printed reply → reply = request.take replySize) ∧
      ((∀ action ∈ actions, action.Succeeds) →
        CanReach (System.step request program.party) Action.Succeeds
          (fun final => final.client = .printed (request.take replySize)) system) := by
  obtain ⟨hsize, awaits, halternates⟩ := party_alternates hplain
  have hstart : Healthy request program.party (.started program.party) :=
    healthy_started halternates
  constructor
  · intro reply
    exact (run_invariant (Conserves request program.party)
      (fun _ _ _ h hstep => h.step halternates hstep) hrun hstart.conserves).printed halternates
  · intro hactions
    exact (run_invariant_of_obeys (Healthy request program.party)
      (fun _ _ _ h haction hstep => h.step halternates haction hstep) hrun
      (obeys_of_forall hactions) hstart).completes halternates hsize

/-- A request that arrives at the session in two pieces. -/
theorem client_prints_pieces : ∃ system : System EchoSessions.Program.tcpSession.State Failure,
    run (System.step [84, 69, 83, 84] EchoSessions.Program.tcpSession.party)
        (.started EchoSessions.Program.tcpSession.party)
        [.write 3, .session (.arrive 0 [84, 69]), .write 1, .session (.run 0), .written,
          .session (.transmit 0 2), .session (.succeed 0), .read [84]] = some system ∧
      CanReach (System.step [84, 69, 83, 84] EchoSessions.Program.tcpSession.party)
        Action.Succeeds (fun final => final.client = .printed [84, 69, 83, 84]) system := by
  obtain ⟨system, hsystem⟩ : ∃ system : System EchoSessions.Program.tcpSession.State Failure,
      run (System.step [84, 69, 83, 84] EchoSessions.Program.tcpSession.party)
          (.started EchoSessions.Program.tcpSession.party)
          [.write 3, .session (.arrive 0 [84, 69]), .write 1, .session (.run 0), .written,
            .session (.transmit 0 2), .session (.succeed 0), .read [84]] = some system := ⟨_, rfl⟩
  refine ⟨system, hsystem, (client_prints_request .tcpSession trivial _ _ system hsystem).2 ?_⟩
  simp [Action.Succeeds, Event.Succeeds]

end BoostProjects.Networking.TCPEchoServerClient
