import BoostProjects.Networking.UDPEchoServerClient
import Mathlib.Logic.Function.Basic

/-!
# UDP clients and their server

Each `client` sends one datagram to the server and prints the first one that it is sent.
It does not look at who has sent it, and there is nothing in a datagram that tells to
which request a reply belongs.

The network may lose datagrams, deliver them late or more than once and in any order,
and endpoints that are no clients may send the server what they like, but nobody except
the server sends to a client. What a client prints is then its own request
(`clients_print`): the server keeps the endpoint and the bytes of one datagram together,
and answers nobody who has sent nothing.
-/

namespace BoostProjects.Networking.UDPEchoServerClient

open Boost Memory Transition

variable {Endpoint : Type*}

/-! ## The system -/

/-- Where `client` is: before `send_to`, in `receive_from`, behind its output, or in its
`catch`. -/
inductive Client
  | sending
  | receiving
  | printed (reply : List Byte)
  | caught (ec : ErrorCode)
  deriving DecidableEq, Repr

/-- The server, the clients by their endpoints, and the clients that have sent. -/
structure Network (Endpoint : Type*) where
  world : World Endpoint
  /-- Nothing for an endpoint that is no client's. -/
  client : Endpoint → Option Client
  sent : List Endpoint := []

/-- What the clients, the network and the server can do. -/
inductive Action (Endpoint : Type*)
  | send (e : Endpoint)
  /-- `receive_from` returns, and the reply is printed. -/
  | print (e : Endpoint) (payload : List Byte)
  /-- A call of the client throws. -/
  | throw (e : Endpoint) (error : Failure)
  | server (event : Event Endpoint)

section Step

variable [DecidableEq Endpoint] (request : Endpoint → List Byte)

/-- What arrives from the endpoint of a client has been sent by it. -/
def Delivers (network : Network Endpoint) : Event Endpoint → Prop
  | .arrived _ sender payload =>
    (network.client sender).isSome → sender ∈ network.sent ∧ payload = request sender
  | _ => True

instance (network : Network Endpoint) (event : Event Endpoint) :
    Decidable (Delivers request network event) :=
  match event with
  | .arrived _ sender payload =>
    inferInstanceAs (Decidable
      ((network.client sender).isSome → sender ∈ network.sent ∧ payload = request sender))
  | .receiveFailed _ _ _ _ | .transmitted _ | .sendFailed _ _ _ | .run _ => isTrue trivial

/-- One client goes on. -/
def Network.becomes (network : Network Endpoint) (e : Endpoint) (client : Client) :
    Network Endpoint :=
  { network with client := Function.update network.client e (some client) }

/-- The datagrams on the wire stay there: each may be received late, again, or never. What
a client receives is among those that the server has sent; there is no action by which
anybody else sends to a client. -/
def Network.step (network : Network Endpoint) : Action Endpoint → Option (Network Endpoint)
  | .send e =>
    match network.client e with
    | some .sending => some { network.becomes e .receiving with sent := network.sent ++ [e] }
    | _ => none
  | .print e payload =>
    match network.client e with
    | some .receiving =>
      if (e, payload) ∈ network.world.wire then
        some (network.becomes e (.printed (payload.take maxLength)))
      else none
    | _ => none
  | .throw e error =>
    match network.client e with
    | some .sending | some .receiving => some (network.becomes e (.caught error.1))
    | _ => none
  | .server event =>
    if Delivers request network event then
      (UDPEchoServerClient.step network.world event).map fun world => { network with world }
    else none

end Step

/-- The clients at these endpoints, and the server, before anything is sent. -/
def Network.started (server : ServerAsync Endpoint) (isClient : Endpoint → Bool) :
    Network Endpoint where
  world := UDPEchoServerClient.started server
  client e := if isClient e then some .sending else none

/-! ## What the clients print -/

section Safety

variable {request : Endpoint → List Byte} {network next : Network Endpoint}

/-- Nothing comes back to a client but what it has sent. -/
structure Answers (request : Endpoint → List Byte) (network : Network Endpoint) : Prop where
  world : Invariant network.world
  received : ∀ datagram ∈ network.world.received, (network.client datagram.1).isSome →
    datagram.1 ∈ network.sent ∧ datagram.2 = request datagram.1
  receiving : ∀ e, network.client e = some .receiving → e ∈ network.sent
  printed : ∀ e reply, network.client e = some (.printed reply) →
    e ∈ network.sent ∧ request e ≠ [] ∧ reply = (request e).take maxLength

theorem answers_started (server : ServerAsync Endpoint) (isClient : Endpoint → Bool) :
    Answers request (Network.started server isClient) where
  world := invariant_started server
  received _ h := absurd h List.not_mem_nil
  receiving e h := by
    have h : (if isClient e then some Client.sending else none) = some .receiving := h
    split_ifs at h
    cases h
  printed e reply h := by
    have h : (if isClient e then some Client.sending else none) = some (.printed reply) := h
    split_ifs at h
    cases h

theorem Answers.of_wire (h : Answers request network) {e : Endpoint} {payload : List Byte}
    (hwire : (e, payload) ∈ network.world.wire) (hclient : (network.client e).isSome) :
    e ∈ network.sent ∧ request e ≠ [] ∧ payload = (request e).take maxLength := by
  obtain ⟨waiting, hsends, -⟩ := h.world.sends_eq
  have hdue : (e, payload) ∈ network.world.received.filterMap reply := by
    rw [hsends]
    exact List.mem_append_left waiting (h.world.wire_sublist.subset hwire)
  obtain ⟨⟨sender, sentPayload⟩, hreceived, hreply⟩ := List.mem_filterMap.mp hdue
  obtain ⟨hne, hreply⟩ := Option.ite_none_left_eq_some.mp hreply
  obtain ⟨rfl, rfl⟩ := Prod.mk.inj (Option.some.inj hreply)
  obtain ⟨hsent, heq⟩ := h.received _ hreceived hclient
  have heq : sentPayload = request sender := heq
  rw [← heq]
  exact ⟨hsent, hne, rfl⟩

/-- What the server has received grows by the datagram that arrives. -/
theorem received_of_step {world world' : World Endpoint} {event : Event Endpoint}
    (h : Invariant world) (hstep : UDPEchoServerClient.step world event = some world') :
    world'.received = world.received ∨ ∃ i sender payload, event = .arrived i sender payload ∧
      world'.received = world.received ++ [(sender, payload)] := by
  cases moves_step h.length_flight hstep with
  | arrived sender payload => exact .inr ⟨0, sender, payload, rfl, rfl⟩
  | receiveFailed | transmitted | sendFailed | sendDone => exact .inl rfl
  | receiveDone =>
    rw [receiveHandler]
    split_ifs
    · exact .inl rfl
    · exact .inl rfl

variable [DecidableEq Endpoint]

theorem client_becomes {e : Endpoint} {client : Client} (e' : Endpoint) :
    (network.becomes e client).client e' = if e' = e then some client else network.client e' :=
  Function.update_apply network.client e (some client) e'

/-- A client goes on where it may. -/
theorem Answers.becomes (h : Answers request network) {e : Endpoint} {client : Client}
    {sent : List Endpoint} (hsent : network.sent ⊆ sent) (hsome : (network.client e).isSome)
    (hreceiving : client = .receiving → e ∈ sent)
    (hprinted : ∀ reply, client = .printed reply →
      e ∈ sent ∧ request e ≠ [] ∧ reply = (request e).take maxLength) :
    Answers request { network.becomes e client with sent } where
  world := h.world
  received datagram hmem hclient := by
    have hwas : (network.client datagram.1).isSome := by
      by_cases he : datagram.1 = e
      · rwa [he]
      · have hclient : ((network.becomes e client).client datagram.1).isSome := hclient
        rwa [client_becomes, if_neg he] at hclient
    obtain ⟨hin, heq⟩ := h.received datagram hmem hwas
    exact ⟨hsent hin, heq⟩
  receiving e' hclient := by
    have hclient : (network.becomes e client).client e' = _ := hclient
    rw [client_becomes] at hclient
    split_ifs at hclient with he
    · rw [he]
      exact hreceiving (Option.some.inj hclient)
    · exact hsent (h.receiving e' hclient)
  printed e' reply hclient := by
    have hclient : (network.becomes e client).client e' = _ := hclient
    rw [client_becomes] at hclient
    split_ifs at hclient with he
    · rw [he]
      exact hprinted reply (Option.some.inj hclient)
    · obtain ⟨hin, heq⟩ := h.printed e' reply hclient
      exact ⟨hsent hin, heq⟩

theorem Answers.step {action : Action Endpoint} (h : Answers request network)
    (hstep : network.step request action = some next) : Answers request next := by
  cases action with
  | send e =>
    cases hclient : network.client e with
    | none => simp [Network.step, hclient] at hstep
    | some client =>
      cases client <;> simp only [Network.step, hclient, reduceCtorEq] at hstep
      obtain rfl := Option.some.inj hstep
      apply h.becomes (List.subset_append_left _ _) (by rw [hclient]; rfl)
      · intro _
        exact List.mem_append_right _ (List.mem_singleton_self e)
      · exact nofun
  | print e payload =>
    cases hclient : network.client e with
    | none => simp [Network.step, hclient] at hstep
    | some client =>
      cases client <;> simp only [Network.step, hclient, reduceCtorEq] at hstep
      obtain ⟨hwire, hstep⟩ := Option.ite_none_right_eq_some.mp hstep
      obtain rfl := Option.some.inj hstep
      have hsome : (network.client e).isSome := by rw [hclient]; rfl
      obtain ⟨hin, hne, heq⟩ := h.of_wire hwire hsome
      have hprinted : ∀ reply, Client.printed (payload.take maxLength) = .printed reply →
          e ∈ network.sent ∧ request e ≠ [] ∧ reply = (request e).take maxLength := by
        rintro reply ⟨⟩
        refine ⟨hin, hne, ?_⟩
        rw [heq, List.take_take, Nat.min_self]
      exact h.becomes (List.Subset.refl _) hsome nofun hprinted
  | throw e error =>
    cases hclient : network.client e with
    | none => simp [Network.step, hclient] at hstep
    | some client =>
      cases client <;> simp only [Network.step, hclient, reduceCtorEq] at hstep
      all_goals
        obtain rfl := Option.some.inj hstep
        exact h.becomes (List.Subset.refl _) (by rw [hclient]; rfl) nofun nofun
  | server event =>
    obtain ⟨hdelivers, hstep⟩ := Option.ite_none_right_eq_some.mp hstep
    obtain ⟨world, hworld, rfl⟩ := Option.map_eq_some_iff.mp hstep
    refine ⟨h.world.preserved hworld, ?_, h.receiving, h.printed⟩
    intro datagram hmem hclient
    obtain heq | ⟨i, sender, payload, rfl, heq⟩ := received_of_step h.world hworld
    · rw [heq] at hmem
      exact h.received datagram hmem hclient
    · rw [heq] at hmem
      obtain hold | hnew := List.mem_append.mp hmem
      · exact h.received datagram hold hclient
      · obtain rfl := List.mem_singleton.mp hnew
        exact hdelivers hclient

end Safety

/-! ## Every client can be answered -/

section Progress

variable {request : Endpoint → List Byte} {network next : Network Endpoint}

/-- Nothing fails. -/
def Event.Succeeds : Event Endpoint → Prop
  | .receiveFailed _ _ _ _ | .sendFailed _ _ _ => False
  | _ => True

/-- The server goes on, and nothing fails. -/
def Action.Serves : Action Endpoint → Prop
  | .server event => event.Succeeds
  | _ => False

/-- Unless a receive is pending, the server can go on without a failure. -/
theorem Invariant.exists_succeeds {world : World Endpoint} (h : Invariant world)
    (hnot : ¬ Receiving world) :
    ∃ event next, event.Succeeds ∧ (∀ i sender payload, event ≠ .arrived i sender payload) ∧
      UDPEchoServerClient.step world event = some next := by
  cases h with
  | receiving => exact absurd rfl hnot
  | received | failed | sent => exact ⟨.run 0, _, trivial, nofun, rfl⟩
  | sending => exact ⟨.transmitted 0, _, trivial, nofun, rfl⟩

/-- A server that receives can answer a datagram. -/
theorem Invariant.run_reply {world : World Endpoint} (h : Invariant world)
    (hreceiving : Receiving world) (e : Endpoint) {payload : List Byte} (hpayload : payload ≠ []) :
    ∃ first second third, UDPEchoServerClient.step world (.arrived 0 e payload) = some first ∧
      UDPEchoServerClient.step first (.run 0) = some second ∧
      UDPEchoServerClient.step second (.transmitted 0) = some third ∧
      (e, payload.take maxLength) ∈ third.wire := by
  obtain ⟨server, flight, received, sends, wire⟩ := world
  obtain rfl : flight = [(.receiveFrom maxLength, .pending)] := hreceiving
  have hlength : (payload.take maxLength).length ≠ 0 := by
    rw [List.length_take, ne_eq, Nat.min_eq_zero_iff, List.length_eq_zero_iff, not_or]
    exact ⟨by decide, hpayload⟩
  have hslice : (e, payload.take maxLength) =
      (e, (server.data.store 0 (payload.take maxLength)).slice 0 (payload.take maxLength).length) := by
    rw [slice_store_take]
  refine ⟨_, _, _, rfl, congrArg some (receiveHandler_success hlength _), rfl, ?_⟩
  apply List.mem_append_right
  exact List.mem_singleton.mpr hslice

variable [DecidableEq Endpoint]

theorem step_server {event : Event Endpoint} {world : World Endpoint}
    (hdelivers : Delivers request network event)
    (hstep : UDPEchoServerClient.step network.world event = some world) :
    network.step request (.server event) = some { network with world } := by
  rw [Network.step, if_pos hdelivers, hstep, Option.map_some]

/-- What the clients have done, and what is known of the server. -/
def Still (request : Endpoint → List Byte) (network next : Network Endpoint) : Prop :=
  Answers request next ∧ next.client = network.client ∧ next.sent = network.sent

theorem still_server {state : Network Endpoint} (h : Still request network state)
    {event : Event Endpoint} {world : World Endpoint} (hdelivers : Delivers request state event)
    (hstep : UDPEchoServerClient.step state.world event = some world) :
    Still request network { state with world } :=
  ⟨h.1.step (step_server hdelivers hstep), h.2.1, h.2.2⟩

theorem canReach_receiving (h : Answers request network) :
    CanReach (Network.step request) Action.Serves
      (fun next => Receiving next.world ∧ Still request network next) network := by
  have hprogress : ∀ state, Still request network state →
      (Receiving state.world ∧ Still request network state) ∨ ∃ action next, Action.Serves action ∧
        state.step request action = some next ∧ Still request network next ∧
        remaining next.world < remaining state.world := by
    intro state hstill
    by_cases hreceiving : Receiving state.world
    · exact .inl ⟨hreceiving, hstill⟩
    · obtain ⟨event, world, hsucceeds, harrived, hstep⟩ :=
        hstill.1.world.exists_succeeds hreceiving
      have hdelivers : Delivers request state event := by
        cases event with
        | arrived i sender payload => exact absurd rfl (harrived i sender payload)
        | receiveFailed | transmitted | sendFailed | run => trivial
      exact .inr ⟨.server event, _, hsucceeds, step_server hdelivers hstep,
        still_server hstill hdelivers hstep, hstill.1.world.remaining_lt hstep hreceiving⟩
  exact CanReach.of_measure (Still request network) (fun state => remaining state.world) hprogress
    ⟨h, rfl, rfl⟩

/-- A client that waits can be answered, however the server and the others are. -/
theorem canReach_printed (h : Answers request network) {e : Endpoint}
    (hclient : network.client e = some .receiving) (hrequest : request e ≠ []) :
    CanReach (Network.step request) (fun action => action.Serves ∨ ∃ payload, action = .print e payload)
      (fun next => next.client e = some (.printed ((request e).take maxLength))) network := by
  refine ((canReach_receiving h).imp (fun _ hserves => Or.inl hserves) fun _ hnext => hnext).trans ?_
  rintro state ⟨hreceiving, hstill⟩
  obtain ⟨first, second, third, hfirst, hsecond, hthird, hwire⟩ :=
    hstill.1.world.run_reply hreceiving e hrequest
  have hdelivers : Delivers request state (.arrived 0 e (request e)) := by
    intro _
    rw [hstill.2.2]
    exact ⟨h.receiving e hclient, rfl⟩
  have hwaits : state.client e = some .receiving := by rw [hstill.2.1, hclient]
  have hprint : Network.step request { state with world := third }
      (.print e ((request e).take maxLength)) =
      some ({ state with world := third }.becomes e (.printed ((request e).take maxLength))) := by
    simp only [Network.step, hwaits, if_pos hwire, List.take_take, Nat.min_self]
  have hdone : Delivers request { state with world := first } (.run 0) := trivial
  have hsending : Delivers request { state with world := second } (.transmitted 0) := trivial
  refine .head (step_server hdelivers hfirst) (.inl trivial) ?_
  refine .head (step_server hdone hsecond) (.inl trivial) ?_
  refine .head (step_server hsending hthird) (.inl trivial) ?_
  exact .head hprint (.inr ⟨_, rfl⟩) (.here (Function.update_self e _ _))

end Progress

/-- **Each client prints its own request.** In every run of the server, of any clients
and of anybody else who sends to the server, with datagrams lost, late and repeated, in
which nobody but the server sends to a client: a client prints only what it has sent, as
far as the buffers hold it, and a client that waits can, from every state, still be
answered. -/
theorem clients_print [DecidableEq Endpoint] (request : Endpoint → List Byte)
    (server : ServerAsync Endpoint) (isClient : Endpoint → Bool) (actions : List (Action Endpoint))
    (network : Network Endpoint)
    (hrun : Transition.run (Network.step request) (Network.started server isClient) actions =
      some network) :
    (∀ e reply, network.client e = some (.printed reply) →
      e ∈ network.sent ∧ request e ≠ [] ∧ reply = (request e).take maxLength) ∧
    ∀ e, network.client e = some .receiving → request e ≠ [] →
      CanReach (Network.step request)
        (fun action => action.Serves ∨ ∃ payload, action = .print e payload)
        (fun next => next.client e = some (.printed ((request e).take maxLength))) network := by
  have h : Answers request network :=
    run_invariant (Answers request) (fun _ _ _ hstate hstep => hstate.step hstep) hrun
      (answers_started server isClient)
  exact ⟨h.printed, fun e hclient hrequest => canReach_printed h hclient hrequest⟩

/-- `request` of `client` -/
def testData : List Byte := "TEST_DATA".toList.map fun c => c.toNat.toUInt8

/-- The endpoint 2 is no client's, and its datagram is the first that the server gets. -/
def strangerFirst : List (Action ℕ) :=
  [.server (.arrived 0 2 [7]), .send 1, .server (.run 0), .server (.transmitted 0),
    .server (.run 0), .server (.arrived 0 1 testData), .server (.run 0),
    .server (.transmitted 0), .print 1 testData]

theorem clients_print_stranger :
    ∃ network, Transition.run (Network.step fun _ => testData)
        (Network.started { senderEndpoint := 0, data := fun _ => 0 } (· == 1)) strangerFirst =
          some network ∧
      ∀ reply, network.client 1 = some (.printed reply) → reply = testData.take maxLength := by
  obtain ⟨network, hrun⟩ := Option.isSome_iff_exists.mp
    (show (Transition.run (Network.step fun _ => testData)
      (Network.started { senderEndpoint := 0, data := fun _ => 0 } (· == 1)) strangerFirst).isSome
        by decide)
  refine ⟨network, hrun, fun reply hreply => ?_⟩
  exact ((clients_print _ _ _ _ _ hrun).1 1 reply hreply).2.2

end BoostProjects.Networking.UDPEchoServerClient
