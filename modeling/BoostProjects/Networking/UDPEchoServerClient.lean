import BoostProjects.Boost.Completion
import BoostProjects.Library.Lists
import BoostProjects.Library.Transition

/-!
# The UDP echo server

`ServerAsync` has one buffer and one endpoint for all its clients. A receive fills
both, its callback starts a send of what has come to where it came from, and the
callback of the send starts the next receive.

That each reply is the one its sender should get rests on the alternation: while a
send is in flight no receive is, so nothing writes to what the send reads.
`Invariant` lists the points the server can be at, and every step leads from one of
them to another (`Invariant.preserved`).
-/

namespace BoostProjects.Networking.UDPEchoServerClient

open Boost Memory

/-! ## The program -/

/-- `max_length` -/
def maxLength : ℕ := 1024

section Server

variable {Endpoint : Type*}

/-- `ServerAsync`, but for its socket. -/
structure ServerAsync (Endpoint : Type*) where
  senderEndpoint : Endpoint
  data : Cells Byte maxLength

/-- An operation on the socket. A receive goes to `data` and `senderEndpoint`; a
send reads from `data`, and keeps the endpoint it was started with. -/
inductive Op (Endpoint : Type*)
  | receiveFrom (size : ℕ)
  | sendTo (length : ℕ) (destination : Endpoint)
  deriving DecidableEq, Repr

/-- How far an operation is: its callback may be waiting to be run. -/
inductive Progress
  | pending
  | completed (ec : ErrorCode) (bytes : ℕ)
  deriving DecidableEq, Repr

/-- The server with the operations in flight, the datagrams received, the sends
started and the datagrams sent. -/
structure World (Endpoint : Type*) where
  server : ServerAsync Endpoint
  flight : List (Op Endpoint × Progress) := []
  received : List (Endpoint × List Byte) := []
  sends : List (Endpoint × List Byte) := []
  wire : List (Endpoint × List Byte) := []

/-- `ServerAsync::do_receive` -/
def doReceive (world : World Endpoint) : World Endpoint :=
  { world with flight := world.flight ++ [(.receiveFrom maxLength, .pending)] }

/-- `ServerAsync::do_send` -/
def doSend (length : ℕ) (world : World Endpoint) : World Endpoint :=
  { world with
    flight := world.flight ++ [(.sendTo length world.server.senderEndpoint, .pending)]
    sends := world.sends ++ [(world.server.senderEndpoint, world.server.data.slice 0 length)] }

/-- The callback of `async_receive_from`. -/
def receiveHandler (ec : ErrorCode) (bytesReceived : ℕ) (world : World Endpoint) :
    World Endpoint :=
  if !ec.failed && bytesReceived > 0 then doSend bytesReceived world else doReceive world

/-- The callback of `async_send_to`. -/
def sendHandler (world : World Endpoint) : World Endpoint := doReceive world

/-- The constructor. -/
def started (server : ServerAsync Endpoint) : World Endpoint := doReceive { server }

/-- What happens to the operation `i` in flight: a receive completes with a datagram
or fails, a send is transmitted or fails, or the callback is run. -/
inductive Event (Endpoint : Type*)
  | arrived (i : ℕ) (sender : Endpoint) (payload : List Byte)
  | receiveFailed (i : ℕ) (error : Failure) (bytes : ℕ) (server : ServerAsync Endpoint)
  | transmitted (i : ℕ)
  | sendFailed (i : ℕ) (error : Failure) (bytes : ℕ)
  | run (i : ℕ)

/-- A successful receive takes as much of the datagram as the buffer holds, and
sets the endpoint; what a failed one leaves in them is not known. -/
def step (world : World Endpoint) : Event Endpoint → Option (World Endpoint)
  | .arrived i sender payload =>
    match world.flight[i]? with
    | some (.receiveFrom size, .pending) =>
      some { world with
        server :=
          { senderEndpoint := sender, data := world.server.data.store 0 (payload.take size) }
        flight := world.flight.set i
          (.receiveFrom size, .completed .success (payload.take size).length)
        received := world.received ++ [(sender, payload)] }
    | _ => none
  | .receiveFailed i error bytes server =>
    match world.flight[i]? with
    | some (.receiveFrom size, .pending) =>
      some { world with
        server
        flight := world.flight.set i (.receiveFrom size, .completed error.1 bytes) }
    | _ => none
  | .transmitted i =>
    match world.flight[i]? with
    | some (.sendTo length destination, .pending) =>
      some { world with
        flight := world.flight.set i (.sendTo length destination, .completed .success length)
        wire := world.wire ++ [(destination, world.server.data.slice 0 length)] }
    | _ => none
  | .sendFailed i error bytes =>
    match world.flight[i]? with
    | some (.sendTo length destination, .pending) =>
      some { world with
        flight := world.flight.set i (.sendTo length destination, .completed error.1 bytes) }
    | _ => none
  | .run i =>
    match world.flight[i]? with
    | some (op, .completed ec bytes) =>
      let world := { world with flight := world.flight.eraseIdx i }
      match op with
      | .receiveFrom _ => some (receiveHandler ec bytes world)
      | .sendTo _ _ => some (sendHandler world)
    | _ => none

/-! ## The alternation -/

/-- The reply that a datagram should get: none if it is empty. -/
def reply (datagram : Endpoint × List Byte) : Option (Endpoint × List Byte) :=
  if datagram.2 = [] then none else some (datagram.1, datagram.2.take maxLength)

/-- The points the server can be at: a receive is pending, has succeeded or has
failed, or a send is pending or has completed. -/
inductive Invariant : World Endpoint → Prop
  | receiving {server : ServerAsync Endpoint} {received sends wire : List (Endpoint × List Byte)} :
      sends = received.filterMap reply → wire.Sublist sends →
      Invariant { server, flight := [(.receiveFrom maxLength, .pending)], received, sends, wire }
  | received {server : ServerAsync Endpoint} {before sends wire : List (Endpoint × List Byte)}
      {payload : List Byte} :
      sends = before.filterMap reply → wire.Sublist sends →
      server.data.slice 0 (payload.take maxLength).length = payload.take maxLength →
      Invariant
        { server
          flight := [(.receiveFrom maxLength,
            .completed .success (payload.take maxLength).length)]
          received := before ++ [(server.senderEndpoint, payload)], sends, wire }
  | failed {server : ServerAsync Endpoint} {received sends wire : List (Endpoint × List Byte)}
      {error : Failure} {bytes : ℕ} :
      sends = received.filterMap reply → wire.Sublist sends →
      Invariant
        { server, flight := [(.receiveFrom maxLength, .completed error.1 bytes)]
          received, sends, wire }
  | sending {server : ServerAsync Endpoint} {received sends wire : List (Endpoint × List Byte)}
      {length : ℕ} {destination : Endpoint} :
      sends ++ [(destination, server.data.slice 0 length)] = received.filterMap reply →
      wire.Sublist sends →
      Invariant
        { server, flight := [(.sendTo length destination, .pending)], received
          sends := sends ++ [(destination, server.data.slice 0 length)], wire }
  | sent {server : ServerAsync Endpoint} {received sends wire : List (Endpoint × List Byte)}
      {length bytes : ℕ} {destination : Endpoint} {ec : ErrorCode} :
      sends = received.filterMap reply → wire.Sublist sends →
      Invariant
        { server, flight := [(.sendTo length destination, .completed ec bytes)]
          received, sends, wire }

theorem invariant_started (server : ServerAsync Endpoint) : Invariant (started server) :=
  .receiving rfl (List.Sublist.refl [])

/-- What can happen to a single operation in flight. -/
inductive Moves : World Endpoint → Event Endpoint → World Endpoint → Prop
  | arrived {server : ServerAsync Endpoint} {received sends wire : List (Endpoint × List Byte)}
      {size : ℕ} (sender : Endpoint) (payload : List Byte) :
      Moves
        { server, flight := [(.receiveFrom size, .pending)], received, sends, wire }
        (.arrived 0 sender payload)
        { server :=
            { senderEndpoint := sender, data := server.data.store 0 (payload.take size) }
          flight := [(.receiveFrom size, .completed .success (payload.take size).length)]
          received := received ++ [(sender, payload)], sends, wire }
  | receiveFailed {server : ServerAsync Endpoint}
      {received sends wire : List (Endpoint × List Byte)} {size : ℕ} (error : Failure)
      (bytes : ℕ) (server' : ServerAsync Endpoint) :
      Moves
        { server, flight := [(.receiveFrom size, .pending)], received, sends, wire }
        (.receiveFailed 0 error bytes server')
        { server := server', flight := [(.receiveFrom size, .completed error.1 bytes)], received
          sends, wire }
  | transmitted {server : ServerAsync Endpoint}
      {received sends wire : List (Endpoint × List Byte)} {length : ℕ} {destination : Endpoint} :
      Moves
        { server, flight := [(.sendTo length destination, .pending)], received, sends, wire }
        (.transmitted 0)
        { server, flight := [(.sendTo length destination, .completed .success length)], received
          sends, wire := wire ++ [(destination, server.data.slice 0 length)] }
  | sendFailed {server : ServerAsync Endpoint}
      {received sends wire : List (Endpoint × List Byte)} {length : ℕ} {destination : Endpoint}
      (error : Failure) (bytes : ℕ) :
      Moves
        { server, flight := [(.sendTo length destination, .pending)], received, sends, wire }
        (.sendFailed 0 error bytes)
        { server, flight := [(.sendTo length destination, .completed error.1 bytes)], received
          sends, wire }
  | receiveDone {server : ServerAsync Endpoint}
      {received sends wire : List (Endpoint × List Byte)} {size bytes : ℕ} {ec : ErrorCode} :
      Moves
        { server, flight := [(.receiveFrom size, .completed ec bytes)], received, sends, wire }
        (.run 0) (receiveHandler ec bytes { server, received, sends, wire })
  | sendDone {server : ServerAsync Endpoint}
      {received sends wire : List (Endpoint × List Byte)} {length bytes : ℕ}
      {destination : Endpoint} {ec : ErrorCode} :
      Moves
        { server, flight := [(.sendTo length destination, .completed ec bytes)], received, sends
          wire }
        (.run 0) (sendHandler { server, received, sends, wire })

/-- The operation at a place of a list of one. -/
theorem eq_of_getElem? {op op' : Op Endpoint} {progress progress' : Progress} {i : ℕ}
    (h : [(op, progress)][i]? = some (op', progress')) :
    i = 0 ∧ op' = op ∧ progress' = progress := by
  obtain ⟨hi, hop⟩ := Lists.getElem?_singleton h
  exact ⟨hi, Prod.mk.inj hop⟩

theorem moves_step {world next : World Endpoint} {event : Event Endpoint}
    (hlength : world.flight.length = 1) (hstep : step world event = some next) :
    Moves world event next := by
  obtain ⟨server, flight, received, sends, wire⟩ := world
  obtain ⟨⟨op, progress⟩, rfl⟩ := List.length_eq_one_iff.mp hlength
  cases event with
  | arrived i sender payload =>
    simp only [step] at hstep
    split at hstep
    · next size hget =>
      obtain ⟨rfl, rfl, rfl⟩ := eq_of_getElem? hget
      obtain rfl := Option.some.inj hstep
      exact .arrived sender payload
    · exact absurd hstep nofun
  | receiveFailed i error bytes server' =>
    simp only [step] at hstep
    split at hstep
    · next size hget =>
      obtain ⟨rfl, rfl, rfl⟩ := eq_of_getElem? hget
      obtain rfl := Option.some.inj hstep
      exact .receiveFailed error bytes server'
    · exact absurd hstep nofun
  | transmitted i =>
    simp only [step] at hstep
    split at hstep
    · next length destination hget =>
      obtain ⟨rfl, rfl, rfl⟩ := eq_of_getElem? hget
      obtain rfl := Option.some.inj hstep
      exact .transmitted
    · exact absurd hstep nofun
  | sendFailed i error bytes =>
    simp only [step] at hstep
    split at hstep
    · next length destination hget =>
      obtain ⟨rfl, rfl, rfl⟩ := eq_of_getElem? hget
      obtain rfl := Option.some.inj hstep
      exact .sendFailed error bytes
    · exact absurd hstep nofun
  | run i =>
    simp only [step] at hstep
    split at hstep
    · next op' ec bytes hget =>
      obtain ⟨rfl, rfl, rfl⟩ := eq_of_getElem? hget
      cases op' with
      | receiveFrom size =>
        obtain rfl := Option.some.inj hstep
        exact .receiveDone
      | sendTo length destination =>
        obtain rfl := Option.some.inj hstep
        exact .sendDone
    · exact absurd hstep nofun

theorem receiveHandler_of_empty {ec : ErrorCode} {bytes : ℕ} (h : ec.failed = true ∨ bytes = 0)
    (world : World Endpoint) : receiveHandler ec bytes world = doReceive world := by
  refine if_neg fun hsend => ?_
  rcases h with h | h <;> simp [h] at hsend

theorem receiveHandler_success {bytes : ℕ} (h : bytes ≠ 0) (world : World Endpoint) :
    receiveHandler .success bytes world = doSend bytes world :=
  if_pos (by simp [ErrorCode.failed, Nat.pos_of_ne_zero h])

theorem filterMap_reply_concat {before : List (Endpoint × List Byte)} {sender : Endpoint}
    {payload : List Byte} :
    (before ++ [(sender, payload)]).filterMap reply =
      before.filterMap reply ++
        if payload = [] then [] else [(sender, payload.take maxLength)] := by
  by_cases hpayload : payload = []
  · simp [reply, hpayload]
  · simp [reply, hpayload]

/-- What a receive has stored is read back from the buffer. -/
theorem slice_store_take (cells : Cells Byte maxLength) (payload : List Byte) :
    (cells.store 0 (payload.take maxLength)).slice 0 (payload.take maxLength).length =
      payload.take maxLength := by
  refine cells.slice_store 0 _ ?_
  rw [List.length_take]
  omega

theorem Invariant.length_flight {world : World Endpoint} (h : Invariant world) :
    world.flight.length = 1 := by
  cases h <;> rfl

theorem Invariant.preserved {world next : World Endpoint} {event : Event Endpoint}
    (h : Invariant world) (hstep : step world event = some next) : Invariant next := by
  have hmoves := moves_step h.length_flight hstep
  cases h with
  | receiving hsends hwire =>
    cases hmoves with
    -- The datagram that arrives is due a reply when its callback runs.
    | arrived sender payload => exact .received hsends hwire (slice_store_take _ payload)
    | receiveFailed error bytes server' => exact .failed hsends hwire
  | @received server before sends wire payload hsends hwire hdata =>
    cases hmoves with
    | receiveDone =>
      by_cases hpayload : payload = []
      -- An empty datagram gets no reply.
      · rw [receiveHandler_of_empty (.inr (by rw [hpayload]; rfl))]
        refine .receiving ?_ hwire
        rw [filterMap_reply_concat, if_pos hpayload, List.append_nil, hsends]
      · have hlength : (payload.take maxLength).length ≠ 0 := by
          rw [List.length_take, ne_eq, Nat.min_eq_zero_iff, List.length_eq_zero_iff, not_or]
          exact ⟨by decide, hpayload⟩
        rw [receiveHandler_success hlength]
        refine .sending ?_ hwire
        rw [filterMap_reply_concat, if_neg hpayload, hdata, hsends]
  | @failed server received sends wire error bytes hsends hwire =>
    cases hmoves with
    -- The error stands for no datagram.
    | receiveDone =>
      rw [receiveHandler_of_empty (.inl error.2)]
      exact .receiving hsends hwire
  | sending hsends hwire =>
    cases hmoves with
    -- A send counts from its start, whatever becomes of it.
    | transmitted => exact .sent hsends (hwire.append (List.Sublist.refl _))
    | sendFailed error bytes => exact .sent hsends (hwire.trans (List.sublist_append_left _ _))
  | sent hsends hwire =>
    cases hmoves with
    | sendDone => exact .receiving hsends hwire

/-! ## What holds at every point -/

/-- A receive is pending, and nothing else is in flight. -/
def Receiving (world : World Endpoint) : Prop :=
  world.flight = [(.receiveFrom maxLength, .pending)]

/-- A send is in flight. -/
def Sending (world : World Endpoint) : Prop :=
  ∃ length destination progress, (.sendTo length destination, progress) ∈ world.flight

namespace Invariant

variable {world : World Endpoint}

theorem wire_sublist (h : Invariant world) : world.wire.Sublist world.sends := by
  cases h with
  | receiving _ hwire => exact hwire
  | received _ hwire _ => exact hwire
  | failed _ hwire => exact hwire
  | sending _ hwire => exact hwire.trans (List.sublist_append_left _ _)
  | sent _ hwire => exact hwire

/-- Every reply that is due has been started, but for that to a datagram whose
callback is still to run. -/
theorem sends_eq (h : Invariant world) :
    ∃ waiting, world.received.filterMap reply = world.sends ++ waiting ∧ waiting.length ≤ 1 ∧
      (waiting ≠ [] →
        ∃ bytes, world.flight = [(.receiveFrom maxLength, .completed .success bytes)]) := by
  cases h with
  | receiving hsends _ => exact ⟨[], by simp [hsends], by simp, by simp⟩
  | failed hsends _ => exact ⟨[], by simp [hsends], by simp, by simp⟩
  | sending hsends _ => exact ⟨[], by simp [hsends], by simp, by simp⟩
  | sent hsends _ => exact ⟨[], by simp [hsends], by simp, by simp⟩
  | received hsends _ _ =>
    refine ⟨_, by rw [filterMap_reply_concat, hsends], ?_, fun _ => ⟨_, rfl⟩⟩
    split_ifs <;> simp

theorem server_eq (h : Invariant world) (hsending : Sending world) {event : Event Endpoint}
    {next : World Endpoint} (hstep : step world event = some next) :
    next.server = world.server := by
  obtain ⟨length, destination, progress, hmem⟩ := hsending
  cases moves_step h.length_flight hstep with
  | arrived | receiveFailed | receiveDone => exact absurd (List.mem_singleton.mp hmem) nofun
  | transmitted | sendFailed | sendDone => rfl

/-- A failed receive or an empty datagram gets no reply, and the next receive is
started at once. -/
theorem receiving_of_empty {size bytes : ℕ} {ec : ErrorCode} {next : World Endpoint}
    (hflight : world.flight = [(.receiveFrom size, .completed ec bytes)])
    (hempty : ec.failed = true ∨ bytes = 0)
    (hstep : step world (.run 0) = some next) :
    Receiving next ∧ next.sends = world.sends := by
  obtain ⟨server, flight, received, sends, wire⟩ := world
  obtain rfl : flight = _ := hflight
  cases moves_step rfl hstep with
  | receiveDone =>
    rw [receiveHandler_of_empty hempty]
    exact ⟨rfl, rfl⟩

/-- Something can always happen next. -/
theorem exists_step (h : Invariant world) :
    ∃ event next, step world event = some next := by
  cases h with
  | @receiving server => exact ⟨.arrived 0 server.senderEndpoint [], _, rfl⟩
  | received => exact ⟨.run 0, _, rfl⟩
  | failed => exact ⟨.run 0, _, rfl⟩
  | sending => exact ⟨.transmitted 0, _, rfl⟩
  | sent => exact ⟨.run 0, _, rfl⟩

end Invariant

/-- A bound on the steps until a receive is pending again. -/
def remaining (world : World Endpoint) : ℕ :=
  match world.flight with
  | [(.receiveFrom _, .completed _ _)] => 3
  | [(.sendTo _ _, .pending)] => 2
  | [(.sendTo _ _, .completed _ _)] => 1
  | _ => 0

theorem remaining_le (world : World Endpoint) : remaining world ≤ 3 := by
  unfold remaining
  split <;> omega

theorem Invariant.remaining_lt {world next : World Endpoint} {event : Event Endpoint}
    (h : Invariant world) (hstep : step world event = some next) (hnot : ¬ Receiving world) :
    remaining next < remaining world := by
  cases moves_step h.length_flight hstep with
  | arrived | receiveFailed =>
    cases h
    exact absurd rfl hnot
  | transmitted | sendFailed => exact Nat.lt_succ_self 1
  | receiveDone =>
    -- The callback of a receive starts a send or the next receive.
    rw [receiveHandler]
    split_ifs
    · exact Nat.lt_succ_self 2
    · exact Nat.zero_lt_succ 2
  | sendDone => exact Nat.zero_lt_one

/-- Whatever happens, a receive is pending again within `remaining` steps. -/
theorem Invariant.receives_again {world final : World Endpoint} {events : List (Event Endpoint)}
    (h : Invariant world) (hrun : Transition.run step world events = some final)
    (hlength : remaining world ≤ events.length) :
    ∃ before middle, before <+: events ∧ Transition.run step world before = some middle ∧
      Receiving middle := by
  induction events generalizing world with
  | nil =>
    by_cases hreceiving : Receiving world
    · exact ⟨[], world, List.nil_prefix, rfl, hreceiving⟩
    · obtain ⟨event, next, hstep⟩ := h.exists_step
      have hlt := h.remaining_lt hstep hreceiving
      rw [List.length_nil] at hlength
      omega
  | cons event events ih =>
    by_cases hreceiving : Receiving world
    · exact ⟨[], world, List.nil_prefix, rfl, hreceiving⟩
    · obtain ⟨next, hstep, hrest⟩ := Transition.run_cons_eq_some_iff.mp hrun
      have hlt := h.remaining_lt hstep hreceiving
      rw [List.length_cons] at hlength
      obtain ⟨before, middle, hbefore, hmiddle, hreceives⟩ :=
        ih (h.preserved hstep) hrest (by omega)
      exact ⟨event :: before, middle, (List.prefix_cons_inj event).mpr hbefore,
        Transition.run_cons_eq_some_iff.mpr ⟨next, hstep, hmiddle⟩, hreceives⟩

/-- **The server echoes faithfully.** In every state of every run there is one
operation in flight. The replies that the datagrams received should get are the
sends started, in order, and the one whose callback is still to run; what is
transmitted is among them. While a send is in flight the buffer and the endpoint
stay as they are. An empty datagram or a failed receive gets no reply and the next
receive at once, and whatever happens one is pending again within three steps. -/
theorem serverAsync_faithful (server : ServerAsync Endpoint) {events : List (Event Endpoint)}
    {world : World Endpoint} (hrun : Transition.run step (started server) events = some world) :
    world.flight.length = 1 ∧
    (∃ waiting, world.received.filterMap reply = world.sends ++ waiting ∧ waiting.length ≤ 1 ∧
      (waiting ≠ [] →
        ∃ bytes, world.flight = [(.receiveFrom maxLength, .completed .success bytes)])) ∧
    world.wire.Sublist world.sends ∧
    (Sending world → ∀ event next, step world event = some next →
      next.server = world.server) ∧
    (∀ size ec bytes next, world.flight = [(.receiveFrom size, .completed ec bytes)] →
      ec.failed = true ∨ bytes = 0 → step world (.run 0) = some next →
      Receiving next ∧ next.sends = world.sends) ∧
    (∃ event next, step world event = some next) ∧
    ∀ later final, Transition.run step world later = some final → 3 ≤ later.length →
      ∃ before middle, before <+: later ∧ Transition.run step world before = some middle ∧
        Receiving middle := by
  have h : Invariant world :=
    Transition.run_invariant Invariant (fun _ _ _ hworld hstep => hworld.preserved hstep) hrun
      (invariant_started server)
  refine ⟨h.length_flight, h.sends_eq, h.wire_sublist,
    fun hsending _ _ hstep => h.server_eq hsending hstep,
    fun _ _ _ _ hflight hempty hstep => Invariant.receiving_of_empty hflight hempty hstep,
    h.exists_step, fun later final hlater hlength => ?_⟩
  exact h.receives_again hlater ((remaining_le world).trans hlength)

end Server

/-- Two senders, and a failure in between. -/
def twoSenders : List (Event ℕ) :=
  [.arrived 0 1 [7], .run 0, .transmitted 0, .run 0,
    .receiveFailed 0 ⟨.other 1, rfl⟩ 0 { senderEndpoint := 5, data := fun _ => 9 }, .run 0,
    .arrived 0 2 [8, 9], .run 0]

theorem serverAsync_faithful_two_senders :
    ∃ world : World ℕ,
      Transition.run step (started { senderEndpoint := 0, data := fun _ => 0 }) twoSenders =
        some world ∧
      world.flight.length = 1 ∧ world.sends = [(1, [7]), (2, [8, 9])] := by
  obtain ⟨world, hrun⟩ : ∃ world : World ℕ,
      Transition.run step (started { senderEndpoint := 0, data := fun _ => 0 }) twoSenders =
        some world := ⟨_, rfl⟩
  have hsends : (Transition.run step (started { senderEndpoint := 0, data := fun _ => 0 })
      twoSenders).map World.sends = some [(1, [7]), (2, [8, 9])] := by decide
  rw [hrun] at hsends
  exact ⟨world, hrun, (serverAsync_faithful _ hrun).1, Option.some.inj hsends⟩

end BoostProjects.Networking.UDPEchoServerClient
