import BoostProjects.Asio.Coroutines.Server

/-!
# The server that only accepts

`AcceptServer::Test` accepts clients with a blocking call and spawns an `echo`
for each, in an endless loop on its only thread. `EchoServer_One::runServer`
spawns a listener, which does the same with `async_accept`, and calls `run()`.
There is no such call in `Test`, so none of its coroutines is ever executed.
-/

namespace BoostProjects.Asio.Coroutines.CoroutineApps

open Boost HalfDuplex Memory Server Transition

namespace AcceptServer

/-- The size of the local array `data`. -/
def size : ℕ := 1024

/-- The loop of `echo`, up to `co_await socket.async_read_some`. -/
def read (conn : Connection size) : Connection size :=
  { conn with program := { conn.program with point := .reading } }.start (.read size)

/-- `echo`, where `data` holds at first what was in its storage. -/
def echo (data : Cells Byte size) : Party (Frame size) Byte Failure size :=
  coroutine read .exception data

theorem echo_alternates (data : Cells Byte size) : (echo data).Alternates Awaits :=
  coroutine_alternates data fun conn => ⟨(read conn).program, rfl, rfl⟩

/-- `Test`, where the arrays of the coroutines hold at first what was in their
storage. -/
def test (storage : ℕ → Cells Byte size) : ServerProgram size where
  calls := []
  loop := [.accept, .spawnSession]
  coroutine i := echo (storage i)
  alternates i := echo_alternates (storage i)

end AcceptServer

namespace EchoServerOne

/-- `runServer`, with the calls of its `listener`. -/
def runServer (storage : ℕ → Cells Byte size) : ServerProgram size where
  calls := [.spawnListener, .run]
  loop := []
  coroutine i := session (storage i)
  alternates i := session_alternates (storage i)

/-- The event loop can accept all clients and echo all that they send. -/
theorem runServer_canOutput (storage : ℕ → Cells Byte size) (script : List Client) :
    CanOutput (runServer storage) script (script.map List.flatten) := by
  have hreach : CanReach (step (runServer storage)) (fun _ => True)
      (fun next => next.outputs = script.map List.flatten) (started (runServer storage) script) := by
    have hcall : step (runServer storage) (started (runServer storage) script) .call =
        some { started (runServer storage) script with
          calls := [.run], listener := .spawned } := rfl
    have hlisten : step (runServer storage)
        { started (runServer storage) script with calls := [.run], listener := .spawned } .listen =
          some { started (runServer storage) script with
            calls := [.run], listener := .accepting } := rfl
    refine .head hcall trivial (.head hlisten trivial ?_)
    apply (canReach_listen ⟨rfl, rfl⟩ rfl rfl rfl).trans
    rintro next ⟨hrunning, hsessions⟩
    exact canReach_echo_all (by decide) hrunning hsessions
  obtain ⟨events, server, -, hrun, houtputs⟩ := hreach
  exact ⟨server, ⟨events, hrun⟩, houtputs⟩

end EchoServerOne

namespace AcceptServer

variable (storage : ℕ → Cells Byte size) {script : List Client}

/-- What `Test` reaches, it reaches without executing a coroutine. -/
theorem dormant_of_reachable {server : Server size}
    (h : Reachable (step (test storage)) (started (test storage) script) server) :
    server.Dormant := by
  have hcalls : Call.run ∉ (test storage).calls ++ (test storage).loop := by
    change Call.run ∉ [Call.accept, Call.spawnSession]
    decide
  exact .of_reachable hcalls h

/-- The loop begins again. -/
theorem step_begin {server : Server size} (hcalls : server.calls = [])
    (hloop : server.loop = [.accept, .spawnSession]) :
    step (test storage) server .call =
      some { server with calls := [.accept, .spawnSession] } := by
  rw [step_call, call, hcalls, hloop, if_neg (List.cons_ne_nil _ _)]

/-- Any number of clients can be accepted. -/
theorem canReach_accept {server : Server size} {clients rest : List Client}
    (hcalls : server.calls = []) (hloop : server.loop = [.accept, .spawnSession])
    (hclients : server.clients = clients ++ rest) :
    CanReach (step (test storage)) (fun _ => True)
      (fun next => next.calls = [] ∧ next.loop = [.accept, .spawnSession] ∧
        next.clients = rest ∧ next.sessions = server.sessions ++ clients.map .spawned) server := by
  induction clients generalizing server with
  | nil => exact .here ⟨hcalls, hloop, hclients, (List.append_nil _).symm⟩
  | cons client clients ih =>
    have hbegin := step_begin storage hcalls hloop
    have haccept : step (test storage) { server with calls := [.accept, .spawnSession] } .call =
        some { server with
          calls := [.spawnSession], clients := clients ++ rest, socket := some client } := by
      rw [step_call, call]
      simp only [accept, hclients, List.cons_append]
    have hspawn : step (test storage)
        { server with
          calls := [.spawnSession], clients := clients ++ rest, socket := some client } .call =
        some ({ server with calls := [], clients := clients ++ rest }.spawn client) := rfl
    refine .head hbegin trivial (.head haccept trivial (.head hspawn trivial ?_))
    have hreach := @ih ({ server with calls := [], clients := clients ++ rest }.spawn client)
      rfl hloop rfl
    refine hreach.imp (fun _ h => h) fun next hnext => ?_
    obtain ⟨hnextCalls, hnextLoop, hnextClients, hsessions⟩ := hnext
    refine ⟨hnextCalls, hnextLoop, hnextClients, ?_⟩
    rw [hsessions, spawn, List.append_assoc, List.singleton_append, List.map_cons]

/-- The first clients of the script can be accepted, and the main thread be at
the end of its loop. -/
theorem exists_accepted {clients rest : List Client} (hscript : script = clients ++ rest) :
    ∃ server, Reachable (step (test storage)) (started (test storage) script) server ∧
      server.calls = [] ∧ server.loop = [.accept, .spawnSession] ∧ server.clients = rest ∧
        server.sessions = clients.map .spawned := by
  obtain ⟨events, server, -, hrun, hserver⟩ :=
    @canReach_accept storage (started (test storage) script) clients rest rfl rfl hscript
  exact ⟨server, ⟨events, hrun⟩, hserver⟩

variable (storage' : ℕ → Cells Byte EchoServerOne.size)

/-- The outputs of `EchoServer_One` are outputs of `Test` exactly when no client
sends anything. -/
theorem test_outputs_iff :
    (∀ outputs, CanOutput (EchoServerOne.runServer storage') script outputs →
      CanOutput (test storage) script outputs) ↔ ∀ client ∈ script, client.flatten = [] := by
  constructor
  · intro h client hclient
    -- `EchoServer_One` can echo everything, so `Test` would have to.
    obtain ⟨server, hserver, houtputs⟩ :=
      h _ (EchoServerOne.runServer_canOutput storage' script)
    rw [(dormant_of_reachable storage hserver).outputs_eq] at houtputs
    have hmem : client.flatten ∈ script.map List.flatten := List.mem_map_of_mem hclient
    rw [← houtputs] at hmem
    exact List.eq_of_mem_replicate hmem
  · rintro hsilent outputs ⟨server, hserver, rfl⟩
    have hinvariant := Invariant.of_reachable hserver
    have hempty : ∀ session ∈ server.sessions, session.output = [] := by
      intro session hsession
      have hprefix := hinvariant.output_isPrefix hsession
      rw [hsilent _ (hinvariant.client_mem hsession)] at hprefix
      exact List.prefix_nil.mp hprefix
    -- `Test` accepts as many clients and leaves them alone.
    obtain ⟨accepted, haccepted, -, -, -, hsessions⟩ :=
      exists_accepted storage (List.take_append_drop server.sessions.length script).symm
    refine ⟨accepted, haccepted, ?_⟩
    rw [(dormant_of_reachable storage haccepted).outputs_eq, outputs_eq_replicate hempty, hsessions,
      List.length_map, List.length_take_of_le hinvariant.length_sessions_le]

/-- The main thread is never blocked while a coroutine is ready exactly when
there is no client. -/
theorem test_awake_iff :
    (∀ server, Reachable (step (test storage)) (started (test storage) script) server →
      ¬ (server.Blocked ∧ ∃ session ∈ server.sessions, session.Ready)) ↔ script = [] := by
  constructor
  · intro h
    obtain ⟨server, ⟨events, hrun⟩, hcalls, hloop, hclients, hsessions⟩ :=
      exists_accepted storage (List.append_nil script).symm
    have hrun' := (run_concat_eq_some_iff hrun).mpr (step_begin storage hcalls hloop)
    -- All have been accepted, and the thread accepts again.
    by_contra hscript
    obtain ⟨client, clients, rfl⟩ := List.exists_cons_of_ne_nil hscript
    refine h _ ⟨_, hrun'⟩ ⟨⟨rfl, hclients⟩, .spawned client, ?_, nofun⟩
    change Session.spawned client ∈ server.sessions
    rw [hsessions]
    exact List.mem_cons_self
  · rintro rfl server hserver ⟨-, session, hsession, -⟩
    exact absurd ((Invariant.of_reachable hserver).client_mem hsession) List.not_mem_nil

end AcceptServer

/-- The server can send what the other can, and does not wait for clients while
one of its coroutines is ready. -/
structure Serves {size size' : ℕ} (program : ServerProgram size) (reference : ServerProgram size')
    (script : List Client) : Prop where
  outputs : ∀ outputs, CanOutput reference script outputs → CanOutput program script outputs
  awake : ∀ server, Reachable (step program) (started program script) server →
    ¬ (server.Blocked ∧ ∃ session ∈ server.sessions, session.Ready)

/-- **`Test` serves what it accepts only if it accepts nothing.** -/
theorem AcceptServer.test_serves_iff (storage : ℕ → Cells Byte AcceptServer.size)
    (storage' : ℕ → Cells Byte EchoServerOne.size) (script : List Client) :
    Serves (AcceptServer.test storage) (EchoServerOne.runServer storage') script ↔ script = [] := by
  constructor
  · intro h
    exact (AcceptServer.test_awake_iff storage).mp h.awake
  · rintro rfl
    constructor
    · exact (AcceptServer.test_outputs_iff storage storage').mpr nofun
    · exact (AcceptServer.test_awake_iff storage).mpr rfl

/-- A client that sends one byte is accepted. The byte is not echoed, and the
server waits for another client. -/
theorem AcceptServer.not_test_serves_byte :
    ¬ (∀ outputs, CanOutput (EchoServerOne.runServer fun _ _ => 0) [[[0x41]]] outputs →
        CanOutput (AcceptServer.test fun _ _ => 0) [[[0x41]]] outputs) ∧
      ∃ server, Reachable (step (AcceptServer.test fun _ _ => 0))
          (started (AcceptServer.test fun _ _ => 0) [[[0x41]]]) server ∧
        server.Blocked ∧ ∃ session ∈ server.sessions, session.Ready := by
  constructor
  · intro h
    have hsilent := (AcceptServer.test_outputs_iff _ _).mp h [[0x41]] (List.mem_singleton_self _)
    exact absurd hsilent (by decide)
  · refine ⟨_, ⟨[.call, .call, .call, .call], rfl⟩, ⟨rfl, rfl⟩, .spawned [[0x41]], ?_, nofun⟩
    exact List.mem_singleton_self _

end BoostProjects.Asio.Coroutines.CoroutineApps
