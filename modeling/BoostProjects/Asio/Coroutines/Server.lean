import BoostProjects.Asio.Coroutines.CoroutineApps

/-!
# Servers that spawn coroutines

The main thread of a server makes a few calls, and perhaps some more in an
endless loop. `co_spawn` only leaves a coroutine with the `io_context`: it is
executed inside of a call of `run()`, and so are the listener, if there is one,
and every completion that resumes a coroutine. So what a server does follows
from what its main thread calls.

The clients are a script: they connect in its order, and each sends its chunks
as one stream of bytes.
-/

namespace BoostProjects.Asio.Coroutines

open Boost CoroutineApps HalfDuplex Transition

/-- The chunks that a client sends. -/
abbrev Client := List (List Byte)

/-- A call that a main thread makes. -/
inductive Call
  /-- `acceptor.accept(clientSocket)`, which blocks until a client connects. -/
  | accept
  /-- `co_spawn` of the coroutine for the socket. -/
  | spawnSession
  /-- `co_spawn` of the listener. -/
  | spawnListener
  /-- `context.run()` -/
  | run
  deriving DecidableEq, Repr

/-- A server: the calls of its main thread, and the coroutine it spawns for each
connection, by its number. -/
structure ServerProgram (size : ℕ) where
  /-- The calls before the loop. -/
  calls : List Call
  /-- The calls in the body of the loop. -/
  loop : List Call
  coroutine : ℕ → Party (Frame size) Byte Failure size
  alternates : ∀ i, (coroutine i).Alternates Awaits

/-- The coroutine that accepts connections. -/
inductive Listener
  | absent
  /-- It is ready to run for the first time. -/
  | spawned
  /-- It awaits `async_accept`, or goes on with the socket accepted. -/
  | accepting
  | returned
  deriving DecidableEq, Repr

/-- A connection with a coroutine, which is ready to run for the first time if
there is no link yet. -/
structure Session (size : ℕ) where
  client : Client
  link : Option (Connection size)

namespace Session

variable {size : ℕ}

/-- The session that `co_spawn` has been given, and that has not begun. -/
def spawned (client : Client) : Session size := { client, link := none }

/-- The coroutine would go on if it were executed. -/
def Ready (session : Session size) : Prop :=
  ∀ link ∈ session.link, ∃ op ∈ link.inFlight, op.outcome ≠ none

/-- The bytes sent to the client. -/
def output (session : Session size) : List Byte :=
  match session.link with
  | none => []
  | some link => sent link.trace

end Session

/-- A server, its clients and its coroutines. -/
structure Server (size : ℕ) where
  /-- The calls to be made before the loop begins again. The first is being
  made. -/
  calls : List Call
  loop : List Call
  /-- The clients that are yet to connect. -/
  clients : List Client
  /-- The socket of a client that has been accepted and has no coroutine yet. -/
  socket : Option Client
  listener : Listener
  sessions : List (Session size)
  /-- `context.stop()` has been called. -/
  stopped : Bool

namespace Server

variable {size : ℕ}

/-- The main thread is inside of `run()`. -/
def Running (server : Server size) : Prop :=
  server.calls.head? = some .run ∧ server.stopped = false

instance (server : Server size) : Decidable server.Running :=
  inferInstanceAs (Decidable (_ ∧ _))

/-- The main thread is inside of `accept` and no client is there. -/
def Blocked (server : Server size) : Prop :=
  server.calls.head? = some .accept ∧ server.clients = []

/-- The bytes echoed on each connection. -/
def outputs (server : Server size) : List (List Byte) := server.sessions.map Session.output

/-- `co_spawn(ioContext, echo(std::move(clientSocket)), detached)` -/
def spawn (server : Server size) (client : Client) : Server size :=
  { server with socket := none, sessions := server.sessions ++ [.spawned client] }

/-- The next client connects. -/
def accept (server : Server size) : Option (Server size) :=
  match server.clients with
  | [] => none
  | client :: clients => some { server with clients, socket := some client }

/-- The main thread returns from its call, or begins its loop again. -/
def call (server : Server size) : Option (Server size) :=
  match server.calls with
  -- The program is at the end of its loop, or of `runServer`.
  | [] => if server.loop = [] then none else some { server with calls := server.loop }
  | .accept :: calls => { server with calls }.accept
  | .spawnSession :: calls => server.socket.map fun client => { server with calls }.spawn client
  | .spawnListener :: calls => some { server with calls, listener := .spawned }
  -- The wait for signals is work that is never done, so only `stop` ends `run()`.
  | .run :: calls => if server.stopped then some { server with calls } else none

/-- `accept` throws, which nothing in the loop catches. -/
def throwAccept (server : Server size) : Option (Server size) :=
  if server.calls.head? = some .accept then some { server with calls := [], loop := [] } else none

/-- The listener is executed. -/
def listen (server : Server size) : Option (Server size) :=
  match server.listener, server.socket with
  | .spawned, _ => some { server with listener := .accepting }
  | .accepting, none => server.accept
  -- A client has been accepted: the loop spawns its session and awaits the next.
  | .accepting, some client => some (server.spawn client)
  | .absent, _ | .returned, _ => none

/-- `co_await acceptor.async_accept` throws, which the listener catches. -/
def throwAsyncAccept (server : Server size) : Option (Server size) :=
  if server.listener = .accepting ∧ server.socket = none then
    some { server with listener := .returned }
  else none

variable (program : ServerProgram size)

/-- The coroutine of a connection is executed for the first time. -/
def start (server : Server size) (i : ℕ) : Option (Server size) :=
  match server.sessions[i]? with
  | some ⟨client, none⟩ =>
      let link := (program.coroutine i).started
      some { server with sessions := server.sessions.set i ⟨client, some link⟩ }
  | _ => none

/-- Something happens to the operation that a coroutine awaits. What it has
received is always some of what its client sends. -/
def resume (server : Server size) (i : ℕ) (event : HalfDuplex.Event Byte Failure) :
    Option (Server size) :=
  match server.sessions[i]? with
  | some ⟨client, some link⟩ =>
      ((program.coroutine i).step link event).bind fun next =>
        if received next.trace <+: client.flatten then
          some { server with sessions := server.sessions.set i ⟨client, some next⟩ }
        else none
  | _ => none

/-- What can happen next to a server and its clients. -/
inductive Event
  | call
  | throwAccept
  | listen
  | throwAsyncAccept
  | start (i : ℕ)
  | resume (i : ℕ) (event : HalfDuplex.Event Byte Failure)
  /-- `SIGINT` or `SIGTERM`, whose handler calls `context.stop()`. -/
  | signal
  deriving DecidableEq, Repr

/-- The events of the main thread. All others happen inside of `run()`. -/
def Event.IsCall : Event → Bool
  | .call | .throwAccept => true
  | _ => false

/-- One step. After the signal nothing but calls of the function that serves goes on. -/
def step (server : Server size) (event : Event) : Option (Server size) :=
  if event.IsCall ∨ server.Running then
    match event with
    | .call => server.call
    | .throwAccept => server.throwAccept
    | .listen => server.listen
    | .throwAsyncAccept => server.throwAsyncAccept
    | .start i => server.start program i
    | .resume i event => server.resume program i event
    | .signal => some { server with stopped := true }
  else none

/-- The server before its first call, with the clients that will come. -/
def started (script : List Client) : Server size where
  calls := program.calls
  loop := program.loop
  clients := script
  socket := none
  listener := .absent
  sessions := []
  stopped := false

/-- The server can reach a state in which it has sent `outputs`. -/
def CanOutput (script : List Client) (outputs : List (List Byte)) : Prop :=
  ∃ server, Reachable (step program) (started program script) server ∧ server.outputs = outputs

/-! ### What a step does -/

/-- The clients that have no coroutine yet. -/
def waiting (server : Server size) : List Client := server.socket.toList ++ server.clients

/-- The calls that may still be made. -/
def remaining (server : Server size) : List Call := server.calls ++ server.loop

variable {program} {server next : Server size}

/-- What can become of a coroutine when it is executed. -/
inductive Advances (program : ServerProgram size) (i : ℕ) (client : Client) :
    Option (Connection size) → Connection size → Prop
  | start : Advances program i client none (program.coroutine i).started
  | resume {link next : Connection size} {event : HalfDuplex.Event Byte Failure}
      (hstep : (program.coroutine i).step link event = some next)
      (hreceived : received next.trace <+: client.flatten) :
      Advances program i client (some link) next

/-- A step changes no coroutine, spawns one, or executes one inside of `run()`. -/
inductive Moves (program : ServerProgram size) (server next : Server size) : Prop
  | other (calls : next.remaining ⊆ server.remaining)
      (sessions : next.sessions = server.sessions)
      (waiting : List.Sublist next.waiting server.waiting)
  | spawn (calls : next.remaining ⊆ server.remaining) (client : Client)
      (sessions : next.sessions = server.sessions ++ [.spawned client])
      (waiting : server.waiting = client :: next.waiting)
  | execute (running : server.Running) (before after : List (Session size)) (client : Client)
      (old : Option (Connection size)) (link : Connection size)
      (sessions : server.sessions = before ++ ⟨client, old⟩ :: after)
      (advances : Advances program before.length client old link)
      (next_eq : next = { server with sessions := before ++ ⟨client, some link⟩ :: after })

theorem remaining_subset {call : Call} {calls : List Call} (hcalls : server.calls = call :: calls) :
    calls ++ server.loop ⊆ server.remaining := by
  rw [remaining, hcalls]
  exact List.subset_cons_self _ _

theorem moves_spawn {client : Client} {calls : List Call}
    (hcalls : calls ++ server.loop ⊆ server.remaining) (hsocket : server.socket = some client) :
    Moves program server ({ server with calls }.spawn client) :=
  .spawn hcalls client rfl (by rw [waiting, hsocket]; rfl)

theorem moves_accept {calls : List Call} (hcalls : calls ++ server.loop ⊆ server.remaining)
    (h : { server with calls }.accept = some next) : Moves program server next := by
  cases hclients : server.clients with
  | nil =>
    rw [accept, hclients] at h
    exact nomatch h
  | cons client clients =>
    rw [accept, hclients] at h
    obtain rfl := Option.some.inj h
    refine .other hcalls rfl ?_
    rw [waiting, waiting, hclients]
    exact List.sublist_append_right _ _

theorem moves_call (h : server.call = some next) : Moves program server next := by
  rw [call] at h
  split at h
  · split_ifs at h
    obtain rfl := Option.some.inj h
    refine .other ?_ rfl (List.Sublist.refl _)
    exact List.append_subset.mpr ⟨List.subset_append_right _ _, List.subset_append_right _ _⟩
  · next hcalls => exact moves_accept (remaining_subset hcalls) h
  · next hcalls =>
    obtain ⟨client, hsocket, rfl⟩ := Option.map_eq_some_iff.mp h
    exact moves_spawn (remaining_subset hcalls) hsocket
  · next hcalls =>
    obtain rfl := Option.some.inj h
    exact .other (remaining_subset hcalls) rfl (List.Sublist.refl _)
  · next hcalls =>
    split_ifs at h
    obtain rfl := Option.some.inj h
    exact .other (remaining_subset hcalls) rfl (List.Sublist.refl _)

theorem moves_listen (h : server.listen = some next) : Moves program server next := by
  rw [listen] at h
  split at h
  · obtain rfl := Option.some.inj h
    exact .other (List.Subset.refl _) rfl (List.Sublist.refl _)
  · exact moves_accept (List.Subset.refl server.remaining) h
  · next client _ hsocket =>
    obtain rfl := Option.some.inj h
    exact moves_spawn (List.Subset.refl server.remaining) hsocket
  · exact nomatch h
  · exact nomatch h

theorem moves_start {i : ℕ} (hrunning : server.Running)
    (h : server.start program i = some next) : Moves program server next := by
  rw [start] at h
  split at h
  · next client hi =>
    obtain ⟨before, after, hsessions, rfl⟩ := Lists.exists_split_of_getElem? hi
    obtain rfl := Option.some.inj h
    refine .execute hrunning before after client none _ hsessions .start ?_
    rw [hsessions, Lists.set_split]
  · exact nomatch h

theorem moves_resume {i : ℕ} {event : HalfDuplex.Event Byte Failure} (hrunning : server.Running)
    (h : server.resume program i event = some next) : Moves program server next := by
  rw [resume] at h
  split at h
  · next client link hi =>
    obtain ⟨before, after, hsessions, rfl⟩ := Lists.exists_split_of_getElem? hi
    obtain ⟨link', hstep, hlink'⟩ := Option.bind_eq_some_iff.mp h
    split_ifs at hlink' with hreceived
    obtain rfl := Option.some.inj hlink'
    refine .execute hrunning before after client (some link) link' hsessions
      (.resume hstep hreceived) ?_
    rw [hsessions, Lists.set_split]
  · exact nomatch h

theorem moves_step {event : Event} (h : step program server event = some next) :
    Moves program server next := by
  unfold step at h
  split_ifs at h with hallowed
  have hrunning : event.IsCall = false → server.Running := by
    intro hevent
    rw [hevent] at hallowed
    exact hallowed.resolve_left nofun
  cases event with
  | call => exact moves_call h
  -- An exception leaves no call to be made.
  | throwAccept =>
    rw [throwAccept] at h
    split_ifs at h
    obtain rfl := Option.some.inj h
    exact .other (List.nil_subset _) rfl (List.Sublist.refl _)
  | listen => exact moves_listen h
  | throwAsyncAccept =>
    rw [throwAsyncAccept] at h
    split_ifs at h
    obtain rfl := Option.some.inj h
    exact .other (List.Subset.refl _) rfl (List.Sublist.refl _)
  | start i => exact moves_start (hrunning rfl) h
  | resume i event => exact moves_resume (hrunning rfl) h
  | signal =>
    obtain rfl := Option.some.inj h
    exact .other (List.Subset.refl _) rfl (List.Sublist.refl _)

/-! ### What a run leads to -/

/-- A coroutine follows its program, on bytes that its client sends. -/
def Sound (program : ServerProgram size) (i : ℕ) (session : Session size) : Prop :=
  ∀ link ∈ session.link, Phase (program.coroutine i) Awaits False link ∧
    received link.trace <+: session.client.flatten

theorem Advances.sound {i : ℕ} {client : Client} {old : Option (Connection size)}
    {link : Connection size} (h : Advances program i client old link)
    (hold : Sound program i ⟨client, old⟩) : Sound program i ⟨client, some link⟩ := by
  intro link' hlink'
  obtain rfl := Option.some.inj hlink'
  have halternates := program.alternates i
  cases h with
  | start =>
    refine ⟨.started halternates False, ?_⟩
    obtain ⟨task, -, -, -, htrace⟩ := halternates.started
    rw [htrace]
    exact List.nil_prefix
  | resume hstep hreceived =>
    obtain ⟨hphase, -⟩ := hold _ rfl
    exact ⟨hphase.step halternates False.elim hstep, hreceived⟩

/-- What holds between any two steps of a server. -/
structure Invariant (program : ServerProgram size) (script : List Client)
    (server : Server size) : Prop where
  /-- No client has two connections. -/
  clients : List.Sublist (server.sessions.map Session.client ++ server.waiting) script
  sound : ∀ i session, server.sessions[i]? = some session → Sound program i session

theorem invariant_started (program : ServerProgram size) (script : List Client) :
    Invariant program script (started program script) :=
  ⟨List.Sublist.refl script, nofun⟩

theorem Invariant.moves {script : List Client} (h : Invariant program script server)
    (hmoves : Moves program server next) : Invariant program script next := by
  obtain ⟨hclients, hsound⟩ := h
  cases hmoves with
  | other calls sessions waiting =>
    refine ⟨?_, sessions ▸ hsound⟩
    rw [sessions]
    exact (waiting.append_left _).trans hclients
  | spawn calls client sessions waiting =>
    constructor
    · rw [waiting] at hclients
      rw [sessions, List.map_append, List.append_assoc]
      exact hclients
    · intro i session hi
      rw [sessions] at hi
      rcases Lists.getElem?_concat hi with hi | ⟨-, rfl⟩
      · exact hsound i session hi
      · exact nofun
  | execute running before after client old link sessions advances next_eq =>
    subst next_eq
    constructor
    -- The session keeps its client.
    · rw [sessions, List.map_append, List.map_cons] at hclients
      rw [List.map_append, List.map_cons]
      exact hclients
    · rw [sessions] at hsound
      exact Lists.forall_getElem?_split hsound advances.sound

theorem Invariant.of_reachable {script : List Client}
    (h : Reachable (step program) (started program script) server) :
    Invariant program script server := by
  obtain ⟨events, hrun⟩ := h
  exact run_invariant (Invariant program script) (fun _ _ _ h hstep => h.moves (moves_step hstep))
    hrun (invariant_started program script)

/-- A server sends each client what it has received from it. -/
theorem Invariant.output_isPrefix {script : List Client} (h : Invariant program script server)
    {session : Session size} (hsession : session ∈ server.sessions) :
    session.output <+: session.client.flatten := by
  obtain ⟨i, hi⟩ := List.mem_iff_getElem?.mp hsession
  rw [Session.output]
  split
  · exact List.nil_prefix
  · next link hlink =>
    obtain ⟨hphase, hreceived⟩ := h.sound i session hi link hlink
    obtain ⟨owed, hechoed⟩ := hphase.echoed
    have hsent : sent link.trace <+: received link.trace := ⟨owed, hechoed.balance.symm⟩
    exact hsent.trans hreceived

theorem Invariant.client_mem {script : List Client} (h : Invariant program script server)
    {session : Session size} (hsession : session ∈ server.sessions) : session.client ∈ script :=
  h.clients.subset (List.mem_append_left _ (List.mem_map_of_mem hsession))

theorem Invariant.length_sessions_le {script : List Client} (h : Invariant program script server) :
    server.sessions.length ≤ script.length := by
  have hlength := h.clients.length_le
  rw [List.length_append, List.length_map] at hlength
  omega

/-! ### Without a call of `run` -/

/-- Nothing will call `run()`, and no coroutine has been executed. -/
structure Dormant (server : Server size) : Prop where
  calls : Call.run ∉ server.remaining
  sessions : ∀ session ∈ server.sessions, session.link = none

theorem Dormant.not_running (h : server.Dormant) : ¬ server.Running := by
  intro hrunning
  have hmem : Call.run ∈ server.calls := List.mem_of_mem_head? hrunning.1
  exact h.calls (List.mem_append_left _ hmem)

theorem Dormant.moves (h : server.Dormant) (hmoves : Moves program server next) :
    next.Dormant := by
  cases hmoves with
  | other calls sessions waiting => exact ⟨fun hmem => h.calls (calls hmem), sessions ▸ h.sessions⟩
  | spawn calls client sessions waiting =>
    refine ⟨fun hmem => h.calls (calls hmem), fun session hmem => ?_⟩
    rw [sessions] at hmem
    rcases List.mem_append.mp hmem with hmem | hmem
    · exact h.sessions session hmem
    · obtain rfl := List.mem_singleton.mp hmem
      rfl
  -- Only this step needs `run()`.
  | execute running => exact absurd running h.not_running

/-- **No coroutine is executed without a call of `run()`.** -/
theorem Dormant.of_reachable (hcalls : Call.run ∉ program.calls ++ program.loop)
    {script : List Client} (h : Reachable (step program) (started program script) server) :
    server.Dormant := by
  obtain ⟨events, hrun⟩ := h
  exact run_invariant Dormant (fun _ _ _ h hstep => h.moves (moves_step hstep)) hrun ⟨hcalls, nofun⟩

theorem outputs_eq_replicate (h : ∀ session ∈ server.sessions, session.output = []) :
    server.outputs = List.replicate server.sessions.length [] := by
  refine List.eq_replicate_iff.mpr ⟨List.length_map _, fun output houtput => ?_⟩
  obtain ⟨session, hsession, rfl⟩ := List.mem_map.mp houtput
  exact h session hsession

theorem Dormant.outputs_eq (h : server.Dormant) :
    server.outputs = List.replicate server.sessions.length [] :=
  outputs_eq_replicate fun session hsession => by rw [Session.output, h.sessions session hsession]

theorem step_call (program : ServerProgram size) (server : Server size) :
    step program server .call = server.call := if_pos (Or.inl rfl)

/-! ### Inside of `run` -/

theorem Running.step (h : server.Running) {event : Event} (hevent : event.IsCall = false) :
    Server.step program server event =
      match event with
      | .listen => server.listen
      | .throwAsyncAccept => server.throwAsyncAccept
      | .start i => server.start program i
      | .resume i event => server.resume program i event
      | _ => some { server with stopped := true } := by
  unfold Server.step
  rw [if_pos (Or.inr h)]
  cases event with
  | call | throwAccept => exact absurd hevent nofun
  | listen | throwAsyncAccept | start | resume | signal => rfl

theorem step_start {before after : List (Session size)} {client : Client}
    (hrunning : server.Running) (hsessions : server.sessions = before ++ .spawned client :: after) :
    step program server (.start before.length) = some { server with
      sessions := before ++ ⟨client, some (program.coroutine before.length).started⟩ :: after } := by
  rw [hrunning.step rfl]
  simp only [start, hsessions, Lists.getElem?_split, Session.spawned, Lists.set_split]

theorem step_resume {before after : List (Session size)} {client : Client}
    {link link' : Connection size} {event : HalfDuplex.Event Byte Failure}
    (hrunning : server.Running) (hsessions : server.sessions = before ++ ⟨client, some link⟩ :: after)
    (hstep : (program.coroutine before.length).step link event = some link')
    (hreceived : received link'.trace <+: client.flatten) :
    step program server (.resume before.length event) =
      some { server with sessions := before ++ ⟨client, some link'⟩ :: after } := by
  rw [hrunning.step rfl]
  simp only [resume, hsessions, Lists.getElem?_split, hstep, Option.bind_some, if_pos hreceived,
    Lists.set_split]

/-- Any run of a coroutine on what its client sends is one of the server. -/
theorem canReach_run {before after : List (Session size)} {client : Client}
    {link final : Connection size} {events : List (HalfDuplex.Event Byte Failure)}
    (hrunning : server.Running) (hsessions : server.sessions = before ++ ⟨client, some link⟩ :: after)
    (hphase : Phase (program.coroutine before.length) Awaits False link)
    (hrun : run (program.coroutine before.length).step link events = some final)
    (hreceived : received final.trace <+: client.flatten) :
    CanReach (step program) (fun _ => True)
      (· = { server with sessions := before ++ ⟨client, some final⟩ :: after }) server := by
  induction events generalizing server link with
  | nil =>
    obtain rfl := Option.some.inj hrun
    rw [← hsessions]
    exact .here rfl
  | cons event events ih =>
    obtain ⟨next, hstep, hrest⟩ := run_cons_eq_some_iff.mp hrun
    have halternates := program.alternates before.length
    have hnext := hphase.step halternates False.elim hstep
    -- What has been received so far is received in the end.
    obtain ⟨more, hmore⟩ := hnext.trace_run halternates hrest
    have hsofar : received next.trace <+: received final.trace := by
      rw [← hmore, received_append]
      exact List.prefix_append _ _
    have hserver := step_resume hrunning hsessions hstep (hsofar.trans hreceived)
    exact .head hserver trivial (@ih { server with
      sessions := before ++ ⟨client, some next⟩ :: after } next hrunning rfl hnext hrest)

/-- A coroutine that has been spawned can echo all that its client sends. -/
theorem canReach_echo {before after : List (Session size)} {client : Client} (hsize : 0 < size)
    (hrunning : server.Running) (hsessions : server.sessions = before ++ .spawned client :: after) :
    CanReach (step program) (fun _ => True)
      (fun next => ∃ session : Session size, session.output = client.flatten ∧
        next = { server with sessions := before ++ session :: after }) server := by
  have halternates := program.alternates before.length
  -- The bytes arrive one by one, which any array has room for.
  obtain ⟨events, final, -, hrun, hreceived, hsent⟩ :=
    halternates.isEcho.echoes (client.flatten.map fun byte => [byte]) (by
      intro piece hpiece
      obtain ⟨byte, -, rfl⟩ := List.mem_map.mp hpiece
      exact hsize)
  have hflatten : (client.flatten.map fun byte => [byte]).flatten = client.flatten := by
    rw [← List.flatMap_def, List.flatMap_singleton']
  rw [hflatten] at hreceived hsent
  refine .head (step_start hrunning hsessions) trivial ?_
  have hreach := @canReach_run _ program { server with
    sessions := before ++ ⟨client, some (program.coroutine before.length).started⟩ :: after }
    before after client _ final events hrunning rfl (.started halternates False) hrun
    (hreceived ▸ List.prefix_rfl)
  exact hreach.imp (fun _ h => h) fun next hnext => ⟨⟨client, some final⟩, hsent, hnext⟩

/-- So can all of them, one after the other. -/
theorem canReach_echo_all {before : List (Session size)} {clients : List Client}
    (hsize : 0 < size) (hrunning : server.Running)
    (hsessions : server.sessions = before ++ clients.map .spawned) :
    CanReach (step program) (fun _ => True)
      (fun next => next.outputs = before.map Session.output ++ clients.map List.flatten)
      server := by
  induction clients generalizing before server with
  | nil =>
    refine .here ?_
    rw [outputs, hsessions, List.map_append, List.map_nil, List.map_nil, List.map_nil]
  | cons client clients ih =>
    rw [List.map_cons] at hsessions
    refine (canReach_echo hsize hrunning hsessions).trans ?_
    rintro next ⟨session, houtput, rfl⟩
    have hreach := @ih { server with
      sessions := before ++ session :: clients.map .spawned } (before ++ [session]) hrunning (by
        rw [List.append_assoc, List.singleton_append])
    refine hreach.imp (fun _ h => h) fun next hnext => ?_
    rw [hnext, List.map_append, List.append_assoc, List.map_cons, houtput]
    rfl

/-- The listener can accept all clients. -/
theorem canReach_listen {clients : List Client} (hrunning : server.Running)
    (hlistener : server.listener = .accepting) (hsocket : server.socket = none)
    (hclients : server.clients = clients) :
    CanReach (step program) (fun _ => True)
      (fun next => next.Running ∧ next.sessions = server.sessions ++ clients.map .spawned)
      server := by
  induction clients generalizing server with
  | nil => exact .here ⟨hrunning, (List.append_nil _).symm⟩
  | cons client clients ih =>
    have haccept : step program server .listen =
        some { server with clients, socket := some client } := by
      rw [hrunning.step rfl]
      simp only [listen, hlistener, hsocket, accept, hclients]
    have hspawn : step program { server with clients, socket := some client } .listen =
        some ({ server with clients }.spawn client) := by
      have hrunning' : Running { server with clients, socket := some client } := hrunning
      rw [hrunning'.step rfl]
      simp only [listen, hlistener, spawn]
    refine .head haccept trivial (.head hspawn trivial ?_)
    have hreach := @ih ({ server with clients }.spawn client) hrunning hlistener rfl rfl
    refine hreach.imp (fun _ h => h) fun next hnext => ⟨hnext.1, ?_⟩
    rw [hnext.2, spawn, List.append_assoc, List.singleton_append, List.map_cons]

end Server

end BoostProjects.Asio.Coroutines
