import BoostProjects.Beast.Http.Message

/-!
# The synchronous HTTP servers

`runServer` accepts one client after another and answers each in turn. It uses
the overloads of `read`, `write` and `shutdown` that throw, and the only handler
is in `start`, outside the loop. So the server is in `accept` again after every
client of a run exactly as long as nothing goes wrong with any of them.

The repository has the server twice; the copies differ in the address they
listen at.
-/

namespace BoostProjects.HTTPServer

open Boost Cpp Beast.Http

/-- An address and a port to listen at. -/
structure Endpoint where
  address : Str
  port : ℕ
  deriving DecidableEq, Repr

/-- What the operations on the connection of one client come to. -/
structure Client where
  reading : Except OpenError Request
  writing : ErrorCode
  shuttingDown : ErrorCode

/-- What a server meets: whether it can listen, and the clients that connect. -/
structure Network where
  binding : Endpoint → ErrorCode
  clients : List Client

/-- The overloads without an `error_code` throw when the operation fails. -/
def orThrow (errorCode : ErrorCode) : Except ErrorCode Unit :=
  if errorCode.failed then .error errorCode else .ok ()

/-- The response of `handleRequest`. Without a `Connection` field it is the
version that says whether the connection is kept alive. -/
def greeting (request : Request) : Response :=
  Response.preparePayload
    { header :=
        { status := .ok, version := request.version
          server := "My HTTP Server".toList
          contentType := "text/plain".toList
          contentLength := none
          keepAlive := decide (11 ≤ request.version) }
      body := .string "Hello, World!".toList }

/-- `handleRequest`, with the response it has sent. -/
def handleRequest (request : Request) (client : Client) : Except ErrorCode Response := do
  let response := greeting request
  orThrow client.writing
  return response

/-- One turn of the loop, after `accept`. -/
def serveClient (client : Client) : Except ErrorCode Response := do
  let request ← client.reading.mapError Subtype.val
  let response ← handleRequest request client
  orThrow client.shuttingDown
  return response

/-- The loop. When all clients have been dealt with it is in `accept`, with the
responses it has sent; an exception leaves it. -/
def loop : List Client → List Response → Except ErrorCode (List Response)
  | [], sent => .ok sent
  | client :: rest, sent => do
    let response ← serveClient client
    loop rest (sent ++ [response])

/-- `runServer` -/
def runServer (serverAddress : Endpoint) (network : Network) : Except ErrorCode (List Response) :=
  do
    orThrow (network.binding serverAddress)
    loop network.clients []

/-- What has become of the server. -/
inductive Status
  /-- It is in `acceptor.accept`. -/
  | accepting (sent : List Response)
  /-- `start` has printed the exception and returned. -/
  | ended (exception : ErrorCode)

/-- The handler around the loop. -/
def startAt (serverAddress : Endpoint) (network : Network) : Status :=
  match runServer serverAddress network with
  | .ok sent => .accepting sent
  | .error exception => .ended exception

/-- `host` and `port` of `HTTPServer`. -/
def serverAddress : Endpoint := { address := "0.0.0.0".toList, port := 52525 }

/-- `HTTPServer::start` -/
def start (network : Network) : Status := startAt serverAddress network

/-- The endpoint of `HTTPServer::Beast`. -/
def Beast.serverAddress : Endpoint := { address := "0.0.0.0".toList, port := 8080 }

/-- `HTTPServer::Beast::start` -/
def Beast.start (network : Network) : Status := startAt Beast.serverAddress network

/-! ## One client -/

/-- No operation on the client's connection fails. -/
structure Client.Behaves (client : Client) : Prop where
  reads : ∃ request, client.reading = .ok request
  writes : client.writing = .success
  shutsDown : client.shuttingDown = .success

theorem orThrow_success : orThrow .success = .ok () := rfl

theorem orThrow_of_ne {errorCode : ErrorCode} (h : errorCode ≠ .success) :
    orThrow errorCode = .error errorCode := by
  unfold orThrow
  cases errorCode <;> simp_all [ErrorCode.failed]

theorem Client.Behaves.serveClient_eq {client : Client} (h : client.Behaves) :
    ∃ response, serveClient client = .ok response := by
  obtain ⟨request, hreads⟩ := h.reads
  refine ⟨greeting request, ?_⟩
  simp only [serveClient, handleRequest, hreads, h.writes, h.shutsDown, orThrow_success,
    Except.mapError]
  rfl

theorem behaves_of_serveClient {client : Client} {response : Response}
    (h : serveClient client = .ok response) : client.Behaves := by
  cases hreading : client.reading with
  | error code =>
    rw [serveClient, hreading] at h
    cases h
  | ok request =>
    -- An exception of the write or of the shutdown would have left the turn.
    by_cases hwriting : client.writing = .success
    · by_cases hshuttingDown : client.shuttingDown = .success
      · exact ⟨⟨request, hreading⟩, hwriting, hshuttingDown⟩
      · simp only [serveClient, hreading, handleRequest, hwriting, orThrow_success,
          orThrow_of_ne hshuttingDown] at h
        cases h
    · simp only [serveClient, hreading, handleRequest, orThrow_of_ne hwriting] at h
      cases h

theorem loop_cons_of_ok {client : Client} {response : Response}
    (h : serveClient client = .ok response) (rest : List Client) (sent : List Response) :
    loop (client :: rest) sent = loop rest (sent ++ [response]) := by
  rw [loop, h]
  rfl

/-- An exception leaves the loop. -/
theorem loop_cons_of_error {client : Client} {exception : ErrorCode}
    (h : serveClient client = .error exception) (rest : List Client) (sent : List Response) :
    loop (client :: rest) sent = .error exception := by
  rw [loop, h]
  rfl

/-! ## All clients -/

theorem exists_loop_eq_ok_iff (clients : List Client) (sent : List Response) :
    (∃ final, loop clients sent = .ok final) ↔ ∀ client ∈ clients, client.Behaves := by
  induction clients generalizing sent with
  | nil => exact iff_of_true ⟨sent, rfl⟩ fun client hclient => absurd hclient List.not_mem_nil
  | cons client rest ih =>
    rw [List.forall_mem_cons]
    constructor
    · rintro ⟨final, hfinal⟩
      cases hserve : serveClient client with
      | error exception =>
        rw [loop_cons_of_error hserve] at hfinal
        cases hfinal
      | ok response =>
        rw [loop_cons_of_ok hserve] at hfinal
        exact ⟨behaves_of_serveClient hserve, (ih (sent ++ [response])).mp ⟨final, hfinal⟩⟩
    · rintro ⟨hclient, hrest⟩
      obtain ⟨response, hserve⟩ := hclient.serveClient_eq
      obtain ⟨final, hloop⟩ := (ih (sent ++ [response])).mpr hrest
      exact ⟨final, (loop_cons_of_ok hserve rest sent).trans hloop⟩

/-- The server is in `acceptor.accept`. -/
def Status.Accepting (status : Status) : Prop := ∃ sent, status = .accepting sent

theorem accepting_startAt_iff {serverAddress : Endpoint} {network : Network}
    (hlistens : network.binding serverAddress = .success) :
    (startAt serverAddress network).Accepting ↔ ∀ client ∈ network.clients, client.Behaves := by
  rw [← exists_loop_eq_ok_iff network.clients []]
  have hrun : runServer serverAddress network = loop network.clients [] := by
    rw [runServer, hlistens]
    rfl
  rw [startAt, hrun]
  cases loop network.clients [] with
  | ok sent => exact iff_of_true ⟨sent, rfl⟩ ⟨sent, rfl⟩
  | error exception => exact iff_of_false nofun nofun

/-- After each of the clients has been dealt with the server accepts again. -/
def KeepsAccepting (start : Network → Status) (network : Network) : Prop :=
  ∀ k ≤ network.clients.length,
    (start { network with clients := network.clients.take k }).Accepting

theorem keepsAccepting_startAt_iff {serverAddress : Endpoint} {network : Network}
    (hlistens : network.binding serverAddress = .success) :
    KeepsAccepting (startAt serverAddress) network ↔
      ∀ client ∈ network.clients, client.Behaves := by
  constructor
  · intro h
    have hall := h network.clients.length le_rfl
    rw [List.take_length] at hall
    exact (accepting_startAt_iff hlistens).mp hall
  · intro h k _
    have hlistens' : Network.binding { network with clients := network.clients.take k }
        serverAddress = .success := hlistens
    refine (accepting_startAt_iff hlistens').mpr fun client hclient => ?_
    exact h client (List.mem_of_mem_take hclient)

/-- **The accept loop survives exactly the clients that behave.** In both copies
the server is in `accept` again after every client if and only if no read, write
or shutdown fails for any of them. -/
theorem keepsAccepting_iff (network : Network)
    (hlistens : network.binding serverAddress = .success)
    (hlistens' : network.binding Beast.serverAddress = .success) :
    (KeepsAccepting start network ↔ ∀ client ∈ network.clients, client.Behaves) ∧
      (KeepsAccepting Beast.start network ↔ ∀ client ∈ network.clients, client.Behaves) :=
  ⟨keepsAccepting_startAt_iff hlistens, keepsAccepting_startAt_iff hlistens'⟩

/-- A client that sends a request and reads the response. -/
def Client.polite : Client :=
  { reading := .ok (.plain .get "/".toList), writing := .success, shuttingDown := .success }

/-- A client that disconnects before it has sent a request. -/
def Client.absent : Client :=
  { reading := .error ⟨.endOfStream, rfl⟩, writing := .success, shuttingDown := .success }

theorem keepsAccepting_polite :
    KeepsAccepting start { binding := fun _ => .success, clients := [.polite, .polite] } := by
  refine (keepsAccepting_iff { binding := fun _ => .success, clients := [.polite, .polite] }
    rfl rfl).1.mpr ?_
  simp only [List.forall_mem_cons, List.not_mem_nil, false_imp_iff, implies_true, and_true, and_self]
  exact ⟨⟨_, rfl⟩, rfl, rfl⟩

/-- The first client is gone before it has sent anything, and so is the
server. -/
theorem not_keepsAccepting_absent :
    ¬ KeepsAccepting start { binding := fun _ => .success, clients := [.absent] } ∧
      ¬ KeepsAccepting Beast.start { binding := fun _ => .success, clients := [.absent] } := by
  constructor
  · intro h
    obtain ⟨sent, hsent⟩ := h 1 le_rfl
    exact nomatch hsent
  · intro h
    obtain ⟨sent, hsent⟩ := h 1 le_rfl
    exact nomatch hsent

end BoostProjects.HTTPServer
