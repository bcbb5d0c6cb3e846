import BoostProjects.Beast.Http.DirectClients
import BoostProjects.Beast.Http.Methods
import BoostProjects.Beast.Http.Residue
import BoostProjects.Beast.Http.Responses
import BoostProjects.Library.Exchange

/-!
# The HTTPS clients against the HTTPS servers

`HTTPS_Client_Async` and `HTTPS_Awaitable` send `GET /` to the port at which
`HTTPS_Server_Sync` and `HTTPS_Server_ASync` listen, and print the response. Each of the
four follows its dialogue, so a client and a server are an `Exchange`, with one request.

What is printed is the response of `handle_request`, but its body is cut at the declared
length, which is the size of the file in sixteen bits: of a file of 64 KiB or more, the
client prints less than the server has sent (`https_prints`).
-/

namespace BoostProjects.Beast.Http

open Boost Cpp Dialogue Transition

/-! ## The programs -/

/-- The two programs that send the request, once the host name is set. -/
inductive TlsClient
  /-- `HTTPS_Client_Async::Session` -/
  | session
  /-- `HTTPS_Awaitable::do_session` -/
  | doSession

/-- What the program has started and written when its steps have ended so. -/
def TlsClient.started (outcomes : List ErrorCode) : TlsClient → List Client.Step
  | .session =>
    (Client.after Client.HTTPSClientAsync.handlers
      (Client.HTTPSClientAsync.run .success {}) outcomes).started
  | .doSession => ((Client.HTTPSAwaitable.doSession .success).run outcomes).started

/-- What the client has printed when its steps have ended so. -/
def TlsClient.effects (outcomes : List ErrorCode) : TlsClient → List Client.Effect
  | .session =>
    (Client.after Client.HTTPSClientAsync.handlers
      (Client.HTTPSClientAsync.run .success {}) outcomes).record.effects
  | .doSession => ((Client.HTTPSAwaitable.doSession .success).run outcomes).effects

/-- The HTTPS sessions. -/
inductive TlsServer
  /-- `HTTPS_Server_Sync::do_session` -/
  | doSession
  /-- `HTTPS_Server_ASync::session` -/
  | session

/-- What the session has done when its operations have ended so. -/
def TlsServer.log (docRoot : Str) (outcomes : List Outcome) : TlsServer → Log
  | .doSession => Sync.doSession docRoot outcomes
  | .session => (ASync.after docRoot outcomes).log

/-- The request of both clients, from a Boost with this version string. -/
def Request.index (versionString : Str) : Request :=
  { method := .get, target := "/".toList, version := 11
    fields := [(Methods.host, "0.0.0.0".toList), (Methods.userAgent, versionString)], body := [] }

/-! ## The connection -/

/-- The first bytes of a body. -/
def Body.take (length : ℕ) : Body → Body
  | .string text => .string (text.take length)
  | .file opened =>
    .file
      { content := opened.content.take length
        fits := Nat.lt_of_le_of_lt (List.length_take_le' _ _) opened.fits }
  | .empty => .empty

/-- What the parser of the client makes of a response: it stops at the declared length. -/
def Response.delivered (response : Response) : Response :=
  match response.header.contentLength with
  | some length => { response with body := response.body.take length.toNat }
  | none => response

/-- A client that sends `request`, and a server. -/
def exchange (docRoot : Str) (request : Request) :
    Exchange Client.Step ErrorCode Operation Outcome Request Response where
  clientNext := Client.next Client.tlsSteps
  clientFirst := .resolve
  asks
    | .write => some request
    | _ => none
  receives step ec := decide (step = .read ∧ ec.failed = false)
  serverNext := next docRoot
  serverFirst := .handshake
  hears := arrived
  answers
    | .write response => some response
    | _ => none
  respond outcome request := outcome.world.respond docRoot request

variable {docRoot versionString : Str} {request : Request}

theorem responsive_exchange : (exchange docRoot request).Responsive where
  first := rfl
  next op outcome op' hnext := by
    cases leads_of_next hnext with
    | handshaken | keptAlive | closed => rfl
    | endOfStream heof => simp [exchange, arrived, heof, ErrorCode.failed]
    | answered hsuccess => simp [exchange, arrived, hsuccess, ErrorCode.failed]
  last op outcome hnext := by
    by_cases hfailed : outcome.errorCode.failed = true
    · exact arrived_of_failed op hfailed
    · cases op with
      | read =>
        exact absurd ((next_read_of_success hfailed).symm.trans hnext) (Option.some_ne_none _)
      | handshake | write | shutdown => rfl

/-- What a client prints: the response that it has received. -/
def shown (client : TlsClient) (docRoot : Str) (request : Request)
    (s : Exchange.State ErrorCode Outcome) : Option Response :=
  if Client.Effect.response ∈ client.effects s.client then
    (((exchange docRoot request).replies s).head?).map Response.delivered
  else none

/-! ## The programs follow the dialogues -/

theorem TlsClient.started_eq (client : TlsClient) (outcomes : List ErrorCode) :
    client.started outcomes = trace (Client.next Client.tlsSteps) .resolve outcomes := by
  cases client with
  | session =>
    exact congrArg Direct.Record.started (Client.record_after Client.HTTPSClientAsync.performs
      Client.HTTPSClientAsync.prints Client.closes_tls outcomes)
  | doSession =>
    exact congrArg Direct.Record.started (Client.HTTPSAwaitable.speaks_doSession.run_eq outcomes)

/-- The response is printed when it has been read. -/
theorem TlsClient.effects_response (client : TlsClient) (outcomes : List ErrorCode) :
    (client.effects outcomes).filterMap Client.Effect.response? =
      emitted (Client.next Client.tlsSteps) Client.prints .resolve outcomes := by
  cases client with
  | session =>
    have heffects : TlsClient.effects outcomes .session = emitted (Client.next Client.tlsSteps)
        (Client.effect Client.HTTPSClientAsync.report) .resolve outcomes :=
      congrArg Direct.Record.effects (Client.record_after Client.HTTPSClientAsync.performs
        Client.HTTPSClientAsync.prints Client.closes_tls outcomes)
    rw [heffects, ← emitted_bind]
    simp only [Client.response?_effect]
  | doSession =>
    have heffects : TlsClient.effects outcomes .doSession =
        emitted (Client.next Client.tlsSteps) Client.prints .resolve outcomes :=
      congrArg Direct.Record.effects (Client.HTTPSAwaitable.speaks_doSession.run_eq outcomes)
    have hprints : ∀ step ec, (Client.prints step ec).bind Client.Effect.response? =
        Client.prints step ec := by
      intro step ec
      rw [Client.prints]
      split_ifs <;> rfl
    rw [heffects, ← emitted_bind]
    simp only [hprints]

theorem mem_response_iff {effects : List Client.Effect} :
    .response ∈ effects ↔ effects.filterMap Client.Effect.response? ≠ [] := by
  constructor
  · intro hmem hnone
    exact Option.some_ne_none _ (List.filterMap_eq_nil_iff.mp hnone _ hmem)
  · intro hne
    obtain ⟨effect, hmem⟩ := List.exists_mem_of_ne_nil _ hne
    obtain ⟨written, hwritten, hresponse⟩ := List.mem_filterMap.mp hmem
    cases written with
    | response => exact hwritten
    | line => cases hresponse

/-- A client prints exactly when it has received a reply. -/
theorem TlsClient.mem_effects_iff (client : TlsClient) (s : Exchange.State ErrorCode Outcome) :
    .response ∈ client.effects s.client ↔ (exchange docRoot request).received s ≠ [] := by
  have hemit : (fun step ec =>
      if (exchange docRoot request).receives step ec then some () else none) =
        fun step ec => (Client.prints step ec).map fun _ => () := by
    funext step ec
    by_cases hread : step = .read ∧ ec.failed = false
    · obtain ⟨rfl, hec⟩ := hread
      obtain rfl := ErrorCode.failed_eq_false_iff.mp hec
      rfl
    · rw [Client.prints, if_neg hread]
      exact if_neg (mt of_decide_eq_true hread)
  have hreceived : (exchange docRoot request).received s =
      (emitted (Client.next Client.tlsSteps) Client.prints .resolve s.client).map fun _ => () := by
    rw [Exchange.received, hemit, ← emitted_map]
    rfl
  rw [mem_response_iff, client.effects_response, hreceived, Ne, Ne, List.map_eq_nil_iff]

theorem TlsServer.started_eq (server : TlsServer) (outcomes : List Outcome) :
    (server.log docRoot outcomes).started = trace (next docRoot) .handshake outcomes := by
  cases server with
  | doSession =>
    rw [TlsServer.log, Sync.doSession_eq]
    rfl
  | session => exact ASync.started_after outcomes

/-- One request is sent. -/
theorem asked_isPrefix (s : Exchange.State ErrorCode Outcome) :
    (exchange docRoot request).asked s <+: [request] := by
  have htrace : trace (Client.next Client.tlsSteps) .resolve s.client <+: Client.tlsSteps := by
    rw [Client.linear_tls.trace_eq]
    exact List.take_prefix _ _
  exact htrace.filterMap _

/-- Both servers handle the request as it has been sent. -/
theorem TlsServer.handled_eq (server : TlsServer) {s : Exchange.State ErrorCode Outcome}
    (hheard : (exchange docRoot request).heard s <+: [request]) :
    (server.log docRoot s.server).handled = (exchange docRoot request).heard s := by
  have hrequests : (exchange docRoot request).heard s = requests docRoot s.server := rfl
  cases server with
  | doSession =>
    rw [TlsServer.log, Sync.doSession_eq]
    rfl
  | session =>
    -- The class puts the bodies of earlier requests in front, and there is no earlier one.
    have hone : ∀ request ∈ (requests docRoot s.server).dropLast, request.body = [] := by
      intro earlier hearlier
      have hlength := hheard.length_le
      rw [hrequests, List.length_singleton] at hlength
      have hnone : (requests docRoot s.server).dropLast = [] := by
        rw [← List.length_eq_zero_iff, List.length_dropLast]
        omega
      rw [hnone] at hearlier
      cases hearlier
    rw [TlsServer.log, ASync.handled_after, accumulate_nil_of_forall hone, hrequests]

/-! ## What is delivered -/

/-- The length that the header declares of a file. -/
theorem toNat_toUInt16_size (file : File) :
    file.size.toUInt16.toUInt64.toNat = file.content.length % 2 ^ 16 := by
  rw [UInt16.toNat_toUInt64, UInt64.toNat_toUInt16, file.toNat_size]

theorem Body.take_file_eq_iff {file : File} {length : ℕ} :
    (Body.file file).take length = .file file ↔ file.content.length ≤ length := by
  rw [Body.take, Body.file.injEq, File.mk.injEq]
  exact List.take_eq_self_iff _

/-- Of a file that has been opened, the declared length arrives. -/
theorem body_delivered (world : World) {file : File} (hmethod : request.method = .get)
    (haccepted : Accepted request.target)
    (hopen : world.files (cStr (filePath docRoot request.target)) = .ok file) :
    (world.respond docRoot request).delivered.body =
      (Body.file file).take (file.content.length % 2 ^ 16) := by
  rw [World.respond, handleRequest_of_ok (.inl hmethod) haccepted hopen, okResponse,
    if_neg (by rw [hmethod]; decide), ← toNat_toUInt16_size]
  rfl

/-! ## Runs -/

section Runs

variable {s : Exchange.State ErrorCode Outcome} {events : List (Exchange.Event ErrorCode Outcome)}

/-- The server hears the one request, or nothing. -/
theorem heard_isPrefix (hrun : run (exchange docRoot request).step {} events = some s) :
    (exchange docRoot request).heard s <+: [request] := by
  have hcarries : Exchange.Carries (exchange docRoot request) s :=
    run_invariant _ (fun _ _ _ h hstep => h.step hstep) hrun Exchange.carries_started
  exact hcarries.heard.trans (asked_isPrefix s)

/-- The read that has brought the request. -/
def Brings (docRoot : Str) (request : Request) (outcomes : List Outcome) (outcome : Outcome) :
    Prop :=
  (.read, outcome) ∈ exchanges (next docRoot) .handshake outcomes ∧
    outcome.errorCode = .success ∧ outcome.received = request

theorem brings_of_arrived {outcomes : List Outcome} {op : Operation} {outcome : Outcome}
    (hmem : (op, outcome) ∈ exchanges (next docRoot) .handshake outcomes)
    (harrived : arrived op outcome = some request) : Brings docRoot request outcomes outcome := by
  have hsuccess : ¬ outcome.errorCode.failed = true := fun hfailed => by
    rw [arrived_of_failed op hfailed] at harrived
    cases harrived
  by_cases hop : op = .read
  · subst hop
    rw [arrived_read_of_success hsuccess] at harrived
    exact ⟨hmem, outcome.errorCode.failed_or_eq_success.resolve_left hsuccess,
      Option.some.inj harrived⟩
  · rw [arrived_of_ne_read op hop] at harrived
    cases harrived

/-- A client that has received a reply has been answered by the server. -/
theorem exists_reply (hrun : run (exchange docRoot request).step {} events = some s)
    (hreceived : (exchange docRoot request).received s ≠ []) :
    (exchange docRoot request).heard s = [request] ∧ ∃ outcome,
      Brings docRoot request s.server outcome ∧
      ((exchange docRoot request).replies s).head? =
        some (outcome.world.respond docRoot request) := by
  obtain ⟨reply, hfirst⟩ := Exchange.exists_first hrun hreceived
  obtain ⟨asked, hheard, hasked, op, outcome, hmem, harrived, rfl⟩ :=
    Exchange.replies_answer responsive_exchange hrun hfirst
  have hone := (heard_isPrefix hrun).eq_of_length_le (List.getElem?_eq_some_iff.mp hheard).1
  rw [hone] at hheard
  obtain rfl := Option.some.inj hheard
  exact ⟨hone, outcome, brings_of_arrived hmem harrived, List.head?_eq_getElem?.trans hfirst⟩

/-! ### A run in which nothing fails -/

/-- The operation succeeds; the server handles the request in this world. -/
def SucceedsIn (world : World) : Exchange.Event ErrorCode Outcome → Prop
  | .client ec => ec = .success
  | .server outcome => outcome.errorCode = .success ∧ outcome.world = world

/-- Nothing has failed. -/
structure Unfailed (s : Exchange.State ErrorCode Outcome) : Prop where
  client : ∀ ec ∈ s.client, ec = .success
  server : ∀ outcome ∈ s.server, outcome.errorCode = .success

theorem awaiting_client (h : Unfailed s) :
    awaiting (Client.next Client.tlsSteps) .resolve s.client = Client.tlsSteps[s.client.length]? :=
  Client.linear_tls.awaiting_eq fun ec hec => by rw [h.client ec hec]; rfl

theorem Unfailed.client_concat (h : Unfailed s) :
    Unfailed { s with client := s.client ++ [.success] } := by
  refine ⟨fun ec hec => ?_, h.server⟩
  obtain hbefore | hlast := List.mem_append.mp hec
  · exact h.client ec hbefore
  · exact List.mem_singleton.mp hlast

theorem Unfailed.server_concat (h : Unfailed s) {outcome : Outcome}
    (hsuccess : outcome.errorCode = .success) :
    Unfailed { s with server := s.server ++ [outcome] } := by
  refine ⟨h.client, fun ended hended => ?_⟩
  obtain hbefore | hlast := List.mem_append.mp hended
  · exact h.server ended hbefore
  · rw [List.mem_singleton.mp hlast]
    exact hsuccess

theorem Unfailed.client_eq (h : Unfailed s) :
    s.client = List.replicate s.client.length .success :=
  List.eq_replicate_iff.mpr ⟨rfl, h.client⟩

/-- A client that is through with its read has received a reply. -/
theorem received_of_length (h : Unfailed s) (hlength : 5 ≤ s.client.length) :
    (exchange docRoot request).received s ≠ [] := by
  obtain ⟨k, hk⟩ := Nat.exists_eq_add_of_le' hlength
  rw [Exchange.received, h.client_eq, hk]
  exact List.cons_ne_nil () _

/-- A server that is through with its first read has answered. -/
theorem answered_of_length (h : Unfailed s) (hlength : 2 ≤ s.server.length) :
    (exchange docRoot request).answered s ≠ [] := by
  match hserver : s.server, hlength with
  | shaken :: brought :: rest, _ =>
    have hshaken := h.server shaken (by simp [hserver])
    have hbrought := h.server brought (by simp [hserver])
    have hhandshake : next docRoot .handshake shaken = some .read :=
      next_handshake_of_success (by rw [hshaken]; exact Bool.false_ne_true)
    have hread := @next_read_of_success docRoot brought
      (by rw [hbrought]; exact Bool.false_ne_true)
    have htrace : trace (next docRoot) .handshake s.server = .handshake :: .read ::
        trace (next docRoot) (.write (brought.world.respond docRoot brought.received)) rest := by
      rw [hserver, trace_cons_of_some hhandshake, trace_cons_of_some hread]
    have hanswered : (exchange docRoot request).answered s =
        (trace (next docRoot) .handshake s.server).filterMap (exchange docRoot request).answers :=
      rfl
    rw [hanswered, htrace]
    exact List.cons_ne_nil _ _

/-- How far the two sides are from the end of the client's read. -/
def left (s : Exchange.State ErrorCode Outcome) : ℕ := (5 - s.client.length) + (2 - s.server.length)

/-- The client makes a step. -/
theorem exists_client (h : Unfailed s) (hlength : s.client.length < 5)
    (hanswered : s.client.length = 4 → (exchange docRoot request).answered s ≠ []) :
    (exchange docRoot request).step s (.client .success) =
      some { s with client := s.client ++ [.success] } := by
  have hlt : s.client.length < Client.tlsSteps.length := Nat.lt_of_lt_of_le hlength (by decide)
  rw [Exchange.step]
  refine Option.bind_eq_some_iff.mpr
    ⟨Client.tlsSteps[s.client.length], ?_, if_pos fun hreceives => ?_⟩
  · exact (awaiting_client h).trans (List.getElem?_eq_getElem hlt)
  · -- Only the fifth step takes anything from the server.
    have hread : Client.tlsSteps[s.client.length] = .read := (of_decide_eq_true hreceives).1
    have hfour : s.client.length = 4 := by
      generalize s.client.length = k at hlength hlt hread
      match k, hlength with
      | 0, _ | 1, _ | 2, _ | 3, _ => cases hread
      | 4, _ => rfl
    have hnone : (exchange docRoot request).received s = [] := by
      rw [Exchange.received, h.client_eq, hfour]
      rfl
    rw [hnone]
    exact List.length_pos_iff.mpr (hanswered hfour)

/-- The server makes a step, when the client waits for its reply. -/
theorem exists_server (world : World) (h : Unfailed s) (hfour : s.client.length = 4)
    (hlength : s.server.length < 2) :
    (exchange docRoot request).step s
        (.server { errorCode := .success, received := request, world }) =
      some { s with
        server := s.server ++ [{ errorCode := .success, received := request, world }] } := by
  have hasked : (exchange docRoot request).asked s = [request] := by
    rw [Exchange.asked, h.client_eq, hfour]
    rfl
  rw [Exchange.step]
  cases hserver : s.server with
  | nil => exact Option.bind_eq_some_iff.mpr ⟨.handshake, rfl, if_pos fun _ hnone => by cases hnone⟩
  | cons shaken rest =>
    have hrest : rest = [] := by
      rw [hserver, List.length_cons] at hlength
      exact List.eq_nil_of_length_eq_zero (by omega)
    subst hrest
    have hshaken := h.server shaken (by simp [hserver])
    have hhandshake : next docRoot .handshake shaken = some .read :=
      next_handshake_of_success (by rw [hshaken]; exact Bool.false_ne_true)
    have hheard : (exchange docRoot request).heard s = [] := by
      rw [Exchange.heard, hserver]
      exact emitted_cons_of_some hhandshake
    -- The first read finds the request that the client has begun to send.
    refine Option.bind_eq_some_iff.mpr ⟨.read, ?_, if_pos fun asked hasks => ?_⟩
    · exact (congrArg (Option.bind · _) hhandshake).trans rfl
    · obtain rfl := Option.some.inj hasks
      rw [hasked, hheard]
      rfl

/-- From wherever nothing has failed, the client can come to print. -/
theorem canReach_printed (client : TlsClient) (world : World) (h : Unfailed s) :
    CanReach (exchange docRoot request).step (SucceedsIn world)
      (fun final => Client.Effect.response ∈ client.effects final.client) s := by
  refine CanReach.of_measure Unfailed left (fun s h => ?_) h
  by_cases hlength : 5 ≤ s.client.length
  · exact .inl ((@TlsClient.mem_effects_iff docRoot request client s).mpr
      (received_of_length h hlength))
  right
  by_cases hready : s.client.length = 4 → (exchange docRoot request).answered s ≠ []
  · refine ⟨.client .success, _, rfl, exists_client h (Nat.lt_of_not_le hlength) hready,
      h.client_concat, ?_⟩
    simp only [left, List.length_append, List.length_singleton]
    omega
  · -- The client is in its read, and it is the server's turn.
    obtain ⟨hfour, hnone⟩ := Classical.not_imp.mp hready
    have htwo : s.server.length < 2 := Nat.lt_of_not_le (mt (answered_of_length h) hnone)
    refine ⟨.server { errorCode := .success, received := request, world }, _, ⟨rfl, rfl⟩,
      exists_server world h hfour htwo, h.server_concat rfl, ?_⟩
    simp only [left, List.length_append, List.length_singleton]
    omega

/-! ### Any run -/

/-- What holds of a client and a server at some point of a run. -/
structure Prints (client : TlsClient) (server : TlsServer) (docRoot versionString : Str)
    (s : Exchange.State ErrorCode Outcome) : Prop where
  /-- The operations that have ended are those that the programs had started. -/
  clientStarted : client.started s.client = trace (Client.next Client.tlsSteps) .resolve s.client
  serverStarted : (server.log docRoot s.server).started = trace (next docRoot) .handshake s.server
  /-- The server handles no other request. -/
  handled : (server.log docRoot s.server).handled <+: [.index versionString]
  printed : Client.Effect.response ∈ client.effects s.client →
    (server.log docRoot s.server).handled = [.index versionString] ∧
    ∃ outcome, Brings docRoot (.index versionString) s.server outcome ∧
      shown client docRoot (.index versionString) s =
        some (outcome.world.respond docRoot (.index versionString)).delivered ∧
      ∀ file, outcome.world.files (cStr (filePath docRoot "/".toList)) = .ok file →
        (outcome.world.respond docRoot (.index versionString)).delivered.body =
            (Body.file file).take (file.content.length % 2 ^ 16) ∧
          ((outcome.world.respond docRoot (.index versionString)).delivered.body = .file file ↔
            file.content.length < 2 ^ 16)

/-- **The client prints what the server finds.** In every run of either client against
either server, whatever fails: the server handles the request of the client and nothing
else, and what the client prints is the response to it, in the world in which the server
has read it, cut at the declared length: of the file that was opened, the first bytes, as
many as its size in sixteen bits, so all of it exactly if it is shorter than 64 KiB. While
nothing has failed, the client can come to print, in any world. -/
theorem https_prints (client : TlsClient) (server : TlsServer) (docRoot versionString : Str)
    (events : List (Exchange.Event ErrorCode Outcome)) (s : Exchange.State ErrorCode Outcome)
    (hrun : run (exchange docRoot (.index versionString)).step {} events = some s) :
    Prints client server docRoot versionString s ∧
      (Unfailed s → ∀ world, CanReach (exchange docRoot (.index versionString)).step
        (SucceedsIn world)
        (fun final => Client.Effect.response ∈ client.effects final.client) s) := by
  have hheard := heard_isPrefix hrun
  have hhandled := server.handled_eq hheard
  refine ⟨⟨client.started_eq _, server.started_eq _, hhandled ▸ hheard, fun hprinted => ?_⟩,
    fun h world => canReach_printed client world h⟩
  obtain ⟨hone, outcome, hbrings, hfirst⟩ :=
    exists_reply hrun ((client.mem_effects_iff s).mp hprinted)
  refine ⟨hhandled.trans hone, outcome, hbrings, ?_, fun file hopen => ?_⟩
  · rw [shown, if_pos hprinted, hfirst]
    rfl
  · have hbody : (outcome.world.respond docRoot (.index versionString)).delivered.body = _ :=
      body_delivered outcome.world rfl (show Accepted "/".toList by decide) hopen
    refine ⟨hbody, ?_⟩
    -- A number is its own remainder or greater.
    rw [hbody, Body.take_file_eq_iff, ← Nat.mod_eq_iff_lt (by decide)]
    have hle := Nat.mod_le file.content.length (2 ^ 16)
    exact ⟨fun hge => Nat.le_antisymm hle hge, fun heq => heq.ge⟩

/-- A file of three bytes is served, and printed. -/
theorem https_prints_small :
    ∃ s, run (exchange [] (.index [])).step {}
        [.client .success, .client .success, .client .success,
          .server ⟨.success, .fresh, .plain, .serving (.zeros 3 (by decide))⟩, .client .success,
          .server ⟨.success, .index [], .plain, .serving (.zeros 3 (by decide))⟩,
          .client .success] = some s ∧
      Client.Effect.response ∈ TlsClient.effects s.client .session ∧
      (TlsServer.log [] s.server .doSession).handled = [.index []] := by
  obtain ⟨s, hrun⟩ := Option.isSome_iff_exists.mp
    (show (run (exchange [] (.index [])).step {}
      [.client .success, .client .success, .client .success,
        .server ⟨.success, .fresh, .plain, .serving (.zeros 3 (by decide))⟩, .client .success,
        .server ⟨.success, .index [], .plain, .serving (.zeros 3 (by decide))⟩,
        .client .success]).isSome by decide)
  have hprinted : Client.Effect.response ∈ TlsClient.effects s.client .session := by
    obtain rfl := Option.some.inj hrun
    decide
  exact ⟨s, hrun, hprinted,
    ((https_prints .session .doSession [] [] _ s hrun).1.printed hprinted).1⟩

end Runs

end BoostProjects.Beast.Http
