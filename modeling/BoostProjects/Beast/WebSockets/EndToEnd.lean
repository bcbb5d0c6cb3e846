import BoostProjects.Beast.WebSockets.HandleSession
import BoostProjects.Library.Transition

/-!
# A WebSocket client and a blocking session

`SimpleClient`, `SslClient` and `AsyncSslClient` make the same calls in the same order:
resolve, connect, shake hands, write one message, read one, close the stream, and only
then print what has been read. Against a blocking session this is a conversation of a
message, its echo, and a closing frame from each side. The clients with TLS meet the
session with TLS, and `SimpleClient` the one without.

The frames on their way are not stored: what a side may read next goes on from what it
has read, among what the other one has handed to its stream. A call may return, or fail
at any point, and a write may be read by the other side before it returns. The read of
the session that takes the closing frame answers it, and only later throws.
-/

namespace BoostProjects.Beast.WebSockets.Sync

open Boost Cpp Transition

/-! ## The system -/

/-- What a side hands to its stream. -/
inductive Frame
  | message (message : Message)
  | close
  deriving DecidableEq, Repr

/-- The call that the client is in. -/
inductive Client
  | resolving
  | connecting
  /-- For the clients with TLS only. -/
  | tlsHandshaking
  | handshaking
  | writing
  | reading
  | closing (reply : Message)
  | printed (reply : Str)
  | failed
  deriving DecidableEq, Repr

/-- The TLS handshake has begun, or the client has failed, maybe after that. -/
def Client.tlsBegun : Client → Bool
  | .resolving | .connecting => false
  | _ => true

/-- The handshake of the WebSocket has begun, or the client has failed, maybe after that. -/
def Client.upgradeBegun : Client → Bool
  | .resolving | .connecting | .tlsHandshaking => false
  | _ => true

/-- A client and the session that has accepted it. -/
structure System where
  client : Client := .resolving
  /-- The frames that the client has handed to its stream. -/
  sent : List Frame := []
  server : Session
  /-- The session has read the closing frame of the client, and answered it. -/
  closed : Bool := false

/-- What can happen next, on either side. -/
inductive Event
  /-- The call of the client returns. -/
  | client
  | clientFails
  /-- The read of the session takes the closing frame and answers it. It goes on, to tear
  the connection down. -/
  | answers
  /-- The call of the session ends. -/
  | server (result : Result)
  deriving DecidableEq, Repr

namespace System

/-- The frames that the server has read. -/
def read (s : System) : List Frame :=
  s.server.received.map .message ++ if s.closed then [.close] else []

/-- The calls of the server that can end so. A read that has answered the closing frame
does not return: it throws `error::closed`, or what has gone wrong in tearing down. An
`accept` throws `error::closed` too, if the client goes without having asked for anything. -/
def Permits (s : System) : Result → Prop
  | .returned message =>
    match s.server.stage with
    | .handshaking => s.client.tlsBegun = true
    | .accepting => s.client.upgradeBegun = true
    | .reading => s.closed = false ∧ s.read ++ [.message message] <+: s.sent
    | .writing _ => True
    | .ended => False
  | .threw error =>
    s.server.stage ≠ .ended ∧ (error.1 = .closed →
      s.closed = true ∨ s.server.stage = .accepting ∧ s.client = .failed)
  | .threwOther _ => s.server.stage ≠ .ended

instance (s : System) (result : Result) : Decidable (s.Permits result) := by
  cases result with
  | returned message =>
    unfold Permits
    cases s.server.stage <;> infer_instance
  | threw error => exact inferInstanceAs (Decidable (_ ∧ _))
  | threwOther what => exact inferInstanceAs (Decidable (_ ≠ _))

/-- The closing frame is the next that the session reads. -/
def Answers (s : System) : Prop :=
  s.server.stage = .reading ∧ s.closed = false ∧ s.read ++ [.close] <+: s.sent

instance (s : System) : Decidable s.Answers := by unfold Answers; infer_instance

variable (label : Str) (text : StreamCode → Str) (tls : Bool) (hello : Message)

/-- What follows a call of the client that returns. The handshake needs the answer of the
session, whose own one is over by then. The read is of the first message that the server
has begun to write, which is the first that it has received; and the stream is closed when
the closing frame has been answered. -/
def clientReturns (s : System) : Option System :=
  match s.client with
  | .resolving => some { s with client := .connecting }
  | .connecting => some { s with client := if tls then .tlsHandshaking else .handshaking }
  | .tlsHandshaking => some { s with client := .handshaking }
  | .handshaking =>
    if s.server.stage = .handshaking then none
    else some { s with client := .writing, sent := s.sent ++ [.message hello] }
  | .writing => some { s with client := .reading }
  | .reading =>
    s.server.received.head?.map fun reply =>
      { s with client := .closing reply, sent := s.sent ++ [.close] }
  | .closing reply => if s.closed then some { s with client := .printed reply.bytes } else none
  | .printed _ | .failed => none

/-- One step of either side. -/
def step (s : System) : Event → Option System
  | .client => s.clientReturns tls hello
  | .clientFails =>
    match s.client with
    | .printed _ | .failed => none
    | _ => some { s with client := .failed }
  | .answers => if s.Answers then some { s with closed := true } else none
  | .server result =>
    if s.Permits result then some { s with server := s.server.step label text result } else none

/-- The client has called nothing yet. -/
def started : System := { server := Sync.started tls }

variable {label text tls hello} {s next : System} {event : Event}

/-! ## What holds at every point -/

/-- What the client has handed to its stream. -/
def frames (hello : Message) : Client → List Frame
  | .writing | .reading => [.message hello]
  | .closing _ | .printed _ => [.message hello, .close]
  | _ => []

/-- What holds of the two sides, however their calls end. -/
structure Conversation (hello : Message) (s : System) : Prop where
  echoes : Echoes s.server
  sent : s.client ≠ .failed → s.sent = frames hello s.client
  all : s.sent <+: [.message hello, .close]
  read : s.read <+: s.sent
  closed : s.closed = true →
    (s.server.stage = .reading ∨ s.server.stage = .ended) ∧ s.server.sent = [hello]
  cerr : s.server.stage ≠ .ended → s.server.cerr = []
  closing : ∀ reply, s.client = .closing reply → s.server.received = [hello] ∧ reply = hello
  printed : ∀ reply, s.client = .printed reply → s.closed = true ∧ reply = hello.bytes

theorem conversation_started : Conversation hello (started tls) where
  echoes := echoes_started tls
  sent _ := rfl
  all := List.nil_prefix
  read := by cases tls <;> exact List.nil_prefix
  closed h := by cases h
  cerr _ := rfl
  closing reply h := by cases h
  printed reply h := by cases h

/-- There is one message to be read. -/
theorem eq_of_isPrefix {received : List Message}
    (h : received.map Frame.message <+: [.message hello, .close]) :
    received = [] ∨ received = [hello] := by
  match received, h with
  | [], _ => exact .inl rfl
  | [message], h =>
    obtain ⟨heq, -⟩ := List.cons_prefix_cons.mp h
    exact .inr (by rw [Frame.message.inj heq])
  | first :: second :: rest, h =>
    obtain ⟨-, hread⟩ := List.cons_prefix_cons.mp h
    obtain ⟨heq, -⟩ := List.cons_prefix_cons.mp hread
    cases heq

theorem map_isPrefix_read (s : System) : s.server.received.map Frame.message <+: s.read :=
  List.prefix_append _ _

/-- The server has received nothing but the message of the client. -/
theorem Conversation.received (h : Conversation hello s) :
    s.server.received = [] ∨ s.server.received = [hello] :=
  eq_of_isPrefix ((map_isPrefix_read s).trans (h.read.trans h.all))

/-- The message has been read before the closing frame. -/
theorem received_of_isPrefix (h : s.server.received.map Frame.message ++ [.close] <+:
    [.message hello, .close]) : s.server.received = [hello] := by
  refine (eq_of_isPrefix ((List.prefix_append _ _).trans h)).resolve_left fun hnone => ?_
  rw [hnone] at h
  obtain ⟨heq, -⟩ := List.cons_prefix_cons.mp h
  cases heq

theorem Conversation.received_of_closed (h : Conversation hello s) (hclosed : s.closed = true) :
    s.server.received = [hello] := by
  have hread := h.read.trans h.all
  rw [System.read, hclosed, if_pos rfl] at hread
  exact received_of_isPrefix hread

/-- The client goes on, and hands `more` to its stream. -/
theorem Conversation.client (h : Conversation hello s) (client : Client) (more : List Frame)
    (hsent : client ≠ .failed → s.sent ++ more = frames hello client)
    (hall : s.sent ++ more <+: [.message hello, .close])
    (hclosing : ∀ reply, client = .closing reply → s.server.received = [hello] ∧ reply = hello)
    (hprinted : ∀ reply, client = .printed reply → s.closed = true ∧ reply = hello.bytes) :
    Conversation hello { s with client, sent := s.sent ++ more } where
  echoes := h.echoes
  sent := hsent
  all := hall
  read := h.read.trans (List.prefix_append _ _)
  closed := h.closed
  cerr := h.cerr
  closing := hclosing
  printed := hprinted

/-- The client goes on, and hands nothing more to its stream. -/
theorem Conversation.goes (h : Conversation hello s) (client : Client)
    (hframes : client ≠ .failed → frames hello s.client = frames hello client)
    (hclient : s.client ≠ .failed)
    (hclosing : ∀ reply, client = .closing reply → s.server.received = [hello] ∧ reply = hello)
    (hprinted : ∀ reply, client = .printed reply → s.closed = true ∧ reply = hello.bytes) :
    Conversation hello { s with client } := by
  have hnext := h.client client []
    (fun hfailed => by rw [List.append_nil, h.sent hclient, hframes hfailed])
    (by rw [List.append_nil]; exact h.all) hclosing hprinted
  rwa [List.append_nil] at hnext

theorem Conversation.clientReturns (h : Conversation hello s)
    (hstep : s.clientReturns tls hello = some next) : Conversation hello next := by
  cases hclient : s.client with
  | printed reply | failed =>
    rw [System.clientReturns, hclient] at hstep
    cases hstep
  | resolving =>
    rw [System.clientReturns, hclient] at hstep
    obtain rfl := Option.some.inj hstep
    exact h.goes .connecting (fun _ => by rw [hclient]; rfl) (by simp [hclient]) nofun nofun
  | connecting =>
    rw [System.clientReturns, hclient] at hstep
    obtain rfl := Option.some.inj hstep
    cases tls with
    | true =>
      exact h.goes .tlsHandshaking (fun _ => by rw [hclient]; rfl) (by simp [hclient]) nofun nofun
    | false =>
      exact h.goes .handshaking (fun _ => by rw [hclient]; rfl) (by simp [hclient]) nofun nofun
  | tlsHandshaking =>
    rw [System.clientReturns, hclient] at hstep
    obtain rfl := Option.some.inj hstep
    exact h.goes .handshaking (fun _ => by rw [hclient]; rfl) (by simp [hclient]) nofun nofun
  | handshaking =>
    rw [System.clientReturns, hclient] at hstep
    obtain ⟨-, hstep⟩ := Option.ite_none_left_eq_some.mp hstep
    obtain rfl := Option.some.inj hstep
    -- The handshake is over, and the client writes its message.
    have hsent : s.sent = [] := by rw [h.sent (by simp [hclient]), hclient]; rfl
    refine h.client .writing [.message hello] (fun _ => by rw [hsent]; rfl) ?_ nofun nofun
    rw [hsent]
    exact ⟨[.close], rfl⟩
  | writing =>
    rw [System.clientReturns, hclient] at hstep
    obtain rfl := Option.some.inj hstep
    exact h.goes .reading (fun _ => by rw [hclient]; rfl) (by simp [hclient]) nofun nofun
  | reading =>
    rw [System.clientReturns, hclient] at hstep
    obtain ⟨reply, hreply, rfl⟩ := Option.map_eq_some_iff.mp hstep
    have hsent : s.sent = [.message hello] := by rw [h.sent (by simp [hclient]), hclient]; rfl
    -- What is read is what the server has received, and that can only be the message.
    have hreceived : s.server.received = [hello] := by
      refine h.received.resolve_left fun hnone => ?_
      rw [hnone] at hreply
      cases hreply
    rw [hreceived] at hreply
    obtain rfl := Option.some.inj hreply
    refine h.client (.closing hello) [.close] (fun _ => by rw [hsent]; rfl) ?_ ?_ nofun
    · rw [hsent]
      exact List.prefix_rfl
    · rintro reply ⟨⟩
      exact ⟨hreceived, rfl⟩
  | closing reply =>
    rw [System.clientReturns, hclient] at hstep
    obtain ⟨hclosed, hstep⟩ := Option.ite_none_right_eq_some.mp hstep
    obtain rfl := Option.some.inj hstep
    obtain ⟨-, rfl⟩ := h.closing reply hclient
    refine h.goes (.printed reply.bytes) (fun _ => by rw [hclient]; rfl) (by simp [hclient])
      nofun ?_
    rintro text ⟨⟩
    exact ⟨hclosed, rfl⟩

/-- What a call of the server reads. -/
theorem read_step {result : Result} (h : Conversation hello s) (hpermits : s.Permits result) :
    read { s with server := s.server.step label text result } <+: s.sent := by
  cases result with
  | returned message =>
    rw [step_returned]
    cases hstage : s.server.stage with
    | reading =>
      simp only [Permits, hstage] at hpermits
      obtain ⟨hopen, hnext⟩ := hpermits
      rw [System.read, hopen] at hnext
      simpa [System.read, Session.proceed, hstage, hopen] using hnext
    | handshaking | accepting | writing | ended =>
      simpa [System.read, Session.proceed, hstage] using h.read
  | threw error =>
    rw [step_of_failed rfl hpermits.1]
    exact h.read
  | threwOther what =>
    rw [step_of_failed rfl hpermits]
    exact h.read

/-- After the closing frame the read of the session can only throw. -/
theorem step_of_closed {result : Result} (h : Conversation hello s) (hclosed : s.closed = true)
    (hpermits : s.Permits result) :
    (s.server.step label text result).stage = .ended ∧
      (s.server.step label text result).sent = s.server.sent := by
  cases result with
  | returned message =>
    -- A read that has answered the closing frame does not return.
    obtain hreading | hover := (h.closed hclosed).1
    · simp only [Permits, hreading, hclosed, Bool.true_eq_false, false_and] at hpermits
    · simp only [Permits, hover] at hpermits
  | threw error =>
    rw [step_of_failed rfl hpermits.1]
    exact ⟨rfl, rfl⟩
  | threwOther what =>
    rw [step_of_failed rfl hpermits]
    exact ⟨rfl, rfl⟩

/-- Nothing is printed before the session is over. -/
theorem cerr_step {result : Result} (h : Conversation hello s)
    (hover : (s.server.step label text result).stage ≠ .ended) (hpermits : s.Permits result) :
    (s.server.step label text result).cerr = [] := by
  cases result with
  | returned message =>
    rw [step_returned] at hover ⊢
    have hbefore : s.server.stage ≠ .ended := mt (over_proceed_iff message).mpr hover
    have hcerr : (s.server.proceed message).cerr = s.server.cerr := by
      cases hstage : s.server.stage <;> simp [Session.proceed, hstage]
    rw [hcerr]
    exact h.cerr hbefore
  | threw error =>
    rw [step_of_failed rfl hpermits.1] at hover
    exact absurd rfl hover
  | threwOther what =>
    rw [step_of_failed rfl hpermits] at hover
    exact absurd rfl hover

theorem received_isPrefix_step {result : Result} (hpermits : s.Permits result) :
    s.server.received <+: (s.server.step label text result).received := by
  cases result with
  | returned message =>
    rw [step_returned]
    cases hstage : s.server.stage <;> simp [Session.proceed, hstage]
  | threw error =>
    rw [step_of_failed rfl hpermits.1]
  | threwOther what =>
    rw [step_of_failed rfl hpermits]

theorem Conversation.server {result : Result} (h : Conversation hello s)
    (hpermits : s.Permits result) :
    Conversation hello { s with server := s.server.step label text result } where
  echoes := h.echoes.step result
  sent := h.sent
  all := h.all
  read := read_step h hpermits
  closed := by
    intro hclosed
    obtain ⟨hover, hsent⟩ := @step_of_closed label text _ _ _ h hclosed hpermits
    exact ⟨.inr hover, hsent.trans (h.closed hclosed).2⟩
  cerr hover := cerr_step h hover hpermits
  closing := by
    intro reply hclient
    obtain ⟨hreceived, hreply⟩ := h.closing reply hclient
    refine ⟨?_, hreply⟩
    have hmessages := (map_isPrefix_read _).trans
      ((@read_step label text _ _ _ h hpermits).trans h.all)
    have hgrows := @received_isPrefix_step label text _ _ hpermits
    refine (eq_of_isPrefix hmessages).resolve_left fun hnone => ?_
    have hnone : (s.server.step label text result).received = [] := hnone
    rw [hreceived, hnone] at hgrows
    exact absurd (List.prefix_nil.mp hgrows) (List.cons_ne_nil _ _)
  printed := h.printed

/-- The closing frame is answered behind the message and its echo. -/
theorem Conversation.answers (h : Conversation hello s) (hanswers : s.Answers) :
    Conversation hello { s with closed := true } := by
  obtain ⟨hreading, hopen, hnext⟩ := hanswers
  rw [System.read, hopen] at hnext
  have hread : s.server.received.map Frame.message ++ [.close] <+: s.sent := by simpa using hnext
  have hreceived := received_of_isPrefix (hread.trans h.all)
  refine ⟨h.echoes, h.sent, h.all, ?_, fun _ => ⟨.inl hreading, ?_⟩, h.cerr, h.closing, ?_⟩
  · rw [System.read, if_pos rfl]
    exact hread
  · cases h.echoes with
    | opening hwhere => simp [hreading] at hwhere
    | accepted waiting _ hwhere hechoed =>
      obtain rfl : waiting = [] := by simpa [hreading] using hwhere
      rwa [List.append_nil, hreceived, eq_comm] at hechoed
  · exact fun reply hclient => ⟨rfl, (h.printed reply hclient).2⟩

theorem Conversation.step (h : Conversation hello s)
    (hstep : s.step label text tls hello event = some next) : Conversation hello next := by
  cases event with
  | client => exact h.clientReturns hstep
  | clientFails =>
    have hfails : next = { s with client := .failed } := by
      cases hclient : s.client <;> simp only [System.step, hclient, reduceCtorEq] at hstep <;>
        exact (Option.some.inj hstep).symm
    rw [hfails]
    refine ⟨h.echoes, fun hfailed => absurd rfl hfailed, h.all, h.read, h.closed, h.cerr, ?_, ?_⟩
    · exact nofun
    · exact nofun
  | answers =>
    obtain ⟨hanswers, hstep⟩ := Option.ite_none_right_eq_some.mp hstep
    obtain rfl := Option.some.inj hstep
    exact h.answers hanswers
  | server result =>
    obtain ⟨hpermits, hstep⟩ := Option.ite_none_right_eq_some.mp hstep
    obtain rfl := Option.some.inj hstep
    exact h.server hpermits

/-! ## The conversation can go on to its end -/

/-- Nothing has failed but the read that says that the stream is closed. -/
def Unfailed (s : System) : Prop :=
  s.client ≠ .failed ∧ (s.server.stage = .ended → s.closed = true ∧ s.server.cerr = [])

/-- Both sides have come to their end, and the session has printed no error. -/
def Over (hello : Message) (s : System) : Prop :=
  s.client = .printed hello.bytes ∧ s.server.stage = .ended ∧ s.server.cerr = []

/-- The calls that the client has still to make. -/
def clientCalls : Client → ℕ
  | .resolving => 7
  | .connecting => 6
  | .tlsHandshaking => 5
  | .handshaking => 4
  | .writing => 3
  | .reading => 2
  | .closing _ => 1
  | .printed _ | .failed => 0

/-- The steps that the session has still to take. -/
def serverSteps (s : System) : ℕ :=
  match s.server.stage with
  | .handshaking => 6
  | .accepting => 5
  | .reading => if s.closed then 1 else if s.server.received = [] then 4 else 2
  | .writing _ => 3
  | .ended => 0

/-- The events in which nothing fails. -/
def IsEvent : Event → Prop
  | .client | .answers => True
  | .clientFails => False
  | .server (.returned _) => True
  | .server (.threw error) => error.1 = .closed
  | .server (.threwOther _) => False

/-- The session need not wait for the client. -/
def Ready (s : System) : Prop :=
  match s.server.stage with
  | .handshaking => s.client.tlsBegun = true
  | .accepting => s.client.upgradeBegun = true
  | .reading => s.closed = true ∨ s.server.received = [] ∧ s.sent ≠ [] ∨
      ∃ reply, s.client = .closing reply
  | .writing _ => True
  | .ended => False

/-- The next step of a session that need not wait. -/
theorem Conversation.exists_server (h : Conversation hello s) (hready : s.Ready) :
    ∃ event next, IsEvent event ∧ s.step label text tls hello event = some next ∧
      next.client = s.client ∧
      (next.server.stage = .ended → next.closed = true ∧ next.server.cerr = []) ∧
      next.serverSteps < s.serverSteps := by
  -- A call that returns ends nothing.
  have hreturns : ∀ message, s.Permits (.returned message) → s.server.stage ≠ .ended →
      serverSteps { s with server := s.server.proceed message } < s.serverSteps →
      ∃ event next, IsEvent event ∧ s.step label text tls hello event = some next ∧
        next.client = s.client ∧
        (next.server.stage = .ended → next.closed = true ∧ next.server.cerr = []) ∧
        next.serverSteps < s.serverSteps := by
    intro message hpermits hover hlt
    refine ⟨.server (.returned message), _, trivial, if_pos hpermits, rfl, ?_, ?_⟩
    · intro hnext
      have hnext : (s.server.step label text (.returned message)).stage = .ended := hnext
      rw [step_returned, over_proceed_iff] at hnext
      exact absurd hnext hover
    · rwa [step_returned]
  cases hstage : s.server.stage with
  | ended => simp only [Ready, hstage] at hready
  | handshaking =>
    have hpermits : s.Permits (.returned hello) := by
      simpa only [Permits, Ready, hstage] using hready
    refine hreturns hello hpermits (by simp [hstage]) ?_
    simp [serverSteps, Session.proceed, hstage]
  | accepting =>
    have hpermits : s.Permits (.returned hello) := by
      simpa only [Permits, Ready, hstage] using hready
    refine hreturns hello hpermits (by simp [hstage]) ?_
    simp only [serverSteps, Session.proceed, hstage]
    split_ifs <;> omega
  | writing reply =>
    have hpermits : s.Permits (.returned hello) := by simp only [Permits, hstage]
    refine hreturns hello hpermits (by simp [hstage]) ?_
    -- The message that is being echoed has been received.
    have hne : s.server.received ≠ [] := by
      cases h.echoes with
      | opening hwhere => simp [hstage] at hwhere
      | accepted waiting _ hwhere hreceived =>
        obtain rfl : waiting = [reply] := by simpa [hstage] using hwhere
        rw [hreceived]
        simp
    simp only [serverSteps, Session.proceed, hstage, hne, if_false]
    split_ifs <;> omega
  | reading =>
    have hover : s.server.stage ≠ .ended := by simp [hstage]
    simp only [Ready, hstage] at hready
    by_cases hclosed : s.closed = true
    -- The stream is closed, and the read may end with that.
    · have hpermits : s.Permits (.threw ⟨.closed, rfl⟩) := ⟨hover, fun _ => .inl hclosed⟩
      refine ⟨.server (.threw ⟨.closed, rfl⟩), _, rfl, if_pos hpermits, rfl, ?_, ?_⟩
      · rw [step_of_failed rfl hover]
        exact fun _ => ⟨hclosed, by rw [h.cerr hover]; rfl⟩
      · rw [step_of_failed rfl hover]
        simp [serverSteps, hstage, hclosed]
    have hopen : s.closed = false := Bool.eq_false_iff.mpr hclosed
    obtain ⟨hreceived, hsent⟩ | ⟨reply, hclient⟩ := hready.resolve_left hclosed
    -- The message is on its way, for it is the first that the client sends.
    · refine hreturns hello ?_ hover ?_
      · simp only [Permits, hstage]
        refine ⟨hopen, ?_⟩
        obtain ⟨rest, hrest⟩ := h.all
        cases hfirst : s.sent with
        | nil => exact absurd hfirst hsent
        | cons first more =>
          rw [hfirst] at hrest
          obtain ⟨rfl, -⟩ := List.cons.inj hrest
          rw [System.read, hreceived, hopen]
          exact ⟨more, rfl⟩
      · simp [serverSteps, Session.proceed, hstage, hreceived, hopen]
    -- The closing frame comes next.
    · obtain ⟨hreceived, -⟩ := h.closing reply hclient
      have hanswers : s.Answers := by
        refine ⟨hstage, hopen, ?_⟩
        rw [System.read, hreceived, hopen, h.sent (by simp [hclient]), hclient]
        exact List.prefix_rfl
      refine ⟨.answers, _, trivial, if_pos hanswers, rfl, fun hnext => absurd hnext hover, ?_⟩
      simp [serverSteps, hstage, hreceived, hopen]

/-- Where the session waits for the client, the call of the client returns. -/
theorem Conversation.exists_client (h : Conversation hello s) (hunfailed : Unfailed s)
    (hprinted : ∀ reply, s.client ≠ .printed reply) (hwaits : ¬ s.Ready) :
    ∃ next, s.clientReturns tls hello = some next ∧ next.server = s.server ∧
      next.closed = s.closed ∧ next.client ≠ .failed ∧
      clientCalls next.client < clientCalls s.client := by
  have hsent := h.sent hunfailed.1
  cases hclient : s.client with
  | failed => exact absurd hclient hunfailed.1
  | printed reply => exact absurd hclient (hprinted reply)
  | resolving | tlsHandshaking | writing =>
    rw [System.clientReturns, hclient]
    exact ⟨_, rfl, rfl, rfl, nofun, by simp [clientCalls]⟩
  | connecting =>
    rw [System.clientReturns, hclient]
    refine ⟨_, rfl, rfl, rfl, ?_, ?_⟩
    · cases tls <;> exact nofun
    · cases tls <;> simp [clientCalls]
  | handshaking =>
    have hserver : s.server.stage ≠ .handshaking := by
      intro hstage
      simp [Ready, hstage, hclient, Client.tlsBegun] at hwaits
    rw [System.clientReturns, hclient]
    exact ⟨_, if_neg hserver, rfl, rfl, nofun, by simp [clientCalls]⟩
  | reading =>
    rw [hclient] at hsent
    have hone : s.sent = [.message hello] := hsent
    have hreceived : s.server.received = [hello] := by
      refine h.received.resolve_left fun hnone => ?_
      cases hstage : s.server.stage with
      | ended =>
        -- The stream cannot have been closed yet.
        have hread := h.received_of_closed (hunfailed.2 hstage).1
        rw [hnone] at hread
        cases hread
      | handshaking => simp [Ready, hstage, hclient, Client.tlsBegun] at hwaits
      | accepting => simp [Ready, hstage, hclient, Client.upgradeBegun] at hwaits
      | reading => simp [Ready, hstage, hnone, hone] at hwaits
      | writing reply => simp [Ready, hstage] at hwaits
    rw [System.clientReturns, hclient, hreceived]
    exact ⟨_, rfl, rfl, rfl, nofun, by simp [clientCalls]⟩
  | closing reply =>
    have hclosed : s.closed = true := by
      cases hstage : s.server.stage with
      | ended => exact (hunfailed.2 hstage).1
      | handshaking => simp [Ready, hstage, hclient, Client.tlsBegun] at hwaits
      | accepting => simp [Ready, hstage, hclient, Client.upgradeBegun] at hwaits
      | reading => simp [Ready, hstage, hclient] at hwaits
      | writing reply => simp [Ready, hstage] at hwaits
    rw [System.clientReturns, hclient]
    exact ⟨_, if_pos hclosed, rfl, rfl, nofun, by simp [clientCalls]⟩

/-- Once the client has printed, the session is over or need not wait. -/
theorem Conversation.over_of_printed (h : Conversation hello s) (hunfailed : Unfailed s)
    {reply : Str} (hprinted : s.client = .printed reply) (hwaits : ¬ s.Ready) : Over hello s := by
  obtain ⟨hclosed, rfl⟩ := h.printed reply hprinted
  obtain hreading | hover := (h.closed hclosed).1
  · simp [Ready, hreading, hclosed] at hwaits
  · exact ⟨hprinted, hover, (hunfailed.2 hover).2⟩

/-- From wherever nothing has failed, the echo can be printed and the session ended. -/
theorem Conversation.canReach_over (h : Conversation hello s) (hunfailed : Unfailed s) :
    CanReach (System.step label text tls hello) IsEvent (Over hello) s := by
  have hprogress : ∀ s : System, Conversation hello s ∧ Unfailed s →
      Over hello s ∨ ∃ event next, IsEvent event ∧
        s.step label text tls hello event = some next ∧ (Conversation hello next ∧ Unfailed next) ∧
        clientCalls next.client + next.serverSteps < clientCalls s.client + s.serverSteps := by
    rintro s ⟨h, hunfailed⟩
    -- The session goes first, and the client where the session has to wait for it.
    by_cases hready : s.Ready
    · obtain ⟨event, next, hevent, hstep, hclient, hover, hlt⟩ :=
        @Conversation.exists_server label text tls hello s h hready
      refine .inr ⟨event, next, hevent, hstep, ⟨h.step hstep, ?_, hover⟩, ?_⟩
      · rw [hclient]
        exact hunfailed.1
      · rw [hclient]
        exact Nat.add_lt_add_left hlt _
    by_cases hprinted : ∃ reply, s.client = .printed reply
    · obtain ⟨reply, hreply⟩ := hprinted
      exact .inl (h.over_of_printed hunfailed hreply hready)
    · obtain ⟨next, hstep, hsame, hclosed, hnext, hlt⟩ :=
        @Conversation.exists_client tls hello s h hunfailed (not_exists.mp hprinted) hready
      refine .inr ⟨.client, next, trivial, hstep, ⟨h.clientReturns hstep, hnext, ?_⟩, ?_⟩
      · rw [hsame, hclosed]
        exact hunfailed.2
      · have hsteps : next.serverSteps = s.serverSteps := by
          rw [serverSteps, serverSteps, hsame, hclosed]
        rw [hsteps]
        exact Nat.add_lt_add_right hlt _
  exact CanReach.of_measure _ (fun s => clientCalls s.client + s.serverSteps) hprogress
    ⟨h, hunfailed⟩

end System

/-- **A client prints its own message.** In every schedule of a client and a blocking
session, with any failures on either side: what the client prints is the message that it
has sent, and by then the session has received and echoed just that message and answered
the closing frame, so that it is in its last read or has ended. A session that has not
ended has printed no error, and it receives nothing but the message. From every state in
which nothing has failed the client can still print and the session end without a word. -/
theorem client_prints_echo (label : Str) (text : StreamCode → Str) (tls : Bool) (hello : Message)
    (events : List Event) (s : System)
    (hrun : Transition.run (System.step label text tls hello) (System.started tls) events =
      some s) :
    (∀ reply, s.client = .printed reply →
      reply = hello.bytes ∧ s.closed = true ∧ s.server.received = [hello] ∧
        s.server.sent = [hello] ∧ (s.server.stage = .reading ∨ s.server.stage = .ended)) ∧
    (s.server.stage ≠ .ended → s.server.cerr = []) ∧
    s.server.received <+: [hello] ∧ s.server.sent <+: s.server.received ∧
    (System.Unfailed s →
      CanReach (System.step label text tls hello) System.IsEvent (System.Over hello) s) := by
  have h : System.Conversation hello s :=
    run_invariant (System.Conversation hello) (fun _ _ _ hstate hstep => hstate.step hstep) hrun
      System.conversation_started
  refine ⟨fun reply hclient => ?_, h.cerr, ?_, ?_, fun hunfailed => h.canReach_over hunfailed⟩
  · obtain ⟨hclosed, hreply⟩ := h.printed reply hclient
    obtain ⟨hwhere, hsent⟩ := h.closed hclosed
    exact ⟨hreply, hclosed, h.received_of_closed hclosed, hsent, hwhere⟩
  · obtain hnone | hone := h.received
    · rw [hnone]
      exact List.nil_prefix
    · rw [hone]
  · cases h.echoes with
    | opening _ hreceived hsent =>
      rw [hsent]
      exact List.nil_prefix
    | accepted waiting _ _ hreceived =>
      rw [hreceived]
      exact List.prefix_append _ _

/-- The message of `SimpleClient`. -/
def clientHello : Message := { text := true, bytes := "CLIENT HELLO".toList }

/-- A conversation from its beginning to its end: the server reads the message before the
write of the client returns, and the client prints before the session ends, which it does
with an error of the TCP connection. -/
def wholeConversation : List Event :=
  [.client, .client, .server (.returned {}), .client, .server (.returned clientHello), .client,
    .client, .server (.returned {}), .answers, .client, .server (.threw ⟨.code (.other 104), rfl⟩)]

theorem client_prints_echo_hello :
    ∃ s, Transition.run (System.step [] (fun _ => []) false clientHello) (System.started false)
        wholeConversation = some s ∧ s.client = .printed clientHello.bytes ∧
      s.server.received = [clientHello] ∧ s.server.stage = .ended := by
  obtain ⟨s, hrun, hends⟩ := Option.map_eq_some_iff.mp
    (show (Transition.run (System.step [] (fun _ => []) false clientHello) (System.started false)
      wholeConversation).map (fun s => (s.client, s.server.stage)) =
        some (.printed clientHello.bytes, .ended) by decide)
  obtain ⟨hclient, hstage⟩ := Prod.mk.inj hends
  have hprints := (client_prints_echo [] (fun _ => []) false clientHello _ s hrun).1 _ hclient
  exact ⟨s, hrun, hclient, hprints.2.2.1, hstage⟩

end BoostProjects.Beast.WebSockets.Sync
