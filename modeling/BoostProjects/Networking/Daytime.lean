import BoostProjects.Boost.Completion
import BoostProjects.Cpp.Str
import BoostProjects.Library.Transition

/-!
# The daytime servers and their clients

`Networking::server` and `TcpDaytimeServer::runServer` write the time to one connection
after the other, and close it; `Networking::client` and `TcpDaytimeServer::runClient`
print what they read until the end of the stream. Both servers ignore the error of a
write. The second one asks for the endpoint of its client first, and that throws when the
client has gone: then the server ends (`daytime_prints`).

Both clients connect to the port of the service `daytime`, where `runServer` listens. The
other server listens on 52525, and has the clients of somebody else; what is said of it
holds of clients that read in the same way.

A client that reads to the end does not see whether the time was cut.
-/

namespace BoostProjects.Networking.Daytime

open Boost Cpp Transition

/-! ## A connection -/

/-- Where a client is: in `read_some`, behind its loop, or in its `catch`; or it has gone
without a word. -/
inductive Client
  | reading
  | done
  | failed (error : Failure)
  | gone

/-- The client has left before the server has closed the connection. -/
def Client.hasLeft : Client → Bool
  | .failed _ | .gone => true
  | .reading | .done => false

/-- A connection: the time that the server has taken for it, what it has to write and how
much of it has been taken, whether the server has closed it, and the client. -/
structure Connection where
  time : Option ℕ := none
  message : Str := []
  written : ℕ := 0
  isClosed : Bool := false
  printed : Str := []
  client : Client := .reading

/-- A connection that has been accepted. -/
def Connection.fresh : Connection := {}

/-- How a read of the client ends, or that the client goes. -/
inductive ClientEvent
  | read (n : ℕ)
  | eof
  | fails (error : Failure)
  /-- The process ends, and the connection with it. -/
  | leaves

/-- `buf.size()` -/
def bufferSize : ℕ := 128

/-- `client`, and `runClient` -/
def Connection.clientStep (conn : Connection) : ClientEvent → Option Connection
  | .read n =>
    match conn.client with
    | .reading =>
      if 0 < n ∧ n ≤ bufferSize ∧ conn.printed.length + n ≤ conn.written then
        some { conn with
          printed := conn.printed ++ (conn.message.drop conn.printed.length).take n }
      else none
    | _ => none
  | .eof =>
    match conn.client with
    | .reading =>
      if conn.isClosed = true ∧ conn.printed.length = conn.written then
        some { conn with client := .done }
      else none
    | _ => none
  | .fails error =>
    match conn.client with
    | .reading => if error.1 = eof then none else some { conn with client := .failed error }
    | _ => none
  | .leaves =>
    match conn.client with
    | .reading => some { conn with client := .gone }
    | _ => none

/-! ## The servers -/

/-- Where a server is in its loop, or the error that has ended it. -/
inductive Stage
  | accepting
  | naming
  | composing
  | writing
  | ended (error : Failure)

/-- A server, and its connections, the last one first. -/
structure System where
  stage : Stage := .accepting
  connections : List Connection := []

/-- What a server does, or one of its clients. -/
inductive Event
  | accepted
  | acceptFails (error : Failure)
  | named
  /-- The client has gone when the server asks for its endpoint. -/
  | nameFails (error : Failure)
  /-- The time is taken. -/
  | composed (now : ℕ)
  | wrote (n : ℕ)
  /-- The write returns, with everything written or with an error. -/
  | writeReturns (ok : Bool)
  | client (i : ℕ) (event : ClientEvent)

/-- The connection that the server has accepted last. -/
def System.onCurrent (s : System) (stage : Stage) (f : Connection → Option Connection) :
    Option System :=
  match s.connections with
  | conn :: rest => (f conn).map fun conn' => { stage, connections := conn' :: rest }
  | [] => none

/-- A server that asks for the endpoint of its client, or does not, and its clients;
`daytime` is `make_daytime_string` at a time. -/
def System.step (names : Bool) (daytime : ℕ → Str) (s : System) : Event → Option System
  | .accepted =>
    match s.stage with
    | .accepting =>
      some { stage := if names then .naming else .composing
             connections := .fresh :: s.connections }
    | _ => none
  | .acceptFails error =>
    match s.stage with
    | .accepting => some { s with stage := .ended error }
    | _ => none
  | .named =>
    match s.stage with
    | .naming => some { s with stage := .composing }
    | _ => none
  | .nameFails error =>
    match s.stage with
    -- The socket is closed on the way to the `catch`.
    | .naming =>
      s.onCurrent (.ended error) fun conn =>
        if conn.client.hasLeft = true then some { conn with isClosed := true } else none
    | _ => none
  | .composed now =>
    match s.stage with
    | .composing =>
      s.onCurrent .writing fun conn =>
        some { conn with time := some now, message := daytime now, written := 0 }
    | _ => none
  | .wrote n =>
    match s.stage with
    | .writing =>
      s.onCurrent .writing fun conn =>
        if conn.written + n ≤ conn.message.length then
          some { conn with written := conn.written + n }
        else none
    | _ => none
  | .writeReturns ok =>
    match s.stage with
    | .writing =>
      s.onCurrent .accepting fun conn =>
        if ok = true → conn.written = conn.message.length then some { conn with isClosed := true }
        else none
    | _ => none
  | .client i event =>
    s.connections[i]?.bind fun conn =>
      (conn.clientStep event).map fun conn' =>
        { s with connections := s.connections.set i conn' }

/-- `Networking::server` -/
def server : (ℕ → Str) → System → Event → Option System := System.step false

/-- `TcpDaytimeServer::runServer` -/
def runServer : (ℕ → Str) → System → Event → Option System := System.step true

/-! ## What a client gets -/

/-- The text of the time that has been taken, if one has. -/
def textOf (daytime : ℕ → Str) (time : Option ℕ) : Str := time.elim [] daytime

/-- The client has the first bytes of what has been written to it, and that is the time
that was taken for it. -/
structure Connection.Faithful (daytime : ℕ → Str) (conn : Connection) : Prop where
  message : conn.message = textOf daytime conn.time
  written : conn.written ≤ conn.message.length
  printed : conn.printed <+: conn.message.take conn.written
  done : conn.client = .done →
    conn.isClosed = true ∧ conn.printed = conn.message.take conn.written

variable {names : Bool} {daytime : ℕ → Str} {s next : System} {conn conn' : Connection}

theorem read_isPrefix {printed message : Str} {n written : ℕ}
    (h : printed <+: message.take written) (hle : printed.length + n ≤ written) :
    printed ++ (message.drop printed.length).take n <+: message.take written := by
  have hprinted : message.take printed.length = printed := by
    have htake := List.prefix_iff_eq_take.mp h
    rw [List.take_take, Nat.min_eq_left (by omega)] at htake
    exact htake.symm
  have hmore : printed ++ (message.drop printed.length).take n =
      message.take (printed.length + n) := by
    rw [List.take_add, hprinted]
  rw [hmore]
  exact List.take_prefix_take_left hle

/-- What a step of a client can do. -/
structure ClientMoves (daytime : ℕ → Str) (conn conn' : Connection) : Prop where
  message : conn'.message = conn.message
  written : conn'.written = conn.written
  isClosed : conn'.isClosed = conn.isClosed
  faithful : conn.Faithful daytime → conn'.Faithful daytime

theorem clientMoves_of_step {event : ClientEvent} (h : conn.clientStep event = some conn') :
    ClientMoves daytime conn conn' := by
  cases hclient : conn.client with
  | reading =>
    cases event with
    | read n =>
      simp only [Connection.clientStep, hclient] at h
      obtain ⟨⟨-, -, hle⟩, h⟩ := Option.ite_none_right_eq_some.mp h
      obtain rfl := Option.some.inj h
      refine ⟨rfl, rfl, rfl, fun hconn => ⟨hconn.message, hconn.written, ?_, fun hdone => ?_⟩⟩
      · exact read_isPrefix hconn.printed hle
      · cases hdone
    | eof =>
      simp only [Connection.clientStep, hclient] at h
      obtain ⟨⟨hclosed, hlength⟩, h⟩ := Option.ite_none_right_eq_some.mp h
      obtain rfl := Option.some.inj h
      refine ⟨rfl, rfl, rfl, fun hconn =>
        ⟨hconn.message, hconn.written, hconn.printed, fun _ => ?_⟩⟩
      -- A prefix as long as the whole is the whole.
      refine ⟨hclosed, hconn.printed.eq_of_length ?_⟩
      rw [List.length_take, Nat.min_eq_left hconn.written, hlength]
    | fails error =>
      simp only [Connection.clientStep, hclient] at h
      obtain ⟨-, h⟩ := Option.ite_none_left_eq_some.mp h
      obtain rfl := Option.some.inj h
      exact ⟨rfl, rfl, rfl, fun hconn =>
        ⟨hconn.message, hconn.written, hconn.printed, fun hdone => by cases hdone⟩⟩
    | leaves =>
      simp only [Connection.clientStep, hclient] at h
      obtain rfl := Option.some.inj h
      exact ⟨rfl, rfl, rfl, fun hconn =>
        ⟨hconn.message, hconn.written, hconn.printed, fun hdone => by cases hdone⟩⟩
  | done => cases event <;> simp [Connection.clientStep, hclient] at h
  | failed error => cases event <;> simp [Connection.clientStep, hclient] at h
  | gone => cases event <;> simp [Connection.clientStep, hclient] at h

/-- A client that has left does nothing more. -/
theorem reading_of_clientStep {event : ClientEvent} (h : conn.clientStep event = some conn') :
    conn.client.hasLeft = false := by
  cases hclient : conn.client with
  | reading | done => rfl
  | failed error => cases event <;> simp [Connection.clientStep, hclient] at h
  | gone => cases event <;> simp [Connection.clientStep, hclient] at h

/-! ## Runs -/

/-- The connection that a server is busy with. -/
structure Connection.Current (conn : Connection) (stage : Stage) : Prop where
  isOpen : conn.isClosed = false
  message : stage ≠ .writing → conn.message = []

/-- The server is busy with a connection. -/
def Stage.IsBusy : Stage → Prop
  | .naming | .composing | .writing => True
  | .accepting | .ended _ => False

/-- What holds of a server and its clients, whatever fails. -/
structure System.Sound (names : Bool) (daytime : ℕ → Str) (s : System) : Prop where
  connections : ∀ conn ∈ s.connections, conn.Faithful daytime
  current : s.stage.IsBusy → ∃ conn rest, s.connections = conn :: rest ∧ conn.Current s.stage
  names : s.stage = .naming → names = true

theorem onCurrent_eq_some {stage : Stage} {f : Connection → Option Connection}
    (h : s.onCurrent stage f = some next) :
    ∃ conn rest conn', s.connections = conn :: rest ∧ f conn = some conn' ∧
      next = { stage, connections := conn' :: rest } := by
  cases hconnections : s.connections with
  | nil =>
    simp only [System.onCurrent, hconnections] at h
    cases h
  | cons conn rest =>
    simp only [System.onCurrent, hconnections] at h
    obtain ⟨conn', hconn', rfl⟩ := Option.map_eq_some_iff.mp h
    exact ⟨conn, rest, conn', rfl, hconn', rfl⟩

theorem stage_of_onCurrent {stage : Stage} {f : Connection → Option Connection}
    (h : s.onCurrent stage f = some next) : next.stage = stage := by
  obtain ⟨_, _, _, -, -, rfl⟩ := onCurrent_eq_some h
  rfl

/-- The server does something with its connection, which stays open or is left. -/
theorem System.Sound.onCurrent {stage : Stage} {f : Connection → Option Connection}
    (h : s.Sound names daytime) (hbusy : s.stage.IsBusy) (hstep : s.onCurrent stage f = some next)
    (hf : ∀ conn conn', conn.Current s.stage → conn.Faithful daytime → f conn = some conn' →
      conn'.Faithful daytime ∧ (stage.IsBusy → conn'.Current stage))
    (hnames : stage ≠ .naming) : next.Sound names daytime := by
  obtain ⟨conn, rest, conn', hconnections, hconn', rfl⟩ := onCurrent_eq_some hstep
  obtain ⟨current, others, hcurrent, hopen⟩ := h.current hbusy
  obtain ⟨rfl, rfl⟩ := List.cons.inj (hconnections.symm.trans hcurrent)
  have hconn := h.connections conn (hconnections ▸ List.mem_cons_self)
  obtain ⟨hfaithful, hstays⟩ := hf conn conn' hopen hconn hconn'
  refine ⟨?_, fun hbusy => ⟨conn', rest, rfl, hstays hbusy⟩, fun h => absurd h hnames⟩
  intro other hother
  obtain rfl | hother := List.mem_cons.mp hother
  · exact hfaithful
  · exact h.connections other (hconnections ▸ List.mem_cons_of_mem _ hother)

/-- A server with an open connection has none whose client is done. -/
theorem Connection.Faithful.not_done (h : conn.Faithful daytime) (hopen : conn.isClosed = false) :
    conn.client ≠ .done := by
  intro hdone
  have hclosed := (h.done hdone).1
  rw [hopen] at hclosed
  cases hclosed

theorem System.Sound.step {event : Event} (h : s.Sound names daytime)
    (hstep : s.step names daytime event = some next) : next.Sound names daytime := by
  cases event with
  | accepted =>
    cases hstage : s.stage <;> simp only [System.step, hstage, reduceCtorEq] at hstep
    obtain rfl := Option.some.inj hstep
    refine ⟨?_, fun _ => ⟨.fresh, s.connections, rfl, rfl, fun _ => rfl⟩, fun hnaming => ?_⟩
    · intro conn hconn
      obtain rfl | hconn := List.mem_cons.mp hconn
      · exact ⟨rfl, Nat.le_refl _, List.prefix_rfl, fun hdone => by cases hdone⟩
      · exact h.connections conn hconn
    · cases names with
      | false => cases hnaming
      | true => rfl
  | acceptFails error =>
    cases hstage : s.stage <;> simp only [System.step, hstage, reduceCtorEq] at hstep
    obtain rfl := Option.some.inj hstep
    exact ⟨h.connections, fun hbusy => hbusy.elim, fun hnaming => by cases hnaming⟩
  | named =>
    cases hstage : s.stage <;> simp only [System.step, hstage, reduceCtorEq] at hstep
    obtain rfl := Option.some.inj hstep
    obtain ⟨conn, rest, hconnections, hcurrent⟩ := h.current (by rw [hstage]; trivial)
    refine ⟨h.connections, fun _ => ⟨conn, rest, hconnections, hcurrent.isOpen, fun _ => ?_⟩,
      fun hnaming => by cases hnaming⟩
    exact hcurrent.message (by rw [hstage]; simp)
  | nameFails error =>
    cases hstage : s.stage <;> simp only [System.step, hstage, reduceCtorEq] at hstep
    refine h.onCurrent (by rw [hstage]; trivial) hstep ?_ (by simp)
    intro conn conn' hcurrent hconn hconn'
    obtain ⟨-, hconn'⟩ := Option.ite_none_right_eq_some.mp hconn'
    obtain rfl := Option.some.inj hconn'
    refine ⟨⟨hconn.message, hconn.written, hconn.printed, fun hdone => ?_⟩, fun hbusy => hbusy.elim⟩
    exact absurd hdone (hconn.not_done hcurrent.isOpen)
  | composed now =>
    cases hstage : s.stage <;> simp only [System.step, hstage, reduceCtorEq] at hstep
    refine h.onCurrent (by rw [hstage]; trivial) hstep ?_ (by simp)
    intro conn conn' hcurrent hconn hconn'
    obtain rfl := Option.some.inj hconn'
    -- Nothing has been printed, for nothing has been written yet.
    have hnone : conn.printed = [] := by
      have hprinted := hconn.printed
      rw [hcurrent.message (by rw [hstage]; simp), List.take_nil] at hprinted
      exact List.prefix_nil.mp hprinted
    refine ⟨⟨rfl, Nat.zero_le _, ?_, fun hdone => ?_⟩,
      fun _ => ⟨hcurrent.isOpen, fun hnot => absurd rfl hnot⟩⟩
    · rw [hnone]
      exact List.nil_prefix
    · exact absurd hdone (hconn.not_done hcurrent.isOpen)
  | wrote n =>
    cases hstage : s.stage <;> simp only [System.step, hstage, reduceCtorEq] at hstep
    refine h.onCurrent (by rw [hstage]; trivial) hstep ?_ (by simp)
    intro conn conn' hcurrent hconn hconn'
    obtain ⟨hle, hconn'⟩ := Option.ite_none_right_eq_some.mp hconn'
    obtain rfl := Option.some.inj hconn'
    refine ⟨⟨hconn.message, hle, ?_, fun hdone => ?_⟩,
      fun _ => ⟨hcurrent.isOpen, fun hnot => absurd rfl hnot⟩⟩
    · exact hconn.printed.trans (List.take_prefix_take_left (Nat.le_add_right _ _))
    · exact absurd hdone (hconn.not_done hcurrent.isOpen)
  | writeReturns ok =>
    -- Whether everything has been written or not, the connection is closed.
    cases hstage : s.stage <;> simp only [System.step, hstage, reduceCtorEq] at hstep
    refine h.onCurrent (by rw [hstage]; trivial) hstep ?_ (by simp)
    intro conn conn' hcurrent hconn hconn'
    obtain ⟨-, hconn'⟩ := Option.ite_none_right_eq_some.mp hconn'
    obtain rfl := Option.some.inj hconn'
    refine ⟨⟨hconn.message, hconn.written, hconn.printed, fun hdone => ?_⟩, fun hbusy => hbusy.elim⟩
    exact absurd hdone (hconn.not_done hcurrent.isOpen)
  | client i event =>
    obtain ⟨conn, hconn, hstep⟩ := Option.bind_eq_some_iff.mp hstep
    obtain ⟨conn', hconn', rfl⟩ := Option.map_eq_some_iff.mp hstep
    have hmoves : ClientMoves daytime conn conn' := clientMoves_of_step hconn'
    refine ⟨fun other hother => ?_, fun hbusy => ?_, h.names⟩
    · obtain hbefore | rfl := List.mem_or_eq_of_mem_set hother
      · exact h.connections other hbefore
      · exact hmoves.faithful (h.connections conn (List.mem_of_getElem? hconn))
    · -- It may be the client of the connection that the server is busy with.
      obtain ⟨current, rest, hconnections, hcurrent⟩ := h.current hbusy
      cases i with
      | zero =>
        rw [hconnections] at hconn
        obtain rfl := Option.some.inj hconn
        refine ⟨conn', rest, by simp [hconnections], hmoves.isClosed.trans hcurrent.isOpen, ?_⟩
        exact fun hnot => hmoves.message.trans (hcurrent.message hnot)
      | succ i => exact ⟨current, rest.set i conn', by simp [hconnections], hcurrent⟩

/-- The server has not come to its `catch`. -/
def System.IsUp (s : System) : Prop := ∀ error, s.stage ≠ .ended error

/-- The client of the last connection has left. -/
def System.LastHasLeft (s : System) : Prop :=
  ∃ conn rest, s.connections = conn :: rest ∧ conn.client.hasLeft = true

/-- The server has ended only if it has asked for the endpoint of a client that has gone. -/
def System.Survives (names : Bool) (s : System) : Prop :=
  s.IsUp ∨ names = true ∧ s.LastHasLeft

/-- A client that has left stays the last one, or was not the last one. -/
theorem System.LastHasLeft.client {i : ℕ} (h : s.LastHasLeft)
    (hconn : s.connections[i]? = some conn) (hleft : conn.client.hasLeft = false) :
    System.LastHasLeft { s with connections := s.connections.set i conn' } := by
  obtain ⟨last, rest, hconnections, hlast⟩ := h
  cases i with
  | zero =>
    rw [hconnections] at hconn
    obtain rfl := Option.some.inj hconn
    rw [hleft] at hlast
    cases hlast
  | succ i => exact ⟨last, rest.set i conn', by simp [hconnections], hlast⟩

/-- A step that does not end a server. -/
theorem survives_of_stage {stage : Stage} (h : next.stage = stage)
    (hstage : ∀ error, stage ≠ .ended error) : next.Survives names :=
  .inl fun error hended => hstage error (h.symm.trans hended)

theorem System.Survives.step {event : Event} (h : s.Survives names)
    (hsound : s.Sound names daytime) (haccepts : ∀ error, event ≠ .acceptFails error)
    (hstep : s.step names daytime event = some next) : next.Survives names := by
  cases event with
  | accepted =>
    cases hstage : s.stage <;> simp only [System.step, hstage, reduceCtorEq] at hstep
    obtain rfl := Option.some.inj hstep
    exact survives_of_stage rfl fun error => by cases names <;> exact nofun
  | acceptFails error => exact absurd rfl (haccepts error)
  | named =>
    cases hstage : s.stage <;> simp only [System.step, hstage, reduceCtorEq] at hstep
    obtain rfl := Option.some.inj hstep
    exact survives_of_stage rfl nofun
  | nameFails error =>
    -- Only the server that asks for the endpoint can be at this point.
    cases hstage : s.stage <;> simp only [System.step, hstage, reduceCtorEq] at hstep
    obtain ⟨conn, rest, conn', -, hconn', rfl⟩ := onCurrent_eq_some hstep
    obtain ⟨hleft, hconn'⟩ := Option.ite_none_right_eq_some.mp hconn'
    obtain rfl := Option.some.inj hconn'
    exact .inr ⟨hsound.names hstage, _, rest, rfl, hleft⟩
  | composed now =>
    cases hstage : s.stage <;> simp only [System.step, hstage, reduceCtorEq] at hstep
    exact survives_of_stage (stage_of_onCurrent hstep) nofun
  | wrote n =>
    cases hstage : s.stage <;> simp only [System.step, hstage, reduceCtorEq] at hstep
    exact survives_of_stage (stage_of_onCurrent hstep) nofun
  | writeReturns ok =>
    cases hstage : s.stage <;> simp only [System.step, hstage, reduceCtorEq] at hstep
    exact survives_of_stage (stage_of_onCurrent hstep) nofun
  | client i event =>
    obtain ⟨conn, hconn, hstep⟩ := Option.bind_eq_some_iff.mp hstep
    obtain ⟨conn', hconn', rfl⟩ := Option.map_eq_some_iff.mp hstep
    obtain hup | ⟨hnames, hleft⟩ := h
    · exact .inl hup
    · exact .inr ⟨hnames, hleft.client hconn (reading_of_clientStep hconn')⟩

/-- Nothing fails, and no client leaves. -/
def Event.Succeeds : Event → Prop
  | .acceptFails _ | .nameFails _ | .writeReturns false | .client _ (.fails _)
  | .client _ .leaves => False
  | _ => True

/-- The server is not about to ask for the endpoint of a client that has left. -/
def System.GoesOn (s : System) : Prop := s.IsUp ∧ (s.stage = .naming → ¬ s.LastHasLeft)

/-- The client has printed all of the message and is done. -/
def Answered (message : Str) (s : System) : Prop :=
  ∃ conn rest, s.connections = conn :: rest ∧ conn.client = .done ∧ conn.printed = message

/-- The last client has been sent all of the message, and has not failed. -/
structure Sent (text : Str) (conn : Connection) : Prop where
  message : conn.message = text
  written : conn.written = text.length
  isClosed : conn.isClosed = true
  client : conn.client = .reading ∨ conn.client = .done

/-- How much the last client has still to do. -/
def System.left (s : System) : ℕ :=
  match s.connections with
  | conn :: _ =>
    match conn.client with
    | .reading => 1 + (conn.written - conn.printed.length)
    | _ => 0
  | [] => 0

/-- A client that has been sent a message can print all of it. -/
theorem canReach_answered {message : Str} {rest : List Connection} (hsound : s.Sound names daytime)
    (hconnections : s.connections = conn :: rest) (hsent : Sent message conn) :
    CanReach (System.step names daytime) Event.Succeeds (Answered message) s := by
  refine CanReach.of_measure (fun s => s.Sound names daytime ∧
    ∃ conn rest, s.connections = conn :: rest ∧ Sent message conn) System.left ?_
    ⟨hsound, conn, rest, hconnections, hsent⟩
  rintro s ⟨hsound, conn, rest, hconnections, hsent⟩
  have hconn := hsound.connections conn (hconnections ▸ List.mem_cons_self)
  have hmessage : conn.message.take conn.written = message := by
    rw [hsent.message, hsent.written, List.take_length]
  have hlength : conn.printed.length ≤ conn.written := by
    have hle := hconn.printed.length_le
    rwa [hmessage, ← hsent.written] at hle
  have hat : ∀ {event conn'}, conn.clientStep event = some conn' →
      s.step names daytime (.client 0 event) = some { s with connections := conn' :: rest } := by
    intro event conn' hconn'
    simp [System.step, hconnections, hconn']
  obtain hreading | hdone := hsent.client
  · right
    obtain hlt | heq := Nat.lt_or_eq_of_le hlength
    · -- One byte is read, though a read may bring as many as fit in the buffer.
      have hread : conn.clientStep (.read 1) = some { conn with
          printed := conn.printed ++ (conn.message.drop conn.printed.length).take 1 } := by
        simp only [Connection.clientStep, hreading]
        exact if_pos ⟨Nat.one_pos, by decide, hlt⟩
      refine ⟨.client 0 (.read 1), _, trivial, hat hread, ⟨hsound.step (hat hread), _, rest, rfl,
        hsent.message, hsent.written, hsent.isClosed, hsent.client⟩, ?_⟩
      have hone : 0 < conn.message.length - conn.printed.length := by
        have hle := hconn.written
        omega
      simp only [System.left, hconnections, hreading, List.length_append, List.length_take,
        List.length_drop]
      omega
    -- All of it has been read, and the end of the stream is next.
    · have heof : conn.clientStep .eof = some { conn with client := .done } := by
        simp only [Connection.clientStep, hreading]
        exact if_pos ⟨hsent.isClosed, heq⟩
      refine ⟨.client 0 .eof, _, trivial, hat heof, ⟨hsound.step (hat heof), _, rest, rfl,
        hsent.message, hsent.written, hsent.isClosed, .inr rfl⟩, ?_⟩
      simp only [System.left, hconnections, hreading]
      omega
  · exact .inl ⟨conn, rest, hconnections, hdone, (hconn.done hdone).2.trans hmessage⟩

/-! ## Any run -/

/-- What is known of a server and its clients after `events`. -/
structure Prints (names : Bool) (daytime : ℕ → Str) (events : List Event) (s : System) : Prop where
  connections : ∀ conn ∈ s.connections, conn.Faithful daytime
  /-- Nothing but an accept ends a server that does not ask for the endpoint. -/
  survives : (∀ event ∈ events, ∀ error, event ≠ .acceptFails error) → s.Survives names
  more : s.GoesOn → ∀ now, CanReach (System.step names daytime) Event.Succeeds
    (Answered (daytime now)) s
  /-- A client that goes away at once ends a server that asks for the endpoint. -/
  gone : names = true → s.IsUp → ∀ error, CanReach (System.step names daytime)
    (fun event => ∀ error, event ≠ .acceptFails error)
    (fun final => final.stage = .ended error ∧ final.LastHasLeft) s

/-- A server that asks for the endpoint of a client that has left can end. -/
theorem canReach_ended {conn : Connection} {rest : List Connection} (error : Failure)
    (hleft : conn.client.hasLeft = true) :
    CanReach (System.step true daytime) (fun event => ∀ error, event ≠ .acceptFails error)
      (fun final => final.stage = .ended error ∧ final.LastHasLeft)
      { stage := .naming, connections := conn :: rest } := by
  have hfails : System.step true daytime { stage := .naming, connections := conn :: rest }
      (.nameFails error) =
      some { stage := .ended error, connections := { conn with isClosed := true } :: rest } := by
    simp only [System.step, System.onCurrent, hleft, if_true, Option.map_some]
  exact .head hfails (fun _ h => by cases h) (.here ⟨rfl, _, rest, rfl, hleft⟩)

/-- A client connects, and leaves before the server asks for its endpoint. -/
theorem canReach_left (error : Failure) (connections : List Connection) :
    CanReach (System.step true daytime) (fun event => ∀ error, event ≠ .acceptFails error)
      (fun final => final.stage = .ended error ∧ final.LastHasLeft)
      { stage := .accepting, connections := connections } := by
  have haccepted : System.step true daytime { stage := .accepting, connections := connections }
      .accepted = some { stage := .naming, connections := .fresh :: connections } := rfl
  have hleaves : System.step true daytime
      { stage := .naming, connections := .fresh :: connections } (.client 0 .leaves) =
      some { stage := .naming
             connections := { Connection.fresh with client := .gone } :: connections } := rfl
  refine .head haccepted (fun _ h => by cases h) ?_
  exact .head hleaves (fun _ h => by cases h) (canReach_ended error rfl)

end BoostProjects.Networking.Daytime
