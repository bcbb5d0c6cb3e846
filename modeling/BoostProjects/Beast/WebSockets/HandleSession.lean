import BoostProjects.Beast.WebSockets.Session

/-!
# The blocking WebSocket sessions

`SimpleServer::handleSession` and `SSLServer::handleSession` accept a connection, the
second one over TLS, and then read a message and write it back, again and again. Only an
exception ends them, and `websocket::error::closed` is one that is not printed.

`handleSession_echoes` says what each of them has sent and printed, however its calls
end.
-/

namespace BoostProjects.Beast.WebSockets.Sync

open Boost Cpp

/-! ## The program -/

/-- A code that a `system_error` has. -/
abbrev StreamFailure := { code : StreamCode // code.failed = true }

/-- The call that `handleSession` is in. -/
inductive Stage
  | handshaking
  | accepting
  | reading
  | writing (message : Message)
  /-- Behind its `catch`. -/
  | ended
  deriving DecidableEq, Repr

/-- A session: the call that it is in, the messages of both ways, and what it has printed. -/
structure Session where
  stage : Stage
  received : List Message := []
  sent : List Message := []
  cout : List Str := []
  cerr : List Str := []
  deriving DecidableEq, Repr

/-- How a call on the stream ends. -/
inductive Result
  /-- A read has brought `message`. -/
  | returned (message : Message)
  | threw (error : StreamFailure)
  /-- Any other exception. -/
  | threwOther (what : Str)
  deriving DecidableEq, Repr

/-- The call has thrown. -/
def Result.failed : Result → Bool
  | .returned _ => false
  | _ => true

/-- What is printed when `accept` has returned. -/
def handling : Str := "Handling new connection\n".toList

/-- What is printed of a message that has been read. -/
def got (message : Message) : Str :=
  "Got ".toList ++ Nat.toDigits 10 message.bytes.length ++ " bytes from client\n".toList

/-- What is printed of a message that has been written. -/
def sendBack (message : Message) : Str :=
  Nat.toDigits 10 message.bytes.length ++ " bytes send back\n".toList

/-- What follows a call that returns. -/
def Session.proceed (message : Message) (session : Session) : Session :=
  match session.stage with
  | .handshaking => { session with stage := .accepting }
  | .accepting => { session with stage := .reading, cout := session.cout ++ [handling] }
  | .reading =>
    -- What is written is of the kind that has been read.
    { session with
      stage := .writing message
      received := session.received ++ [message]
      cout := session.cout ++ [got message] }
  | .writing reply =>
    { session with
      stage := .reading
      sent := session.sent ++ [reply]
      cout := session.cout ++ [sendBack reply] }
  | .ended => session

variable (label : Str) (text : StreamCode → Str)

/-- What is printed of the end of a call, where `label` stands before the text of a
`system_error`. -/
def report : Result → Option Str
  | .returned _ => none
  | .threw error => if error.1 ≠ .closed then some (label ++ text error.1 ++ ['\n']) else none
  | .threwOther what => some ("Error: ".toList ++ what ++ ['\n'])

/-- The call that the session is in ends. -/
def Session.step (session : Session) (result : Result) : Session :=
  match session.stage, result with
  | .ended, _ => session
  | _, .returned message => session.proceed message
  | _, result =>
    { session with stage := .ended, cerr := session.cerr ++ (report label text result).toList }

/-- The session makes its first call, which is the TLS handshake or `accept`. -/
def started (tls : Bool) : Session := { stage := if tls then .handshaking else .accepting }

/-- Either `handleSession`, as far as its calls have ended. -/
def handleSession (tls : Bool) (results : List Result) : Session :=
  results.foldl (Session.step label text) (started tls)

/-- `SimpleServer::handleSession` -/
def SimpleServer.handleSession : List Result → Session :=
  Sync.handleSession "Error: ".toList text false

/-- `SSLServer::handleSession` -/
def SSLServer.handleSession : List Result → Session :=
  Sync.handleSession "Beast error: ".toList text true

variable {label text} {session : Session} {result : Result}

theorem step_returned (message : Message) :
    session.step label text (.returned message) = session.proceed message := by
  cases hstage : session.stage <;> simp only [Session.step, Session.proceed, hstage]

theorem step_of_failed (h : result.failed = true) (hover : session.stage ≠ .ended) :
    session.step label text result =
      { session with stage := .ended, cerr := session.cerr ++ (report label text result).toList } := by
  cases result with
  | returned message => cases h
  | threw error => cases hstage : session.stage <;> simp_all [Session.step]
  | threwOther what => cases hstage : session.stage <;> simp_all [Session.step]

theorem step_over (hover : session.stage = .ended) : session.step label text result = session := by
  simp only [Session.step, hover]

theorem over_proceed_iff (message : Message) :
    (session.proceed message).stage = .ended ↔ session.stage = .ended := by
  cases hstage : session.stage <;> simp [Session.proceed, hstage]

/-! ## What holds at every point -/

/-- The lines printed for messages that have been echoed, and for one that has not. -/
def lines (sent waiting : List Message) : List Str :=
  handling :: (sent.flatMap fun message => [got message, sendBack message]) ++ waiting.map got

/-- Before `accept` has returned nothing has been read or printed, and afterwards what
has been sent is what has been received, but for the last message. -/
inductive Echoes (session : Session) : Prop
  | opening (stage : session.stage = .handshaking ∨ session.stage = .accepting ∨
      session.stage = .ended) (received : session.received = []) (sent : session.sent = [])
      (cout : session.cout = [])
  | accepted (waiting : List Message) (length : waiting.length ≤ 1)
      (stage : session.stage = .reading ∧ waiting = [] ∨
        (∃ message, session.stage = .writing message ∧ waiting = [message]) ∨ session.stage = .ended)
      (received : session.received = session.sent ++ waiting)
      (cout : session.cout = lines session.sent waiting)

theorem echoes_started (tls : Bool) : Echoes (started tls) := by
  apply Echoes.opening
  · cases tls
    · exact .inr (.inl rfl)
    · exact .inl rfl
  · rfl
  · rfl
  · rfl

theorem Echoes.proceed (h : Echoes session) (message : Message) :
    Echoes (session.proceed message) := by
  cases hstage : session.stage with
  | ended => simpa only [Session.proceed, hstage] using h
  | handshaking =>
    cases h with
    | opening _ hreceived hsent hcout =>
      simp only [Session.proceed, hstage]
      exact .opening (.inr (.inl rfl)) hreceived hsent hcout
    | accepted waiting _ hwhere => simp [hstage] at hwhere
  | accepting =>
    cases h with
    | opening _ hreceived hsent hcout =>
      simp only [Session.proceed, hstage]
      refine .accepted [] (Nat.zero_le 1) (.inl ⟨rfl, rfl⟩) ?_ ?_
      · rw [hreceived, hsent, List.append_nil]
      · rw [hcout, hsent]
        rfl
    | accepted waiting _ hwhere => simp [hstage] at hwhere
  | reading =>
    cases h with
    | opening hwhere => simp [hstage] at hwhere
    | accepted waiting _ hwhere hreceived hcout =>
      obtain rfl : waiting = [] := by simpa [hstage] using hwhere
      simp only [Session.proceed, hstage]
      refine .accepted [message] (Nat.le_refl 1) (.inr (.inl ⟨message, rfl, rfl⟩)) ?_ ?_
      · rw [hreceived, List.append_nil]
      · rw [hcout]
        simp [lines]
  | writing reply =>
    cases h with
    | opening hwhere => simp [hstage] at hwhere
    | accepted waiting _ hwhere hreceived hcout =>
      obtain rfl : waiting = [reply] := by simpa [hstage] using hwhere
      simp only [Session.proceed, hstage]
      refine .accepted [] (Nat.zero_le 1) (.inl ⟨rfl, rfl⟩) ?_ ?_
      · rw [hreceived, List.append_nil]
      · rw [hcout]
        simp [lines]

theorem Echoes.step (h : Echoes session) (result : Result) :
    Echoes (session.step label text result) := by
  by_cases hover : session.stage = .ended
  · rwa [step_over hover]
  · cases hfailed : result.failed with
    | true =>
      rw [step_of_failed hfailed hover]
      cases h with
      | opening _ hreceived hsent hcout => exact .opening (.inr (.inr rfl)) hreceived hsent hcout
      | accepted waiting hlength _ hreceived hcout =>
        exact .accepted waiting hlength (.inr (.inr rfl)) hreceived hcout
    | false =>
      cases result with
      | returned message =>
        rw [step_returned]
        exact h.proceed message
      | threw | threwOther => cases hfailed

/-- A run ends with the first failure, which is the only thing that can be printed of it. -/
theorem run_eq (results : List Result) (hover : session.stage ≠ .ended) :
    ((results.foldl (Session.step label text) session).stage = .ended ↔
      ∃ result ∈ results, result.failed = true) ∧
    (results.foldl (Session.step label text) session).cerr =
      session.cerr ++ ((results.find? Result.failed).bind (report label text)).toList := by
  have hrest : ∀ (session : Session) (rest : List Result), session.stage = .ended →
      rest.foldl (Session.step label text) session = session := by
    intro session rest hstage
    induction rest with
    | nil => rfl
    | cons result rest ih => rw [List.foldl_cons, step_over hstage, ih]
  induction results generalizing session with
  | nil => simp [hover]
  | cons result rest ih =>
    rw [List.foldl_cons]
    cases hfailed : result.failed with
    | true =>
      rw [step_of_failed hfailed hover, hrest _ _ rfl, List.find?_cons_of_pos hfailed]
      simp [hfailed]
    | false =>
      cases result with
      | threw | threwOther => cases hfailed
      | returned message =>
        have hnext : (session.proceed message).stage ≠ .ended := by rwa [ne_eq, over_proceed_iff]
        have hcerr : (session.proceed message).cerr = session.cerr := by
          cases hstage : session.stage <;> simp [Session.proceed, hstage]
        rw [step_returned, List.find?_cons_of_neg (by simp [hfailed]), ← hcerr]
        obtain ⟨hstage, hlines⟩ := ih hnext
        refine ⟨?_, hlines⟩
        rw [hstage]
        simp [hfailed]

theorem echoes_handleSession (label : Str) (text : StreamCode → Str) (tls : Bool)
    (results : List Result) : Echoes (handleSession label text tls results) := by
  have hfold : ∀ session : Session, Echoes session →
      Echoes (results.foldl (Session.step label text) session) := by
    induction results with
    | nil => exact fun _ h => h
    | cons result rest ih => exact fun session h => ih _ (h.step result)
  exact hfold _ (echoes_started tls)

/-- **The blocking sessions echo until they fail.** However its calls end, each session
has sent what it has received, in order and of the same kind, but for the last message;
it has printed two lines for each message echoed; it is over exactly if a call has
failed, and has printed that failure unless it says that the stream was closed. -/
theorem handleSession_echoes (text : StreamCode → Str) (results : List Result) (session : Session)
    (label : Str)
    (hsession : label = "Error: ".toList ∧ session = SimpleServer.handleSession text results ∨
      label = "Beast error: ".toList ∧ session = SSLServer.handleSession text results) :
    Echoes session ∧ (session.stage = .ended ↔ ∃ result ∈ results, result.failed = true) ∧
      session.cerr = ((results.find? Result.failed).bind (report label text)).toList := by
  obtain ⟨tls, rfl⟩ : ∃ tls, session = handleSession label text tls results := by
    obtain ⟨rfl, rfl⟩ | ⟨rfl, rfl⟩ := hsession
    · exact ⟨false, rfl⟩
    · exact ⟨true, rfl⟩
  have hstarted : (started tls).stage ≠ .ended := by cases tls <;> exact nofun
  obtain ⟨hover, hcerr⟩ := @run_eq label text _ results hstarted
  exact ⟨echoes_handleSession label text tls results, hover, hcerr⟩

/-- Two messages are echoed, and then the peer closes the stream. -/
theorem handleSession_echoes_two :
    (SSLServer.handleSession (fun _ => [])
      [.returned {}, .returned {}, .returned ⟨true, "hi".toList⟩, .returned {},
        .returned ⟨false, "a".toList⟩, .returned {}, .threw ⟨.closed, rfl⟩]).cerr = [] :=
  (handleSession_echoes (fun _ => [])
    [.returned {}, .returned {}, .returned ⟨true, "hi".toList⟩, .returned {},
      .returned ⟨false, "a".toList⟩, .returned {}, .threw ⟨.closed, rfl⟩] _ _
    (.inr ⟨rfl, rfl⟩)).2.2

end BoostProjects.Beast.WebSockets.Sync
