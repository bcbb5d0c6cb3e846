import BoostProjects.Boost.ErrorCode
import BoostProjects.Cpp.Str
import BoostProjects.Library.Dialogue

/-!
# The asynchronous HTTP clients

Three classes send one request: `HTTP_Client_Async::session` of
`Networking/Beast.cpp` and of `Beast/http/Client.cpp`, and
`HTTPS_Client_Async::Session`. Each starts one step after the other, and at the
first failure reports it and stops. They differ in what they do when the
connection has been shut down: one error is expected there and need not be
reported, `not_connected` for TCP and `stream_truncated` for TLS.

Up to the shutdown the three are one dialogue. So what a class reports is right
for all outcomes exactly if it is right for all outcomes of the shutdown
(`reported_iff`).
-/

namespace BoostProjects.Beast.Http.Client

open Boost Cpp Dialogue

/-! ## The program -/

/-- What a session waits for. The shutdown of a TCP socket is no asynchronous
operation, and `on_read` goes on with its outcome. -/
inductive Step
  | resolve
  | connect
  | handshake
  | write
  | read
  | shutdown
  deriving DecidableEq, Repr

/-- `beast::errc::not_connected` -/
def notConnected : ErrorCode := .other 107

/-- A line on the standard error stream: a text, and then `ec.message()`. -/
structure Line where
  text : Str
  ec : ErrorCode
  deriving DecidableEq, Repr

/-- A session, with the step it waits for, the steps it has started, what it has
written to the standard error stream, and whether it has printed the response. -/
structure Session where
  inFlight : Option Step := none
  started : List Step := []
  stderr : List Line := []
  printed : Bool := false
  deriving DecidableEq, Repr

/-- A step is started. -/
def Session.start (step : Step) (session : Session) : Session :=
  { session with inFlight := some step, started := session.started ++ [step] }

/-- `fail` -/
def fail (ec : ErrorCode) (what : Str) (session : Session) : Session :=
  { session with stderr := session.stderr ++ [{ text := what ++ [':', ' '], ec }] }

/-- A callback that reports an error, or starts the next step. -/
def forward (what : Str) (next : Step) (ec : ErrorCode) (session : Session) : Session :=
  if ec.failed then fail ec what session else session.start next

/-- `on_read` up to the shutdown, which all three classes have in common. -/
def onRead (ec : ErrorCode) (session : Session) : Session :=
  if ec.failed then fail ec "read".toList session
  else { session with printed := true }.start .shutdown

/-- `run` of the TCP clients. -/
def run (session : Session) : Session := session.start .resolve

/-- What a class does with the outcome of each step. -/
abbrev Handlers := Step → ErrorCode → Session → Session

/-- The step in flight has completed. -/
def complete (handlers : Handlers) (session : Session) (ec : ErrorCode) : Session :=
  match session.inFlight with
  | none => session
  | some step => handlers step ec { session with inFlight := none }

/-! ### `HTTP_Client_Async::session` in `Networking/Beast.cpp` -/

namespace Networking

/-- `on_resolve` -/
def onResolve : ErrorCode → Session → Session := forward "resolve".toList .connect

/-- `on_connect` -/
def onConnect : ErrorCode → Session → Session := forward "connect".toList .write

/-- `on_write` -/
def onWrite : ErrorCode → Session → Session := forward "write".toList .read

/-- The end of `on_read`, with the error code set by the shutdown. -/
def afterShutdown (ec : ErrorCode) (session : Session) : Session :=
  if ec.failed ∧ ec ≠ notConnected then fail ec "shutdown".toList session else session

/-- The handler of each step. -/
def handlers : Handlers
  | .resolve => onResolve
  | .connect => onConnect
  | .write => onWrite
  | .read => onRead
  | .shutdown => afterShutdown
  -- There is no handshake.
  | .handshake => fun _ session => session

end Networking

/-! ### `HTTP_Client_Async::session` in `Beast/http/Client.cpp` -/

namespace HTTPClientAsync

/-- `on_resolve` -/
def onResolve : ErrorCode → Session → Session := forward "resolve".toList .connect

/-- `on_connect` -/
def onConnect : ErrorCode → Session → Session := forward "connect".toList .write

/-- `on_write` -/
def onWrite : ErrorCode → Session → Session := forward "write".toList .read

/-- The end of `on_read`: the shutdown sets `err`, and `errorCode` is still that of
the read. -/
def afterShutdown (errorCode err : ErrorCode) (session : Session) : Session :=
  let session := if err.failed then fail err "shutdown failed".toList session else session
  if errorCode.failed ∧ errorCode ≠ notConnected then fail errorCode "shutdown".toList session
  else session

/-- The handler of each step. -/
def handlers : Handlers
  | .resolve => onResolve
  | .connect => onConnect
  | .write => onWrite
  | .read => onRead
  -- The read has succeeded, or there would have been no shutdown.
  | .shutdown => afterShutdown .success
  | .handshake => fun _ session => session

end HTTPClientAsync

/-! ### `HTTPS_Client_Async::Session` -/

namespace HTTPSClientAsync

/-- `run`, with `sni` the error of setting the host name. -/
def run (sni : ErrorCode) (session : Session) : Session :=
  if sni.failed then { session with stderr := session.stderr ++ [{ text := [], ec := sni }] }
  else session.start .resolve

/-- `on_resolve` -/
def onResolve : ErrorCode → Session → Session := forward "resolve".toList .connect

/-- `on_connect` -/
def onConnect : ErrorCode → Session → Session := forward "connect".toList .handshake

/-- `on_handshake` -/
def onHandshake : ErrorCode → Session → Session := forward "handshake".toList .write

/-- `on_write` -/
def onWrite : ErrorCode → Session → Session := forward "write".toList .read

/-- `on_shutdown`; a success is reported too, for only `stream_truncated` is left out. -/
def onShutdown (ec : ErrorCode) (session : Session) : Session :=
  if .streamTruncated ≠ ec then fail ec "shutdown".toList session else session

/-- The handler of each step. -/
def handlers : Handlers
  | .resolve => onResolve
  | .connect => onConnect
  | .handshake => onHandshake
  | .write => onWrite
  | .read => onRead
  | .shutdown => onShutdown

end HTTPSClientAsync

/-! ## The steps as a dialogue -/

/-- The text with which `fail` is called for a step. -/
def Step.name : Step → Str
  | .resolve => "resolve".toList
  | .connect => "connect".toList
  | .handshake => "handshake".toList
  | .write => "write".toList
  | .read => "read".toList
  | .shutdown => "shutdown".toList

/-- The steps of a TCP client. -/
def tcpSteps : List Step := [.resolve, .connect, .write, .read, .shutdown]

/-- The steps of a TLS client. -/
def tlsSteps : List Step := [.resolve, .connect, .handshake, .write, .read, .shutdown]

/-- The step that follows another one. -/
def next (steps : List Step) (step : Step) (ec : ErrorCode) : Option Step :=
  if ec.failed then none else (steps.dropWhile (· ≠ step)).tail.head?

/-- What is reported of a step, when `report` is what is reported of the shutdown. -/
def emit (report : ErrorCode → Option Line) (step : Step) (ec : ErrorCode) : Option Line :=
  if step = .shutdown then report ec
  else if ec.failed then some { text := step.name ++ [':', ' '], ec } else none

/-- One handler's work: it starts at most one step and writes at most one line. -/
structure Goes (session : Session) (step : Option Step) (line : Option Line)
    (session' : Session) : Prop where
  inFlight : session'.inFlight = step
  started : session'.started = session.started ++ step.toList
  stderr : session'.stderr = session.stderr ++ line.toList

/-- The handlers start the next one of the steps, and write the lines of `emit`. -/
def Performs (handlers : Handlers) (steps : List Step) (report : ErrorCode → Option Line) : Prop :=
  ∀ step ∈ steps, ∀ ec session, session.inFlight = none →
    Goes session (next steps step ec) (emit report step ec) (handlers step ec session)

section Goes

variable {session : Session} (hnone : session.inFlight = none)
include hnone

theorem goes_forward (step after : Step) (ec : ErrorCode) :
    Goes session (if ec.failed then none else some after)
      (if ec.failed then some { text := step.name ++ [':', ' '], ec } else none)
      (forward step.name after ec session) := by
  rw [forward]
  split_ifs
  · exact ⟨hnone, (List.append_nil _).symm, rfl⟩
  · exact ⟨rfl, rfl, (List.append_nil _).symm⟩

theorem goes_onRead (ec : ErrorCode) :
    Goes session (if ec.failed then none else some .shutdown)
      (if ec.failed then some { text := Step.read.name ++ [':', ' '], ec } else none)
      (onRead ec session) := by
  rw [onRead]
  split_ifs
  · exact ⟨hnone, (List.append_nil _).symm, rfl⟩
  · exact ⟨rfl, rfl, (List.append_nil _).symm⟩

/-- The end of a session, which writes a line or nothing. -/
theorem goes_end {P : Prop} [Decidable P] (what : Str) (ec : ErrorCode) :
    Goes session none (if P then some { text := what ++ [':', ' '], ec } else none)
      (if P then fail ec what session else session) := by
  split_ifs
  · exact ⟨hnone, (List.append_nil _).symm, rfl⟩
  · exact ⟨hnone, (List.append_nil _).symm, (List.append_nil _).symm⟩

end Goes

/-- What each class reports of the shutdown. -/
def Networking.report (ec : ErrorCode) : Option Line :=
  if ec.failed ∧ ec ≠ notConnected then some { text := "shutdown".toList ++ [':', ' '], ec }
  else none

/-- What is written of the end of the shutdown. -/
def HTTPClientAsync.report (err : ErrorCode) : Option Line :=
  if err.failed then some { text := "shutdown failed".toList ++ [':', ' '], ec := err } else none

/-- What is written of the end of the shutdown, also of a success. -/
def HTTPSClientAsync.report (ec : ErrorCode) : Option Line :=
  if .streamTruncated ≠ ec then some { text := "shutdown".toList ++ [':', ' '], ec } else none

theorem next_tcp_shutdown (ec : ErrorCode) : next tcpSteps .shutdown ec = none := by
  unfold next
  exact ite_self _

theorem next_tls_shutdown (ec : ErrorCode) : next tlsSteps .shutdown ec = none := by
  unfold next
  exact ite_self _

theorem Networking.performs : Performs handlers tcpSteps report := by
  intro step hstep ec session hnone
  cases step with
  | resolve => exact goes_forward hnone .resolve .connect ec
  | connect => exact goes_forward hnone .connect .write ec
  | handshake => exact absurd hstep (by decide)
  | write => exact goes_forward hnone .write .read ec
  | read => exact goes_onRead hnone ec
  | shutdown =>
    rw [next_tcp_shutdown]
    exact goes_end hnone "shutdown".toList ec

/-- Handlers that differ in the shutdown alone perform the same steps. -/
theorem Performs.of_shutdown {handlers handlers' : Handlers} {steps : List Step}
    {report report' : ErrorCode → Option Line} (h : Performs handlers steps report)
    (hsame : ∀ step, step ≠ .shutdown → handlers' step = handlers step)
    (hshutdown : ∀ ec session, session.inFlight = none →
      Goes session (next steps .shutdown ec) (report' ec) (handlers' .shutdown ec session)) :
    Performs handlers' steps report' := by
  intro step hstep ec session hnone
  by_cases hstepEq : step = .shutdown
  · subst hstepEq
    exact hshutdown ec session hnone
  · have hgoes := h step hstep ec session hnone
    rw [emit, if_neg hstepEq] at hgoes
    rw [hsame step hstepEq, emit, if_neg hstepEq]
    exact hgoes

theorem HTTPClientAsync.performs : Performs handlers tcpSteps report := by
  apply Networking.performs.of_shutdown
  · intro step hstep
    cases step with
    | resolve | connect | handshake | write | read => rfl
    | shutdown => exact absurd rfl hstep
  · intro ec session hnone
    rw [next_tcp_shutdown]
    exact goes_end hnone "shutdown failed".toList ec

theorem HTTPSClientAsync.performs : Performs handlers tlsSteps report := by
  intro step hstep ec session hnone
  cases step with
  | resolve => exact goes_forward hnone .resolve .connect ec
  | connect => exact goes_forward hnone .connect .handshake ec
  | handshake => exact goes_forward hnone .handshake .write ec
  | write => exact goes_forward hnone .write .read ec
  | read => exact goes_onRead hnone ec
  | shutdown =>
    rw [next_tls_shutdown]
    exact goes_end hnone "shutdown".toList ec

theorem linear_tcp : Linear (next tcpSteps) ErrorCode.failed .resolve tcpSteps.tail :=
  .step (fun _ => rfl) (.step (fun _ => rfl) (.step (fun _ => rfl) (.step (fun _ => rfl)
    (.last next_tcp_shutdown))))

theorem linear_tls : Linear (next tlsSteps) ErrorCode.failed .resolve tlsSteps.tail :=
  .step (fun _ => rfl) (.step (fun _ => rfl) (.step (fun _ => rfl) (.step (fun _ => rfl)
    (.step (fun _ => rfl) (.last next_tls_shutdown)))))

/-! ## What should be reported -/

/-- The first failing step, with its error. -/
def failing (steps : List Step) (outcomes : List ErrorCode) : Option (Step × ErrorCode) :=
  (steps.zip outcomes).find? fun exchange => exchange.2.failed

/-- The lines report a failure, once and with the name of the step, unless it is the
error to be ignored at the shutdown. -/
def Reported (ignorable : ErrorCode) (lines : List Line) : Option (Step × ErrorCode) → Prop
  | none => lines = []
  | some (step, ec) =>
    if step = .shutdown ∧ ec = ignorable then lines = []
    else ∃ line, lines = [line] ∧ step.name <+: line.text ∧ line.ec = ec

/-- A session that has been run, after the outcomes; it takes as many of them as it
has steps. -/
def after (handlers : Handlers) (session : Session) (outcomes : List ErrorCode) : Session :=
  outcomes.foldl (complete handlers) session

/-- The steps started go up to the first failing one, and that one is reported. -/
def Lawful (handlers : Handlers) (session : Session) (steps : List Step) (ignorable : ErrorCode)
    (outcomes : List ErrorCode) : Prop :=
  (after handlers session outcomes).started =
    steps.take ((outcomes.takeWhile fun ec => !ec.failed).length + 1) ∧
  Reported ignorable (after handlers session outcomes).stderr (failing steps outcomes)

/-- The outcome of the shutdown, if the `n` steps before it have succeeded. -/
def shutdownOutcome (n : ℕ) (outcomes : List ErrorCode) : Option ErrorCode :=
  if outcomes.take n = List.replicate n .success then outcomes[n]? else none

section Law

variable {steps : List Step} {report : ErrorCode → Option Line} {handlers : Handlers}
  {ignorable : ErrorCode} {outcomes : List ErrorCode}

theorem failing_cons_of_failed {op : Step} {ops : List Step} {ec : ErrorCode}
    (h : ec.failed = true) : failing (op :: ops) (ec :: outcomes) = some (op, ec) := by
  simp [failing, h]

theorem failing_cons_success (op : Step) (ops : List Step) :
    failing (op :: ops) (.success :: outcomes) = failing ops outcomes := by
  simp [failing, ErrorCode.failed]

theorem shutdownOutcome_cons_of_failed {n : ℕ} {ec : ErrorCode} (h : ec.failed = true) :
    shutdownOutcome (n + 1) (ec :: outcomes) = none := by
  refine if_neg fun heq => ?_
  rw [List.take_succ_cons, List.replicate_succ, List.cons.injEq] at heq
  rw [heq.1] at h
  exact Bool.false_ne_true h

theorem shutdownOutcome_cons_success (n : ℕ) :
    shutdownOutcome (n + 1) (.success :: outcomes) = shutdownOutcome n outcomes := by
  simp [shutdownOutcome, List.replicate_succ]

/-- What a session reports is right exactly if what it reports of the shutdown is:
the steps before it are all alike. -/
theorem reported_iff {op : Step} {ops : List Step}
    (h : Linear (next steps) ErrorCode.failed op ops)
    (hlast : (op :: ops).getLast? = some .shutdown) (hmem : .shutdown ∉ (op :: ops).dropLast) :
    Reported ignorable (emitted (next steps) (emit report) op outcomes)
        (failing (op :: ops) outcomes) ↔
      ∀ ec, shutdownOutcome ops.length outcomes = some ec →
        Reported ignorable (report ec).toList (failing [.shutdown] [ec]) := by
  induction h generalizing outcomes with
  | @last op hnone =>
    obtain rfl : op = .shutdown := by simpa using hlast
    cases outcomes with
    | nil => simp [failing, Reported, shutdownOutcome]
    | cons ec rest =>
      rw [emitted_cons_of_none (hnone ec)]
      have hfailing : failing [.shutdown] (ec :: rest) = failing [.shutdown] [ec] := rfl
      simp [hfailing, shutdownOutcome, emit]
  | @step op op' ops hnext _ ih =>
    rw [List.dropLast_cons_cons, List.mem_cons, not_or] at hmem
    obtain ⟨hne, hmem⟩ := hmem
    cases outcomes with
    | nil => simp [failing, Reported, shutdownOutcome, List.replicate_succ]
    | cons ec rest =>
      rcases ec.failed_or_eq_success with hec | rfl
      · -- The step is not the shutdown, so its line names it.
        rw [emitted_cons_of_none ((hnext ec).trans (if_pos hec)), failing_cons_of_failed hec,
          emit, if_neg (Ne.symm hne), if_pos hec, List.length_cons,
          shutdownOutcome_cons_of_failed hec]
        refine iff_of_true ?_ nofun
        rw [Reported, if_neg fun hshutdown => hne hshutdown.1.symm]
        exact ⟨_, rfl, List.prefix_append _ _, rfl⟩
      · have hemit : emit report op .success = none := if_neg (Ne.symm hne)
        rw [emitted_cons_of_some ((hnext .success).trans (if_neg Bool.false_ne_true)), hemit,
          Option.toList_none, List.nil_append, failing_cons_success, List.length_cons,
          shutdownOutcome_cons_success]
        exact ih hlast hmem

theorem mem_of_next {step step' : Step} {ec : ErrorCode} (h : next steps step ec = some step') :
    step' ∈ steps := by
  rw [next] at h
  split_ifs at h
  have hmem := List.mem_of_mem_tail (List.mem_of_head? h)
  exact (List.dropWhile_sublist _).subset hmem

/-- A class whose handlers perform the steps follows their dialogue. -/
theorem Performs.follows (h : Performs handlers steps report) :
    Follows (next steps) (complete handlers)
      (fun session step => session.inFlight = some step ∧ step ∈ steps)
      (fun session => session.inFlight = none) where
  continues := by
    rintro session step ec step' ⟨hflight, hstep⟩ hnext
    have hgoes := h step hstep ec { session with inFlight := none } rfl
    rw [complete, hflight]
    exact ⟨hgoes.inFlight.trans hnext, mem_of_next hnext⟩
  stops := by
    rintro session step ec ⟨hflight, hstep⟩ hnext
    have hgoes := h step hstep ec { session with inFlight := none } rfl
    rw [complete, hflight]
    exact hgoes.inFlight.trans hnext
  rests := by
    intro session ec hidle
    rw [complete, hidle]

/-- **What a class does is lawful exactly if it is at the shutdown.** -/
theorem lawful_iff {ops : List Step} (h : Performs handlers (.resolve :: ops) report)
    (hlinear : Linear (next (.resolve :: ops)) ErrorCode.failed .resolve ops)
    (hlast : (.resolve :: ops).getLast? = some Step.shutdown)
    (hmem : Step.shutdown ∉ (Step.resolve :: ops).dropLast) :
    Lawful handlers (run {}) (.resolve :: ops) ignorable outcomes ↔
      ∀ ec, shutdownOutcome ops.length outcomes = some ec →
        Reported ignorable (report ec).toList (failing [.shutdown] [ec]) := by
  have hstart : (run {}).inFlight = some Step.resolve ∧ Step.resolve ∈ Step.resolve :: ops :=
    ⟨rfl, List.mem_cons_self⟩
  have hgoes : ∀ (session : Session) step ec, session.inFlight = some step ∧
      step ∈ Step.resolve :: ops →
      Goes { session with inFlight := none } (next (.resolve :: ops) step ec)
        (emit report step ec) (complete handlers session ec) := by
    rintro session step ec ⟨hflight, hstep⟩
    rw [complete, hflight]
    exact h step hstep ec { session with inFlight := none } rfl
  have hstarted : (after handlers (run {}) outcomes).started =
      trace (next (.resolve :: ops)) .resolve outcomes :=
    h.follows.log_run Session.started
      (fun session step ec hsession => (hgoes session step ec hsession).started) hstart outcomes
  have hstderr : (after handlers (run {}) outcomes).stderr =
      emitted (next (.resolve :: ops)) (emit report) .resolve outcomes :=
    h.follows.log_run Session.stderr
      (fun session step ec hsession => (hgoes session step ec hsession).stderr) hstart outcomes
  rw [← reported_iff hlinear hlast hmem, Lawful, hstarted, hstderr, hlinear.trace_eq]
  exact and_iff_right rfl

end Law

/-! ## The three classes -/

theorem failing_shutdown (ec : ErrorCode) :
    failing [.shutdown] [ec] = if ec.failed then some (.shutdown, ec) else none := by
  cases hec : ec.failed <;> simp [failing, hec]

theorem Networking.reported_shutdown (ec : ErrorCode) :
    Reported notConnected (report ec).toList (failing [.shutdown] [ec]) := by
  rw [failing_shutdown, report]
  by_cases hfailed : ec.failed = true
  · by_cases hec : ec = notConnected
    · simp [hec, Reported, notConnected, ErrorCode.failed]
    · rw [if_pos ⟨hfailed, hec⟩, if_pos hfailed, Reported, if_neg fun h => hec h.2]
      exact ⟨_, rfl, List.prefix_append _ _, rfl⟩
  · rw [if_neg fun h => hfailed h.1, if_neg hfailed]
    rfl

theorem HTTPClientAsync.reported_shutdown_iff (err : ErrorCode) :
    Reported notConnected (report err).toList (failing [.shutdown] [err]) ↔
      err ≠ notConnected := by
  rw [failing_shutdown, report]
  by_cases hfailed : err.failed = true
  · rw [if_pos hfailed, if_pos hfailed, Reported]
    by_cases herr : err = notConnected
    · rw [if_pos ⟨rfl, herr⟩]
      exact iff_of_false (List.cons_ne_nil _ _) fun h => h herr
    · rw [if_neg fun h => herr h.2]
      refine iff_of_true ⟨_, rfl, ?_, rfl⟩ herr
      exact (List.prefix_append _ [' ', 'f', 'a', 'i', 'l', 'e', 'd']).trans (List.prefix_append _ _)
  · rw [if_neg hfailed, if_neg hfailed]
    refine iff_of_true rfl ?_
    rintro rfl
    exact hfailed rfl

theorem HTTPSClientAsync.reported_shutdown_iff (ec : ErrorCode) :
    Reported .streamTruncated (report ec).toList (failing [.shutdown] [ec]) ↔ ec ≠ .success := by
  rw [failing_shutdown, report]
  cases ec with
  | success => exact iff_of_false (List.cons_ne_nil _ _) fun h => h rfl
  | streamTruncated => exact iff_of_true rfl nofun
  | noSuchFileOrDirectory => exact iff_of_true ⟨_, rfl, List.prefix_append _ _, rfl⟩ nofun
  | endOfStream => exact iff_of_true ⟨_, rfl, List.prefix_append _ _, rfl⟩ nofun
  | other value => exact iff_of_true ⟨_, rfl, List.prefix_append _ _, rfl⟩ nofun

/-- **When the clients report lawfully.** The client of `Networking/Beast.cpp`
always does. The one of `Beast/http/Client.cpp` does unless the steps before the
shutdown succeed and the shutdown gives `not_connected`, and the TLS client does
unless every step succeeds. -/
theorem clients_lawful_iff (outcomes : List ErrorCode) :
    Lawful Networking.handlers (run {}) tcpSteps notConnected outcomes ∧
    (Lawful HTTPClientAsync.handlers (run {}) tcpSteps notConnected outcomes ↔
      shutdownOutcome 4 outcomes ≠ some notConnected) ∧
    (Lawful HTTPSClientAsync.handlers (HTTPSClientAsync.run .success {}) tlsSteps
        .streamTruncated outcomes ↔
      shutdownOutcome 5 outcomes ≠ some .success) := by
  have hne : ∀ {outcome : Option ErrorCode} {code : ErrorCode},
      (∀ ec, outcome = some ec → ec ≠ code) ↔ outcome ≠ some code := by
    intro outcome code
    exact ⟨fun h hcode => h code hcode rfl, fun h ec hec hcode => h (hcode ▸ hec)⟩
  refine ⟨?_, ?_, ?_⟩
  · rw [tcpSteps, lawful_iff Networking.performs linear_tcp rfl (by decide)]
    exact fun ec _ => Networking.reported_shutdown ec
  · rw [tcpSteps, lawful_iff HTTPClientAsync.performs linear_tcp rfl (by decide)]
    simp only [HTTPClientAsync.reported_shutdown_iff]
    exact hne
  · have hrun : HTTPSClientAsync.run .success {} = run {} := rfl
    rw [hrun, tlsSteps, lawful_iff HTTPSClientAsync.performs linear_tls rfl (by decide)]
    simp only [HTTPSClientAsync.reported_shutdown_iff]
    exact hne

/-- The TLS client reports a run in which every step succeeds, and the TCP client of
`Beast/http/Client.cpp` one whose only failure is to be ignored. -/
theorem not_lawful_success :
    ¬ Lawful HTTPSClientAsync.handlers (HTTPSClientAsync.run .success {}) tlsSteps
        .streamTruncated (List.replicate 6 .success) ∧
      ¬ Lawful HTTPClientAsync.handlers (run {}) tcpSteps notConnected
        (List.replicate 4 .success ++ [notConnected]) := by
  constructor
  · rintro ⟨-, hreported⟩
    have hstderr : (after HTTPSClientAsync.handlers (HTTPSClientAsync.run .success {})
        (List.replicate 6 .success)).stderr = [] := hreported
    exact absurd hstderr (by decide)
  · rintro ⟨-, hreported⟩
    have hstderr : (after HTTPClientAsync.handlers (run {})
        (List.replicate 4 .success ++ [notConnected])).stderr = [] := hreported
    exact absurd hstderr (by decide)

end BoostProjects.Beast.Http.Client
