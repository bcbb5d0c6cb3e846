import BoostProjects.Beast.Http.Client
import BoostProjects.Library.Direct

/-!
# The HTTP clients in direct style

The request of the callback classes is also sent by functions that are written
from top to bottom: `SimpleHttpGetRequest` blocks in every step,
`Coroutine_HTTP_Client::do_session` is a stackful coroutine that stores each error
code, `Awaitable_Client::do_session` and `HTTPS_Awaitable::do_session` are
coroutines that an error leaves as an exception.

All of them speak the dialogue of the callback classes. So over every list of
outcomes they start the same steps, print the response in the same runs, and fail
with the same error; where one of them departs from that is stated exactly.
-/

namespace BoostProjects.Beast.Http.Client

open Boost Cpp Dialogue Direct

/-! ## The programs -/

/-- What a program writes: the response to the standard output, or a line to the
standard error stream. -/
inductive Effect
  | response
  | line (line : Line)
  deriving DecidableEq, Repr

/-- A `system_error`, made from a code and a text, which may be missing. In front of the
message of the code `what()` has this text. -/
structure SystemError where
  ec : ErrorCode
  what : Str := []
  deriving DecidableEq, Repr

/-- A client: it waits for steps, and the outcome of each is an error code. -/
abbrev Direct (ε : Type) := Program Step ErrorCode Effect ε

/-- A step whose failure throws, with the text of the step. -/
def orThrow (what : Step → Str) (step : Step) (rest : Direct SystemError) : Direct SystemError :=
  .await step fun ec => if ec.failed then .throw { ec, what := what step } else rest

/-- The texts of the blocking steps: those of Asio name the operation, those of Beast
nothing. -/
def Step.operation : Step → Str
  | .resolve => "resolve".toList
  | .connect => "connect".toList
  | .handshake | .write | .read | .shutdown => []

/-- What is thrown out of a `co_await` has the code alone. -/
def untitled (_ : Step) : Str := []

/-! ### `Client::SimpleHttpGetRequest` -/

/-- The error code of the shutdown is not looked at. -/
def simpleHttpGetRequest : Direct SystemError :=
  orThrow Step.operation .resolve <|
  orThrow Step.operation .connect <|
  orThrow Step.operation .write <|
  orThrow Step.operation .read <|
  .perform .response <|
  .await .shutdown fun _ => .done

/-! ### `Coroutine_HTTP_Client` -/

namespace CoroutineHTTPClient

/-- `fail`, and the end of the coroutine. -/
def fail (ec : ErrorCode) (what : Str) : Direct Empty :=
  .perform (.line { text := what ++ [':', ' '], ec }) .done

/-- `Coroutine_HTTP_Client::do_session` -/
def doSession : Direct Empty :=
  .await .resolve fun ec =>
  if ec.failed then fail ec "resolve".toList else
  .await .connect fun ec =>
  if ec.failed then fail ec "connect".toList else
  .await .write fun ec =>
  if ec.failed then fail ec "write".toList else
  .await .read fun ec =>
  if ec.failed then fail ec "read".toList else
  .perform .response <|
  .await .shutdown fun ec =>
  if ec.failed ∧ ec ≠ notConnected then fail ec "shutdown".toList else .done

end CoroutineHTTPClient

/-! ### `Awaitable_Client` -/

namespace AwaitableClient

/-- `Awaitable_Client::do_session` -/
def doSession : Direct SystemError :=
  orThrow untitled .resolve <|
  orThrow untitled .connect <|
  orThrow untitled .write <|
  orThrow untitled .read <|
  .perform .response <|
  .await .shutdown fun ec =>
  if ec.failed ∧ ec ≠ notConnected then .throw { ec, what := "shutdown".toList } else .done

/-- What is written of an exception: `what()` is the message, behind the text if
there is one. -/
def errorLine (exception : SystemError) : Line :=
  { text := "Error: ".toList ++
      if exception.what = [] then [] else exception.what ++ [':', ' ']
    ec := exception.ec }

/-- `sendRequest`: the exception of the coroutine is thrown again out of `run`. -/
def sendRequest : Direct Empty :=
  doSession.handle fun exception => .perform (.line (errorLine exception)) .done

end AwaitableClient

/-! ### `HTTPS_Awaitable` -/

namespace HTTPSAwaitable

/-- `do_session`, with `sni` the error of setting the host name. -/
def doSession (sni : ErrorCode) : Direct SystemError :=
  if sni.failed then .throw { ec := sni } else
  orThrow untitled .resolve <|
  orThrow untitled .connect <|
  orThrow untitled .handshake <|
  orThrow untitled .write <|
  orThrow untitled .read <|
  .perform .response <|
  .await .shutdown fun ec =>
  if ec.failed ∧ ec ≠ .streamTruncated then .throw { ec, what := "shutdown".toList } else .done

end HTTPSAwaitable

/-! ## The callback classes, as records -/

/-- What a session with callbacks has done. -/
def Session.record (session : Session) : Record Step Effect Empty :=
  { started := session.started
    effects := (if session.printed then [.response] else []) ++ session.stderr.map .line }

/-- What is written at each step, when `report` is what is reported of the
shutdown. -/
def effect (report : ErrorCode → Option Line) (step : Step) (ec : ErrorCode) : Option Effect :=
  if step = .read ∧ ec.failed = false then some .response else (emit report step ec).map .line

theorem effect_shutdown (report : ErrorCode → Option Line) (ec : ErrorCode) :
    effect report .shutdown ec = (report ec).map .line :=
  if_neg fun h => nomatch h.1

/-- The response is printed when it has been read. -/
def Prints (handlers : Handlers) (steps : List Step) : Prop :=
  ∀ step ∈ steps, ∀ ec session,
    (handlers step ec session).printed = (session.printed || (step = .read && !ec.failed))

theorem printed_forward (what : Str) (after : Step) (ec : ErrorCode) (session : Session) :
    (forward what after ec session).printed = session.printed := by
  rw [forward]
  split_ifs <;> rfl

theorem printed_onRead (ec : ErrorCode) (session : Session) :
    (onRead ec session).printed = (session.printed || !ec.failed) := by
  rw [onRead]
  cases hec : ec.failed <;> simp [fail, Session.start]

theorem printed_ite_fail {P : Prop} [Decidable P] (ec : ErrorCode) (what : Str)
    (session : Session) :
    (if P then fail ec what session else session).printed = session.printed := by
  split_ifs <;> rfl

theorem Networking.prints : Prints handlers tcpSteps := by
  intro step hstep ec session
  cases step with
  | resolve | connect | write =>
    rw [handlers]
    exact (printed_forward _ _ _ _).trans (by simp)
  | handshake => exact absurd hstep (by decide)
  | read =>
    rw [handlers, printed_onRead]
    simp
  | shutdown =>
    rw [handlers]
    exact (printed_ite_fail ec _ session).trans (by simp)

theorem HTTPSClientAsync.prints : Prints handlers tlsSteps := by
  intro step _ ec session
  cases step with
  | resolve | connect | handshake | write =>
    rw [handlers]
    exact (printed_forward _ _ _ _).trans (by simp)
  | read =>
    rw [handlers, printed_onRead]
    simp
  | shutdown =>
    rw [handlers]
    exact (printed_ite_fail ec _ session).trans (by simp)

/-- The shutdown is the last step, and follows a read that succeeds. -/
structure Closes (steps : List Step) : Prop where
  read : ∀ step ec, next steps step ec = some .shutdown ↔ step = .read ∧ ec.failed = false
  last : ∀ ec, next steps .shutdown ec = none

theorem closes_tcp : Closes tcpSteps where
  read step ec := by
    cases hec : ec.failed <;> cases step <;> simp [next, hec, tcpSteps]
  last := next_tcp_shutdown

theorem closes_tls : Closes tlsSteps where
  read step ec := by
    cases hec : ec.failed <;> cases step <;> simp [next, hec, tlsSteps]
  last := next_tls_shutdown

/-- The session waits for `step`: it has reported nothing, and has printed the
response if it is at the shutdown. -/
structure Waits (steps : List Step) (session : Session) (step : Step) : Prop where
  inFlight : session.inFlight = some step
  mem : step ∈ steps
  stderr : session.stderr = []
  printed : session.printed = decide (step = .shutdown)

section Record

variable {handlers : Handlers} {steps : List Step} {report : ErrorCode → Option Line}
  {session : Session} {step step' : Step} {ec : ErrorCode}

theorem failed_of_next (h : next steps step ec = some step') : ec.failed = false := by
  rw [next] at h
  split_ifs at h with hec
  exact Bool.not_eq_true _ ▸ hec

theorem Waits.goes (h : Waits steps session step) (hperforms : Performs handlers steps report) :
    Goes session (next steps step ec) (emit report step ec) (complete handlers session ec) := by
  have hgoes := hperforms step h.mem ec { session with inFlight := none } rfl
  rw [complete, h.inFlight]
  exact ⟨hgoes.inFlight, hgoes.started, hgoes.stderr⟩

theorem Waits.printed_complete (h : Waits steps session step) (hprints : Prints handlers steps) :
    (complete handlers session ec).printed =
      (decide (step = .shutdown) || (step = .read && !ec.failed)) := by
  rw [complete, h.inFlight, hprints step h.mem, h.printed]

theorem follows_waits (hperforms : Performs handlers steps report)
    (hprints : Prints handlers steps) (hcloses : Closes steps) :
    Follows (next steps) (complete handlers) (Waits steps)
      (fun session => session.inFlight = none) where
  continues := by
    intro session step ec step' h hnext
    have hec : ec.failed = false := failed_of_next hnext
    have hstep : step ≠ .shutdown := by
      rintro rfl
      exact Option.some_ne_none step' (hnext.symm.trans (hcloses.last ec))
    refine ⟨(h.goes hperforms).inFlight.trans hnext, mem_of_next hnext, ?_, ?_⟩
    · rw [(h.goes hperforms).stderr, h.stderr, emit, if_neg hstep, hec]
      rfl
    · have hread := hcloses.read step ec
      rw [hnext, Option.some_inj] at hread
      rw [h.printed_complete hprints]
      simp [hstep, hec, hread]
  stops := fun _ _ _ h hnext => (h.goes hperforms).inFlight.trans hnext
  rests := by
    intro session ec hidle
    rw [complete, hidle]

/-- What one completion adds to what a session has written. -/
theorem Waits.effects_complete (h : Waits steps session step)
    (hperforms : Performs handlers steps report) (hprints : Prints handlers steps) :
    (complete handlers session ec).record.effects =
      session.record.effects ++ (effect report step ec).toList := by
  have hstderr : (complete handlers session ec).stderr = (emit report step ec).toList := by
    rw [(h.goes hperforms).stderr, h.stderr, List.nil_append]
  rw [Session.record, Session.record, hstderr, h.printed_complete hprints, h.printed, h.stderr]
  by_cases hread : step = .read ∧ ec.failed = false
  · obtain ⟨rfl, hec⟩ := hread
    simp [effect, emit, hec]
  · have hnot : (decide (step = .read) && !ec.failed) = false := by
      rw [← Bool.not_eq_true, Bool.and_eq_true, decide_eq_true_iff, Bool.not_eq_true']
      exact hread
    rw [effect, if_neg hread, hnot, Bool.or_false]
    cases emit report step ec <;> simp

theorem stderr_after (hperforms : Performs handlers (.resolve :: steps) report)
    (outcomes : List ErrorCode) :
    (after handlers (run {}) outcomes).stderr =
      emitted (next (.resolve :: steps)) (emit report) .resolve outcomes := by
  refine hperforms.follows.log_run Session.stderr ?_ ⟨rfl, List.mem_cons_self⟩ outcomes
  rintro session step ec ⟨hflight, hmem⟩
  rw [complete, hflight]
  exact (hperforms step hmem ec _ rfl).stderr

/-- **What a callback class does is what its dialogue says.** -/
theorem record_after (hperforms : Performs handlers (.resolve :: steps) report)
    (hprints : Prints handlers (.resolve :: steps)) (hcloses : Closes (.resolve :: steps))
    (outcomes : List ErrorCode) :
    (after handlers (run {}) outcomes).record =
      { started := trace (next (.resolve :: steps)) .resolve outcomes
        effects := emitted (next (.resolve :: steps)) (effect report) .resolve outcomes } := by
  have hfollows := follows_waits hperforms hprints hcloses
  have hstart : Waits (.resolve :: steps) (run {}) .resolve :=
    ⟨rfl, List.mem_cons_self, rfl, rfl⟩
  have hstarted := hfollows.log_run Session.started
    (fun _ _ _ h => (h.goes hperforms).started) hstart outcomes
  have heffects := hfollows.log_run (fun session => session.record.effects)
    (fun _ _ _ h => h.effects_complete hperforms hprints) hstart outcomes
  rw [Session.record, Record.mk.injEq]
  exact ⟨hstarted, heffects, rfl⟩

end Record

/-! ## The programs speak the dialogues -/

section Speaks

variable {ε : Type} {steps : List Step} {emit : Step → ErrorCode → Option Effect}
  {raise : Step → ErrorCode → Option ε} {step step' : Step} {body rest : Direct ε}
  {otherwise : ErrorCode → Direct ε}

/-- A step that must succeed: the program ends at a failure, and goes on with
`rest` otherwise. -/
theorem speaks_step
    (hnext : ∀ ec, next steps step ec = if ec.failed then none else some step')
    (hbad : ∀ ec, ec.failed = true →
      otherwise ec = (Program.ending (raise step ec)).performs (emit step ec))
    (hgood : body = rest.performs (emit step .success)) (hquiet : raise step .success = none)
    (hrest : Speaks (next steps) emit raise step' rest) :
    Speaks (next steps) emit raise step
      (.await step fun ec => if ec.failed then otherwise ec else body) := by
  have hresume : ∀ ec : ErrorCode, (if ec.failed then otherwise ec else body) =
      (if ec.failed then Program.ending (raise step ec) else rest).performs (emit step ec) := by
    intro ec
    rcases ec.failed_or_eq_success with hec | rfl
    · rw [if_pos hec, if_pos hec, hbad ec hec]
    · exact hgood
  refine .step hnext hresume (fun ec hec => if_pos hec) (fun ec hec => ?_)
  obtain rfl := ErrorCode.failed_eq_false_iff.mp hec
  exact ⟨hquiet, hrest⟩

/-- The last step, whatever its outcome. -/
theorem speaks_last (hnext : ∀ ec, next steps step ec = none)
    (hend : ∀ ec, otherwise ec = (Program.ending (raise step ec)).performs (emit step ec)) :
    Speaks (next steps) emit raise step (.await step otherwise) := by
  refine .await hend (fun _ _ => rfl) ?_ ?_
  · intro ec step' h
    exact absurd ((hnext ec).symm.trans h) nofun
  · intro ec step' h
    exact absurd ((hnext ec).symm.trans h) nofun

end Speaks

/-- No exception leaves the program. -/
def quiet (_ : Step) (_ : ErrorCode) : Option Empty := none

theorem CoroutineHTTPClient.speaks_doSession :
    Speaks (next tcpSteps) (effect Networking.report) quiet .resolve doSession := by
  have hbad : ∀ step : Step, step ≠ .shutdown → ∀ ec : ErrorCode, ec.failed = true →
      fail ec step.name =
        (Program.ending (quiet step ec)).performs (effect Networking.report step ec) := by
    intro step hstep ec hec
    rw [effect, if_neg (by simp [hec]), emit, if_neg hstep, if_pos hec]
    rfl
  refine speaks_step (fun _ => rfl) (hbad .resolve (by decide)) rfl rfl ?_
  refine speaks_step (fun _ => rfl) (hbad .connect (by decide)) rfl rfl ?_
  refine speaks_step (fun _ => rfl) (hbad .write (by decide)) rfl rfl ?_
  refine speaks_step (fun _ => rfl) (hbad .read (by decide)) rfl rfl ?_
  refine speaks_last next_tcp_shutdown fun ec => ?_
  rw [effect_shutdown, Networking.report]
  split_ifs <;> rfl

/-- What leaves a client that throws: the code of the step that fails, with its text, and at
the shutdown what `report` says. -/
def raised (what : Step → Str) (report : ErrorCode → Option SystemError) (step : Step)
    (ec : ErrorCode) : Option SystemError :=
  if step = .shutdown then report ec
  else if ec.failed then some { ec, what := what step } else none

/-- The response, and nothing else. -/
def prints (step : Step) (ec : ErrorCode) : Option Effect :=
  if step = .read ∧ ec.failed = false then some .response else none

section Throws

variable {steps : List Step} {what : Step → Str} {report : ErrorCode → Option SystemError}
  {step step' : Step}
  {body rest : Direct SystemError}

theorem speaks_orThrow (hstep : step ≠ .shutdown)
    (hnext : ∀ ec, next steps step ec = if ec.failed then none else some step')
    (hgood : body = rest.performs (prints step .success))
    (hrest : Speaks (next steps) prints (raised what report) step' rest) :
    Speaks (next steps) prints (raised what report) step (orThrow what step body) := by
  refine speaks_step hnext (fun ec hec => ?_) hgood ?_ hrest
  · rw [prints, if_neg (by simp [hec]), raised, if_neg hstep, if_pos hec]
    rfl
  · rw [raised, if_neg hstep]
    rfl

theorem speaks_shutdown {otherwise : ErrorCode → Direct SystemError}
    (hnext : ∀ ec, next steps .shutdown ec = none)
    (hend : ∀ ec, otherwise ec = Program.ending (report ec)) :
    Speaks (next steps) prints (raised what report) .shutdown (.await .shutdown otherwise) := by
  refine speaks_last hnext fun ec => ?_
  exact hend ec

end Throws

/-- The shutdown throws, with its text, unless the error is to be ignored. -/
def raisedUnless (ignorable ec : ErrorCode) : Option SystemError :=
  if ec.failed ∧ ec ≠ ignorable then some { ec, what := "shutdown".toList } else none

theorem AwaitableClient.speaks_doSession :
    Speaks (next tcpSteps) prints (raised untitled (raisedUnless notConnected)) .resolve
      doSession := by
  refine speaks_orThrow (by decide) (fun _ => rfl) rfl ?_
  refine speaks_orThrow (by decide) (fun _ => rfl) rfl ?_
  refine speaks_orThrow (by decide) (fun _ => rfl) rfl ?_
  refine speaks_orThrow (by decide) (fun _ => rfl) rfl ?_
  refine speaks_shutdown next_tcp_shutdown fun ec => ?_
  rw [raisedUnless]
  split_ifs <;> rfl

theorem speaks_simpleHttpGetRequest :
    Speaks (next tcpSteps) prints (raised Step.operation fun _ => none) .resolve
      simpleHttpGetRequest := by
  refine speaks_orThrow (by decide) (fun _ => rfl) rfl ?_
  refine speaks_orThrow (by decide) (fun _ => rfl) rfl ?_
  refine speaks_orThrow (by decide) (fun _ => rfl) rfl ?_
  refine speaks_orThrow (by decide) (fun _ => rfl) rfl ?_
  exact speaks_shutdown next_tcp_shutdown fun _ => rfl

theorem HTTPSAwaitable.speaks_doSession :
    Speaks (next tlsSteps) prints (raised untitled (raisedUnless .streamTruncated)) .resolve
      (doSession .success) := by
  refine speaks_orThrow (by decide) (fun _ => rfl) rfl ?_
  refine speaks_orThrow (by decide) (fun _ => rfl) rfl ?_
  refine speaks_orThrow (by decide) (fun _ => rfl) rfl ?_
  refine speaks_orThrow (by decide) (fun _ => rfl) rfl ?_
  refine speaks_orThrow (by decide) (fun _ => rfl) rfl ?_
  refine speaks_shutdown next_tls_shutdown fun ec => ?_
  rw [raisedUnless]
  split_ifs <;> rfl

/-! ## The agreement -/

/-- The response among what is written. -/
def Effect.response? : Effect → Option Effect
  | .response => some .response
  | .line _ => none

/-- A line of the callback class, as `sendRequest` writes it. -/
def Effect.relabel : Effect → Effect
  | .response => .response
  | .line written =>
    .line { written with
      text := "Error: ".toList ++
        if written.text = "shutdown: ".toList then "shutdown: ".toList else [] }

theorem response?_effect (report : ErrorCode → Option Line) (step : Step) (ec : ErrorCode) :
    (effect report step ec).bind Effect.response? = prints step ec := by
  rw [effect, prints]
  split_ifs
  · rfl
  · cases emit report step ec <;> rfl

theorem name_ne_shutdown {step : Step} (h : step ≠ .shutdown) :
    step.name ++ [':', ' '] ≠ "shutdown: ".toList := by
  cases step with
  | shutdown => exact absurd rfl h
  | resolve | connect | handshake | write | read => decide

theorem AwaitableClient.errorLine_of_ne {what : Str} (h : what ≠ []) (ec : ErrorCode) :
    errorLine { ec, what } = { text := "Error: ".toList ++ (what ++ [':', ' ']), ec } := by
  unfold errorLine
  rw [if_neg h]

theorem Effect.relabel_of_eq {text : Str} (h : text = "shutdown: ".toList) (ec : ErrorCode) :
    Effect.relabel (.line { text, ec }) =
      .line { text := "Error: ".toList ++ "shutdown: ".toList, ec } := by
  exact congrArg (fun text => Effect.line { text := "Error: ".toList ++ text, ec }) (if_pos h)

theorem Effect.relabel_of_ne {text : Str} (h : text ≠ "shutdown: ".toList) (ec : ErrorCode) :
    Effect.relabel (.line { text, ec }) = .line { text := "Error: ".toList ++ [], ec } := by
  exact congrArg (fun text => Effect.line { text := "Error: ".toList ++ text, ec }) (if_neg h)

theorem AwaitableClient.errorLine_shutdown (ec : ErrorCode) :
    Effect.line (errorLine { ec, what := "shutdown".toList }) =
      Effect.relabel (.line { text := "shutdown".toList ++ [':', ' '], ec }) := by
  have htext : "shutdown".toList ++ [':', ' '] = "shutdown: ".toList := by decide
  rw [errorLine_of_ne (by decide), Effect.relabel_of_eq htext, htext]

theorem AwaitableClient.errorLine_step {step : Step} (h : step ≠ .shutdown) (ec : ErrorCode) :
    Effect.line (errorLine { ec }) =
      Effect.relabel (.line { text := step.name ++ [':', ' '], ec }) :=
  (Effect.relabel_of_ne (name_ne_shutdown h) ec).symm

/-- What `sendRequest` writes at each step. -/
theorem AwaitableClient.relabel_effect (step : Step) (ec : ErrorCode) :
    (prints step ec).or
        ((raised untitled (raisedUnless notConnected) step ec).map fun exception =>
          Effect.line (errorLine exception)) =
      (effect Networking.report step ec).map Effect.relabel := by
  by_cases hread : step = .read ∧ ec.failed = false
  · rw [prints, effect, if_pos hread, if_pos hread, Option.some_or]
    rfl
  rw [prints, effect, if_neg hread, if_neg hread, raised, emit, Option.none_or]
  by_cases hstep : step = .shutdown
  · rw [if_pos hstep, if_pos hstep, raisedUnless, Networking.report]
    split_ifs
    · exact congrArg some (errorLine_shutdown ec)
    · rfl
  · rw [if_neg hstep, if_neg hstep]
    split_ifs
    · exact congrArg some (errorLine_step hstep ec)
    · rfl

section Failing

variable {δ : Type} {steps : List Step} {f g : Step → ErrorCode → Option δ} {step : Step}
  {ops : List Step} {outcomes : List ErrorCode}

/-- What is emitted at failures alone is emitted once, at the first of them. -/
theorem emitted_failing (h : Linear (next steps) ErrorCode.failed step ops)
    (hf : ∀ step, f step .success = none) :
    emitted (next steps) f step outcomes =
      ((failing (step :: ops) outcomes).bind fun failure => f failure.1 failure.2).toList := by
  induction h generalizing outcomes with
  | @last step hnone =>
    cases outcomes with
    | nil => rfl
    | cons ec rest =>
      rw [emitted_cons_of_none (hnone ec)]
      rcases ec.failed_or_eq_success with hec | rfl
      · rw [failing_cons_of_failed hec]
        rfl
      · rw [failing_cons_success, hf]
        rfl
  | @step step step' ops hnext _ ih =>
    cases outcomes with
    | nil => rfl
    | cons ec rest =>
      rcases ec.failed_or_eq_success with hec | rfl
      · rw [emitted_cons_of_none ((hnext ec).trans (if_pos hec)), failing_cons_of_failed hec]
        rfl
      · rw [emitted_cons_of_some ((hnext .success).trans (if_neg Bool.false_ne_true)), hf, ih,
          failing_cons_success]
        rfl

/-- Emissions that differ only when the last step succeeds. -/
theorem emitted_of_last {last : Step} {extra : δ}
    (h : Linear (next steps) ErrorCode.failed step ops)
    (hlast : (step :: ops).getLast? = some last) (hmem : last ∉ (step :: ops).dropLast)
    (hsame : ∀ step ec, ¬ (step = last ∧ ec = .success) → f step ec = g step ec)
    (hextra : f last .success = some extra ∧ g last .success = none) :
    emitted (next steps) f step outcomes = emitted (next steps) g step outcomes ++
      if shutdownOutcome ops.length outcomes = some .success then [extra] else [] := by
  induction h generalizing outcomes with
  | @last step hnone =>
    obtain rfl : step = last := by simpa using hlast
    cases outcomes with
    | nil => simp [shutdownOutcome]
    | cons ec rest =>
      rw [emitted_cons_of_none (hnone ec), emitted_cons_of_none (hnone ec)]
      rcases ec.failed_or_eq_success with hec | rfl
      · have hne : ec ≠ .success := by
          rintro rfl
          exact Bool.false_ne_true hec
        rw [hsame step ec fun h => hne h.2, if_neg (by simpa [shutdownOutcome] using hne),
          List.append_nil]
      · rw [hextra.1, hextra.2]
        simp [shutdownOutcome]
  | @step step step' ops hnext _ ih =>
    rw [List.dropLast_cons_cons, List.mem_cons, not_or] at hmem
    obtain ⟨hne, hmem⟩ := hmem
    cases outcomes with
    | nil => simp [shutdownOutcome, List.replicate_succ]
    | cons ec rest =>
      have hstep := hsame step ec fun h => hne h.1.symm
      rcases ec.failed_or_eq_success with hec | rfl
      · rw [emitted_cons_of_none ((hnext ec).trans (if_pos hec)),
          emitted_cons_of_none ((hnext ec).trans (if_pos hec)), hstep, List.length_cons,
          shutdownOutcome_cons_of_failed hec]
        exact (List.append_nil _).symm
      · rw [emitted_cons_of_some ((hnext .success).trans (if_neg Bool.false_ne_true)),
          emitted_cons_of_some ((hnext .success).trans (if_neg Bool.false_ne_true)), hstep,
          List.length_cons, shutdownOutcome_cons_success, List.append_assoc, ih hlast hmem]

end Failing

theorem record_congr {ε : Type} {started : List Step} {effects effects' : List Effect}
    {raised raised' : Option ε} (heffects : effects = effects') (hraised : raised = raised') :
    ({ started, effects, raised } : Record Step Effect ε) =
      { started, effects := effects', raised := raised' } := by
  rw [heffects, hraised]

/-- The response is all that remains of a record when its lines are left out. -/
theorem filterMap_response?_record (session : Session) :
    session.record.effects.filterMap Effect.response? =
      if session.printed then [.response] else [] := by
  have hlines : (session.stderr.map Effect.line).filterMap Effect.response? = [] := by
    rw [List.filterMap_map]
    exact List.filterMap_eq_nil_iff.mpr fun _ _ => rfl
  rw [Session.record, List.filterMap_append, hlines, List.append_nil]
  split_ifs <;> rfl

theorem prints_of_raised {what : Step → Str} {report : ErrorCode → Option SystemError}
    {step : Step} {ec : ErrorCode} {exception : SystemError} (h : raised what report step ec = some exception) :
    prints step ec = none := by
  refine if_neg ?_
  rintro ⟨rfl, hec⟩
  rw [raised, if_neg (by decide), hec] at h
  exact absurd h nofun

theorem raised_success {what : Step → Str} {report : ErrorCode → Option SystemError}
    (h : report .success = none) (step : Step) : raised what report step .success = none := by
  rw [raised, h]
  exact ite_self _

theorem failed_of_failing {steps : List Step} {outcomes : List ErrorCode}
    {failure : Step × ErrorCode} (h : failing steps outcomes = some failure) :
    failure.2.failed = true := by
  exact (List.find?_eq_some_iff_append.mp h).1

/-- The exception that leaves an awaitable client is that of the first failure. -/
theorem head?_emitted_raised {steps : List Step} {what : Step → Str}
    {report : ErrorCode → Option SystemError}
    (h : Linear (next (.resolve :: steps)) ErrorCode.failed .resolve steps)
    (hreport : report .success = none) (outcomes : List ErrorCode) :
    (emitted (next (.resolve :: steps)) (raised what report) .resolve outcomes).head? =
      (failing (.resolve :: steps) outcomes).bind fun failure =>
        if failure.1 = .shutdown then report failure.2
        else some { ec := failure.2, what := what failure.1 } := by
  rw [emitted_failing h (raised_success hreport)]
  cases hfailing : failing (.resolve :: steps) outcomes with
  | none => rfl
  | some failure =>
    have hraised : raised what report failure.1 failure.2 =
        if failure.1 = .shutdown then report failure.2
        else some { ec := failure.2, what := what failure.1 } := by
      rw [raised, if_pos (failed_of_failing hfailing)]
    rw [Option.bind_some, Option.bind_some, hraised]
    exact Option.head?_toList

theorem AwaitableClient.speaks_sendRequest :
    Speaks (next tcpSteps) (fun step ec => (effect Networking.report step ec).map Effect.relabel)
      quiet .resolve sendRequest := by
  have hspeaks : Speaks (next tcpSteps) _ quiet .resolve sendRequest :=
    speaks_doSession.handle (fun exception => Effect.line (errorLine exception))
      fun _ _ _ => prints_of_raised
  simpa only [relabel_effect] using hspeaks

/-- **The TCP clients agree.** On every list of outcomes the stackful coroutine does
what the callback class does, and so does `sendRequest`, up to the text of its
line. The blocking client starts the same steps and prints the response in the
same runs; an exception leaves it at every failure but that of the shutdown. -/
theorem tcp_clients_agree (outcomes : List ErrorCode) :
    CoroutineHTTPClient.doSession.run outcomes =
        (after Networking.handlers (run {}) outcomes).record ∧
      AwaitableClient.sendRequest.run outcomes =
        { (after Networking.handlers (run {}) outcomes).record with
          effects := (after Networking.handlers (run {}) outcomes).record.effects.map
            Effect.relabel } ∧
      simpleHttpGetRequest.run outcomes =
        { started := (after Networking.handlers (run {}) outcomes).started
          effects := if (after Networking.handlers (run {}) outcomes).printed then [.response]
            else []
          raised := (failing tcpSteps outcomes).bind fun failure =>
            if failure.1 = .shutdown then none
            else some { ec := failure.2, what := failure.1.operation } } := by
  have hrecord : (after Networking.handlers (run {}) outcomes).record =
      { started := trace (next tcpSteps) .resolve outcomes
        effects := emitted (next tcpSteps) (effect Networking.report) .resolve outcomes } :=
    record_after Networking.performs Networking.prints closes_tcp outcomes
  have hstarted : (after Networking.handlers (run {}) outcomes).started =
      trace (next tcpSteps) .resolve outcomes := congrArg Record.started hrecord
  have hquiet : emitted (next tcpSteps) quiet .resolve outcomes = [] := emitted_none
  refine ⟨?_, ?_, ?_⟩
  · rw [hrecord, CoroutineHTTPClient.speaks_doSession.run_eq, hquiet]
    rfl
  · rw [hrecord, AwaitableClient.speaks_sendRequest.run_eq, hquiet, emitted_map]
    rfl
  · rw [speaks_simpleHttpGetRequest.run_eq, hstarted, ← filterMap_response?_record, hrecord]
    refine record_congr ?_ ?_
    · rw [← emitted_bind]
      simp only [response?_effect]
    · exact head?_emitted_raised linear_tcp rfl outcomes

/-- What the callback class reports and what is thrown differ when the shutdown
succeeds. -/
theorem HTTPSClientAsync.emit_eq_raised {step : Step} {ec : ErrorCode}
    (h : ¬ (step = .shutdown ∧ ec = .success)) :
    (emit report step ec).map Line.ec =
      (raised untitled (raisedUnless .streamTruncated) step ec).map SystemError.ec := by
  rw [emit, raised]
  by_cases hstep : step = .shutdown
  · have hfailed : ec.failed = true := by
      rcases ec.failed_or_eq_success with hec | hec
      · exact hec
      · exact absurd ⟨hstep, hec⟩ h
    rw [if_pos hstep, if_pos hstep, report, raisedUnless]
    by_cases hec : ec = .streamTruncated
    · rw [if_neg fun h => h hec.symm, if_neg fun h => h.2 hec]
      rfl
    · rw [if_pos fun h => hec h.symm, if_pos ⟨hfailed, hec⟩]
      rfl
  · rw [if_neg hstep, if_neg hstep]
    split_ifs <;> rfl

/-- **The TLS clients agree but for one run.** The coroutine starts the steps of the
callback class and prints the response in the same runs. It is left by an
exception with the error that the class reports; only if every step succeeds, the
class reports that success and the coroutine returns. -/
theorem tls_clients_agree (sni : ErrorCode) (outcomes : List ErrorCode) :
    ((HTTPSAwaitable.doSession sni).run outcomes).started =
        (after HTTPSClientAsync.handlers (HTTPSClientAsync.run sni {}) outcomes).started ∧
      ((HTTPSAwaitable.doSession sni).run outcomes).effects =
        (if (after HTTPSClientAsync.handlers (HTTPSClientAsync.run sni {}) outcomes).printed
          then [.response] else []) ∧
      (after HTTPSClientAsync.handlers (HTTPSClientAsync.run sni {}) outcomes).stderr.map Line.ec =
        (((HTTPSAwaitable.doSession sni).run outcomes).raised.map SystemError.ec).toList ++
          if sni = .success ∧ shutdownOutcome 5 outcomes = some .success then [.success]
          else [] := by
  rcases sni.failed_or_eq_success with hsni | rfl
  · have hidle : after HTTPSClientAsync.handlers (HTTPSClientAsync.run sni {}) outcomes =
        { stderr := [{ text := [], ec := sni }] } := by
      rw [after, HTTPSClientAsync.run, if_pos hsni]
      exact HTTPSClientAsync.performs.follows.run_idle rfl outcomes
    have hsni' : ¬ (sni = .success ∧ shutdownOutcome 5 outcomes = some .success) := by
      rintro ⟨rfl, -⟩
      exact Bool.false_ne_true hsni
    rw [hidle, if_neg hsni', HTTPSAwaitable.doSession, if_pos hsni]
    exact ⟨rfl, rfl, rfl⟩
  · have hrecord : (after HTTPSClientAsync.handlers (run {}) outcomes).record =
        { started := trace (next tlsSteps) .resolve outcomes
          effects := emitted (next tlsSteps) (effect HTTPSClientAsync.report) .resolve outcomes } :=
      record_after HTTPSClientAsync.performs HTTPSClientAsync.prints closes_tls outcomes
    have hstderr : (after HTTPSClientAsync.handlers (run {}) outcomes).stderr =
        emitted (next tlsSteps) (emit HTTPSClientAsync.report) .resolve outcomes :=
      stderr_after HTTPSClientAsync.performs outcomes
    have hrun : HTTPSClientAsync.run .success {} = run {} := rfl
    rw [hrun, HTTPSAwaitable.speaks_doSession.run_eq, ← filterMap_response?_record, hrecord]
    refine ⟨(congrArg Record.started hrecord).symm, ?_, ?_⟩
    · rw [← emitted_bind]
      simp only [response?_effect]
    · have hraised : emitted (next tlsSteps) (raised untitled (raisedUnless .streamTruncated))
          .resolve outcomes = ((failing tlsSteps outcomes).bind fun failure =>
            raised untitled (raisedUnless .streamTruncated) failure.1 failure.2).toList :=
        emitted_failing linear_tls (raised_success rfl)
      have hlast : emitted (next tlsSteps)
          (fun step ec => (emit HTTPSClientAsync.report step ec).map Line.ec) .resolve outcomes =
          emitted (next tlsSteps) (fun step ec =>
              (raised untitled (raisedUnless .streamTruncated) step ec).map SystemError.ec)
            .resolve outcomes ++
          if shutdownOutcome 5 outcomes = some .success then [.success] else [] :=
        emitted_of_last linear_tls rfl (by decide)
          (fun _ _ => HTTPSClientAsync.emit_eq_raised) ⟨rfl, rfl⟩
      rw [hstderr, ← emitted_map, hlast, emitted_map, hraised, Option.head?_toList,
        Option.toList_map]
      simp only [true_and]

end BoostProjects.Beast.Http.Client
