import BoostProjects.Boost.ErrorCode
import BoostProjects.Cpp.Str
import BoostProjects.Library.Transition

/-!
# The two listeners

The classes `Listener` of the HTTPS server and of the SSL WebSocket server have
the same constructor: it opens the acceptor, sets an option, binds and listens,
and at the first of these that fails it reports the failure and returns. So a
`Listener` is there whatever happened, and `run` starts an accept on it.

The two differ in what `on_accept` does with an error. The HTTPS one returns;
the WebSocket one reports it and goes on to the next accept. On an acceptor that
does not listen every accept fails, so the first comes to rest after one accept
and the second never does.
-/

namespace BoostProjects.Beast

open Boost Cpp Transition

/-- How the four steps of the constructor turn out. -/
structure Setup where
  opening : ErrorCode := .success
  settingOption : ErrorCode := .success
  binding : ErrorCode := .success
  listening : ErrorCode := .success
  deriving DecidableEq, Repr

/-- Some step fails. -/
def Setup.Fails (setup : Setup) : Prop :=
  setup.opening.failed ∨ setup.settingOption.failed ∨ setup.binding.failed ∨
    setup.listening.failed

instance (setup : Setup) : Decidable setup.Fails := inferInstanceAs (Decidable (_ ∨ _))

/-- How far an acceptor has come. -/
inductive Acceptor
  | closed
  | opened
  | bound
  | listening
  deriving DecidableEq, Repr

/-- A listener, with the accepts that its acceptor has in flight. -/
structure Listener where
  acceptor : Acceptor := .closed
  inFlight : ℕ := 0
  /-- The number of `async_accept` operations started so far. -/
  started : ℕ := 0
  /-- The number of sessions run so far. -/
  sessions : ℕ := 0
  /-- The lines written by `fail`. -/
  reported : List (Str × ErrorCode) := []
  deriving DecidableEq, Repr

/-- `fail` of the WebSocket server. -/
def Listener.fail (listener : Listener) (errorCode : ErrorCode) (what : Str) : Listener :=
  { listener with reported := listener.reported ++ [(what, errorCode)] }

/-- `fail` of the HTTPS server, which says nothing of a truncated stream. -/
def Listener.failUnlessTruncated (listener : Listener) (errorCode : ErrorCode) (what : Str) :
    Listener :=
  if errorCode = .streamTruncated then listener else listener.fail errorCode what

/-- The body of both constructors, with the `fail` of the class. -/
def Listener.construct (fail : Listener → ErrorCode → Str → Listener) (setup : Setup) : Listener :=
  let listener : Listener := {}
  if setup.opening.failed then fail listener setup.opening "open".toList
  else
    let listener := { listener with acceptor := .opened }
    if setup.settingOption.failed then fail listener setup.settingOption "set_option".toList
    else if setup.binding.failed then fail listener setup.binding "bind".toList
    else
      let listener := { listener with acceptor := .bound }
      if setup.listening.failed then fail listener setup.listening "listen".toList
      else { listener with acceptor := .listening }

namespace Listener

variable (listener : Listener)

/-- `Listener::do_accept` -/
def doAccept : Listener :=
  { listener with inFlight := listener.inFlight + 1, started := listener.started + 1 }

/-- `Listener::run` -/
def run : Listener := listener.doAccept

/-- A session has been made and run. -/
def runSession : Listener := { listener with sessions := listener.sessions + 1 }

end Listener

/-! ## The classes -/

namespace HTTPSServerASync

/-- The constructor of `Listener`, whose steps end as `setup` says. -/
def constructor (setup : Setup) : Listener := Listener.construct Listener.failUnlessTruncated setup

/-- `Listener::on_accept` -/
def onAccept (errorCode : ErrorCode) (listener : Listener) : Listener :=
  if errorCode.failed then
    -- "To avoid infinite loop"
    listener.failUnlessTruncated errorCode "accept".toList
  else listener.runSession.doAccept

end HTTPSServerASync

namespace SSLAsynchServer

/-- The constructor of `Listener`, whose steps end as `setup` says. -/
def constructor (setup : Setup) : Listener := Listener.construct Listener.fail setup

/-- `Listener::on_accept` -/
def onAccept (errorCode : ErrorCode) (listener : Listener) : Listener :=
  let listener :=
    if errorCode.failed then listener.fail errorCode "accept".toList else listener.runSession
  -- There is no `return` in the branch of the error.
  listener.doAccept

end SSLAsynchServer

/-- The two classes. -/
inductive ListenerClass
  | httpsServerASync
  | sslAsynchServer
  deriving DecidableEq, Repr

/-- The constructor of each class. -/
def ListenerClass.constructor : ListenerClass → Setup → Listener
  | .httpsServerASync => HTTPSServerASync.constructor
  | .sslAsynchServer => SSLAsynchServer.constructor

/-- `on_accept` of each class. -/
def ListenerClass.onAccept : ListenerClass → ErrorCode → Listener → Listener
  | .httpsServerASync => HTTPSServerASync.onAccept
  | .sslAsynchServer => SSLAsynchServer.onAccept

namespace Listener

/-- An accept in flight completes and its handler runs. Only an acceptor that
listens accepts anything. -/
def step (cls : ListenerClass) (listener : Listener) (errorCode : ErrorCode) : Option Listener :=
  if 0 < listener.inFlight ∧ (errorCode.failed ∨ listener.acceptor = .listening) then
    some (cls.onAccept errorCode { listener with inFlight := listener.inFlight - 1 })
  else none

/-- The listener after `run()`, and after the accepts that completed with the
given error codes. -/
def after (cls : ListenerClass) (setup : Setup) (outcomes : List ErrorCode) : Option Listener :=
  Transition.run (step cls) (cls.constructor setup).run outcomes

/-- Only finitely many accepts are started, and with every accept failing there
comes a time when none is in flight and the `io_context` is out of work. -/
structure RunsOut (cls : ListenerClass) (setup : Setup) : Prop where
  finite : ∃ bound, ∀ outcomes listener,
    after cls setup outcomes = some listener → listener.started ≤ bound
  rests : ∀ errors : ℕ → ErrorCode, (∀ i, (errors i).failed) →
    ∃ n listener, after cls setup ((List.range n).map errors) = some listener ∧
      listener.inFlight = 0

/-! ## The constructor -/

section Constructor

variable {fail : Listener → ErrorCode → Str → Listener}

/-- Whatever `fail` writes, a constructor starts no accept. -/
theorem construct_idle (hfail : ∀ (listener : Listener) errorCode what,
      (fail listener errorCode what).inFlight = listener.inFlight ∧
        (fail listener errorCode what).started = listener.started) (setup : Setup) :
    (construct fail setup).inFlight = 0 ∧ (construct fail setup).started = 0 := by
  unfold construct
  split_ifs <;> simp [hfail]

/-- The acceptor listens exactly if no step failed. -/
theorem acceptor_construct_eq_listening_iff (hfail : ∀ (listener : Listener) errorCode what,
      (fail listener errorCode what).acceptor = listener.acceptor) (setup : Setup) :
    (construct fail setup).acceptor = .listening ↔ ¬ setup.Fails := by
  unfold construct Setup.Fails
  split_ifs with hopening hoption hbinding hlistening <;> simp [*]

theorem failUnlessTruncated_fields (listener : Listener) (errorCode : ErrorCode) (what : Str) :
    (listener.failUnlessTruncated errorCode what).inFlight = listener.inFlight ∧
      (listener.failUnlessTruncated errorCode what).started = listener.started ∧
        (listener.failUnlessTruncated errorCode what).acceptor = listener.acceptor := by
  unfold failUnlessTruncated
  split_ifs <;> exact ⟨rfl, rfl, rfl⟩

end Constructor

/-- A listener that has one accept in flight, on an acceptor that does not
listen. -/
structure Deaf (listener : Listener) : Prop where
  acceptor : listener.acceptor ≠ .listening
  inFlight : listener.inFlight = 1

/-- Whatever failed in the constructor, `run` starts an accept. -/
theorem deaf_run_constructor (cls : ListenerClass) {setup : Setup} (h : setup.Fails) :
    (cls.constructor setup).run.Deaf ∧ (cls.constructor setup).run.started = 1 := by
  cases cls with
  | httpsServerASync =>
    have hacceptor := acceptor_construct_eq_listening_iff
      (fun listener code what => (failUnlessTruncated_fields listener code what).2.2) setup
    obtain ⟨hinFlight, hstarted⟩ := construct_idle
      (fun listener code what => ⟨(failUnlessTruncated_fields listener code what).1,
        (failUnlessTruncated_fields listener code what).2.1⟩) setup
    exact ⟨⟨fun hlistening => hacceptor.mp hlistening h, congrArg (· + 1) hinFlight⟩,
      congrArg (· + 1) hstarted⟩
  | sslAsynchServer =>
    have hacceptor := @acceptor_construct_eq_listening_iff fail (fun _ _ _ => rfl) setup
    obtain ⟨hinFlight, hstarted⟩ := @construct_idle fail (fun _ _ _ => ⟨rfl, rfl⟩) setup
    exact ⟨⟨fun hlistening => hacceptor.mp hlistening h, congrArg (· + 1) hinFlight⟩,
      congrArg (· + 1) hstarted⟩

/-! ## One accept -/

section Step

variable {cls : ListenerClass} {listener next : Listener} {errorCode : ErrorCode}

theorem Deaf.step_of_failed (h : listener.Deaf) (hfailed : errorCode.failed) :
    step cls listener errorCode = some (cls.onAccept errorCode { listener with inFlight := 0 }) := by
  rw [step, if_pos ⟨by simp [h.inFlight], Or.inl hfailed⟩, h.inFlight]

/-- On an acceptor that does not listen every accept fails. -/
theorem failed_of_step (h : listener.acceptor ≠ .listening)
    (hstep : step cls listener errorCode = some next) :
    errorCode.failed ∧
      next = cls.onAccept errorCode { listener with inFlight := listener.inFlight - 1 } := by
  rw [step, Option.ite_none_right_eq_some] at hstep
  obtain ⟨⟨-, hcan⟩, hnext⟩ := hstep
  exact ⟨hcan.resolve_right h, (Option.some.inj hnext).symm⟩

/-- The HTTPS listener starts no accept after an error. -/
theorem onAccept_httpsServerASync (hfailed : errorCode.failed) (listener : Listener) :
    (HTTPSServerASync.onAccept errorCode listener).inFlight = listener.inFlight ∧
      (HTTPSServerASync.onAccept errorCode listener).started = listener.started ∧
        (HTTPSServerASync.onAccept errorCode listener).acceptor = listener.acceptor := by
  rw [HTTPSServerASync.onAccept, if_pos hfailed]
  exact failUnlessTruncated_fields listener errorCode _

/-- The WebSocket listener starts one whatever happened. -/
theorem onAccept_sslAsynchServer (errorCode : ErrorCode) (listener : Listener) :
    (SSLAsynchServer.onAccept errorCode listener).inFlight = listener.inFlight + 1 ∧
      (SSLAsynchServer.onAccept errorCode listener).started = listener.started + 1 ∧
        (SSLAsynchServer.onAccept errorCode listener).acceptor = listener.acceptor := by
  unfold SSLAsynchServer.onAccept
  split_ifs <;> exact ⟨rfl, rfl, rfl⟩

end Step

/-! ## All accepts -/

theorem runsOut_httpsServerASync {setup : Setup} (h : setup.Fails) :
    RunsOut .httpsServerASync setup := by
  obtain ⟨hdeaf, hstarted⟩ := deaf_run_constructor .httpsServerASync h
  constructor
  · refine ⟨1, fun outcomes listener hafter => ?_⟩
    have hinvariant := run_invariant
      (fun listener => listener.acceptor ≠ .listening ∧ listener.started = 1) ?_ hafter
      ⟨hdeaf.acceptor, hstarted⟩
    · exact hinvariant.2.le
    · rintro listener errorCode next ⟨hacceptor, hone⟩ hstep
      obtain ⟨hfailed, rfl⟩ := failed_of_step hacceptor hstep
      obtain ⟨-, hsame, hkept⟩ := onAccept_httpsServerASync hfailed
        { listener with inFlight := listener.inFlight - 1 }
      exact ⟨fun hlistening => hacceptor (hkept.symm.trans hlistening), hsame.trans hone⟩
  · intro errors herrors
    refine ⟨1, _, run_cons_eq_some_iff.mpr ⟨_, hdeaf.step_of_failed (herrors 0), rfl⟩, ?_⟩
    exact (onAccept_httpsServerASync (herrors 0) _).1

/-- With every accept failing the WebSocket listener always has one in flight,
and has started one for each that failed. -/
theorem exists_run_sslAsynchServer {listener : Listener} (h : listener.Deaf)
    (errors : List ErrorCode) (herrors : ∀ errorCode ∈ errors, errorCode.failed) :
    ∃ final, Transition.run (step .sslAsynchServer) listener errors = some final ∧ final.Deaf ∧
      final.started = listener.started + errors.length := by
  induction errors generalizing listener with
  | nil => exact ⟨listener, rfl, h, rfl⟩
  | cons errorCode rest ih =>
    have hfailed := herrors errorCode List.mem_cons_self
    obtain ⟨hinFlight, hstarted, hacceptor⟩ :=
      onAccept_sslAsynchServer errorCode { listener with inFlight := 0 }
    have hdeaf : (SSLAsynchServer.onAccept errorCode { listener with inFlight := 0 }).Deaf :=
      ⟨fun hlistening => h.acceptor (hacceptor.symm.trans hlistening), hinFlight⟩
    obtain ⟨final, hrun, hfinal, hcount⟩ :=
      ih hdeaf fun later hlater => herrors later (List.mem_cons_of_mem errorCode hlater)
    refine ⟨final, run_cons_eq_some_iff.mpr ⟨_, h.step_of_failed hfailed, hrun⟩, hfinal, ?_⟩
    have hone : (SSLAsynchServer.onAccept errorCode { listener with inFlight := 0 }).started =
        listener.started + 1 := hstarted
    rw [hcount, hone, List.length_cons, Nat.add_assoc, Nat.add_comm 1]

theorem not_runsOut_sslAsynchServer {setup : Setup} (h : setup.Fails) :
    ¬ RunsOut .sslAsynchServer setup := by
  rintro ⟨⟨bound, hbound⟩, -⟩
  obtain ⟨hdeaf, hstarted⟩ := deaf_run_constructor .sslAsynchServer h
  obtain ⟨final, hrun, -, hcount⟩ := exists_run_sslAsynchServer hdeaf
    (List.replicate bound (.other 0)) (by simp [List.mem_replicate, ErrorCode.failed])
  have hle := hbound _ final hrun
  rw [hcount, hstarted, List.length_replicate] at hle
  omega

/-- **A listener whose set-up failed.** The HTTPS listener comes to rest after
finitely many accepts, and the WebSocket listener never does. -/
theorem runsOut_iff (cls : ListenerClass) (setup : Setup) (h : setup.Fails) :
    RunsOut cls setup ↔ cls = .httpsServerASync := by
  cases cls with
  | httpsServerASync => exact iff_of_true (runsOut_httpsServerASync h) rfl
  | sslAsynchServer => exact iff_of_false (not_runsOut_sslAsynchServer h) nofun

/-- The address is in use: the HTTPS listener comes to rest. -/
theorem runsOut_address_in_use :
    RunsOut .httpsServerASync { binding := .other 98 } :=
  (runsOut_iff .httpsServerASync { binding := .other 98 } (by decide)).mpr rfl

/-- The WebSocket listener spins on the same failure. -/
theorem not_runsOut_of_fails :
    ¬ ∀ (cls : ListenerClass) (setup : Setup), setup.Fails → RunsOut cls setup := by
  intro hall
  have hfails : Setup.Fails { binding := .other 98 } := by decide
  exact not_runsOut_sslAsynchServer hfails (hall .sslAsynchServer _ hfails)

end Listener

end BoostProjects.Beast
