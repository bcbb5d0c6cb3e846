import BoostProjects.Beast.WebSockets.Session
import BoostProjects.Library.Lists
import BoostProjects.Library.Transition
import Mathlib.Algebra.Ring.Nat

/-!
# What the WebSocket session sends

The session alternates: between two replies its buffer is empty and every message
has been answered, and during a reply the buffer holds the one message that has
not. So the reply is composed of the right bytes. But the bytes live in a local
variable of `on_read`, and what is taken of them after `on_read` has returned is
not there any more.
-/

namespace BoostProjects.Beast.WebSockets

open Boost Cpp Transition

/-- What the session should send in answer to a message. -/
def Message.reply (message : Message) : Str := "[".toList ++ message.bytes ++ "]".toList

namespace Session

/-- The `k`-th message sent is the `k`-th received in brackets, with the same
flag; and of a reply that is being sent, what has been taken is its beginning. -/
structure Faithful (session : Session) : Prop where
  sent : ∀ (k : ℕ) text bytes, session.sent[k]? = some (text, bytes) →
    ∃ message, session.received[k]? = some message ∧ text = message.text ∧
      bytes = message.reply.map some
  sending : ∀ write, .write write ∈ session.inFlight →
    ∃ message, session.received[session.sent.length]? = some message ∧
      write.text = message.text ∧ write.taken <+: message.reply.map some

/-- The operation of the event, if it completes one, succeeds. -/
def Event.Succeeds : Event → Prop
  | .complete outcome => outcome.errorCode = .success
  | _ => True

/-- What is taken of the buffer of a write is taken before `on_read` returns. -/
def TakesInCall (session : Session) : Event → Prop
  | .transmit _ => session.running.isSome
  | _ => True

instance (event : Event) : Decidable event.Succeeds := by
  cases event <;> unfold Event.Succeeds <;> infer_instance

instance (session : Session) (event : Event) : Decidable (session.TakesInCall event) := by
  cases event <;> unfold TakesInCall <;> infer_instance

/-! ## Turns -/

/-- No reply is due. -/
structure Listening (session : Session) : Prop where
  running : session.running = none
  buffer : session.buffer = []
  answered : session.sent.length = session.received.length

/-- The reply to the last message received is being sent. -/
structure Replying (session : Session) (write : Write) (message : Message) : Prop where
  received : ∃ earlier, session.received = earlier ++ [message] ∧
    session.sent.length = earlier.length
  text : write.text = message.text
  length : write.length = message.reply.length
  /-- The reply is in memory until `on_read` returns. -/
  memory : session.memory write.call = if session.running.isSome then some message.reply else none
  call : ∀ call, session.running = some call → call = write.call

/-- Where a session can be between two events, as long as nothing fails. -/
inductive Turn (session : Session) : Prop
  | listening (pending : Pending) (inFlight : session.inFlight = [pending])
      (idle : ∀ write, pending ≠ .write write) (listening : session.Listening)
  | replying (write : Write) (message : Message) (inFlight : session.inFlight = [.write write])
      (replying : session.Replying write message)

/-- A reply in flight is the one that is due, and nothing else is in flight. -/
theorem Turn.replying_of_write {session : Session} (h : Turn session) {write : Write}
    {rest : List Pending} (hinFlight : session.inFlight = .write write :: rest) :
    rest = [] ∧ ∃ message, session.Replying write message := by
  cases h with
  | listening pending hsingle hidle hlistening =>
    obtain ⟨rfl, -⟩ := List.cons.inj (hinFlight.symm.trans hsingle)
    exact absurd rfl (hidle write)
  | replying write' message hsingle hreplying =>
    obtain ⟨hsame, rfl⟩ := List.cons.inj (hinFlight.symm.trans hsingle)
    obtain rfl := Pending.write.inj hsame
    exact ⟨rfl, message, hreplying⟩

theorem turn_started : Turn started :=
  .listening .handshake rfl (fun _ => nofun) ⟨rfl, rfl, rfl⟩

section Step

variable {session next : Session} {event : Event} {write : Write} {message : Message}

theorem Listening.retire (h : session.Listening) (pending : Pending) (errorCode : StreamCode) :
    (session.retire pending [] errorCode).Listening := ⟨h.running, h.buffer, h.answered⟩

theorem Replying.retire (h : session.Replying write message) (pending : Pending)
    (errorCode : StreamCode) : (session.retire pending [] errorCode).Replying write message :=
  ⟨h.received, h.text, h.length, h.memory, h.call⟩

/-- After a success no reply is due, or the one to the message just read. -/
theorem Listening.handle (h : session.Listening) (hinFlight : session.inFlight = [])
    {outcome : Outcome} (hsuccess : outcome.errorCode = .success) {pending : Pending}
    (hidle : ∀ write, pending ≠ .write write) : Turn (session.handle outcome pending) := by
  obtain ⟨errorCode, message⟩ := outcome
  obtain rfl := hsuccess
  cases pending with
  | handshake =>
    exact .listening .accept (congrArg (fun ops => ops ++ [Pending.accept]) hinFlight) (fun _ => nofun)
      ⟨h.running, h.buffer, h.answered⟩
  | accept =>
    exact .listening .read (congrArg (fun ops => ops ++ [Pending.read]) hinFlight)
      (fun _ => nofun) ⟨h.running, h.buffer, h.answered⟩
  | read =>
    have hreply : "[".toList ++ (session.buffer ++ message.bytes) ++ "]".toList = message.reply := by
      rw [h.buffer, List.nil_append, Message.reply]
    refine .replying
      { call := session.calls
        length := ("[".toList ++ (session.buffer ++ message.bytes) ++ "]".toList).length
        text := message.text } message (congrArg (fun ops => ops ++ [Pending.write _]) hinFlight)
      ⟨⟨session.received, rfl, h.answered⟩, rfl, congrArg List.length hreply, ?_, ?_⟩
    · exact (Function.update_self ..).trans (congrArg some hreply)
    · exact fun call hcall => (Option.some.inj hcall).symm
  | write write => exact absurd rfl (hidle write)

/-- After the reply no other is due, and the buffer is empty again. -/
theorem Replying.handle (h : session.Replying write message) (hrunning : session.running = none)
    (hinFlight : session.inFlight = []) {outcome : Outcome}
    (hsuccess : outcome.errorCode = .success) : Turn (session.handle outcome (.write write)) := by
  obtain ⟨errorCode, received⟩ := outcome
  obtain rfl := hsuccess
  obtain ⟨earlier, hreceived, hanswered⟩ := h.received
  refine .listening .read (congrArg (fun ops => ops ++ [Pending.read]) hinFlight)
    (fun _ => nofun) ⟨hrunning, rfl, ?_⟩
  have hlength : (session.sent ++ [(write.text, write.taken)]).length = session.received.length := by
    rw [hreceived, List.length_append, List.length_append, hanswered]
    rfl
  exact hlength

theorem Turn.step (h : Turn session) (hsuccess : event.Succeeds)
    (hstep : session.step event = some next) : Turn next := by
  cases event with
  | complete outcome =>
    obtain ⟨pending, rest, hrunning, hinFlight, -, rfl⟩ := step_complete hstep
    cases h with
    | listening pending' hsingle hidle hlistening =>
      obtain ⟨rfl, rfl⟩ := List.cons.inj (hinFlight.symm.trans hsingle)
      exact (hlistening.retire pending outcome.errorCode).handle rfl hsuccess hidle
    | replying write message hsingle hreplying =>
      obtain ⟨rfl, rfl⟩ := List.cons.inj (hinFlight.symm.trans hsingle)
      exact (hreplying.retire (.write write) outcome.errorCode).handle hrunning rfl hsuccess
  | transmit count =>
    obtain ⟨write, rest, hinFlight, -, -, rfl⟩ := step_transmit hstep
    obtain ⟨rfl, message, hreplying⟩ := h.replying_of_write hinFlight
    exact .replying _ message rfl ⟨hreplying.received, hreplying.text, hreplying.length,
      hreplying.memory, hreplying.call⟩
  | returns =>
    obtain ⟨call, hrunning, rfl⟩ := step_returns hstep
    cases h with
    | listening pending hsingle hidle hlistening =>
      rw [hlistening.running] at hrunning
      exact nomatch hrunning
    | replying write message hsingle hreplying =>
      obtain rfl := hreplying.call call hrunning
      exact .replying write message hsingle ⟨hreplying.received, hreplying.text,
        hreplying.length, Function.update_self .., nofun⟩

/-! ## What is taken of a reply -/

/-- Bytes taken before `on_read` returns are the next of the reply. -/
theorem Replying.bytesAt_of_running (h : session.Replying write message)
    (hrunning : session.running.isSome) (count : ℕ) :
    session.bytesAt write count =
      (((message.reply.drop write.taken.length).take count).map some) := by
  rw [bytesAt, h.memory, if_pos hrunning]

/-- Bytes taken afterwards are not there. -/
theorem Replying.bytesAt_of_returned (h : session.Replying write message)
    (hrunning : ¬ session.running.isSome) (count : ℕ) :
    session.bytesAt write count = List.replicate count none := by
  rw [bytesAt, h.memory, if_neg hrunning]

/-- The beginning of a reply and the bytes that follow are a longer beginning. -/
theorem isPrefix_take {taken : List (Option Char)} {reply : Str}
    (h : taken <+: reply.map some) (count : ℕ) :
    taken ++ ((reply.drop taken.length).take count).map some <+: reply.map some := by
  obtain ⟨rest, hrest⟩ := h
  have hdrop : (reply.drop taken.length).map some = rest := by
    rw [List.map_drop, ← hrest, List.drop_left]
  rw [List.map_take, hdrop, ← hrest]
  exact (List.prefix_append_right_inj taken).mpr (List.take_prefix count rest)

theorem not_isPrefix_replicate {taken : List (Option Char)} {reply : Str} {count : ℕ}
    (hcount : 0 < count) : ¬ taken ++ List.replicate count none <+: reply.map some := by
  intro htaken
  have hmem : none ∈ reply.map some :=
    htaken.subset (List.mem_append_right taken (List.mem_replicate.mpr ⟨hcount.ne', rfl⟩))
  obtain ⟨c, -, hc⟩ := List.mem_map.mp hmem
  exact nomatch hc

/-! ## Faithfulness -/

theorem Replying.current (h : session.Replying write message) :
    session.received[session.sent.length]? = some message := by
  obtain ⟨earlier, hreceived, hanswered⟩ := h.received
  rw [hreceived, hanswered, List.getElem?_concat_length]

/-- An operation is the only one in flight when it is started after the last. -/
theorem mem_started {ops : List Pending} {new op : Pending} (hops : ops = [])
    (h : op ∈ ops ++ [new]) : op = new := by
  rw [hops, List.nil_append, List.mem_singleton] at h
  exact h

theorem Faithful.retire (h : session.Faithful) (pending : Pending) (errorCode : StreamCode) :
    (session.retire pending [] errorCode).Faithful :=
  ⟨h.sent, fun _ hmem => absurd hmem List.not_mem_nil⟩

/-- Before a reply is due nothing is sent; when it is due nothing of it has been
taken. -/
theorem Faithful.handle_listening (h : session.Faithful) (hlistening : session.Listening)
    (hinFlight : session.inFlight = []) {outcome : Outcome}
    (hsuccess : outcome.errorCode = .success) {pending : Pending}
    (hidle : ∀ write, pending ≠ .write write) : (session.handle outcome pending).Faithful := by
  obtain ⟨errorCode, message⟩ := outcome
  obtain rfl := hsuccess
  cases pending with
  | handshake =>
    refine ⟨h.sent, fun write hmem => ?_⟩
    exact nomatch mem_started hinFlight hmem
  | accept =>
    refine ⟨h.sent, fun write hmem => ?_⟩
    exact nomatch mem_started hinFlight hmem
  | read =>
    refine ⟨fun k text bytes hsent => ?_, fun write hmem => ?_⟩
    · obtain ⟨earlier, hearlier, hsame⟩ := h.sent k text bytes hsent
      obtain ⟨hk, -⟩ := List.getElem?_eq_some_iff.mp hearlier
      exact ⟨earlier, (List.getElem?_append_left hk).trans hearlier, hsame⟩
    · obtain rfl := Pending.write.inj (mem_started hinFlight hmem)
      refine ⟨message, ?_, rfl, List.nil_prefix⟩
      exact (congrArg _ hlistening.answered).trans List.getElem?_concat_length
  | write write => exact absurd rfl (hidle write)

/-- A reply that has been sent was taken to its end. -/
theorem Faithful.handle_replying (h : session.Faithful) (hreplying : session.Replying write message)
    (hinFlight : session.inFlight = [.write write]) {outcome : Outcome}
    (hsuccess : outcome.errorCode = .success) (hcompletes : (Pending.write write).Completes outcome) :
    ((session.retire (.write write) [] outcome.errorCode).handle outcome (.write write)).Faithful := by
  obtain ⟨errorCode, received⟩ := outcome
  obtain rfl := hsuccess
  obtain ⟨message', hcurrent, htext, htaken⟩ := h.sending write (by simp [hinFlight])
  obtain rfl := Option.some.inj (hreplying.current.symm.trans hcurrent)
  have hlength : write.taken.length = (message.reply.map some).length := by
    rw [List.length_map, ← hreplying.length]
    exact hcompletes.resolve_left Bool.false_ne_true
  refine ⟨fun k text bytes hsent => ?_, fun write' hmem => ?_⟩
  · have hsent : (session.sent ++ [(write.text, write.taken)])[k]? = some (text, bytes) := hsent
    rcases Lists.getElem?_concat hsent with hold | ⟨rfl, hnew⟩
    · exact h.sent k text bytes hold
    · obtain ⟨rfl, rfl⟩ := Prod.mk.inj hnew
      exact ⟨message, hcurrent, htext, htaken.eq_of_length hlength⟩
  · exact nomatch List.mem_singleton.mp (show Pending.write write' ∈ [.read] from hmem)

/-- A step keeps what is sent right unless bytes of a reply are taken too late. -/
theorem Turn.faithful_step_iff (h : Turn session) (hfaithful : session.Faithful)
    (hsuccess : event.Succeeds) (hstep : session.step event = some next) :
    next.Faithful ↔ session.TakesInCall event := by
  cases event with
  | complete outcome =>
    refine iff_of_true ?_ trivial
    obtain ⟨pending, rest, -, hinFlight, hcompletes, rfl⟩ := step_complete hstep
    cases h with
    | listening pending' hsingle hidle hlistening =>
      obtain ⟨rfl, rfl⟩ := List.cons.inj (hinFlight.symm.trans hsingle)
      exact (hfaithful.retire pending outcome.errorCode).handle_listening
        (hlistening.retire pending outcome.errorCode) rfl hsuccess hidle
    | replying write message hsingle hreplying =>
      obtain ⟨rfl, rfl⟩ := List.cons.inj (hinFlight.symm.trans hsingle)
      exact hfaithful.handle_replying hreplying hsingle hsuccess hcompletes
  | transmit count =>
    obtain ⟨write, rest, hinFlight, hcount, -, rfl⟩ := step_transmit hstep
    obtain ⟨rfl, message, hreplying⟩ := h.replying_of_write hinFlight
    obtain ⟨message', hcurrent, htext, htaken⟩ := hfaithful.sending write (by simp [hinFlight])
    obtain rfl := Option.some.inj (hreplying.current.symm.trans hcurrent)
    constructor
    · intro hnext
      by_contra hreturned
      obtain ⟨message', -, -, htaken'⟩ := hnext.sending _ (List.mem_singleton.mpr rfl)
      rw [hreplying.bytesAt_of_returned hreturned] at htaken'
      exact not_isPrefix_replicate hcount htaken'
    · intro hrunning
      refine ⟨hfaithful.sent, fun write' hmem => ?_⟩
      obtain rfl := Pending.write.inj (List.mem_singleton.mp hmem)
      refine ⟨message, hcurrent, htext, ?_⟩
      rw [hreplying.bytesAt_of_running hrunning]
      exact isPrefix_take htaken count
  | returns =>
    obtain ⟨call, -, rfl⟩ := step_returns hstep
    exact iff_of_true ⟨hfaithful.sent, hfaithful.sending⟩ trivial

end Step

/-- **Faithful, exactly when.** In a run of the session in which all operations
succeed, the `k`-th message sent is the `k`-th received in brackets, if and only
if the bytes of every reply are taken before the `on_read` that made it returns. -/
theorem faithful_iff_takesInCall (events : List Event) (session : Session)
    (hsuccess : ∀ event ∈ events, event.Succeeds)
    (hrun : run step Session.started events = some session) :
    Always step Faithful Session.started events ↔
      Obeys step TakesInCall Session.started events :=
  always_iff_obeys_of_forall Event.Succeeds Turn Faithful
    (fun _ _ _ hevent h hstep => h.step hevent hstep)
    (fun _ _ _ hevent h hfaithful hstep => h.faithful_step_iff hfaithful hevent hstep)
    hsuccess hrun turn_started ⟨fun _ _ _ => nofun, by simp [Session.started, onRun, start]⟩

/-- Two messages are echoed, and taken while `async_write` is being called. -/
theorem faithful_in_call :
    Always step Faithful Session.started
      [.complete { errorCode := .success }, .complete { errorCode := .success },
        .complete ⟨.success, ⟨true, "hi".toList⟩⟩, .transmit 3, .transmit 1, .returns,
        .complete { errorCode := .success }, .complete { errorCode := .success },
        .transmit 2, .returns, .complete { errorCode := .success }] := by
  obtain ⟨session, hrun⟩ := Option.isSome_iff_exists.mp
    (show (run step Session.started
      [.complete { errorCode := .success }, .complete { errorCode := .success },
        .complete ⟨.success, ⟨true, "hi".toList⟩⟩, .transmit 3, .transmit 1, .returns,
        .complete { errorCode := .success }, .complete { errorCode := .success },
        .transmit 2, .returns, .complete { errorCode := .success }]).isSome by decide)
  exact (faithful_iff_takesInCall _ session (by decide) hrun).mpr (by decide)

/-- A message is received, and its reply is taken when `on_read` has returned:
what is sent is not there. -/
theorem not_faithful_returned :
    ¬ ∀ (events : List Event) (session : Session), (∀ event ∈ events, event.Succeeds) →
      run step Session.started events = some session → session.Faithful := by
  intro hall
  obtain ⟨session, hrun, hsent⟩ := Option.map_eq_some_iff.mp
    (show (run step Session.started
        [.complete { errorCode := .success }, .complete { errorCode := .success },
          .complete ⟨.success, ⟨true, "hi".toList⟩⟩, .returns, .transmit 4,
          .complete { errorCode := .success }]).map Session.sent =
      some [(true, [none, none, none, none])] by decide)
  have hfaithful := hall _ session (by decide) hrun
  obtain ⟨message, -, -, hbytes⟩ := hfaithful.sent 0 true _ (by rw [hsent]; rfl)
  have hmem : none ∈ message.reply.map some := by simp [← hbytes]
  obtain ⟨c, -, hc⟩ := List.mem_map.mp hmem
  exact nomatch hc

end Session

end BoostProjects.Beast.WebSockets
