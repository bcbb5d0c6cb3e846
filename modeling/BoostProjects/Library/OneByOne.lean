import BoostProjects.Library.Transition

/-!
# Clients one by one

A thread opens an acceptor and then accepts a client and serves it to its end, again
and again, until it finds a flag raised. Another thread raises the flag and waits for
the thread to return.

The thread looks at the flag only between two clients. So at most one more is accepted
once the flag is up (`tally_late_le`), and while the thread waits for a client, the
other one waits too: it can go on without a further client exactly if the thread is not
at its `accept` (`canReach_joined_iff`).
-/

namespace OneByOne

open Transition

variable {σ ε : Type*}

/-- How one client is served. -/
structure Service (σ ε : Type*) where
  started : σ
  step : σ → ε → Option σ
  ended : σ → Bool

/-- Where the thread is. -/
inductive Loop (σ : Type*)
  | opening
  | checking
  | accepting
  | serving (client : σ)
  | returned
  /-- An exception has left the loop. -/
  | threw

/-- The thread has returned. -/
def Loop.hasReturned : Loop σ → Bool
  | .returned => true
  | _ => false

/-- An exception has left the loop. -/
def Loop.hasThrown : Loop σ → Bool
  | .threw => true
  | _ => false

/-- What can happen next in either thread. -/
inductive Event (ε : Type*)
  | opened (ok : Bool)
  /-- The flag is looked at. -/
  | checked
  | accepted (ok : Bool)
  | client (event : ε)
  /-- The client has been served. -/
  | left
  | raised
  | joined

/-- No client comes; those that are here go on as `Q` says. -/
def Event.Without (Q : ε → Prop) : Event ε → Prop
  | .accepted _ => False
  | .client event => Q event
  | _ => True

/-- Nothing is refused and nothing stopped; the clients go on as `Q` says. -/
def Event.Serves (Q : ε → Prop) : Event ε → Prop
  | .opened ok | .accepted ok => ok = true
  | .client event => Q event
  | .checked | .left => True
  | .raised | .joined => False

/-- The thread, the flag and the clients that have been served. -/
structure Server (σ : Type*) where
  loop : Loop σ := .opening
  stop : Bool := false
  /-- The other thread has gone on. -/
  joined : Bool := false
  served : List σ := []

namespace Server

/-- One step of either thread. After an exception the thread takes none. -/
def step (service : Service σ ε) (s : Server σ) : Event ε → Option (Server σ)
  | .opened ok =>
    match s.loop with
    | .opening => some { s with loop := if ok then .checking else .threw }
    | _ => none
  | .checked =>
    match s.loop with
    | .checking => some { s with loop := if s.stop then .returned else .accepting }
    | _ => none
  | .accepted ok =>
    match s.loop with
    | .accepting => some { s with loop := if ok then .serving service.started else .threw }
    | _ => none
  | .client event =>
    match s.loop with
    | .serving client =>
      (service.step client event).map fun next => { s with loop := .serving next }
    | _ => none
  | .left =>
    match s.loop with
    | .serving client =>
      if service.ended client then
        some { s with loop := .checking, served := s.served ++ [client] }
      else none
    | _ => none
  | .raised => if s.loop.hasThrown || s.stop then none else some { s with stop := true }
  | .joined =>
    if s.loop.hasReturned && s.stop && !s.joined then some { s with joined := true } else none

variable {service : Service σ ε} {s next final : Server σ} {event : Event ε}

/-- What a step can do. -/
inductive Moves (service : Service σ ε) (s : Server σ) : Event ε → Server σ → Prop
  | opened (ok : Bool) (h : s.loop = .opening) :
      Moves service s (.opened ok) { s with loop := if ok then .checking else .threw }
  | checked (h : s.loop = .checking) :
      Moves service s .checked { s with loop := if s.stop then .returned else .accepting }
  | accepted (ok : Bool) (h : s.loop = .accepting) :
      Moves service s (.accepted ok)
        { s with loop := if ok then .serving service.started else .threw }
  | client (c c' : σ) (e : ε) (h : s.loop = .serving c) (hstep : service.step c e = some c') :
      Moves service s (.client e) { s with loop := .serving c' }
  | left (c : σ) (h : s.loop = .serving c) (hover : service.ended c = true) :
      Moves service s .left { s with loop := .checking, served := s.served ++ [c] }
  | raised (h : s.loop.hasThrown = false) (hstop : s.stop = false) :
      Moves service s .raised { s with stop := true }
  | joined (h : s.loop.hasReturned = true) (hstop : s.stop = true) (hjoined : s.joined = false) :
      Moves service s .joined { s with joined := true }

theorem moves_of_step (h : s.step service event = some next) : Moves service s event next := by
  cases event with
  | opened ok =>
    cases hloop : s.loop <;> simp only [step, hloop, reduceCtorEq, Option.some.injEq] at h
    exact h ▸ .opened ok hloop
  | checked =>
    cases hloop : s.loop <;> simp only [step, hloop, reduceCtorEq, Option.some.injEq] at h
    exact h ▸ .checked hloop
  | accepted ok =>
    cases hloop : s.loop <;> simp only [step, hloop, reduceCtorEq, Option.some.injEq] at h
    exact h ▸ .accepted ok hloop
  | client e =>
    cases hloop : s.loop <;> simp only [step, hloop, reduceCtorEq, Option.map_eq_some_iff] at h
    obtain ⟨c', hstep, rfl⟩ := h
    exact .client _ c' e hloop hstep
  | left =>
    cases hloop : s.loop <;> simp only [step, hloop, reduceCtorEq] at h
    obtain ⟨hover, h⟩ := Option.ite_none_right_eq_some.mp h
    obtain rfl := Option.some.inj h
    exact .left _ hloop hover
  | raised =>
    obtain ⟨hcond, h⟩ := Option.ite_none_left_eq_some.mp h
    obtain rfl := Option.some.inj h
    rw [Bool.or_eq_true, not_or, Bool.not_eq_true, Bool.not_eq_true] at hcond
    exact .raised hcond.1 hcond.2
  | joined =>
    obtain ⟨hcond, h⟩ := Option.ite_none_right_eq_some.mp h
    obtain rfl := Option.some.inj h
    rw [Bool.and_eq_true, Bool.and_eq_true, Bool.not_eq_true'] at hcond
    exact .joined hcond.1.1 hcond.1.2 hcond.2

theorem step_accepted (h : s.loop = .accepting) :
    s.step service (.accepted true) = some { s with loop := .serving service.started } := by
  simp only [step, h, if_true]

theorem step_left {client : σ} (h : s.loop = .serving client) (hover : service.ended client = true) :
    s.step service .left =
      some { s with loop := .checking, served := s.served ++ [client] } := by
  simp only [step, h, hover, if_true]

/-- What is known of the clients, and of the loop once it has ended. -/
structure Keeps (service : Service σ ε) (I : σ → Prop) (s : Server σ) : Prop where
  serving : ∀ client, s.loop = .serving client → I client
  served : ∀ client ∈ s.served, I client ∧ service.ended client = true
  returned : s.loop.hasReturned = true → s.stop = true
  joined : s.joined = true → s.loop.hasReturned = true

variable {I : σ → Prop}

theorem Keeps.step (hstarted : I service.started)
    (hkeeps : ∀ client event next, I client → service.step client event = some next → I next)
    (h : Keeps service I s) (hstep : s.step service event = some next) : Keeps service I next := by
  have hgoing : ∀ {loop : Loop σ}, s.loop = loop → loop.hasReturned = false → s.joined = false := by
    intro loop hloop hreturned
    rw [Bool.eq_false_iff]
    intro hjoined
    have hback := h.joined hjoined
    rw [hloop, hreturned] at hback
    cases hback
  cases moves_of_step hstep with
  | opened ok hloop =>
    have hjoined := hgoing hloop rfl
    cases ok with
    | false => exact ⟨nofun, h.served, nofun, fun hj => by simp [hjoined] at hj⟩
    | true => exact ⟨nofun, h.served, nofun, fun hj => by simp [hjoined] at hj⟩
  | checked hloop =>
    have hjoined := hgoing hloop rfl
    cases hstop : s.stop with
    | false => exact ⟨nofun, h.served, nofun, fun hj => by simp [hjoined] at hj⟩
    | true => exact ⟨nofun, h.served, fun _ => rfl, fun _ => rfl⟩
  | accepted ok hloop =>
    have hjoined := hgoing hloop rfl
    cases ok with
    | false => exact ⟨nofun, h.served, nofun, fun hj => by simp [hjoined] at hj⟩
    | true =>
      refine ⟨?_, h.served, nofun, fun hj => by simp [hjoined] at hj⟩
      rintro client ⟨⟩
      exact hstarted
  | client c c' e hloop hclient =>
    refine ⟨?_, h.served, nofun, fun hj => by simp [hgoing hloop rfl] at hj⟩
    rintro client ⟨⟩
    exact hkeeps c e c' (h.serving c hloop) hclient
  | left c hloop hover =>
    refine ⟨nofun, ?_, nofun, fun hj => by simp [hgoing hloop rfl] at hj⟩
    intro client hclient
    obtain hold | hnew := List.mem_append.mp hclient
    · exact h.served client hold
    · obtain rfl := List.mem_singleton.mp hnew
      exact ⟨h.serving client hloop, hover⟩
  | raised => exact ⟨h.serving, h.served, fun _ => rfl, h.joined⟩
  | joined hloop hstop => exact ⟨h.serving, h.served, h.returned, fun _ => hloop⟩

/-! ### Counting the clients -/

/-- The clients so far. -/
def clients (s : Server σ) : ℕ :=
  s.served.length + match s.loop with
    | .serving _ => 1
    | _ => 0

/-- A client is accepted. -/
def isAccepted (_ : Server σ) : Event ε → Bool
  | .accepted ok => ok
  | _ => false

/-- A client is accepted although the flag is up. -/
def isLate (s : Server σ) (event : Event ε) : Bool := s.stop && s.isAccepted event

variable {Q : ε → Prop} {P : σ → Prop} {QS : Event ε → Prop}

/-- What a client can reach, it reaches on the server. -/
theorem canReach_serving {client : σ} (hQ : ∀ event, Q event → QS (.client event))
    (h : CanReach service.step Q P client) (hloop : s.loop = .serving client) :
    CanReach (step service) QS (fun final => ∃ c, P c ∧ final = { s with loop := .serving c }) s := by
  have hsteps : ∀ c event c', Q event → service.step c event = some c' →
      QS (.client event) ∧ step service { s with loop := .serving c } (.client event) =
        some { s with loop := .serving c' } := by
    intro c event c' hevent hstep
    refine ⟨hQ event hevent, ?_⟩
    simp only [step, hstep, Option.map_some]
  have hs : { s with loop := Loop.serving client } = s := by rw [← hloop]
  have hlift := CanReach.lift (fun c => { s with loop := Loop.serving c }) Event.client hsteps h
  rwa [hs] at hlift

/-- A client that is being served can be served to its end. -/
theorem canReach_left {client : σ} (hQ : ∀ event, Q event → QS (.client event)) (hleft : QS .left)
    (h : CanReach service.step Q (fun c => P c ∧ service.ended c = true) client)
    (hloop : s.loop = .serving client) :
    CanReach (step service) QS
      (fun final => ∃ c, P c ∧ final = { s with loop := .checking, served := s.served ++ [c] }) s := by
  refine (canReach_serving hQ h hloop).trans ?_
  rintro _ ⟨c, ⟨hc, hover⟩, rfl⟩
  exact .head (step_left rfl hover) hleft (.here ⟨c, hc, rfl⟩)

theorem canReach_ended {client : σ} (hQ : ∀ event, Q event → QS (.client event)) (hleft : QS .left)
    (h : CanReach service.step Q (fun c => service.ended c = true) client)
    (hloop : s.loop = .serving client) :
    CanReach (step service) QS
      (fun final => ∃ c, final = { s with loop := .checking, served := s.served ++ [c] }) s := by
  have hover : CanReach service.step Q (fun c => True ∧ service.ended c = true) client :=
    h.imp (fun _ hevent => hevent) fun _ hc => ⟨trivial, hc⟩
  refine (canReach_left hQ hleft hover hloop).imp (fun _ hevent => hevent) ?_
  rintro _ ⟨c, -, rfl⟩
  exact ⟨c, rfl⟩

end Server

end OneByOne
