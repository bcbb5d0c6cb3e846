import BoostProjects.Beast.Http.Protocol

/-!
# What a session leaves in its request

`do_session` reads every request into a fresh object. The class `session` reads
them all into one member, which `do_read` clears first; but `clear` erases the
header fields only, and `handle_request` takes the request by rvalue reference
without moving anything out of it. So the body stays, and the next read appends
to it: the body that `handle_request` is given is that of all requests so far,
one after the other.

`handled_after` says so for every run. The two sessions therefore agree exactly
as long as the requests before the last had no body.
-/

namespace BoostProjects.Beast.Http

open Boost Cpp Dialogue

variable {docRoot : Str}

/-- The requests on the wire: those that a read brings, in the protocol. -/
def requests (docRoot : Str) (outcomes : List Outcome) : List Request :=
  emitted (next docRoot) arrived .handshake outcomes

/-- The requests, each with the bodies of its predecessors in front of its
own. -/
def accumulate : Str → List Request → List Request
  | _, [] => []
  | body, request :: rest =>
      { request with body := body ++ request.body } :: accumulate (body ++ request.body) rest

theorem accumulate_nil_of_forall {later : List Request}
    (h : ∀ request ∈ later.dropLast, request.body = []) : accumulate [] later = later := by
  induction later with
  | nil => rfl
  | cons request rest ih =>
    rw [accumulate, List.nil_append]
    cases rest with
    | nil => rfl
    | cons second rest =>
      have hempty : request.body = [] := h request List.mem_cons_self
      rw [hempty, ih fun later hlater => h later (List.mem_cons_of_mem request hlater)]
      rw [← hempty]

/-- The accumulated requests are the requests themselves exactly if only the
last of them has a body. -/
theorem accumulate_nil_eq_iff (received : List Request) :
    accumulate [] received = received ↔ ∀ request ∈ received.dropLast, request.body = [] := by
  refine ⟨fun h => ?_, accumulate_nil_of_forall⟩
  induction received with
  | nil => exact fun request hmem => absurd hmem List.not_mem_nil
  | cons request rest ih =>
    cases rest with
    | nil => exact fun request hmem => absurd hmem List.not_mem_nil
    | cons second rest =>
      rw [accumulate, List.nil_append] at h
      obtain ⟨-, htail⟩ := List.cons.inj h
      -- The second request shows the body of the first in front of its own.
      have hbody : request.body = [] := by
        have hsecond := congrArg Request.body (List.cons.inj htail).1
        exact List.append_left_eq_self.mp hsecond
      rw [hbody] at htail
      intro later hlater
      rcases List.mem_cons.mp hlater with rfl | hlater
      · exact hbody
      · exact ih htail later hlater

namespace ASync

variable {session : Session} {op : Operation} {outcome : Outcome}

/-- What `handle_request` is given: the request that was read, with the body so
far in front of its own. -/
theorem InFlight.map_read_arrived (h : InFlight docRoot session op) :
    (arrived op outcome).map session.request.read =
      (arrived op outcome).map fun received =>
        { received with body := session.request.body ++ received.body } := by
  cases op with
  | read =>
    refine Option.map_congr fun received _ => ?_
    rw [Request.read, h.fields rfl, List.nil_append]
  | handshake | write | shutdown => rfl

/-- **The residue.** Whatever a session is in the middle of, the requests it
gives to `handle_request` from then on are those that arrive, accumulated behind
the body that its request holds. -/
theorem handled_foldl (h : InFlight docRoot session op) (outcomes : List Outcome) :
    (outcomes.foldl Session.complete session).log.handled =
      session.log.handled ++
        accumulate session.request.body (emitted (next docRoot) arrived op outcomes) := by
  induction outcomes generalizing session op with
  | nil => exact (List.append_nil _).symm
  | cons outcome rest ih =>
    have hhandled := handled_advance session op outcome
    have hbody := body_advance session op outcome
    rw [h.map_read_arrived] at hhandled hbody
    rw [List.foldl_cons, h.complete_eq]
    cases hnext : next docRoot op outcome with
    -- The session stops, and what comes later finds nothing in flight.
    | none =>
      have hidle : (session.advance op outcome).inFlight = [] := by
        rw [Session.advance, h.root, hnext]
      rw [(follows docRoot).run_idle hidle, hhandled, emitted_cons_of_none hnext]
      cases arrived op outcome <;> rfl
    | some op' =>
      -- What the request holds now is what the later ones are accumulated behind.
      rw [ih (h.advance hnext), hhandled, hbody, emitted_cons_of_some hnext, List.append_assoc]
      cases arrived op outcome <;> rfl

theorem handled_after (docRoot : Str) (outcomes : List Outcome) :
    (after docRoot outcomes).log.handled = accumulate [] (requests docRoot outcomes) :=
  handled_foldl (inFlight_started docRoot) outcomes

end ASync

/-- **No residue, exactly when.** The blocking session gives `handle_request`
the requests on the wire. The asynchronous one does if and only if every request
before the last has an empty body. -/
theorem handled_eq_requests_iff (docRoot : Str) (outcomes : List Outcome) :
    (Sync.doSession docRoot outcomes).handled = requests docRoot outcomes ∧
      ((ASync.after docRoot outcomes).log.handled = requests docRoot outcomes ↔
        ∀ request ∈ (requests docRoot outcomes).dropLast, request.body = []) := by
  constructor
  · rw [Sync.doSession_eq]
    rfl
  · rw [ASync.handled_after]
    exact accumulate_nil_eq_iff (requests docRoot outcomes)

/-- An operation that succeeds, with the request that arrives by it. -/
def Outcome.success (received : Request) : Outcome :=
  { errorCode := .success, received, world := { platform := .plain, files := FileSystem.bare } }

/-- Two `POST` requests on one connection: the second is handled with the body
of the first. -/
theorem handled_two_posts :
    let posts : List Request :=
      [{ Request.plain .post "/".toList with body := "a=1".toList },
        { Request.plain .post "/".toList with body := "b=2".toList }]
    let outcomes := Outcome.success .fresh ::
      posts.flatMap fun request => [.success request, .success .fresh]
    requests "/".toList outcomes = posts ∧
      (ASync.after "/".toList outcomes).log.handled ≠ posts := by
  decide

end BoostProjects.Beast.Http
