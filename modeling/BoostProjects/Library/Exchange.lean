import BoostProjects.Library.Dialogue
import BoostProjects.Library.Transition
import Mathlib.Data.List.Forall2

/-!
# Two dialogues on one connection

A client and a server that each follow a dialogue. Some of the operations carry
messages: a client asks when it starts one, a server hears when one completes, it answers
when it starts the next, and the client receives when one completes.

The messages on their way are not stored: the server hears the requests in the order in
which they have been asked, and the client receives no more than has been answered. An
operation can fail at any point, and a message can be received before the operation that
sends it has completed.

So whatever the two sides do, the replies that the client has are answers to what it has
asked, one by one (`replies_answer`).
-/

namespace Dialogue

open Transition

variable {κ β σ δ ρ τ : Type*}

/-- The dialogues of a client and of a server, and the messages that their operations
carry. -/
structure Exchange (κ β σ δ ρ τ : Type*) where
  clientNext : κ → β → Option κ
  clientFirst : κ
  /-- The request that an operation sends. -/
  asks : κ → Option ρ
  /-- With this outcome an operation has brought a reply. -/
  receives : κ → β → Bool
  serverNext : σ → δ → Option σ
  serverFirst : σ
  /-- The request that an operation with its outcome has brought. -/
  hears : σ → δ → Option ρ
  /-- The reply that an operation sends. -/
  answers : σ → Option τ
  /-- The reply to a request, with the outcome that has brought it. -/
  respond : δ → ρ → τ

namespace Exchange

/-- How the operations of both sides have ended so far. -/
structure State (β δ : Type*) where
  client : List β := []
  server : List δ := []

/-- An operation of either side ends. -/
inductive Event (β δ : Type*)
  | client (outcome : β)
  | server (outcome : δ)

section Steps

variable (e : Exchange κ β σ δ ρ τ) (s : State β δ)

/-- What the client has started to send. -/
def asked : List ρ := (trace e.clientNext e.clientFirst s.client).filterMap e.asks

/-- The requests that the server has received. -/
def heard : List ρ := emitted e.serverNext e.hears e.serverFirst s.server

/-- What the server has started to send. -/
def answered : List τ := (trace e.serverNext e.serverFirst s.server).filterMap e.answers

/-- One for each reply that the client has received. -/
def received : List Unit :=
  emitted e.clientNext (fun op outcome => if e.receives op outcome then some () else none)
    e.clientFirst s.client

/-- The replies that the client has received. -/
def replies : List τ := (e.answered s).take (e.received s).length

/-- The operation of the client can end so. -/
def ClientCan (op : κ) (outcome : β) : Prop :=
  e.receives op outcome = true → (e.received s).length < (e.answered s).length

instance (op : κ) (outcome : β) : Decidable (e.ClientCan s op outcome) :=
  inferInstanceAs (Decidable (_ → _))

/-- The operation of the server can end so. -/
def ServerCan (op : σ) (outcome : δ) : Prop :=
  ∀ request ∈ e.hears op outcome, (e.asked s)[(e.heard s).length]? = some request

instance [DecidableEq ρ] (op : σ) (outcome : δ) : Decidable (e.ServerCan s op outcome) :=
  inferInstanceAs (Decidable (∀ request ∈ e.hears op outcome, _))

end Steps

/-- An operation ends as it can. -/
def step [DecidableEq ρ] (e : Exchange κ β σ δ ρ τ) (s : State β δ) : Event β δ → Option (State β δ)
  | .client outcome =>
    (awaiting e.clientNext e.clientFirst s.client).bind fun op =>
      if e.ClientCan s op outcome then some { s with client := s.client ++ [outcome] } else none
  | .server outcome =>
    (awaiting e.serverNext e.serverFirst s.server).bind fun op =>
      if e.ServerCan s op outcome then some { s with server := s.server ++ [outcome] } else none

/-- The server answers what it has heard, and nothing else. -/
structure Responsive (e : Exchange κ β σ δ ρ τ) : Prop where
  first : e.answers e.serverFirst = none
  next : ∀ op outcome op', e.serverNext op outcome = some op' →
    e.answers op' = (e.hears op outcome).map (e.respond outcome)
  last : ∀ op outcome, e.serverNext op outcome = none → e.hears op outcome = none

variable {e : Exchange κ β σ δ ρ τ} {s next : State β δ}

/-! ## The server -/

theorem answered_concat (hresponsive : e.Responsive) (outcome : δ) :
    e.answered { s with server := s.server ++ [outcome] } =
      e.answered s ++ (((awaiting e.serverNext e.serverFirst s.server).bind fun op =>
        e.hears op outcome).map (e.respond outcome)).toList := by
  rw [answered, trace_concat, List.filterMap_append, answered]
  congr 1
  cases hop : awaiting e.serverNext e.serverFirst s.server with
  | none => rfl
  | some op =>
    rw [Option.bind_some, Option.bind_some]
    cases hnext : e.serverNext op outcome with
    | none => rw [hresponsive.last op outcome hnext]; rfl
    | some op' =>
      rw [← hresponsive.next op outcome op' hnext]
      cases hanswers : e.answers op' <;> simp [hanswers]

theorem heard_concat (outcome : δ) :
    e.heard { s with server := s.server ++ [outcome] } =
      e.heard s ++ ((awaiting e.serverNext e.serverFirst s.server).bind fun op =>
        e.hears op outcome).toList :=
  emitted_concat _ _ _

/-- The reply to a request, with the outcome of the operation that has brought it. -/
def Answers (e : Exchange κ β σ δ ρ τ) (outcomes : List δ) (request : ρ) (reply : τ) : Prop :=
  ∃ op outcome, (op, outcome) ∈ exchanges e.serverNext e.serverFirst outcomes ∧
    e.hears op outcome = some request ∧ reply = e.respond outcome request

theorem Answers.concat {outcomes : List δ} {request : ρ} {reply : τ}
    (h : e.Answers outcomes request reply) (outcome : δ) :
    e.Answers (outcomes ++ [outcome]) request reply := by
  obtain ⟨op, before, hmem, hhears, hreply⟩ := h
  refine ⟨op, before, ?_, hhears, hreply⟩
  rw [exchanges_concat]
  exact List.mem_append_left _ hmem

/-- **What the server has answered is what it has heard**, one by one. -/
theorem forall₂_answered (hresponsive : e.Responsive) (client : List β) (outcomes : List δ) :
    List.Forall₂ (e.Answers outcomes) (e.heard ⟨client, outcomes⟩)
      (e.answered ⟨client, outcomes⟩) := by
  induction outcomes using List.reverseRecOn with
  | nil =>
    have hnone : e.answered ⟨client, []⟩ = [] := by
      rw [answered, trace_nil, List.filterMap_cons_none hresponsive.first, List.filterMap_nil]
    rw [hnone]
    exact .nil
  | append_singleton outcomes outcome ih =>
    have hanswered := answered_concat (s := ⟨client, outcomes⟩) hresponsive outcome
    have hheard := heard_concat (e := e) (s := ⟨client, outcomes⟩) outcome
    have hbefore := ih.imp fun _ _ hreply => Answers.concat hreply outcome
    rw [hanswered, hheard]
    refine List.rel_append hbefore ?_
    cases hop : awaiting e.serverNext e.serverFirst outcomes with
    | none => exact .nil
    | some op =>
      rw [Option.bind_some]
      cases hhears : e.hears op outcome with
      | none => exact .nil
      | some request =>
        refine .cons ⟨op, outcome, ?_, hhears, rfl⟩ .nil
        rw [exchanges_concat, hop]
        exact List.mem_append_right _ (List.mem_singleton_self _)

/-! ## The connection -/

/-- What holds of the messages at every point. -/
structure Carries (e : Exchange κ β σ δ ρ τ) (s : State β δ) : Prop where
  heard : e.heard s <+: e.asked s
  received : (e.received s).length ≤ (e.answered s).length

theorem asked_concat (outcome : β) :
    e.asked s <+: e.asked { s with client := s.client ++ [outcome] } := by
  rw [asked, asked, trace_concat, List.filterMap_append]
  exact List.prefix_append _ _

theorem answered_isPrefix (outcome : δ) :
    e.answered s <+: e.answered { s with server := s.server ++ [outcome] } := by
  rw [answered, answered, trace_concat, List.filterMap_append]
  exact List.prefix_append _ _

theorem carries_started : Carries e {} where
  heard := List.nil_prefix
  received := Nat.zero_le _

variable [DecidableEq ρ]

theorem Carries.step {event : Event β δ} (h : Carries e s) (hstep : e.step s event = some next) :
    Carries e next := by
  cases event with
  | client outcome =>
    obtain ⟨op, hop, hstep⟩ := Option.bind_eq_some_iff.mp hstep
    obtain ⟨hcan, hstep⟩ := Option.ite_none_right_eq_some.mp hstep
    obtain rfl := Option.some.inj hstep
    refine ⟨h.heard.trans (asked_concat outcome), ?_⟩
    have hreceived : e.received { s with client := s.client ++ [outcome] } =
        e.received s ++ (if e.receives op outcome then some () else none).toList := by
      rw [Exchange.received, emitted_concat, hop]
      rfl
    rw [hreceived, List.length_append]
    change _ ≤ (e.answered s).length
    cases hreceives : e.receives op outcome with
    | false => exact h.received
    -- A reply that is received has been answered, and is not one of those before.
    | true => exact hcan hreceives
  | server outcome =>
    obtain ⟨op, hop, hstep⟩ := Option.bind_eq_some_iff.mp hstep
    obtain ⟨hcan, hstep⟩ := Option.ite_none_right_eq_some.mp hstep
    obtain rfl := Option.some.inj hstep
    refine ⟨?_, h.received.trans (answered_isPrefix outcome).length_le⟩
    rw [heard_concat, hop, Option.bind_some]
    change _ <+: e.asked s
    cases hhears : e.hears op outcome with
    | none =>
      rw [Option.toList_none, List.append_nil]
      exact h.heard
    | some request =>
      -- It is the first that the server has not heard.
      obtain ⟨rest, hrest⟩ := h.heard
      have hnth := hcan request hhears
      rw [← hrest, List.getElem?_append_right (Nat.le_refl _), Nat.sub_self] at hnth
      obtain ⟨more, rfl⟩ := List.head?_eq_some_iff.mp (List.head?_eq_getElem?.trans hnth)
      exact ⟨more, by rw [← hrest, List.append_assoc]; rfl⟩

/-- **The replies answer what has been asked**, one by one. -/
theorem replies_answer (hresponsive : e.Responsive) {events : List (Event β δ)}
    (hrun : run e.step {} events = some s) {i : ℕ} {reply : τ}
    (h : (e.replies s)[i]? = some reply) :
    ∃ request, (e.heard s)[i]? = some request ∧ (e.asked s)[i]? = some request ∧
      e.Answers s.server request reply := by
  have hcarries : Carries e s :=
    run_invariant _ (fun _ _ _ h hstep => h.step hstep) hrun carries_started
  have hanswered : (e.answered s)[i]? = some reply := by
    rw [replies, List.getElem?_take] at h
    exact (Option.ite_none_right_eq_some.mp h).2
  have hforall := forall₂_answered hresponsive s.client s.server
  obtain ⟨hlt, hget⟩ := List.getElem?_eq_some_iff.mp hanswered
  have hlt' : i < (e.heard s).length := by
    rw [hforall.length_eq]
    exact hlt
  have hheard : (e.heard s)[i]? = some (e.heard s)[i] := List.getElem?_eq_getElem hlt'
  refine ⟨(e.heard s)[i], hheard, ?_, ?_⟩
  · obtain ⟨rest, hrest⟩ := hcarries.heard
    rw [← hrest, List.getElem?_append_left hlt', hheard]
  · have hanswer := (List.forall₂_iff_get.mp hforall).2 i hlt' hlt
    rw [← hget]
    exact hanswer

/-- Where a reply has been received there is a first one. -/
theorem exists_first {events : List (Event β δ)} (hrun : run e.step {} events = some s)
    (h : e.received s ≠ []) : ∃ reply, (e.replies s)[0]? = some reply := by
  have hcarries : Carries e s :=
    run_invariant _ (fun _ _ _ h hstep => h.step hstep) hrun carries_started
  have hone : 0 < (e.received s).length := List.length_pos_iff.mpr h
  have hlt : 0 < (e.replies s).length := by
    have hle := hcarries.received
    rw [replies, List.length_take]
    omega
  exact ⟨_, List.getElem?_eq_getElem hlt⟩

end Exchange

end Dialogue
