import Mathlib.Data.List.Chain

/-!
# Dialogues

A party that has one operation in flight at a time: it starts an operation,
waits for the outcome, and the outcome decides what it starts next, if anything.
`next op outcome` is that decision.

Against a list of outcomes, a dialogue is a list of exchanges, each an operation
with its outcome; everything the party does is read off them. `trace` is the
operations started, and `trace_getElem?_succ` says it is determined place by
place.

A program follows a dialogue if its state always shows which operation is in
flight. `Follows.log_run` then computes any log the program keeps, for every
list of outcomes, from what one completion adds to it.
-/

namespace Dialogue

variable {α β γ σ : Type*} (next : α → β → Option α)

/-- The operations that complete, from `op` on, each with its outcome. -/
def exchanges : α → List β → List (α × β)
  | _, [] => []
  | op, outcome :: rest =>
      (op, outcome) :: match next op outcome with
        | none => []
        | some op' => exchanges op' rest

/-- What is emitted on each exchange. -/
def emitted (emit : α → β → Option γ) (op : α) (outcomes : List β) : List γ :=
  (exchanges next op outcomes).filterMap fun exchange => emit exchange.1 exchange.2

/-- The operations started: `op`, and what each exchange leads to. -/
def trace (op : α) (outcomes : List β) : List α :=
  op :: emitted next next op outcomes

variable {next} {emit : α → β → Option γ} {op op' : α} {outcome : β} {rest outcomes : List β}

@[simp] theorem emitted_nil : emitted next emit op [] = [] := rfl

theorem emitted_cons_of_some (h : next op outcome = some op') :
    emitted next emit op (outcome :: rest) =
      (emit op outcome).toList ++ emitted next emit op' rest := by
  rw [emitted, exchanges, h]
  cases hemit : emit op outcome <;> simp [hemit, emitted]

theorem emitted_cons_of_none (h : next op outcome = none) :
    emitted next emit op (outcome :: rest) = (emit op outcome).toList := by
  rw [emitted, exchanges, h]
  cases hemit : emit op outcome <;> simp [hemit]

/-- What is made of the emissions of one kind, emission by emission. -/
theorem emitted_bind {δ : Type*} (f : γ → Option δ) :
    emitted next (fun op outcome => (emit op outcome).bind f) op outcomes =
      (emitted next emit op outcomes).filterMap f := by
  rw [emitted, emitted, List.filterMap_filterMap]

theorem emitted_none : emitted next (fun _ _ => (none : Option γ)) op outcomes = [] := by
  simp [emitted]

theorem emitted_map {δ : Type*} (f : γ → δ) :
    emitted next (fun op outcome => (emit op outcome).map f) op outcomes =
      (emitted next emit op outcomes).map f := by
  rw [emitted, emitted, List.map_filterMap]

@[simp] theorem trace_nil : trace next op [] = [op] := rfl

theorem trace_cons_of_some (h : next op outcome = some op') :
    trace next op (outcome :: rest) = op :: trace next op' rest := by
  rw [trace, emitted_cons_of_some h, h, trace]
  rfl

theorem trace_cons_of_none (h : next op outcome = none) :
    trace next op (outcome :: rest) = [op] := by
  rw [trace, emitted_cons_of_none h, h]
  rfl

/-- The operation at each later place is what the one before it and its outcome
lead to. -/
theorem trace_getElem?_succ (i : ℕ) :
    (trace next op outcomes)[i + 1]? =
      (trace next op outcomes)[i]?.bind fun before => outcomes[i]?.bind (next before) := by
  induction outcomes generalizing op i with
  | nil =>
    cases i <;> simp
  | cons outcome rest ih =>
    cases h : next op outcome with
    | none =>
      rw [trace_cons_of_none h]
      cases i with
      | zero => simp [h]
      | succ i => simp
    | some op' =>
      rw [trace_cons_of_some h]
      cases i with
      | zero => simp [h, trace]
      | succ i => simpa using ih i

/-- What holds of an operation and the one it leads to, holds all along. -/
theorem trace_isChain (R : α → α → Prop)
    (leads : ∀ op outcome op', next op outcome = some op' → R op op') (op : α)
    (outcomes : List β) : (trace next op outcomes).IsChain R := by
  induction outcomes generalizing op with
  | nil => exact List.isChain_singleton op
  | cons outcome rest ih =>
    cases h : next op outcome with
    | none =>
      rw [trace_cons_of_none h]
      exact List.isChain_singleton op
    | some op' =>
      rw [trace_cons_of_some h]
      exact List.isChain_cons_cons.mpr ⟨leads op outcome op' h, ih op'⟩

/-! ## Outcome by outcome -/

/-- The operation in flight after the outcomes, if there is one. -/
def awaiting (next : α → β → Option α) : α → List β → Option α
  | op, [] => some op
  | op, outcome :: rest => (next op outcome).bind fun op' => awaiting next op' rest

theorem exchanges_concat (op : α) (outcomes : List β) (outcome : β) :
    exchanges next op (outcomes ++ [outcome]) =
      exchanges next op outcomes ++
        ((awaiting next op outcomes).map fun last => (last, outcome)).toList := by
  induction outcomes generalizing op with
  | nil =>
    rw [List.nil_append, exchanges, exchanges]
    cases next op outcome <;> rfl
  | cons first rest ih =>
    rw [List.cons_append, awaiting, exchanges, exchanges, List.cons_append]
    cases next op first with
    | none => rfl
    | some op' => exact congrArg (List.cons (op, first)) (ih op')

theorem emitted_concat (op : α) (outcomes : List β) (outcome : β) :
    emitted next emit op (outcomes ++ [outcome]) =
      emitted next emit op outcomes ++
        ((awaiting next op outcomes).bind fun last => emit last outcome).toList := by
  rw [emitted, exchanges_concat, List.filterMap_append, emitted]
  congr 1
  cases awaiting next op outcomes with
  | none => rfl
  | some last => cases hemit : emit last outcome <;> simp [hemit]

theorem trace_concat (op : α) (outcomes : List β) (outcome : β) :
    trace next op (outcomes ++ [outcome]) =
      trace next op outcomes ++
        ((awaiting next op outcomes).bind fun last => next last outcome).toList := by
  rw [trace, emitted_concat, trace, List.cons_append]

/-! ## Dialogues along a list -/

/-- From `op` on the operations follow each other in a fixed order, up to the first
outcome that is `bad`. -/
inductive Linear (next : α → β → Option α) (bad : β → Bool) : α → List α → Prop
  | last {op : α} : (∀ outcome, next op outcome = none) → Linear next bad op []
  | step {op op' : α} {ops : List α} :
      (∀ outcome, next op outcome = if bad outcome then none else some op') →
      Linear next bad op' ops → Linear next bad op (op' :: ops)

theorem Linear.trace_eq {bad : β → Bool} {ops : List α} (h : Linear next bad op ops)
    (outcomes : List β) :
    trace next op outcomes =
      (op :: ops).take ((outcomes.takeWhile fun outcome => !bad outcome).length + 1) := by
  induction h generalizing outcomes with
  | last hnone =>
    cases outcomes with
    | nil => rfl
    | cons outcome rest => rw [trace_cons_of_none (hnone outcome), List.take_succ_cons, List.take_nil]
  | step hnext _ ih =>
    cases outcomes with
    | nil => rfl
    | cons outcome rest =>
      have hstep := hnext outcome
      cases hbad : bad outcome with
      | true =>
        rw [hbad, if_pos rfl] at hstep
        rw [trace_cons_of_none hstep]
        simp [hbad]
      | false =>
        rw [hbad, if_neg Bool.false_ne_true] at hstep
        rw [trace_cons_of_some hstep, ih]
        simp [hbad]

/-- While no outcome is bad, the operations are taken in order. -/
theorem Linear.awaiting_eq {bad : β → Bool} {ops : List α} (h : Linear next bad op ops)
    {outcomes : List β} (hgood : ∀ outcome ∈ outcomes, bad outcome = false) :
    awaiting next op outcomes = (op :: ops)[outcomes.length]? := by
  induction h generalizing outcomes with
  | last hnone =>
    cases outcomes with
    | nil => rfl
    | cons outcome rest =>
      rw [awaiting, hnone, Option.bind_none, List.length_cons, List.getElem?_cons_succ,
        List.getElem?_nil]
  | step hnext _ ih =>
    cases outcomes with
    | nil => rfl
    | cons outcome rest =>
      obtain ⟨hfirst, hrest⟩ := List.forall_mem_cons.mp hgood
      rw [awaiting, hnext, hfirst, if_neg Bool.false_ne_true, Option.bind_some, ih hrest]
      rfl

/-! ## Programs that follow a dialogue -/

/-- The program, in state `state`, has exactly `op` in flight or is idle; each
completion moves it as the dialogue says, and an idle program stays as it is. -/
structure Follows (next : α → β → Option α) (complete : σ → β → σ) (inFlight : σ → α → Prop)
    (idle : σ → Prop) : Prop where
  continues : ∀ state op outcome op', inFlight state op → next op outcome = some op' →
    inFlight (complete state outcome) op'
  stops : ∀ state op outcome, inFlight state op → next op outcome = none →
    idle (complete state outcome)
  rests : ∀ state outcome, idle state → complete state outcome = state

variable {complete : σ → β → σ} {inFlight : σ → α → Prop} {idle : σ → Prop} {state : σ}

theorem Follows.run_idle (follows : Follows next complete inFlight idle) (hidle : idle state)
    (outcomes : List β) : outcomes.foldl complete state = state := by
  induction outcomes with
  | nil => rfl
  | cons outcome rest ih => rw [List.foldl_cons, follows.rests state outcome hidle, ih]

/-- After any outcomes, some operation is in flight or the program is idle. -/
theorem Follows.run (follows : Follows next complete inFlight idle) (hstate : inFlight state op)
    (outcomes : List β) :
    (∃ op', inFlight (outcomes.foldl complete state) op') ∨
      idle (outcomes.foldl complete state) := by
  induction outcomes generalizing state op with
  | nil => exact Or.inl ⟨op, hstate⟩
  | cons outcome rest ih =>
    cases h : next op outcome with
    | none =>
      have hidle := follows.stops state op outcome hstate h
      rw [List.foldl_cons, follows.run_idle hidle]
      exact Or.inr hidle
    | some op' => exact ih (follows.continues state op outcome op' hstate h)

/-- **The log rule.** If completing an operation appends to a log what `emit`
says, then the log of a run is what the dialogue emits. -/
theorem Follows.log_run (follows : Follows next complete inFlight idle) (log : σ → List γ)
    (emits : ∀ state op outcome, inFlight state op →
      log (complete state outcome) = log state ++ (emit op outcome).toList)
    (hstate : inFlight state op) (outcomes : List β) :
    log (outcomes.foldl complete state) = log state ++ emitted next emit op outcomes := by
  induction outcomes generalizing state op with
  | nil => rw [List.foldl_nil, emitted_nil, List.append_nil]
  | cons outcome rest ih =>
    have hlog := emits state op outcome hstate
    rw [List.foldl_cons]
    cases h : next op outcome with
    | none =>
      rw [follows.run_idle (follows.stops state op outcome hstate h), hlog,
        emitted_cons_of_none h]
    | some op' =>
      rw [ih (follows.continues state op outcome op' hstate h), hlog, emitted_cons_of_some h,
        List.append_assoc]

end Dialogue
