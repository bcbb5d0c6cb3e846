import BoostProjects.Library.Dialogue

/-!
# Programs in direct style

A program that waits for one operation at a time, written in the order in which
it runs: it starts an operation, goes on with its outcome, has effects in
between, and returns, or an exception leaves it. Whether it waits by blocking a
thread or by suspending a coroutine makes no difference here.

Such a program speaks a dialogue if what it does with each outcome is what the
dialogue says. The record of any run is then read off the dialogue
(`Speaks.started`, `Speaks.effects`, `Speaks.raised`), and it is the record of
every program made of callbacks that follows the same dialogue.
-/

namespace Direct

open Dialogue

variable {α β γ ε ζ : Type*}

/-- A program, from where it stands. -/
inductive Program (α β γ ε : Type*)
  | await (op : α) (resume : β → Program α β γ ε)
  | perform (effect : γ) (rest : Program α β γ ε)
  | done
  | throw (exception : ε)

/-- What a run has done: the operations started, the effects, and the exception that
has left the program. -/
structure Record (α γ ε : Type*) where
  started : List α := []
  effects : List γ := []
  raised : Option ε := none
  deriving DecidableEq, Repr

namespace Program

/-- A run against a list of outcomes, one for each operation. When they have run
out, the operation started last has not completed. -/
def run : Program α β γ ε → List β → Record α γ ε
  | .await op _, [] => { started := [op] }
  | .await op resume, outcome :: rest =>
    let record := (resume outcome).run rest
    { record with started := op :: record.started }
  | .perform effect rest, outcomes =>
    let record := rest.run outcomes
    { record with effects := effect :: record.effects }
  | .done, _ => {}
  | .throw exception, _ => { raised := some exception }

/-- `try { program } catch (exception) { handler }` -/
def handle (handler : ε → Program α β γ ζ) : Program α β γ ε → Program α β γ ζ
  | .await op resume => .await op fun outcome => (resume outcome).handle handler
  | .perform effect rest => .perform effect (rest.handle handler)
  | .done => .done
  | .throw exception => handler exception

/-- An effect, if there is one, and then the rest. -/
def performs (rest : Program α β γ ε) : Option γ → Program α β γ ε
  | none => rest
  | some effect => .perform effect rest

/-- The end, by an exception if there is one. -/
def ending : Option ε → Program α β γ ε
  | none => .done
  | some exception => .throw exception

theorem run_performs (rest : Program α β γ ε) (effect : Option γ) (outcomes : List β) :
    (performs rest effect).run outcomes =
      { rest.run outcomes with effects := effect.toList ++ (rest.run outcomes).effects } := by
  cases effect with
  | none => rfl
  | some effect => cases outcomes <;> rfl

theorem run_ending (exception : Option ε) (outcomes : List β) :
    (ending exception : Program α β γ ε).run outcomes = { raised := exception } := by
  cases exception <;> rfl

end Program

open Program

/-! ## Programs that speak a dialogue -/

/-- The program waits for `op`, and with each outcome it has the effect of `emit`;
then it goes on to what follows, or ends as `raise` says. -/
inductive Speaks (next : α → β → Option α) (emit : α → β → Option γ) (raise : α → β → Option ε) :
    α → Program α β γ ε → Prop
  | await {op : α} {resume rest : β → Program α β γ ε} :
      (∀ outcome, resume outcome = performs (rest outcome) (emit op outcome)) →
      (∀ outcome, next op outcome = none → rest outcome = ending (raise op outcome)) →
      (∀ outcome op', next op outcome = some op' → raise op outcome = none) →
      (∀ outcome op', next op outcome = some op' → Speaks next emit raise op' (rest outcome)) →
      Speaks next emit raise op (.await op resume)

section Speaks

variable {next : α → β → Option α} {emit : α → β → Option γ} {raise : α → β → Option ε} {op : α}
  {program : Program α β γ ε}

/-- **The record of a run is that of the dialogue.** -/
theorem Speaks.run_eq (h : Speaks next emit raise op program) (outcomes : List β) :
    program.run outcomes =
      { started := trace next op outcomes
        effects := emitted next emit op outcomes
        raised := (emitted next raise op outcomes).head? } := by
  induction h generalizing outcomes with
  | @await op resume rest hresume hends hquiet _ ih =>
    cases outcomes with
    | nil => rfl
    | cons outcome outcomes =>
      rw [run, hresume, run_performs]
      cases hnext : next op outcome with
      | none =>
        rw [hends outcome hnext, run_ending, trace_cons_of_none hnext, emitted_cons_of_none hnext,
          emitted_cons_of_none hnext, List.append_nil]
        cases raise op outcome <;> rfl
      | some op' =>
        rw [ih outcome op' hnext, trace_cons_of_some hnext, emitted_cons_of_some hnext,
          emitted_cons_of_some hnext, hquiet outcome op' hnext]
        rfl

/-- A program whose exceptions are all turned into an effect speaks the dialogue in
which that effect stands in their place. -/
theorem Speaks.handle (h : Speaks next emit raise op program) (report : ε → γ)
    (hexcl : ∀ op outcome exception, raise op outcome = some exception → emit op outcome = none) :
    Speaks next (fun op outcome => (emit op outcome).or ((raise op outcome).map report))
      (fun _ _ => (none : Option ζ)) op
      (program.handle fun exception => .perform (report exception) .done) := by
  induction h with
  | @await op resume rest hresume hends hquiet _ ih =>
    have hgoes : ∀ outcome, (resume outcome).handle
        (fun exception => (.perform (report exception) .done : Program α β γ ζ)) =
        (if (next op outcome).isNone then .done
          else (rest outcome).handle fun exception => .perform (report exception) .done).performs
          ((emit op outcome).or ((raise op outcome).map report)) := by
      intro outcome
      rw [hresume]
      cases hnext : next op outcome with
      | none =>
        rw [hends outcome hnext]
        cases hraise : raise op outcome with
        | none => cases emit op outcome <;> rfl
        | some exception =>
          rw [hexcl op outcome exception hraise]
          rfl
      | some op' =>
        rw [hquiet outcome op' hnext]
        cases emit op outcome <;> rfl
    refine .await hgoes (fun outcome hnext => ?_) (fun _ _ _ => rfl) (fun outcome op' hnext => ?_)
    · rw [hnext]
      rfl
    · rw [hnext]
      exact ih outcome op' hnext

/-- One step of a program that stops at the first bad outcome. -/
theorem Speaks.step {bad : β → Bool} {op' : α} {resume rest : β → Program α β γ ε}
    (hnext : ∀ outcome, next op outcome = if bad outcome then none else some op')
    (hresume : ∀ outcome, resume outcome = performs (rest outcome) (emit op outcome))
    (hbad : ∀ outcome, bad outcome = true → rest outcome = ending (raise op outcome))
    (hgood : ∀ outcome, bad outcome = false →
      raise op outcome = none ∧ Speaks next emit raise op' (rest outcome)) :
    Speaks next emit raise op (.await op resume) := by
  have hsome : ∀ outcome op'', next op outcome = some op'' →
      bad outcome = false ∧ op'' = op' := by
    intro outcome op'' h
    rw [hnext] at h
    split_ifs at h with hout
    exact ⟨by simpa using hout, (Option.some.inj h).symm⟩
  refine .await hresume (fun outcome h => hbad outcome ?_) (fun outcome op'' h => ?_)
    (fun outcome op'' h => ?_)
  · by_contra hout
    rw [hnext, if_neg hout] at h
    exact Option.some_ne_none _ h
  · exact (hgood outcome (hsome outcome op'' h).1).1
  · rw [(hsome outcome op'' h).2]
    exact (hgood outcome (hsome outcome op'' h).1).2

end Speaks

end Direct
