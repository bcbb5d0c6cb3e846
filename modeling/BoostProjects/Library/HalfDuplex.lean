import BoostProjects.Library.Lists
import BoostProjects.Library.Memory
import BoostProjects.Library.Transition
import Mathlib.Algebra.Ring.Nat

/-!
# Half-duplex echoes

A party on a byte stream reads into its buffer, writes what it has read from
there, and reads again. What such an echo is for does not mention the buffer:
`Echoed` is the specification, in which input is taken only when nothing is owed
and output is the beginning of what is owed.

A `Party` is any program whose operations transfer bytes to and from its buffer.
Its operations in flight are a list, so that nothing keeps it from having several
or from starting one too soon. `Party.Alternates` says what the handlers of a
half-duplex echo do, and from that alone every run of the party refines the
specification: the size of the buffer and the way the stream is cut into reads do
not show in the output.
-/

namespace HalfDuplex

open Memory Transition

variable {σ β ε : Type*} {cap : ℕ}

/-! ## The specification -/

/-- Bytes that cross the stream. -/
inductive Transfer (β : Type*)
  | input (bytes : List β)
  | output (bytes : List β)
  deriving DecidableEq, Repr

/-- The bytes that have come in. -/
def received (trace : List (Transfer β)) : List β :=
  trace.flatMap fun
    | .input bytes => bytes
    | .output _ => []

/-- The bytes that have gone out. -/
def sent (trace : List (Transfer β)) : List β :=
  trace.flatMap fun
    | .input _ => []
    | .output bytes => bytes

theorem received_append (trace rest : List (Transfer β)) :
    received (trace ++ rest) = received trace ++ received rest := List.flatMap_append

/-- After the transfers `trace` an echo owes the bytes `owed`. -/
inductive Echoed : List (Transfer β) → List β → Prop
  | nil : Echoed [] []
  | input {trace : List (Transfer β)} (bytes : List β) (h : Echoed trace []) :
      Echoed (trace ++ [.input bytes]) bytes
  | output {trace : List (Transfer β)} {bytes owed : List β} (h : Echoed trace (bytes ++ owed)) :
      Echoed (trace ++ [.output bytes]) owed

theorem Echoed.balance {trace : List (Transfer β)} {owed : List β} (h : Echoed trace owed) :
    received trace = sent trace ++ owed := by
  induction h with
  | nil => rfl
  | input bytes h ih => simpa [received, sent] using ih
  | output h ih => simpa [received, sent] using ih

/-! ## Parties -/

/-- What an operation is to do. -/
inductive Task
  /-- An operation that transfers no bytes of the stream. -/
  | handshake
  /-- A read of at most `capacity` bytes, to the start of the buffer. -/
  | read (capacity : ℕ)
  /-- A write of the first `length` bytes of the buffer. -/
  | write (length : ℕ)
  deriving DecidableEq, Repr

namespace Task

/-- The operation is a write. -/
def IsWrite : Task → Prop
  | .write _ => True
  | _ => False

instance (task : Task) : Decidable task.IsWrite := by
  cases task <;> unfold IsWrite <;> infer_instance

/-- The task is over after `moved` bytes. A read is over when its bytes arrive. -/
def Spent : Task → ℕ → Prop
  | .handshake, _ => True
  | .read _, _ => False
  | .write length, moved => moved = length

instance (task : Task) (moved : ℕ) : Decidable (task.Spent moved) := by
  cases task <;> unfold Spent <;> infer_instance

end Task

/-- How an operation ends. -/
inductive Outcome (ε : Type*)
  | success
  | failure (error : ε)
  deriving DecidableEq, Repr

/-- An operation in flight. Once it has an outcome its handler is due. -/
structure Op (ε : Type*) where
  task : Task
  /-- The bytes transferred so far. -/
  moved : ℕ := 0
  outcome : Option (Outcome ε) := none
  deriving DecidableEq, Repr

/-- A party and its stream. -/
structure Link (σ β ε : Type*) where
  program : σ
  inFlight : List (Op ε) := []
  /-- The transfers so far. -/
  trace : List (Transfer β) := []

/-- An operation is started. -/
def Link.start (link : Link σ β ε) (task : Task) : Link σ β ε :=
  { link with inFlight := link.inFlight ++ [{ task }] }

/-- A program on a stream: where its buffer is, and what its handlers do. -/
structure Party (σ β ε : Type*) (cap : ℕ) where
  buffer : σ → Cells β cap
  /-- Store bytes at the start of the buffer. -/
  fill : σ → List β → σ
  buffer_fill : ∀ program bytes, buffer (fill program bytes) = (buffer program).store 0 bytes
  /-- The handler of an operation, with its outcome and the bytes transferred. -/
  handle : Task → Outcome ε → ℕ → Link σ β ε → Link σ β ε
  started : Link σ β ε

/-- What can happen to the operation at a place of the list in flight. -/
inductive Event (β ε : Type*)
  /-- A read gets its bytes. -/
  | arrive (op : ℕ) (bytes : List β)
  /-- The next `count` bytes of a write are sent, as they are in the buffer. -/
  | transmit (op : ℕ) (count : ℕ)
  /-- A handshake, or a write of which all bytes have been sent, succeeds. -/
  | succeed (op : ℕ)
  | fail (op : ℕ) (error : ε)
  /-- The handler runs. -/
  | run (op : ℕ)
  deriving DecidableEq, Repr

namespace Party

variable (party : Party σ β ε cap)

/-- One step: bytes are transferred, an operation ends, or its handler runs. -/
def step (link : Link σ β ε) : Event β ε → Option (Link σ β ε)
  | .arrive i bytes =>
    match link.inFlight[i]? with
    | some ⟨.read capacity, _, none⟩ =>
      if bytes.length ≤ capacity then
        some
          { program := party.fill link.program bytes
            inFlight := link.inFlight.set i ⟨.read capacity, bytes.length, some .success⟩
            trace := link.trace ++ [.input bytes] }
      else none
    | _ => none
  | .transmit i count =>
    match link.inFlight[i]? with
    | some ⟨.write length, moved, none⟩ =>
      if 0 < count ∧ moved + count ≤ length then
        some { link with
          inFlight := link.inFlight.set i ⟨.write length, moved + count, none⟩
          trace := link.trace ++ [.output ((party.buffer link.program).slice moved count)] }
      else none
    | _ => none
  | .succeed i =>
    match link.inFlight[i]? with
    | some ⟨task, moved, none⟩ =>
      if task.Spent moved then
        some { link with inFlight := link.inFlight.set i ⟨task, moved, some .success⟩ }
      else none
    | _ => none
  | .fail i error =>
    match link.inFlight[i]? with
    | some ⟨task, moved, none⟩ =>
      some { link with inFlight := link.inFlight.set i ⟨task, moved, some (.failure error)⟩ }
    | _ => none
  | .run i =>
    match link.inFlight[i]? with
    | some ⟨task, moved, some outcome⟩ =>
      some (party.handle task outcome moved { link with inFlight := link.inFlight.eraseIdx i })
    | _ => none

/-! ### What each step does -/

section Inversion

variable {party} {link next : Link σ β ε} {i : ℕ}

theorem step_arrive {bytes : List β} (h : party.step link (.arrive i bytes) = some next) :
    ∃ capacity moved, link.inFlight[i]? = some ⟨.read capacity, moved, none⟩ ∧
      bytes.length ≤ capacity ∧
      next =
        { program := party.fill link.program bytes
          inFlight := link.inFlight.set i ⟨.read capacity, bytes.length, some .success⟩
          trace := link.trace ++ [.input bytes] } := by
  rw [step] at h
  split at h
  · next capacity moved hop =>
    rw [Option.ite_none_right_eq_some] at h
    exact ⟨capacity, moved, hop, h.1, (Option.some.inj h.2).symm⟩
  · exact nomatch h

theorem step_transmit {count : ℕ} (h : party.step link (.transmit i count) = some next) :
    ∃ length moved, link.inFlight[i]? = some ⟨.write length, moved, none⟩ ∧
      moved + count ≤ length ∧
      next = { link with
        inFlight := link.inFlight.set i ⟨.write length, moved + count, none⟩
        trace := link.trace ++ [.output ((party.buffer link.program).slice moved count)] } := by
  rw [step] at h
  split at h
  · next length moved hop =>
    rw [Option.ite_none_right_eq_some] at h
    exact ⟨length, moved, hop, h.1.2, (Option.some.inj h.2).symm⟩
  · exact nomatch h

theorem step_succeed (h : party.step link (.succeed i) = some next) :
    ∃ task moved, link.inFlight[i]? = some ⟨task, moved, none⟩ ∧ task.Spent moved ∧
      next = { link with inFlight := link.inFlight.set i ⟨task, moved, some .success⟩ } := by
  rw [step] at h
  split at h
  · next task moved hop =>
    rw [Option.ite_none_right_eq_some] at h
    exact ⟨task, moved, hop, h.1, (Option.some.inj h.2).symm⟩
  · exact nomatch h

theorem step_fail {error : ε} (h : party.step link (.fail i error) = some next) :
    ∃ task moved, link.inFlight[i]? = some ⟨task, moved, none⟩ ∧
      next = { link with
        inFlight := link.inFlight.set i ⟨task, moved, some (.failure error)⟩ } := by
  rw [step] at h
  split at h
  · next task moved hop => exact ⟨task, moved, hop, (Option.some.inj h).symm⟩
  · exact nomatch h

theorem step_run (h : party.step link (.run i) = some next) :
    ∃ task moved outcome, link.inFlight[i]? = some ⟨task, moved, some outcome⟩ ∧
      next = party.handle task outcome moved
        { link with inFlight := link.inFlight.eraseIdx i } := by
  rw [step] at h
  split at h
  · next task moved outcome hop => exact ⟨task, moved, outcome, hop, (Option.some.inj h).symm⟩
  · exact nomatch h

end Inversion

/-! ## Half-duplex echoes -/

/-- The party reads, writes what it has read, and reads again, until something
fails. `awaits` says which operation a state of the program waits for. -/
structure Alternates (awaits : σ → Task → Prop) : Prop where
  started : ∃ task, ¬ task.IsWrite ∧ awaits party.started.program task ∧
    party.started.inFlight = [{ task }] ∧ party.started.trace = []
  capacity : ∀ program capacity, awaits program (.read capacity) → capacity = cap
  fill : ∀ program task bytes, awaits program task → awaits (party.fill program bytes) task
  /-- What has been read is written from where it is. -/
  replies : ∀ link capacity moved, awaits link.program (.read capacity) →
    ∃ program, awaits program (.write moved) ∧
      party.buffer program = party.buffer link.program ∧
      party.handle (.read capacity) .success moved link =
        { link with program }.start (.write moved)
  listens : ∀ link task moved, awaits link.program task → (∀ capacity, task ≠ .read capacity) →
    ∃ program capacity, awaits program (.read capacity) ∧
      party.handle task .success moved link = { link with program }.start (.read capacity)
  stops : ∀ link task error moved, awaits link.program task →
    ∃ program, party.handle task (.failure error) moved link = { link with program }

end Party

/-- The operation leaves `owed` to be written from the buffer. If `clean`, it is
not a write that has failed. -/
inductive Owes (buffer : Cells β cap) (clean : Prop) : Op ε → List β → Prop
  | handshake (moved : ℕ) (outcome : Option (Outcome ε)) :
      Owes buffer clean ⟨.handshake, moved, outcome⟩ []
  | reading (capacity moved : ℕ) : Owes buffer clean ⟨.read capacity, moved, none⟩ []
  | readFailed (capacity moved : ℕ) (error : ε) :
      Owes buffer clean ⟨.read capacity, moved, some (.failure error)⟩ []
  | arrived (capacity moved : ℕ) (h : moved ≤ capacity) :
      Owes buffer clean ⟨.read capacity, moved, some .success⟩ (buffer.slice 0 moved)
  | writing (length moved : ℕ) (h : moved ≤ length) :
      Owes buffer clean ⟨.write length, moved, none⟩ (buffer.slice moved (length - moved))
  | written (length : ℕ) : Owes buffer clean ⟨.write length, length, some .success⟩ []
  | writeFailed (hclean : ¬ clean) (length moved : ℕ) (error : ε) (owed : List β) :
      Owes buffer clean ⟨.write length, moved, some (.failure error)⟩ owed

/-- A party has one operation in flight, which leaves what it owes, or it has
stopped. -/
inductive Phase (party : Party σ β ε cap) (awaits : σ → Task → Prop) (clean : Prop)
    (link : Link σ β ε) : Prop
  | busy (op : Op ε) (owed : List β) (single : link.inFlight = [op])
      (awaits : awaits link.program op.task)
      (owes : Owes (party.buffer link.program) clean op owed) (echoed : Echoed link.trace owed)
  | stopped (owed : List β) (idle : link.inFlight = []) (settled : clean → owed = [])
      (echoed : Echoed link.trace owed)

namespace Link

/-- The event does not make a write fail. -/
def KeepsWrites (link : Link σ β ε) : Event β ε → Prop
  | .fail i _ => ∀ op ∈ link.inFlight[i]?, ¬ op.task.IsWrite
  | _ => True

instance (link : Link σ β ε) (event : Event β ε) : Decidable (link.KeepsWrites event) := by
  cases event <;> unfold KeepsWrites <;> infer_instance

/-- A write is in flight. -/
def Writing (link : Link σ β ε) : Prop := ∃ op ∈ link.inFlight, op.task.IsWrite

/-- A read is in flight that has not brought anything. -/
def Reading (link : Link σ β ε) : Prop :=
  ∃ op ∈ link.inFlight, (∃ capacity, op.task = .read capacity) ∧ op.outcome ≠ some .success

/-- Nothing is in flight but reads that wait for input. -/
def AtRest (link : Link σ β ε) : Prop :=
  ∀ op ∈ link.inFlight, (∃ capacity, op.task = .read capacity) ∧ op.outcome = none

end Link

section Runs

variable {party : Party σ β ε cap} {awaits : σ → Task → Prop} {clean : Prop}
  {link next : Link σ β ε} {event : Event β ε}

theorem getElem?_single {op op' : Op ε} {i : ℕ} (hsingle : link.inFlight = [op])
    (h : link.inFlight[i]? = some op') : i = 0 ∧ op' = op := by
  rw [hsingle] at h
  exact Lists.getElem?_singleton h

/-- When nothing is in flight, nothing can happen. -/
theorem step_of_idle (hidle : link.inFlight = []) (event : Event β ε) :
    party.step link event = none := by
  cases event <;> rw [Party.step, hidle] <;> rfl

theorem Phase.started (halternates : party.Alternates awaits) (clean : Prop) :
    Phase party awaits clean party.started := by
  obtain ⟨task, hwrite, hawaits, hsingle, htrace⟩ := halternates.started
  have hechoed : Echoed party.started.trace [] := htrace ▸ Echoed.nil
  refine .busy { task } [] hsingle hawaits ?_ hechoed
  cases task with
  | handshake => exact .handshake 0 none
  | read capacity => exact .reading capacity 0
  | write length => exact absurd trivial hwrite

/-- The handler of an operation that has its outcome. -/
theorem Phase.handle (halternates : party.Alternates awaits) {task : Task} {moved : ℕ}
    {outcome : Outcome ε} {owed : List β} (hidle : link.inFlight = [])
    (hawaits : awaits link.program task)
    (howes : Owes (party.buffer link.program) clean ⟨task, moved, some outcome⟩ owed)
    (hechoed : Echoed link.trace owed) :
    Phase party awaits clean (party.handle task outcome moved link) := by
  have hstart : ∀ (program : σ) task, (Link.start { link with program } task).inFlight =
      [{ task }] := by
    intro program task
    rw [Link.start, hidle, List.nil_append]
  cases outcome with
  | failure error =>
    obtain ⟨program, hhandle⟩ := halternates.stops link task error moved hawaits
    rw [hhandle]
    refine .stopped owed hidle (fun hclean => ?_) hechoed
    cases howes with
    | handshake | readFailed => rfl
    | writeFailed hwrite => exact absurd hclean hwrite
  | success =>
    by_cases hread : ∃ capacity, task = .read capacity
    · obtain ⟨capacity, rfl⟩ := hread
      obtain ⟨program, hwrites, hbuffer, hhandle⟩ :=
        halternates.replies link capacity moved hawaits
      rw [hhandle]
      cases howes with
      | arrived _ _ hmoved =>
        refine .busy _ _ (hstart program _) hwrites ?_ hechoed
        rw [← hbuffer]
        exact .writing moved 0 (Nat.zero_le moved)
    · obtain ⟨program, capacity, hreads, hhandle⟩ :=
        halternates.listens link task moved hawaits (not_exists.mp hread)
      rw [hhandle]
      refine .busy _ [] (hstart program _) hreads (.reading capacity 0) ?_
      cases howes with
      | handshake | written => exact hechoed
      | arrived => exact absurd ⟨_, rfl⟩ hread

/-- What is sent next is the beginning of what is owed. -/
theorem slice_split (buffer : Cells β cap) {moved count length : ℕ} (h : moved + count ≤ length) :
    buffer.slice moved (length - moved) =
      buffer.slice moved count ++ buffer.slice (moved + count) (length - (moved + count)) := by
  rw [← Cells.slice_add]
  congr 1
  omega

theorem Phase.step (halternates : party.Alternates awaits) (h : Phase party awaits clean link)
    (hkeeps : clean → link.KeepsWrites event) (hstep : party.step link event = some next) :
    Phase party awaits clean next := by
  cases h with
  | stopped owed hidle hsettled hechoed =>
    rw [step_of_idle hidle] at hstep
    exact nomatch hstep
  | busy op owed hsingle hawaits howes hechoed =>
    have hset : ∀ op', link.inFlight.set 0 op' = [op'] := by
      intro op'
      rw [hsingle, List.set_cons_zero]
    cases event with
    | arrive i bytes =>
      obtain ⟨capacity, moved, hop, hlength, rfl⟩ := Party.step_arrive hstep
      obtain ⟨rfl, rfl⟩ := getElem?_single hsingle hop
      have hslice : (party.buffer (party.fill link.program bytes)).slice 0 bytes.length = bytes := by
        rw [party.buffer_fill]
        have hcapacity := halternates.capacity _ _ hawaits
        exact Cells.slice_store _ 0 bytes (by omega)
      have harrived := @Owes.arrived β ε cap (party.buffer (party.fill link.program bytes)) clean
        capacity bytes.length hlength
      rw [hslice] at harrived
      refine .busy _ bytes (hset _) (halternates.fill _ _ bytes hawaits) harrived ?_
      cases howes with
      | reading => exact .input bytes hechoed
    | transmit i count =>
      obtain ⟨length, moved, hop, hlength, rfl⟩ := Party.step_transmit hstep
      obtain ⟨rfl, rfl⟩ := getElem?_single hsingle hop
      refine .busy _ _ (hset _) hawaits (.writing length (moved + count) hlength) ?_
      cases howes with
      | writing =>
        rw [slice_split _ hlength] at hechoed
        exact .output hechoed
    | succeed i =>
      obtain ⟨task, moved, hop, hspent, rfl⟩ := Party.step_succeed hstep
      obtain ⟨rfl, rfl⟩ := getElem?_single hsingle hop
      refine .busy _ owed (hset _) hawaits ?_ hechoed
      cases howes with
      | handshake => exact .handshake moved _
      | reading => exact hspent.elim
      | writing length =>
        obtain rfl : moved = length := hspent
        rw [Nat.sub_self, Cells.slice_zero]
        exact .written moved
    | fail i error =>
      obtain ⟨task, moved, hop, rfl⟩ := Party.step_fail hstep
      obtain ⟨rfl, rfl⟩ := getElem?_single hsingle hop
      refine .busy _ owed (hset _) hawaits ?_ hechoed
      cases howes with
      | handshake => exact .handshake moved _
      | reading capacity => exact .readFailed capacity moved error
      | writing length =>
        exact .writeFailed (fun hclean => hkeeps hclean _ hop trivial) length moved error _
    | run i =>
      obtain ⟨task, moved, outcome, hop, rfl⟩ := Party.step_run hstep
      obtain ⟨rfl, rfl⟩ := getElem?_single hsingle hop
      exact @Phase.handle _ _ _ _ party awaits clean _ halternates task moved outcome owed
        (by rw [hsingle, List.eraseIdx_cons_zero]) hawaits howes hechoed

/-- Handlers transfer nothing themselves. -/
theorem Phase.trace_handle (halternates : party.Alternates awaits) {task : Task} {moved : ℕ}
    (outcome : Outcome ε) (hawaits : awaits link.program task) :
    (party.handle task outcome moved link).trace = link.trace := by
  cases outcome with
  | failure error =>
    obtain ⟨program, hhandle⟩ := halternates.stops link task error moved hawaits
    rw [hhandle]
  | success =>
    by_cases hread : ∃ capacity, task = .read capacity
    · obtain ⟨capacity, rfl⟩ := hread
      obtain ⟨program, -, -, hhandle⟩ := halternates.replies link capacity moved hawaits
      rw [hhandle, Link.start]
    · obtain ⟨program, capacity, -, hhandle⟩ :=
        halternates.listens link task moved hawaits (not_exists.mp hread)
      rw [hhandle, Link.start]

theorem Phase.trace_step (halternates : party.Alternates awaits)
    (h : Phase party awaits clean link) (hstep : party.step link event = some next) :
    link.trace <+: next.trace := by
  cases event with
  | arrive i bytes =>
    obtain ⟨capacity, moved, -, -, rfl⟩ := Party.step_arrive hstep
    exact List.prefix_append _ _
  | transmit i count =>
    obtain ⟨length, moved, -, -, rfl⟩ := Party.step_transmit hstep
    exact List.prefix_append _ _
  | succeed i =>
    obtain ⟨task, moved, -, -, rfl⟩ := Party.step_succeed hstep
    exact List.prefix_rfl
  | fail i error =>
    obtain ⟨task, moved, -, rfl⟩ := Party.step_fail hstep
    exact List.prefix_rfl
  | run i =>
    obtain ⟨task, moved, outcome, hop, rfl⟩ := Party.step_run hstep
    cases h with
    | stopped owed hidle =>
      rw [hidle] at hop
      exact nomatch hop
    | busy op owed hsingle hawaits =>
      obtain ⟨-, rfl⟩ := getElem?_single hsingle hop
      have hhandle : (party.handle task outcome moved
          { link with inFlight := link.inFlight.eraseIdx i }).trace = link.trace :=
        Phase.trace_handle halternates outcome hawaits
      rw [hhandle]

/-- A run keeps the transfers that have been made. -/
theorem Phase.trace_run (halternates : party.Alternates awaits)
    (h : Phase party awaits False link) {events : List (Event β ε)} {final : Link σ β ε}
    (hrun : run party.step link events = some final) : link.trace <+: final.trace := by
  have hfinal := run_invariant
    (fun state => Phase party awaits False state ∧ link.trace <+: state.trace)
    (fun state event next hstate hstep => ?_) hrun ⟨h, List.prefix_rfl⟩
  · exact hfinal.2
  · have hnext := hstate.1.step halternates False.elim hstep
    exact ⟨hnext, hstate.2.trans (hstate.1.trace_step halternates hstep)⟩

/-- While a write is in flight, and stays so, the buffer is left alone. -/
theorem Phase.buffer_step (halternates : party.Alternates awaits)
    (h : Phase party awaits clean link) (hstep : party.step link event = some next)
    (hwriting : link.Writing) (hwriting' : next.Writing) :
    party.buffer next.program = party.buffer link.program := by
  obtain ⟨op, hop, hwrite⟩ := hwriting
  cases h with
  | stopped owed hidle =>
    rw [hidle] at hop
    exact nomatch hop
  | busy op' owed hsingle hawaits howes hechoed =>
    obtain rfl : op = op' := by
      rw [hsingle, List.mem_singleton] at hop
      exact hop
    cases event with
    | arrive i bytes =>
      obtain ⟨capacity, moved, hread, -⟩ := Party.step_arrive hstep
      obtain ⟨-, rfl⟩ := getElem?_single hsingle hread
      exact hwrite.elim
    | transmit i count =>
      obtain ⟨length, moved, -, -, rfl⟩ := Party.step_transmit hstep
      rfl
    | succeed i =>
      obtain ⟨task, moved, -, -, rfl⟩ := Party.step_succeed hstep
      rfl
    | fail i error =>
      obtain ⟨task, moved, -, rfl⟩ := Party.step_fail hstep
      rfl
    | run i =>
      -- The handler of the write starts no other.
      obtain ⟨task, moved, outcome, hrun, rfl⟩ := Party.step_run hstep
      obtain ⟨rfl, rfl⟩ := getElem?_single hsingle hrun
      obtain ⟨op', hop', hwrite'⟩ := hwriting'
      cases outcome with
      | failure error =>
        obtain ⟨program, hhandle⟩ :=
          halternates.stops { link with inFlight := link.inFlight.eraseIdx 0 } task error moved hawaits
        rw [hhandle, hsingle] at hop'
        exact nomatch hop'
      | success =>
        obtain ⟨program, capacity, -, hhandle⟩ :=
          halternates.listens { link with inFlight := link.inFlight.eraseIdx 0 } task moved hawaits
            (by rintro capacity rfl; exact hwrite)
        rw [hhandle, Link.start, hsingle] at hop'
        obtain rfl := List.mem_singleton.mp hop'
        exact hwrite'.elim

/-! ### Coming to rest -/

/-- The event is no failure. -/
def Event.Succeeds : Event β ε → Prop
  | .fail _ _ => False
  | _ => True

/-- The event needs neither input nor a failure. -/
def Event.IsOwn : Event β ε → Prop
  | .arrive _ _ | .fail _ _ => False
  | _ => True

theorem Event.Succeeds.keepsWrites {event : Event β ε} (h : event.Succeeds) (link : Link σ β ε) :
    link.KeepsWrites event := by
  cases event with
  | fail i error => exact h.elim
  | arrive | transmit | succeed | run => trivial

theorem Event.IsOwn.succeeds {event : Event β ε} (h : event.IsOwn) : event.Succeeds := by
  cases event with
  | fail i error => exact h
  | arrive | transmit | succeed | run => trivial

/-- The party has received `bytes` and waits for more. -/
structure Listens (cap : ℕ) (awaits : σ → Task → Prop) (bytes : List β) (link : Link σ β ε) :
    Prop where
  single : link.inFlight = [{ task := .read cap }]
  awaits : awaits link.program (.read cap)
  received : received link.trace = bytes

/-- Nothing is in flight any more. -/
structure Idles (bytes : List β) (link : Link σ β ε) : Prop where
  idle : link.inFlight = []
  received : received link.trace = bytes

theorem Listens.atRest {bytes : List β} (h : Listens cap awaits bytes link) : link.AtRest := by
  intro op hop
  rw [h.single, List.mem_singleton] at hop
  exact hop ▸ ⟨⟨cap, rfl⟩, rfl⟩

theorem Idles.atRest {bytes : List β} (h : Idles bytes link) : link.AtRest := by
  intro op hop
  rw [h.idle] at hop
  exact nomatch hop

section Settling

variable (halternates : party.Alternates awaits) {task : Task} {moved length : ℕ}
include halternates

theorem idles_of_failure {error : ε} (hsingle : link.inFlight = [⟨task, moved, some (.failure error)⟩])
    (hawaits : awaits link.program task) :
    CanReach party.step Event.IsOwn (Idles (received link.trace)) link := by
  have hstep : party.step link (.run 0) =
      some (party.handle task (.failure error) moved { link with inFlight := [] }) := by
    rw [Party.step, hsingle]
    rfl
  obtain ⟨program, hhandle⟩ :=
    halternates.stops { link with inFlight := [] } task error moved hawaits
  rw [hhandle] at hstep
  exact .head hstep trivial (.here ⟨rfl, rfl⟩)

theorem listens_of_success (hsingle : link.inFlight = [⟨task, moved, some .success⟩])
    (hawaits : awaits link.program task) (hread : ∀ capacity, task ≠ .read capacity) :
    CanReach party.step Event.IsOwn (Listens cap awaits (received link.trace)) link := by
  have hstep : party.step link (.run 0) =
      some (party.handle task .success moved { link with inFlight := [] }) := by
    rw [Party.step, hsingle]
    rfl
  obtain ⟨program, capacity, hreads, hhandle⟩ :=
    halternates.listens { link with inFlight := [] } task moved hawaits hread
  obtain rfl := halternates.capacity program capacity hreads
  rw [hhandle] at hstep
  exact .head hstep trivial (.here ⟨rfl, hreads, rfl⟩)

/-- A handshake, or a write of which all has been sent, can succeed. -/
theorem listens_of_spent (hsingle : link.inFlight = [⟨task, moved, none⟩])
    (hspent : task.Spent moved) (hawaits : awaits link.program task) :
    CanReach party.step Event.IsOwn (Listens cap awaits (received link.trace)) link := by
  have hstep : party.step link (.succeed 0) =
      some { link with inFlight := [⟨task, moved, some .success⟩] } := by
    rw [Party.step, hsingle]
    exact if_pos hspent
  refine .head hstep trivial (listens_of_success halternates rfl hawaits ?_)
  rintro capacity rfl
  exact hspent

theorem listens_of_writing (hsingle : link.inFlight = [⟨.write length, moved, none⟩])
    (hmoved : moved ≤ length) (hawaits : awaits link.program (.write length)) :
    CanReach party.step Event.IsOwn (Listens cap awaits (received link.trace)) link := by
  obtain hlt | rfl := Nat.lt_or_eq_of_le hmoved
  · have hstep : party.step link (.transmit 0 (length - moved)) =
        some { link with
          inFlight := [⟨.write length, moved + (length - moved), none⟩]
          trace := link.trace ++
            [.output ((party.buffer link.program).slice moved (length - moved))] } := by
      rw [Party.step, hsingle]
      exact if_pos ⟨Nat.sub_pos_of_lt hlt, by omega⟩
    have hreceived : received (link.trace ++
        [.output ((party.buffer link.program).slice moved (length - moved))]) =
          received link.trace := by
      simp [received]
    have hspent : (Task.write length).Spent (moved + (length - moved)) :=
      Nat.add_sub_cancel' hmoved
    rw [← hreceived]
    exact .head hstep trivial (listens_of_spent halternates rfl hspent hawaits)
  · exact listens_of_spent halternates hsingle rfl hawaits

theorem listens_of_arrived {capacity : ℕ}
    (hsingle : link.inFlight = [⟨.read capacity, moved, some .success⟩])
    (hawaits : awaits link.program (.read capacity)) :
    CanReach party.step Event.IsOwn (Listens cap awaits (received link.trace)) link := by
  obtain ⟨program, hwrites, -, hhandle⟩ :=
    halternates.replies { link with inFlight := [] } capacity moved hawaits
  have hstep : party.step link (.run 0) =
      some (party.handle (.read capacity) .success moved { link with inFlight := [] }) := by
    rw [Party.step, hsingle]
    rfl
  rw [hhandle] at hstep
  exact .head hstep trivial (listens_of_writing halternates rfl (Nat.zero_le moved) hwrites)

/-- Without further input a party comes to rest. -/
theorem Phase.settles (h : Phase party awaits clean link) :
    CanReach party.step Event.IsOwn
      (fun rest => rest.AtRest ∧ received rest.trace = received link.trace) link := by
  have hlistens : CanReach party.step Event.IsOwn (Listens cap awaits (received link.trace)) link →
      CanReach party.step Event.IsOwn
        (fun rest => rest.AtRest ∧ received rest.trace = received link.trace) link :=
    fun hreach => hreach.imp (fun _ hown => hown) fun _ hrest => ⟨hrest.atRest, hrest.received⟩
  cases h with
  | stopped owed hidle => exact .here ⟨Idles.atRest ⟨hidle, rfl⟩, rfl⟩
  | busy op owed hsingle hawaits howes hechoed =>
    have hidles : ∀ error, op.outcome = some (.failure error) → CanReach party.step Event.IsOwn
        (fun rest => rest.AtRest ∧ received rest.trace = received link.trace) link := by
      obtain ⟨task, moved, outcome⟩ := op
      rintro error rfl
      exact (idles_of_failure halternates hsingle hawaits).imp (fun _ hown => hown)
        fun _ hrest => ⟨hrest.atRest, hrest.received⟩
    cases howes with
    | handshake moved outcome =>
      cases outcome with
      | none => exact hlistens (listens_of_spent halternates hsingle trivial hawaits)
      | some outcome =>
        cases outcome with
        | failure error => exact hidles error rfl
        | success => exact hlistens (listens_of_success halternates hsingle hawaits fun _ => nofun)
    | reading capacity moved =>
      refine .here ⟨fun op hop => ?_, rfl⟩
      rw [hsingle, List.mem_singleton] at hop
      exact hop ▸ ⟨⟨capacity, rfl⟩, rfl⟩
    | readFailed capacity moved error | writeFailed _ length moved error => exact hidles error rfl
    | arrived => exact hlistens (listens_of_arrived halternates hsingle hawaits)
    | writing length moved hmoved =>
      exact hlistens (listens_of_writing halternates hsingle hmoved hawaits)
    | written => exact hlistens (listens_of_success halternates hsingle hawaits fun _ => nofun)

/-- A party that listens takes any input its buffer has room for, and listens
again. -/
theorem Listens.hear {bytes piece : List β} (h : Listens cap awaits bytes link)
    (hpiece : piece.length ≤ cap) :
    CanReach party.step Event.Succeeds (Listens cap awaits (bytes ++ piece)) link := by
  have hstep : party.step link (.arrive 0 piece) =
      some
        { program := party.fill link.program piece
          inFlight := [⟨.read cap, piece.length, some .success⟩]
          trace := link.trace ++ [.input piece] } := by
    rw [Party.step, h.single]
    exact if_pos hpiece
  have hreceived : HalfDuplex.received (link.trace ++ [.input piece]) = bytes ++ piece := by
    simp [← h.received, HalfDuplex.received]
  refine .head hstep trivial ?_
  rw [← hreceived]
  exact (listens_of_arrived halternates rfl (halternates.fill _ _ piece h.awaits)).imp
    (fun _ hown => hown.succeeds) fun _ hrest => hrest

theorem Listens.hear_all {bytes : List β} (h : Listens cap awaits bytes link)
    (pieces : List (List β)) (hpieces : ∀ piece ∈ pieces, piece.length ≤ cap) :
    CanReach party.step Event.Succeeds (Listens cap awaits (bytes ++ pieces.flatten)) link := by
  induction pieces generalizing bytes link with
  | nil =>
    rw [List.flatten_nil, List.append_nil]
    exact .here h
  | cons piece pieces ih =>
    obtain ⟨hpiece, hpieces⟩ := List.forall_mem_cons.mp hpieces
    rw [List.flatten_cons, ← List.append_assoc]
    exact (h.hear halternates hpiece).trans fun _ hnext => ih hnext hpieces

/-- From its start a party comes to listen. -/
theorem listens_started :
    CanReach party.step Event.Succeeds (Listens cap awaits []) party.started := by
  obtain ⟨task, hwrite, hawaits, hsingle, htrace⟩ := halternates.started
  have hreceived : received party.started.trace = [] := by rw [htrace]; rfl
  cases task with
  | handshake =>
    rw [← hreceived]
    exact (listens_of_spent halternates hsingle trivial hawaits).imp
      (fun _ hown => hown.succeeds) fun _ hrest => hrest
  | read capacity =>
    obtain rfl := halternates.capacity _ capacity hawaits
    exact .here ⟨hsingle, hawaits, hreceived⟩
  | write length => exact absurd trivial hwrite

end Settling

/-! ### While nothing fails -/

/-- An operation is in flight that has not failed; a read that waits has not moved
anything. -/
def Link.Unfailed (link : Link σ β ε) : Prop :=
  ∃ op, link.inFlight = [op] ∧ (∀ error, op.outcome ≠ some (.failure error)) ∧
    ((∃ capacity, op.task = .read capacity) → op.outcome = none → op.moved = 0)

/-- What an event brings in. -/
def Event.brought : Event β ε → List β
  | .arrive _ bytes => bytes
  | _ => []

theorem sent_isPrefix {trace trace' : List (Transfer β)} (h : trace <+: trace') :
    sent trace <+: sent trace' := by
  obtain ⟨rest, rfl⟩ := h
  exact ⟨sent rest, List.flatMap_append.symm⟩

section Unfailed

variable (halternates : party.Alternates awaits)
include halternates

theorem unfailed_started : party.started.Unfailed := by
  obtain ⟨task, -, -, hsingle, -⟩ := halternates.started
  exact ⟨_, hsingle, fun _ => nofun, fun _ _ => rfl⟩

theorem Phase.received_step (h : Phase party awaits clean link)
    (hstep : party.step link event = some next) :
    received next.trace = received link.trace ++ event.brought := by
  cases event with
  | arrive i bytes =>
    obtain ⟨capacity, moved, -, -, rfl⟩ := Party.step_arrive hstep
    simp [received, Event.brought]
  | transmit i count =>
    obtain ⟨length, moved, -, -, rfl⟩ := Party.step_transmit hstep
    simp [received, Event.brought]
  | succeed i =>
    obtain ⟨task, moved, -, -, rfl⟩ := Party.step_succeed hstep
    exact (List.append_nil _).symm
  | fail i error =>
    obtain ⟨task, moved, -, rfl⟩ := Party.step_fail hstep
    exact (List.append_nil _).symm
  | run i =>
    obtain ⟨task, moved, outcome, hop, rfl⟩ := Party.step_run hstep
    cases h with
    | stopped owed hidle =>
      rw [hidle] at hop
      exact nomatch hop
    | busy op owed hsingle hawaits =>
      obtain ⟨-, rfl⟩ := getElem?_single hsingle hop
      have hhandle : (party.handle task outcome moved
          { link with inFlight := link.inFlight.eraseIdx i }).trace = link.trace :=
        Phase.trace_handle halternates outcome hawaits
      rw [hhandle]
      exact (List.append_nil _).symm

/-- A handler that is told of a success starts the next operation. -/
theorem unfailed_handle {task : Task} {moved : ℕ} (hawaits : awaits link.program task)
    (hidle : link.inFlight = []) : (party.handle task .success moved link).Unfailed := by
  have hstarted : ∀ program task, ({ link with program } : Link σ β ε).start task |>.Unfailed := by
    intro program task
    refine ⟨{ task }, ?_, fun _ => nofun, fun _ _ => rfl⟩
    rw [Link.start, hidle, List.nil_append]
  by_cases hread : ∃ capacity, task = .read capacity
  · obtain ⟨capacity, rfl⟩ := hread
    obtain ⟨program, -, -, hhandle⟩ := halternates.replies link capacity moved hawaits
    rw [hhandle]
    exact hstarted program _
  · obtain ⟨program, capacity, -, hhandle⟩ :=
      halternates.listens link task moved hawaits fun capacity h => hread ⟨capacity, h⟩
    rw [hhandle]
    exact hstarted program _

theorem Link.Unfailed.step (h : link.Unfailed) (hphase : Phase party awaits clean link)
    {event : Event β ε} (hevent : event.Succeeds) (hstep : party.step link event = some next) :
    next.Unfailed := by
  obtain ⟨op, hsingle, hclear, hmoved⟩ := h
  cases hphase with
  | stopped owed hidle => rw [step_of_idle hidle] at hstep; exact nomatch hstep
  | busy op' owed hsingle' hawaits howes hechoed =>
    obtain rfl : op = op' := List.singleton_inj.mp (hsingle.symm.trans hsingle')
    cases event with
    | fail i error => exact hevent.elim
    | arrive i bytes =>
      obtain ⟨capacity, moved, hop, -, rfl⟩ := Party.step_arrive hstep
      obtain ⟨rfl, -⟩ := getElem?_single hsingle hop
      refine ⟨⟨.read capacity, bytes.length, some .success⟩, ?_, fun _ => nofun, fun _ => nofun⟩
      rw [hsingle]
      rfl
    | transmit i count =>
      obtain ⟨length, moved, hop, -, rfl⟩ := Party.step_transmit hstep
      obtain ⟨rfl, -⟩ := getElem?_single hsingle hop
      refine ⟨⟨.write length, moved + count, none⟩, ?_, fun _ => nofun, ?_⟩
      · rw [hsingle]
        rfl
      · rintro ⟨capacity, hread⟩
        exact nomatch hread
    | succeed i =>
      obtain ⟨task, moved, hop, -, rfl⟩ := Party.step_succeed hstep
      obtain ⟨rfl, -⟩ := getElem?_single hsingle hop
      refine ⟨⟨task, moved, some .success⟩, ?_, fun _ => nofun, fun _ => nofun⟩
      rw [hsingle]
      rfl
    | run i =>
      obtain ⟨task, moved, outcome, hop, rfl⟩ := Party.step_run hstep
      obtain ⟨rfl, rfl⟩ := getElem?_single hsingle hop
      cases outcome with
      | failure error => exact absurd rfl (hclear error)
      | success =>
        refine unfailed_handle halternates hawaits ?_
        rw [hsingle]
        rfl

/-- Without further input a party that has not failed comes to listen. -/
theorem Phase.listens (h : Phase party awaits clean link) (hunfailed : link.Unfailed) :
    CanReach party.step Event.IsOwn (Listens cap awaits (received link.trace)) link := by
  obtain ⟨op, hsingle, hclear, hmoved⟩ := hunfailed
  cases h with
  | stopped owed hidle => exact nomatch hidle.symm.trans hsingle
  | busy op' owed hsingle' hawaits howes hechoed =>
    obtain rfl : op = op' := List.singleton_inj.mp (hsingle.symm.trans hsingle')
    cases howes with
    | handshake moved outcome =>
      cases outcome with
      | none => exact listens_of_spent halternates hsingle trivial hawaits
      | some outcome =>
        cases outcome with
        | failure error => exact absurd rfl (hclear error)
        | success => exact listens_of_success halternates hsingle hawaits fun _ => nofun
    | reading capacity moved =>
      obtain rfl : moved = 0 := hmoved ⟨capacity, rfl⟩ rfl
      obtain rfl := halternates.capacity _ capacity hawaits
      exact .here ⟨hsingle, hawaits, rfl⟩
    | readFailed capacity moved error | writeFailed _ length moved error =>
      exact absurd rfl (hclear error)
    | arrived => exact listens_of_arrived halternates hsingle hawaits
    | writing length moved hle => exact listens_of_writing halternates hsingle hle hawaits
    | written => exact listens_of_success halternates hsingle hawaits fun _ => nofun

end Unfailed

end Runs

/-! ## What a half-duplex echo promises -/

/-- What holds of every run of a half-duplex echo. -/
structure IsEcho (party : Party σ β ε cap) : Prop where
  /-- At most one read or write is in flight. -/
  single : ∀ link, Reachable party.step party.started link → link.inFlight.length ≤ 1
  /-- The buffer is not modified while a write of it is in flight. -/
  unmodified : ∀ link event next, Reachable party.step party.started link →
    party.step link event = some next → link.Writing → next.Writing →
      party.buffer next.program = party.buffer link.program
  /-- The transfers are some of the specification. -/
  refines : ∀ link, Reachable party.step party.started link → ∃ owed, Echoed link.trace owed
  echoed : ∀ link, Reachable party.step party.started link →
    sent link.trace <+: received link.trace
  caughtUp : ∀ link, Reachable party.step party.started link → link.Reading →
    sent link.trace = received link.trace
  /-- Without further input the party comes to rest. -/
  settles : ∀ link, Reachable party.step party.started link →
    CanReach party.step Event.IsOwn
      (fun rest => rest.AtRest ∧ received rest.trace = received link.trace) link
  /-- At rest it has sent what it has received, if no write has failed. -/
  settled : ∀ events link, run party.step party.started events = some link →
    Obeys party.step Link.KeepsWrites party.started events → link.AtRest →
      sent link.trace = received link.trace
  /-- Input that is cut into pieces that the buffer has room for can be received,
  and the party be at rest. -/
  receives : ∀ pieces : List (List β), (∀ piece ∈ pieces, piece.length ≤ cap) →
    CanReach party.step Event.Succeeds
      (fun rest => rest.AtRest ∧ received rest.trace = pieces.flatten) party.started

theorem Phase.echoed {party : Party σ β ε cap} {awaits : σ → Task → Prop} {clean : Prop}
    {link : Link σ β ε} (h : Phase party awaits clean link) : ∃ owed, Echoed link.trace owed := by
  cases h with
  | busy op owed _ _ _ hechoed => exact ⟨owed, hechoed⟩
  | stopped owed _ _ hechoed => exact ⟨owed, hechoed⟩

theorem Phase.of_reachable {party : Party σ β ε cap} {awaits : σ → Task → Prop}
    (halternates : party.Alternates awaits) {link : Link σ β ε}
    (h : Reachable party.step party.started link) : Phase party awaits False link := by
  obtain ⟨events, hrun⟩ := h
  exact run_invariant (Phase party awaits False)
    (fun _ _ _ h hstep => h.step halternates False.elim hstep) hrun (.started halternates False)

theorem Party.Alternates.isEcho {party : Party σ β ε cap} {awaits : σ → Task → Prop}
    (halternates : party.Alternates awaits) : IsEcho party where
  single link hlink := by
    cases Phase.of_reachable halternates hlink with
    | busy op owed hsingle => rw [hsingle, List.length_singleton]
    | stopped owed hidle => rw [hidle]; exact Nat.zero_le 1
  unmodified link event next hlink hstep hwriting hwriting' :=
    (Phase.of_reachable halternates hlink).buffer_step halternates hstep hwriting hwriting'
  refines link hlink := (Phase.of_reachable halternates hlink).echoed
  echoed link hlink := by
    obtain ⟨owed, hechoed⟩ := (Phase.of_reachable halternates hlink).echoed
    exact ⟨owed, hechoed.balance.symm⟩
  caughtUp link hlink := by
    rintro ⟨op, hop, ⟨capacity, hread⟩, hwaits⟩
    cases Phase.of_reachable halternates hlink with
    | stopped owed hidle =>
      rw [hidle] at hop
      exact nomatch hop
    | busy op' owed hsingle hawaits howes hechoed =>
      rw [hsingle, List.mem_singleton] at hop
      obtain rfl := hop
      have howed : owed = [] := by
        cases howes with
        | reading | readFailed => rfl
        | arrived => exact absurd rfl hwaits
        | handshake | writing | written | writeFailed => exact nomatch hread
      rw [hechoed.balance, howed, List.append_nil]
  settles link hlink := (Phase.of_reachable halternates hlink).settles halternates
  settled events link hrun hobeys hrest := by
    have hphase := run_invariant_of_obeys (Phase party awaits True)
      (fun _ _ _ h hkeeps hstep => h.step halternates (fun _ => hkeeps) hstep) hrun hobeys
      (.started halternates True)
    cases hphase with
    | stopped owed hidle hsettled hechoed =>
      rw [hechoed.balance, hsettled trivial, List.append_nil]
    | busy op owed hsingle hawaits howes hechoed =>
      obtain ⟨⟨capacity, hread⟩, hwaits⟩ := hrest op (by simp [hsingle])
      have howed : owed = [] := by
        cases howes with
        | reading => rfl
        | readFailed | arrived => exact nomatch hwaits
        | handshake | writing | written | writeFailed => exact nomatch hread
      rw [hechoed.balance, howed, List.append_nil]
  receives pieces hpieces :=
    (listens_started halternates).trans fun _ hstart =>
      (hstart.hear_all halternates pieces hpieces).imp (fun _ hevent => hevent)
        fun _ hrest => ⟨hrest.atRest, hrest.received⟩

/-- Input in such pieces can be echoed in full. -/
theorem IsEcho.echoes {party : Party σ β ε cap} (h : IsEcho party) (pieces : List (List β))
    (hpieces : ∀ piece ∈ pieces, piece.length ≤ cap) :
    CanReach party.step Event.Succeeds
      (fun rest => received rest.trace = pieces.flatten ∧ sent rest.trace = pieces.flatten)
      party.started := by
  obtain ⟨events, rest, hevents, hrun, hrest, hreceived⟩ := h.receives pieces hpieces
  have hkeeps : Obeys party.step Link.KeepsWrites party.started events :=
    (obeys_of_forall hevents).imp fun link event hevent => hevent.keepsWrites link
  have hsent := h.settled events rest hrun hkeeps hrest
  exact ⟨events, rest, hevents, hrun, hreceived, hsent.trans hreceived⟩

end HalfDuplex
