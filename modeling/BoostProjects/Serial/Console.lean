import BoostProjects.Library.Halting
import BoostProjects.Library.Lines
import BoostProjects.Serial.TestAll

/-!
# The console thread

`getConsoleInput` posts each character that it reads to the service, until it reads
Ctrl+C; then the thread calls `stop`. At the end of standard input `getchar` returns
`EOF`, which the loop takes for one more character: it posts it, and reads again.

So the thread comes to its end exactly if Ctrl+C is among the bytes of its input
(`endsWithInput_iff`), and in no run of the two threads is the service stopped
otherwise (`not_stopped_of_notMem`). There is then no end to the characters that it
posts (`exists_looping`).
-/

namespace BoostProjects.Serial

open Boost Cpp StateTransition

/-! ## The program -/

/-- `getchar`: the next byte as an `unsigned char`, or `EOF`, which is -1. -/
def getchar : List UInt8 → ℤ × List UInt8
  | [] => (-1, [])
  | byte :: stdin => (byte.toNat, stdin)

/-- `static_cast<char>`: the lowest eight bits. -/
def toChar (c : ℤ) : Char := Char.ofNat (c % 256).toNat

/-- The thread: what is left of standard input, the characters that it has posted, and
whether it has called `svc.stop()`, with which it ends. -/
structure Console where
  stdin : List UInt8
  posted : Str := []
  stopped : Bool := false
  deriving DecidableEq, Repr

/-- One round of the loop of `getConsoleInput`, which ends it on Ctrl+C. -/
def Console.step (console : Console) : Option Console :=
  if console.stopped then none
  else
    let (c, stdin) := getchar console.stdin
    if c = 3 then some { console with stdin, stopped := true }
    else some { console with stdin, posted := console.posted ++ [toChar c] }

/-- The characters of some bytes. -/
def chars (bytes : List UInt8) : Str := bytes.map fun byte => toChar byte.toNat

/-- `getConsoleInput` returns when it has posted the bytes before the first Ctrl+C, or
all of them if there is none, and the service is stopped. -/
def EndsWithInput (stdin : List UInt8) : Prop :=
  ∃ final ∈ eval Console.step { stdin }, final.stopped = true ∧
    final.posted = chars (stdin.takeWhile (· ≠ 3))

/-! ## The rounds -/

section Rounds

variable {console : Console} {byte : UInt8} {stdin : List UInt8} {posted : Str}

theorem step_byte (h : byte ≠ 3) :
    Console.step { stdin := byte :: stdin, posted } =
      some { stdin, posted := posted ++ [toChar byte.toNat] } := by
  have hc : ((byte.toNat : ℕ) : ℤ) ≠ 3 := by
    intro heq
    exact h (UInt8.toNat_inj.mp (by simpa using Int.ofNat_inj.mp heq))
  exact if_neg hc

theorem step_ctrlC_byte :
    Console.step { stdin := 3 :: stdin, posted } = some { stdin, posted, stopped := true } := rfl

/-- At the end of the input a character is posted all the same. -/
theorem step_eof :
    Console.step { stdin := [], posted } = some { stdin := [], posted := posted ++ ['\xff'] } := rfl

/-- What a round can do. -/
theorem Console.step_cases {after : Console} (h : console.step = some after) :
    console.stopped = false ∧
      ((getchar console.stdin).1 = 3 ∧
          after = { console with stdin := (getchar console.stdin).2, stopped := true } ∨
        (getchar console.stdin).1 ≠ 3 ∧
          after = { console with
            stdin := (getchar console.stdin).2
            posted := console.posted ++ [toChar (getchar console.stdin).1] }) := by
  obtain ⟨hloops, h⟩ := Option.ite_none_left_eq_some.mp h
  refine ⟨Bool.eq_false_iff.mpr hloops, ?_⟩
  cases hread : getchar console.stdin with
  | mk c stdin =>
    rw [hread] at h
    by_cases hc : c = 3
    · exact .inl ⟨hc, (Option.some.inj ((if_pos hc).symm.trans h)).symm⟩
    · exact .inr ⟨hc, (Option.some.inj ((if_neg hc).symm.trans h)).symm⟩

/-- Bytes that are not Ctrl+C are posted one after the other. -/
theorem reaches_bytes {bytes : List UInt8} (h : 3 ∉ bytes) :
    Reaches Console.step { stdin := bytes ++ stdin, posted }
      { stdin, posted := posted ++ chars bytes } := by
  induction bytes generalizing posted with
  | nil =>
    rw [List.nil_append, chars, List.map_nil, List.append_nil]
    exact .refl
  | cons byte bytes ih =>
    obtain ⟨hbyte, hbytes⟩ := not_or.mp (mt List.mem_cons.mpr h)
    have hrest := @ih (posted ++ [toChar byte.toNat]) hbytes
    rw [List.append_assoc, List.singleton_append] at hrest
    exact .head (step_byte (Ne.symm hbyte)) hrest

/-- Without Ctrl+C the thread posts the character of `EOF` on and on. -/
theorem reaches_eof (h : 3 ∉ stdin) (n : ℕ) :
    Reaches Console.step { stdin }
      { stdin := [], posted := chars stdin ++ List.replicate n '\xff' } := by
  induction n with
  | zero =>
    have hbytes := @reaches_bytes [] [] stdin h
    rw [List.append_nil, List.nil_append] at hbytes
    rwa [List.replicate_zero, List.append_nil]
  | succ n ih =>
    rw [List.replicate_succ', ← List.append_assoc]
    exact ih.tail step_eof

theorem endsWithInput_of_mem (h : 3 ∈ stdin) : EndsWithInput stdin := by
  obtain ⟨before, after, hbefore, rfl, hstart⟩ := Lines.exists_start h
  have hreaches := (@reaches_bytes (3 :: after) [] before hbefore).tail step_ctrlC_byte
  refine ⟨_, mem_eval.mpr ⟨hreaches, rfl⟩, rfl, ?_⟩
  rw [List.nil_append]
  exact congrArg chars hstart.symm

/-- The thread is in its loop, and there is no Ctrl+C to come. -/
def Console.Endless (console : Console) : Prop :=
  console.stopped = false ∧ 3 ∉ console.stdin

theorem Console.Endless.step (h : console.Endless) :
    ∃ next, console.step = some next ∧ next.Endless := by
  obtain ⟨stdin, posted, stopped⟩ := console
  obtain ⟨rfl, hstdin⟩ : stopped = false ∧ 3 ∉ stdin := h
  cases stdin with
  | nil => exact ⟨_, step_eof, rfl, List.not_mem_nil⟩
  | cons byte stdin =>
    obtain ⟨hbyte, hrest⟩ := not_or.mp (mt List.mem_cons.mpr hstdin)
    exact ⟨_, step_byte (Ne.symm hbyte), rfl, hrest⟩

theorem not_dom_eval_of_notMem (h : 3 ∉ stdin) : ¬ (eval Console.step { stdin }).Dom := by
  refine Halting.not_dom_eval_of_invariant Console.Endless ?_ ?_ ⟨rfl, h⟩
  · intro console next hendless hstep
    obtain ⟨next', hstep', hnext⟩ := hendless.step
    rw [hstep'] at hstep
    exact Option.some.inj hstep ▸ hnext
  · intro console hendless
    obtain ⟨next, hstep, -⟩ := hendless.step
    rw [hstep]
    exact nofun

end Rounds

/-! ## The two threads -/

namespace Program

variable {program next : Program}

theorem toNat_toChar (byte : UInt8) : (toChar byte.toNat).toNat = byte.toNat := by
  have hlt := byte.toNat_lt
  have hmod : ((byte.toNat : ℤ) % 256).toNat = byte.toNat := by omega
  have hvalid : byte.toNat.isValidChar := Or.inl (by omega)
  rw [toChar, hmod, Char.ofNat, dif_pos hvalid]
  rfl

theorem toChar_byte_eq_ctrlC_iff {byte : UInt8} : toChar byte.toNat = ctrlC ↔ byte = 3 := by
  constructor
  · intro h
    have hvalue := congrArg Char.toNat h
    rw [toNat_toChar] at hvalue
    exact UInt8.toNat_inj.mp hvalue
  · rintro rfl
    rfl

/-- The character of `EOF` is not Ctrl+C. -/
theorem eofChar_ne_ctrlC : toChar (-1) ≠ ctrlC := by decide

/-- A round of the loop is a step of the program, for the character that is read. -/
theorem step_getchar {console after : Console} (hconsole : program.console = true)
    (hstep : console.step = some after) :
    step program (.getchar (toChar (getchar console.stdin).1)) =
      some (if after.stopped then { program.stop with console := false }
        else program.input (toChar (getchar console.stdin).1)) := by
  obtain ⟨stdin, posted, stopped⟩ := console
  cases stopped with
  | true => exact absurd hstep nofun
  | false =>
    cases stdin with
    | nil =>
      rw [step_eof] at hstep
      obtain rfl := Option.some.inj hstep
      rw [step, if_pos hconsole]
      exact if_neg eofChar_ne_ctrlC
    | cons byte stdin =>
      by_cases hbyte : byte = 3
      · rw [hbyte, step_ctrlC_byte] at hstep
        obtain rfl := Option.some.inj hstep
        rw [hbyte, step, if_pos hconsole]
        rfl
      · rw [step_byte hbyte] at hstep
        obtain rfl := Option.some.inj hstep
        rw [step, if_pos hconsole]
        exact if_neg (mt toChar_byte_eq_ctrlC_iff.mp hbyte)

/-- The characters that the console thread reads in a run. -/
def consoleChars (events : List Event) : Str :=
  events.filterMap fun event =>
    match event with
    | .getchar c => some c
    | _ => none

/-- **What the thread does alone it does in the program.** Its rounds are those of a run of
the two threads, in which it reads what it posts, and Ctrl+C. -/
theorem exists_run_of_reaches {stdin : List UInt8} {console : Console}
    (h : Reaches Console.step { stdin } console) :
    ∃ events program, Transition.run step opened events = some program ∧
      consoleChars events = console.posted ++ (if console.stopped then [ctrlC] else []) ∧
      program.console = !console.stopped := by
  induction h with
  | refl => exact ⟨[], opened, rfl, rfl, rfl⟩
  | @tail console after hreaches hround ih =>
    obtain ⟨events, program, hrun, hchars, hconsole⟩ := ih
    have hround : console.step = some after := hround
    obtain ⟨hloops, hcases⟩ := Console.step_cases hround
    rw [hloops, Bool.not_false] at hconsole
    rw [hloops, if_neg Bool.false_ne_true, List.append_nil] at hchars
    -- The round is one more step of the program, at the end of its run.
    have hstep := step_getchar hconsole hround
    refine ⟨events ++ [.getchar (toChar (getchar console.stdin).1)], _,
      (Transition.run_concat_eq_some_iff hrun).mpr hstep, ?_, ?_⟩
    -- What has been read is posted, but for Ctrl+C, which ends the thread.
    · rw [consoleChars, List.filterMap_append, ← consoleChars, hchars]
      obtain ⟨hctrlC, rfl⟩ | ⟨-, rfl⟩ := hcases
      · rw [hctrlC]
        rfl
      · rw [hloops]
        exact (List.append_nil _).symm
    · obtain ⟨-, rfl⟩ | ⟨-, rfl⟩ := hcases
      · rfl
      · rw [hloops]
        exact hconsole

/-! ### What stops the service -/

/-- The console thread is in its loop, and the service is not stopped. -/
structure Looping (program : Program) : Prop where
  stopped : program.stopped = false
  console : program.console = true

theorem Looping.readLine (h : program.Looping) : program.readLine.Looping := by
  rw [Program.readLine]
  split_ifs
  · exact ⟨h.stopped, h.console⟩
  · exact ⟨h.stopped, h.console⟩

theorem Looping.lineReceived (h : program.Looping) (ec : ErrorCode) :
    (program.lineReceived ec).Looping := by
  rcases ec.failed_or_eq_success with hec | rfl
  · rw [Program.lineReceived, if_pos hec]
    exact h
  · rw [lineReceived_success]
    exact Looping.readLine ⟨h.stopped, h.console⟩

theorem Looping.cancelTimer (h : program.Looping) : program.cancelTimer.Looping := by
  rw [Program.cancelTimer]
  split_ifs
  · exact ⟨h.stopped, h.console⟩
  · exact h

/-- No handler stops the service. -/
theorem Looping.handle (h : program.Looping) (now : Str) (handler : Handler) :
    (program.handle now handler).Looping := by
  cases handler with
  | banner => exact ⟨h.stopped, h.console⟩
  | input c => exact ⟨h.stopped, h.console⟩
  | timerExpired ec =>
    rw [Program.handle, timerExpired]
    split_ifs
    · exact h
    · have hcancelled := @Looping.cancelTimer (program.print (rowCol 1 40 ++ clearEol ++ now))
        ⟨h.stopped, h.console⟩
      exact ⟨hcancelled.stopped, hcancelled.console⟩
  | portRead ec bytes =>
    rw [Program.handle, portRead]
    split_ifs
    · exact @Looping.lineReceived { program with serialData := program.serialData ++ bytes }
        ⟨h.stopped, h.console⟩ ec
    · exact ⟨h.stopped, h.console⟩

/-- Only Ctrl+C ends the loop and stops the service. -/
theorem Looping.step {event : Event} (h : program.Looping) (hevent : event ≠ .getchar ctrlC)
    (hstep : program.step event = some next) : next.Looping := by
  cases event with
  | getchar c =>
    have hc : c ≠ ctrlC := fun heq => hevent (congrArg Event.getchar heq)
    rw [Program.step, if_pos h.console, if_neg hc] at hstep
    obtain rfl := Option.some.inj hstep
    exact ⟨h.stopped, h.console⟩
  | timerFired =>
    obtain ⟨-, hnext⟩ := Option.ite_none_right_eq_some.mp hstep
    obtain rfl := Option.some.inj hnext
    exact ⟨h.stopped, h.console⟩
  | arrived bytes =>
    obtain ⟨-, hnext⟩ := Option.ite_none_right_eq_some.mp hstep
    obtain rfl := Option.some.inj hnext
    exact ⟨h.stopped, h.console⟩
  | readFailed ec =>
    obtain ⟨-, hnext⟩ := Option.ite_none_right_eq_some.mp hstep
    obtain rfl := Option.some.inj hnext
    exact ⟨h.stopped, h.console⟩
  | handle i now =>
    obtain ⟨handler, -, rfl⟩ := Option.map_eq_some_iff.mp hstep
    exact @Looping.handle { program with queue := program.queue.eraseIdx i }
      ⟨h.stopped, h.console⟩ now handler

/-- The characters that the console thread reads are those of standard input, and the
character of `EOF` from its end on. -/
def ReadsFrom (stdin : List UInt8) (events : List Event) : Prop :=
  ∃ n, consoleChars events <+: chars stdin ++ List.replicate n (toChar (-1))

theorem ctrlC_notMem_chars {stdin : List UInt8} (h : 3 ∉ stdin) : ctrlC ∉ chars stdin := by
  intro hmem
  obtain ⟨byte, hbyte, hchar⟩ := List.mem_map.mp hmem
  rw [toChar_byte_eq_ctrlC_iff.mp hchar] at hbyte
  exact h hbyte

/-- **Without Ctrl+C the service runs on.** In no run of the two threads on an input
without Ctrl+C is the service stopped. -/
theorem not_stopped_of_notMem {stdin : List UInt8} (h : 3 ∉ stdin) {events : List Event}
    (hreads : ReadsFrom stdin events) (hrun : Transition.run step opened events = some program) :
    program.Looping := by
  obtain ⟨n, hchars⟩ := hreads
  have hevents : ∀ event ∈ events, event ≠ .getchar ctrlC := by
    rintro _ hevent rfl
    have hmem : ctrlC ∈ consoleChars events := List.mem_filterMap.mpr ⟨_, hevent, rfl⟩
    rcases List.mem_append.mp (hchars.subset hmem) with hbyte | heof
    · exact ctrlC_notMem_chars h hbyte
    · exact eofChar_ne_ctrlC (List.eq_of_mem_replicate heof).symm
  refine Transition.run_invariant_of_obeys Looping ?_ hrun (Transition.obeys_of_forall hevents) ?_
  · intro before event next hbefore hevent hstep
    exact hbefore.step hevent hstep
  · exact Looping.readLine ⟨rfl, rfl⟩

/-- Without Ctrl+C there are runs in which the character of `EOF` is posted as often as one
likes, and the service goes on. -/
theorem exists_looping {stdin : List UInt8} (h : 3 ∉ stdin) (n : ℕ) :
    ∃ events program, Transition.run step opened events = some program ∧
      consoleChars events = chars stdin ++ List.replicate n (toChar (-1)) ∧ program.Looping := by
  obtain ⟨events, program, hrun, hchars, -⟩ := exists_run_of_reaches (reaches_eof h n)
  rw [if_neg Bool.false_ne_true, List.append_nil] at hchars
  exact ⟨events, program, hrun, hchars,
    not_stopped_of_notMem h ⟨n, hchars ▸ List.prefix_rfl⟩ hrun⟩

end Program

/-- **The console loop ends exactly with Ctrl+C.** -/
theorem endsWithInput_iff (stdin : List UInt8) : EndsWithInput stdin ↔ 3 ∈ stdin := by
  constructor
  · rintro ⟨final, hfinal, -⟩
    by_contra h
    exact not_dom_eval_of_notMem h (Part.dom_iff_mem.mpr ⟨final, hfinal⟩)
  · exact endsWithInput_of_mem

/-- A standard input that is closed. -/
theorem not_endsWithInput_nil : ¬ ∀ stdin, EndsWithInput stdin := by
  intro hall
  obtain ⟨final, hfinal, -⟩ := hall []
  exact not_dom_eval_of_notMem List.not_mem_nil (Part.dom_iff_mem.mpr ⟨final, hfinal⟩)

end BoostProjects.Serial
