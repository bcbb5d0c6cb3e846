import BoostProjects.Library.Halting
import BoostProjects.Serial.Service
import Mathlib.Data.List.TakeWhile

/-!
# Progress of the line loop

`extract` removes white space, a sign and digits from the front of the buffer and
stops at anything else. A byte that is none of these is therefore never removed: once
it is at the front and a newline is in the buffer behind it, `async_read_until`
completes again and again on the same bytes. A sign is removed even where no digit
follows it.

`Clean` says that there is no such byte before a newline. Steps neither bring
one in nor take one out, so a clean stream stays clean, each line received
removes something, and the service comes to wait for more data; on any other
stream it never does.
-/

namespace BoostProjects.Serial

open Boost Cpp StateTransition

/-- What `operator>>` can remove from a buffer. -/
def Readable (c : Char) : Prop := isSpace c = true ∨ c.isDigit = true ∨ c = '+' ∨ c = '-'

instance (c : Char) : Decidable (Readable c) := inferInstanceAs (Decidable (_ ∨ _ ∨ _ ∨ _))

/-- No byte other than a digit, a sign or white space stands before a newline. -/
def Clean (stream : Str) : Prop :=
  ∀ before c after, stream = before ++ c :: after → '\n' ∈ after → Readable c

/-! ## What an extraction removes -/

theorem rest_extract (buffer : Str) :
    (extract buffer).rest =
      (Istream.splitSign (buffer.dropWhile isSpace)).2.dropWhile Char.isDigit :=
  Istream.unread_extractUnsigned buffer

/-- The sign of a number, if there is one. -/
theorem splitSign_cases (text : Str) :
    (Istream.splitSign text).2 = text ∨
      ∃ sign, (sign = '+' ∨ sign = '-') ∧ text = sign :: (Istream.splitSign text).2 := by
  unfold Istream.splitSign
  split
  · exact .inr ⟨'-', .inr rfl, rfl⟩
  · exact .inr ⟨'+', .inl rfl, rfl⟩
  · exact .inl rfl

/-- What follows white space is a sign that may be missing, digits, and the rest. -/
theorem exists_splitSign_eq (text : Str) :
    ∃ removed, text = removed ++ (Istream.splitSign text).2.dropWhile Char.isDigit ∧
      ∀ c ∈ removed, Readable c := by
  have hsplit := List.takeWhile_append_dropWhile (p := Char.isDigit)
    (l := (Istream.splitSign text).2)
  have hdigits : ∀ c ∈ (Istream.splitSign text).2.takeWhile Char.isDigit, Readable c :=
    fun c hc => .inr (.inl (List.mem_takeWhile_imp hc))
  obtain hnone | ⟨sign, hsign, htext⟩ := splitSign_cases text
  · exact ⟨_, by rw [hsplit, hnone], hdigits⟩
  · refine ⟨sign :: (Istream.splitSign text).2.takeWhile Char.isDigit, ?_, ?_⟩
    · rw [List.cons_append, hsplit]
      exact htext
    · exact List.forall_mem_cons.mpr ⟨.inr (.inr hsign), hdigits⟩

/-- An extraction removes readable bytes from the front. -/
theorem exists_extract_eq (buffer : Str) :
    ∃ removed, buffer = removed ++ (extract buffer).rest ∧ ∀ c ∈ removed, Readable c := by
  obtain ⟨removed, hremoved, hreadable⟩ := exists_splitSign_eq (buffer.dropWhile isSpace)
  refine ⟨buffer.takeWhile isSpace ++ removed, ?_, ?_⟩
  · rw [rest_extract, List.append_assoc, ← hremoved, List.takeWhile_append_dropWhile]
  · intro c hc
    rcases List.mem_append.mp hc with hspace | hmem
    · exact Or.inl (List.mem_takeWhile_imp hspace)
    · exact hreadable c hmem

theorem length_splitSign_le (text : Str) : (Istream.splitSign text).2.length ≤ text.length := by
  obtain hnone | ⟨sign, -, htext⟩ := splitSign_cases text
  · rw [hnone]
  · have hlength := congrArg List.length htext
    rw [List.length_cons] at hlength
    omega

example : (extract "+x\n".toList).rest = "x\n".toList := by decide

/-- If the first byte is readable, it is removed. -/
theorem length_rest_extract_lt {c : Char} {buffer : Str} (hc : Readable c) :
    (extract (c :: buffer)).rest.length < (c :: buffer).length := by
  rw [rest_extract]
  by_cases hspace : isSpace c = true
  · rw [List.dropWhile_cons_of_pos hspace]
    have hdigits := List.length_dropWhile_le Char.isDigit
      (Istream.splitSign (buffer.dropWhile isSpace)).2
    have hsign := length_splitSign_le (buffer.dropWhile isSpace)
    have hspaces := List.length_dropWhile_le isSpace buffer
    exact Nat.lt_succ_of_le (hdigits.trans (hsign.trans hspaces))
  · rw [List.dropWhile_cons_of_neg hspace]
    obtain hdigit | rfl | rfl := hc.resolve_left hspace
    -- There is no sign, and the run of digits has at least this one.
    · have hnone : Istream.splitSign (c :: buffer) = (false, c :: buffer) :=
        Istream.splitSign_of_isDigit (by rintro d ⟨⟩; exact hdigit)
      rw [hnone, List.dropWhile_cons_of_pos hdigit]
      exact Nat.lt_succ_of_le (List.length_dropWhile_le Char.isDigit buffer)
    -- A sign is removed whatever follows it.
    · exact Nat.lt_succ_of_le (List.length_dropWhile_le Char.isDigit buffer)
    · exact Nat.lt_succ_of_le (List.length_dropWhile_le Char.isDigit buffer)

/-- Readable bytes at the front of a stream do not matter. -/
theorem clean_append_iff {removed rest : Str} (hremoved : ∀ c ∈ removed, Readable c) :
    Clean (removed ++ rest) ↔ Clean rest := by
  constructor
  · intro h before c after hsplit hafter
    refine h (removed ++ before) c after ?_ hafter
    rw [hsplit, List.append_assoc]
  · intro h before c after hsplit hafter
    rcases List.append_eq_append_iff.mp hsplit with ⟨middle, rfl, hrest⟩ | ⟨middle, hmiddle, hrest⟩
    · exact h middle c after hrest hafter
    · cases middle with
      | nil => exact h [] c after hrest.symm hafter
      | cons d middle =>
        obtain ⟨rfl, -⟩ := List.cons.inj hrest
        refine hremoved c ?_
        rw [hmiddle]
        exact List.mem_append_right before List.mem_cons_self

theorem clean_of_notMem {stream : Str} (h : '\n' ∉ stream) : Clean stream := by
  rintro before c after rfl hafter
  exact absurd (List.mem_append_right before (List.mem_cons_of_mem c hafter)) h

namespace Service

variable {service next : Service}

/-- The bytes that have not been removed yet, in the buffer or on their way. -/
def remaining (service : Service) : Str := service.serialData ++ service.port.flatten

/-- A step neither brings in nor removes an unreadable byte. -/
theorem clean_remaining_step_iff (hreading : service.reading = true)
    (h : step service = some next) : Clean next.remaining ↔ Clean service.remaining := by
  rcases step_cases hreading h with ⟨-, rfl⟩ | ⟨piece, rest, -, hport, rfl⟩
  -- What a line received removes is readable, so the stream is as clean as it was.
  · obtain ⟨removed, hsplit, hreadable⟩ := exists_extract_eq service.serialData
    have hremaining : service.remaining =
        removed ++ (service.lineReceived .success).remaining := by
      rw [lineReceived_success, remaining, remaining, ← List.append_assoc, ← hsplit]
    rw [hremaining, clean_append_iff hreadable]
  · have hsame : remaining { service with
        port := rest, serialData := service.serialData ++ piece } = service.remaining := by
      rw [remaining, remaining, hport, List.flatten_cons, List.append_assoc]
    rw [hsame]

/-- On a clean stream, each line received removes a byte. -/
theorem length_lineReceived_lt (hclean : Clean service.remaining)
    (h : '\n' ∈ service.serialData) :
    (service.lineReceived .success).serialData.length < service.serialData.length := by
  rw [lineReceived_success]
  cases hdata : service.serialData with
  | nil =>
    rw [hdata] at h
    exact absurd h List.not_mem_nil
  | cons c tail =>
    apply length_rest_extract_lt
    rw [hdata] at h
    rcases List.mem_cons.mp h with rfl | htail
    · exact Or.inl (by decide)
    · refine hclean [] c (tail ++ service.port.flatten) ?_ (List.mem_append_left _ htail)
      rw [remaining, hdata]
      rfl

/-- What is left to do: the bytes remaining, and the pieces to take in. -/
def measure (service : Service) : ℕ := service.remaining.length + service.port.length

theorem measure_step_lt (hreading : service.reading = true) (hclean : Clean service.remaining)
    (h : step service = some next) : next.measure < service.measure := by
  rcases step_cases hreading h with ⟨hmem, rfl⟩ | ⟨piece, rest, -, hport, rfl⟩
  -- A line received removes a byte, and a piece taken in is one piece less.
  · have hless := length_lineReceived_lt hclean hmem
    have hport : (service.lineReceived .success).port = service.port := by
      rw [lineReceived_success]
    simp only [measure, remaining, List.length_append, hport]
    omega
  · simp only [measure, remaining, hport, List.flatten_cons, List.length_append,
      List.length_cons]
    omega

/-- A read is in flight and the stream is clean. -/
def Advancing (service : Service) : Prop := service.reading = true ∧ Clean service.remaining

theorem Advancing.step (h : service.Advancing) (hstep : Service.step service = some next) :
    next.Advancing :=
  ⟨reading_step h.1 hstep, (clean_remaining_step_iff h.1 hstep).mpr h.2⟩

/-- The service comes to wait exactly on a clean stream. -/
theorem dom_eval_iff (hreading : service.reading = true) :
    (eval step service).Dom ↔ Clean service.remaining := by
  constructor
  · intro hdom
    by_contra hunclean
    refine Halting.not_dom_eval_of_invariant
      (fun service => service.reading = true ∧ ¬ Clean service.remaining) ?_ ?_
      ⟨hreading, hunclean⟩ hdom
    · rintro service next ⟨hreading, hunclean⟩ hstep
      exact ⟨reading_step hreading hstep,
        fun hclean => hunclean ((clean_remaining_step_iff hreading hstep).mp hclean)⟩
    · rintro service ⟨hreading, hunclean⟩ hwait
      -- A service that waits has no newline left at all.
      obtain ⟨hnotMem, hport⟩ := (step_eq_none_iff hreading).mp hwait
      apply hunclean
      apply clean_of_notMem
      rwa [remaining, hport, List.flatten_nil, List.append_nil]
  · intro hclean
    apply Halting.dom_eval_of_measure Advancing measure _ ⟨hreading, hclean⟩
    intro service next hadvancing hstep
    exact ⟨hadvancing.step hstep, measure_step_lt hadvancing.1 hadvancing.2 hstep⟩

theorem remaining_opened (port : List Str) : (opened port).remaining = port.flatten := rfl

/-- **Progress, exactly when.** Each line received removes a byte and the
service comes to wait for more data, if and only if no byte other than a digit, a
sign or white space stands before a newline in the stream, however it was cut. -/
theorem progress_iff_clean (port : List Str) :
    ((∀ service, Reaches step (opened port) service → '\n' ∈ service.serialData →
        (service.lineReceived .success).serialData.length < service.serialData.length) ∧
      (eval step (opened port)).Dom) ↔
    Clean port.flatten := by
  rw [dom_eval_iff rfl, remaining_opened]
  refine and_iff_right_of_imp fun hclean service hreaches hmem => ?_
  have hadvancing : service.Advancing :=
    Halting.reaches_invariant Advancing (fun _ _ h hstep => h.step hstep) hreaches ⟨rfl, hclean⟩
  exact length_lineReceived_lt hadvancing.2 hmem

/-- One malformed line, and the service never waits again. -/
theorem not_dom_eval_malformed : ¬ (eval step (opened ["x\n".toList])).Dom := by
  rw [dom_eval_iff rfl]
  intro hclean
  have hreadable : Readable 'x' := hclean [] 'x' ['\n'] rfl List.mem_cons_self
  exact absurd hreadable (by decide)

end Service

end BoostProjects.Serial
