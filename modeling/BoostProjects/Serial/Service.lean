import BoostProjects.Boost.ErrorCode
import BoostProjects.Cpp.Istream

/-!
# The serial display

`Service` reads lines from a serial port and shows the number on each as a bar.
`readLine` starts an `async_read_until`, whose handler `lineReceived` extracts a
number from the buffer and calls `readLine` again.

The read is told to stop at a newline and reports where it found one, but
`lineReceived` ignores that and reads the buffer with `operator>>`. So what is
removed from the buffer is decided by `extract` alone.

The port is the list of the pieces that arrive on it. `step` is the loop over
the callback: an operation that can complete does, and where none can, the
service waits.
-/

namespace BoostProjects.Serial

open Boost Cpp

/-! ## The display -/

/-- Clears the rest of the line. -/
def clearEol : Str := "\x1b[K".toList

/-- Switches to the line drawing characters. -/
def graphicCharSet : Str := "\x1b(0".toList

/-- Switches back from them. -/
def normalCharSet : Str := "\x1b(B".toList

/-- What is drawn as a diamond. -/
def graphicDiamond : Char := '\x60'

/-- Moves the cursor. -/
def rowCol (row col : ℕ) : Str :=
  "\x1b[".toList ++ Nat.toDigits 10 row ++ ";".toList ++ Nat.toDigits 10 col ++ "H".toList

/-- What `lineReceived` writes to show a bar of the given length. -/
def bar (length : ℕ) : Str :=
  rowCol 12 10 ++ graphicCharSet ++ List.replicate length graphicDiamond ++ normalCharSet ++
    clearEol

theorem bar_injective : Function.Injective bar := by
  intro m n h
  have hlength := congrArg List.length h
  simp only [bar, List.length_append, List.length_replicate] at hlength
  omega

/-! ## Reading a number from a stream -/

/-- What `str >> value` leaves: the rest of the buffer, the value and
`str.good()`. -/
structure Extracted where
  rest : Str
  value : UInt32
  good : Bool
  deriving DecidableEq, Repr

/-- `str >> value` on a fresh `std::istream` over the buffer. The stream is not good
afterwards if there was no digit, if the number does not fit, or if the end of
the buffer was seen. -/
def extract (buffer : Str) : Extracted :=
  let (value, str) := Istream.extractUnsigned { unread := buffer }
  { rest := str.unread, value := UInt32.ofNat value, good := str.good }

/-! ## The service -/

/-- The service, with what is still to arrive on its port and what it has
written. -/
structure Service where
  /-- The pieces that `m_port` has not delivered yet. -/
  port : List Str
  /-- `m_serialData` -/
  serialData : Str
  /-- An `async_read_until` is in flight. -/
  reading : Bool
  /-- The texts written to `std::cout`. -/
  cout : List Str
  deriving DecidableEq, Repr

namespace Service

/-- `Service::readLine` -/
def readLine (service : Service) : Service := { service with reading := true }

/-- The length of the bar for a value, which maps 0-1023 to 1-64. -/
def boxes (value : UInt32) : UInt32 := min 64 ((value >>> 4) + 1)

/-- `Service::lineReceived` -/
def lineReceived (service : Service) (ec : ErrorCode) : Service :=
  if ec.failed then service
  else
    -- The size that Asio reports, up to the newline, is not used.
    let str := extract service.serialData
    let service := { service with serialData := str.rest }
    let service :=
      if str.good then { service with cout := service.cout ++ [bar (boxes str.value).toNat] }
      else service
    service.readLine

/-- The `async_read_until` in flight completes if the buffer holds a newline,
and takes in the next piece otherwise. -/
def step (service : Service) : Option Service :=
  if service.reading then
    -- A newline that an earlier call left in the buffer is enough.
    if '\n' ∈ service.serialData then
      some ({ service with reading := false }.lineReceived .success)
    else
      match service.port with
      | [] => none
      | piece :: rest =>
          some { service with port := rest, serialData := service.serialData ++ piece }
  else none

/-- `openSerialPort`, with the pieces that will arrive. -/
def opened (port : List Str) : Service :=
  readLine { port, serialData := [], reading := false, cout := [] }

/-! ### One step -/

variable {service next : Service}

/-- What is written for the number extracted. -/
def shownBy (str : Extracted) : Option Str :=
  if str.good then some (bar (boxes str.value).toNat) else none

theorem lineReceived_success (service : Service) :
    service.lineReceived .success =
      { service with
        serialData := (extract service.serialData).rest
        reading := true
        cout := service.cout ++ (shownBy (extract service.serialData)).toList } := by
  cases hgood : (extract service.serialData).good with
  | true => simp [lineReceived, shownBy, readLine, ErrorCode.failed, hgood]
  | false => simp [lineReceived, shownBy, readLine, ErrorCode.failed, hgood]

/-- A line is received when the buffer holds a newline. -/
theorem step_of_mem (hreading : service.reading = true) (h : '\n' ∈ service.serialData) :
    step service = some (service.lineReceived .success) := by
  rw [step, if_pos hreading, if_pos h, lineReceived_success, lineReceived_success]

theorem step_of_notMem (hreading : service.reading = true) (h : '\n' ∉ service.serialData)
    {piece : Str} {rest : List Str} (hport : service.port = piece :: rest) :
    step service =
      some { service with port := rest, serialData := service.serialData ++ piece } := by
  rw [step, if_pos hreading, if_neg h, hport]

/-- The service waits when the buffer holds no newline and nothing arrives. -/
theorem step_eq_none_iff (hreading : service.reading = true) :
    step service = none ↔ '\n' ∉ service.serialData ∧ service.port = [] := by
  by_cases h : '\n' ∈ service.serialData
  · rw [step_of_mem hreading h]
    exact iff_of_false nofun fun hwait => hwait.1 h
  · cases hport : service.port with
    | nil =>
      rw [step, if_pos hreading, if_neg h, hport]
      exact iff_of_true rfl ⟨h, rfl⟩
    | cons piece rest =>
      rw [step_of_notMem hreading h hport]
      exact iff_of_false nofun fun hwait => nomatch hwait.2

/-- The two things a step can be. -/
theorem step_cases (hreading : service.reading = true) (h : step service = some next) :
    ('\n' ∈ service.serialData ∧ next = service.lineReceived .success) ∨
      ∃ piece rest, '\n' ∉ service.serialData ∧ service.port = piece :: rest ∧
        next = { service with port := rest, serialData := service.serialData ++ piece } := by
  by_cases hmem : '\n' ∈ service.serialData
  · rw [step_of_mem hreading hmem] at h
    exact Or.inl ⟨hmem, (Option.some.inj h).symm⟩
  · cases hport : service.port with
    | nil =>
      rw [(step_eq_none_iff hreading).mpr ⟨hmem, hport⟩] at h
      exact nomatch h
    | cons piece rest =>
      rw [step_of_notMem hreading hmem hport] at h
      exact Or.inr ⟨piece, rest, hmem, rfl, (Option.some.inj h).symm⟩

/-- A read is always in flight. -/
theorem reading_step (hreading : service.reading = true) (h : step service = some next) :
    next.reading = true := by
  rcases step_cases hreading h with ⟨-, rfl⟩ | ⟨piece, rest, -, -, rfl⟩
  · rw [lineReceived_success]
  · exact hreading

end Service

end BoostProjects.Serial
