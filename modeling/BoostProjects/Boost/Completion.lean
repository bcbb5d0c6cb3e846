import BoostProjects.Boost.ErrorCode
import BoostProjects.Library.HalfDuplex

/-!
# How operations complete

An asynchronous operation on a stream succeeds or fails. A callback is told so by
an error code; a coroutine that awaits the operation is given the number of bytes
transferred, or an exception is thrown with the code.
-/

namespace BoostProjects.Boost

open HalfDuplex

/-- A byte of a buffer. -/
abbrev Byte := UInt8

/-- An error code that is an error. -/
abbrev Failure := { code : ErrorCode // code.failed = true }

/-- What a callback is told. -/
def errorCode : Outcome Failure → ErrorCode
  | .success => .success
  | .failure error => error.1

/-- What a coroutine goes on with: the bytes transferred, or a `system_error`. -/
def awaited (outcome : Outcome Failure) (moved : ℕ) : Except ErrorCode ℕ :=
  match outcome with
  | .success => .ok moved
  | .failure error => .error error.1

end BoostProjects.Boost
