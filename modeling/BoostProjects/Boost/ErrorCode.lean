import Mathlib.Init

/-!
# Error codes

The values of `boost::system::error_code` that the programs tell apart. Every
other failure is `other`, with its number.
-/

namespace BoostProjects.Boost

/-- A `boost::system::error_code`. -/
inductive ErrorCode
  | success
  /-- `errc::no_such_file_or_directory` -/
  | noSuchFileOrDirectory
  /-- `http::error::end_of_stream` -/
  | endOfStream
  /-- `ssl::error::stream_truncated` -/
  | streamTruncated
  | other (value : Nat)
  deriving DecidableEq, Repr

/-- `asio::error::eof` -/
def eof : ErrorCode := .other 2

/-- The conversion of an `error_code` to `bool`. -/
def ErrorCode.failed : ErrorCode → Bool
  | .success => false
  | _ => true

@[simp] theorem ErrorCode.failed_eq_false_iff {ec : ErrorCode} :
    ec.failed = false ↔ ec = .success := by
  cases ec <;> simp [failed]

theorem ErrorCode.failed_or_eq_success (ec : ErrorCode) : ec.failed = true ∨ ec = .success := by
  cases ec with
  | success => exact Or.inr rfl
  | _ => exact Or.inl rfl

end BoostProjects.Boost
