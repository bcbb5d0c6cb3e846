import BoostProjects.Library.Lines
import Mathlib.Data.List.Infix

/-!
# Strings

A `std::string` or `std::string_view` is the list of its characters, which may
include the null character. `cStr` is what a function that takes a C string sees
of `s.c_str()`: the characters before the first null.
-/

namespace BoostProjects.Cpp

/-- A `std::string`. -/
abbrev Str := List Char

/-- The C string `s.c_str()`. -/
def cStr (s : Str) : Str := s.takeWhile (· ≠ '\x00')

theorem cStr_prefix_self (s : Str) : cStr s <+: s := List.takeWhile_prefix _

/-- A string without a null character is its own C string, whatever follows. -/
theorem cStr_append_of_notMem {s : Str} (rest : Str) (hs : '\x00' ∉ s) :
    cStr (s ++ rest) = s ++ cStr rest :=
  Lines.start_append_of_notMem hs rest

theorem cStr_eq_self {s : Str} (hs : '\x00' ∉ s) : cStr s = s := by
  simpa [cStr] using cStr_append_of_notMem [] hs

/-- What follows a null character is cut off. -/
theorem cStr_append_of_mem {s : Str} (rest : Str) (hs : '\x00' ∈ s) :
    cStr (s ++ rest) = cStr s :=
  Lines.start_append_of_mem hs rest

end BoostProjects.Cpp
