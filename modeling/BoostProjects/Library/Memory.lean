import Mathlib.Data.List.Range
import Mathlib.Data.Fin.Basic

/-!
# Fixed arrays of cells

An array of `cap` cells is a function on `Fin cap`, so its size is part of its
type and no update can change it. `slice` reads a run of consecutive cells and
`store` overwrites one; reads and writes past the end see nothing.
-/

namespace Memory

/-- A fixed array of `cap` cells. -/
abbrev Cells (α : Type*) (cap : ℕ) := Fin cap → α

variable {α : Type*} {cap : ℕ}

namespace Cells

/-- The content of cell `i`, if there is one. -/
def read (cells : Cells α cap) (i : ℕ) : Option α :=
  if h : i < cap then some (cells ⟨i, h⟩) else none

theorem read_of_lt (cells : Cells α cap) {i : ℕ} (h : i < cap) :
    cells.read i = some (cells ⟨i, h⟩) := by
  rw [read, dif_pos h]

/-- The `length` cells from `offset` on. -/
def slice (cells : Cells α cap) (offset length : ℕ) : List α :=
  (List.range' offset length).filterMap cells.read

/-- Overwrite the cells from `offset` on. -/
def store (cells : Cells α cap) (offset : ℕ) (values : List α) : Cells α cap := fun i =>
  if offset ≤ i then values[i.1 - offset]?.getD (cells i) else cells i

@[simp] theorem slice_zero (cells : Cells α cap) (offset : ℕ) : cells.slice offset 0 = [] := rfl

theorem slice_add (cells : Cells α cap) (offset first second : ℕ) :
    cells.slice offset (first + second) =
      cells.slice offset first ++ cells.slice (offset + first) second := by
  rw [slice, slice, slice, ← List.filterMap_append, ← List.range'_append, Nat.one_mul]

theorem slice_succ (cells : Cells α cap) {offset : ℕ} (h : offset < cap) (length : ℕ) :
    cells.slice offset (length + 1) = cells ⟨offset, h⟩ :: cells.slice (offset + 1) length := by
  rw [slice, List.range'_succ, List.filterMap_cons_some (read_of_lt cells h), slice]

theorem length_slice (cells : Cells α cap) {offset length : ℕ} (h : offset + length ≤ cap) :
    (cells.slice offset length).length = length := by
  induction length generalizing offset with
  | zero => rfl
  | succ length ih =>
    rw [slice_succ cells (by omega), List.length_cons, ih (by omega)]

theorem store_of_le (cells : Cells α cap) {offset : ℕ} (values : List α) {i : Fin cap}
    (h : offset ≤ i) : cells.store offset values i = values[i.1 - offset]?.getD (cells i) := by
  rw [store, if_pos h]

/-- A store is read back from where it was made. -/
theorem slice_store (cells : Cells α cap) (offset : ℕ) (values : List α)
    (h : offset + values.length ≤ cap) :
    (cells.store offset values).slice offset values.length = values := by
  suffices hfrom : ∀ k ≤ values.length,
      (cells.store offset values).slice (offset + k) (values.length - k) = values.drop k by
    simpa using hfrom 0 (Nat.zero_le _)
  intro k hk
  induction hn : values.length - k generalizing k with
  | zero => simp [List.drop_eq_nil_of_le (show values.length ≤ k by omega)]
  | succ n ih =>
    have hlt : k < values.length := by omega
    rw [slice_succ _ (show offset + k < cap by omega), Nat.add_assoc,
      ih (k + 1) (by omega) (by omega),
      List.drop_eq_getElem_cons hlt]
    congr 1
    rw [store_of_le cells values (Nat.le_add_right offset k)]
    simp [hlt]

end Cells

end Memory
