import Mathlib.Data.List.FinRange
import Mathlib.Data.List.TakeWhile

/-!
# Picking one element of a list

The element at a position splits the list around it. Replacing and removing it
are then the lists rebuilt around the new element and around nothing.

A span of elements with a property is taken off the front of a list, and the rest
begins with none of them.
-/

namespace Lists

variable {α β : Type*}

theorem exists_split_of_getElem? {l : List α} {i : ℕ} {a : α} (h : l[i]? = some a) :
    ∃ before after, l = before ++ a :: after ∧ before.length = i := by
  obtain ⟨hi, rfl⟩ := List.getElem?_eq_some_iff.mp h
  refine ⟨l.take i, l.drop (i + 1), ?_, List.length_take_of_le (Nat.le_of_lt hi)⟩
  rw [← List.drop_eq_getElem_cons hi, List.take_append_drop]

/-- What is done with the element at a position, which splits the list around it. -/
theorem exists_split_of_bind {l : List α} {i : ℕ} {f : α → Option β} {b : β}
    (h : l[i]?.bind f = some b) :
    ∃ before a after, l = before ++ a :: after ∧ before.length = i ∧ f a = some b := by
  obtain ⟨a, ha, hb⟩ := Option.bind_eq_some_iff.mp h
  obtain ⟨before, after, hsplit, hlength⟩ := exists_split_of_getElem? ha
  exact ⟨before, a, after, hsplit, hlength, hb⟩

theorem set_split (before after : List α) (a b : α) :
    (before ++ a :: after).set before.length b = before ++ b :: after := by
  simp

theorem getElem?_split (before after : List α) (a : α) :
    (before ++ a :: after)[before.length]? = some a := by
  rw [List.getElem?_append_right (Nat.le_refl _), Nat.sub_self, List.getElem?_cons_zero]

/-- What every place of a list has is kept when one element is replaced. -/
theorem forall_getElem?_split {P : ℕ → α → Prop} {before after : List α} {a b : α}
    (h : ∀ i c, (before ++ a :: after)[i]? = some c → P i c)
    (hb : P before.length a → P before.length b) :
    ∀ i c, (before ++ b :: after)[i]? = some c → P i c := by
  intro i c hc
  rw [← set_split before after a b, List.getElem?_set] at hc
  split_ifs at hc with hi hlength
  · obtain rfl := Option.some.inj hc
    exact hi ▸ hb (h _ _ (getElem?_split before after a))
  · exact h i c hc

/-- Looking an index up in a list of one element. -/
theorem getElem?_singleton {i : ℕ} {a b : α} (h : [a][i]? = some b) : i = 0 ∧ b = a := by
  cases i with
  | zero => exact ⟨rfl, (Option.some.inj h).symm⟩
  | succ i => exact nomatch h

/-- Looking an index up in a list that has grown by one. -/
theorem getElem?_concat {l : List α} {i : ℕ} {a b : α} (h : (l ++ [a])[i]? = some b) :
    l[i]? = some b ∨ i = l.length ∧ b = a := by
  by_cases hi : i < l.length
  · rw [List.getElem?_append_left hi] at h
    exact Or.inl h
  · obtain ⟨hlength, -⟩ := List.getElem?_eq_some_iff.mp h
    rw [List.length_append, List.length_singleton] at hlength
    obtain rfl : i = l.length := by omega
    rw [List.getElem?_concat_length] at h
    exact Or.inr ⟨rfl, (Option.some.inj h).symm⟩

theorem eraseIdx_split (before after : List α) (a : α) :
    (before ++ a :: after).eraseIdx before.length = before ++ after := by
  rw [List.eraseIdx_append_of_length_le (Nat.le_refl _), Nat.sub_self, List.eraseIdx_cons_zero]

/-- What all elements have, and the new one, all have after one is modified. -/
theorem forall_mem_modify {P : α → Prop} {l : List α} {f : α → α} (h : ∀ a ∈ l, P a)
    (hf : ∀ a, P a → P (f a)) (i : ℕ) : ∀ a ∈ l.modify i f, P a := by
  intro a ha
  obtain ⟨j, hj⟩ := List.mem_iff_getElem?.mp ha
  rw [List.getElem?_modify] at hj
  obtain ⟨b, hb, rfl⟩ := Option.map_eq_some_iff.mp hj
  have hold := h b (List.mem_of_getElem? hb)
  split_ifs
  · exact hf b hold
  · exact hold

/-- The first place without an element is found, or all have one. -/
theorem find?_isNone_cases {n : ℕ} (places : Fin n → Option α) :
    (∃ i, (List.finRange n).find? (fun i => (places i).isNone) = some i ∧ places i = none) ∨
    ((List.finRange n).find? (fun i => (places i).isNone) = none ∧ ∀ i, (places i).isSome) := by
  cases hfind : (List.finRange n).find? fun i => (places i).isNone with
  | some i =>
    have hplace := List.find?_some hfind
    exact .inl ⟨i, rfl, Option.isNone_iff_eq_none.mp hplace⟩
  | none =>
    refine .inr ⟨rfl, fun i => ?_⟩
    have hplace := List.find?_eq_none.mp hfind i (List.mem_finRange i)
    rwa [Bool.not_eq_true, Option.isNone_eq_false_iff] at hplace

/-! ## Spans -/

section Span

variable {p : α → Bool} {first rest : List α}

theorem takeWhile_span (hfirst : ∀ a ∈ first, p a) (hrest : ∀ a ∈ rest.head?, p a = false) :
    (first ++ rest).takeWhile p = first := by
  rw [List.takeWhile_append_of_pos hfirst]
  cases rest with
  | nil => exact List.append_nil first
  | cons a rest => rw [List.takeWhile_cons_of_neg (by simp [hrest a rfl]), List.append_nil]

theorem dropWhile_span (hfirst : ∀ a ∈ first, p a) (hrest : ∀ a ∈ rest.head?, p a = false) :
    (first ++ rest).dropWhile p = rest := by
  rw [List.dropWhile_append_of_pos hfirst]
  cases rest with
  | nil => rfl
  | cons a rest => exact List.dropWhile_cons_of_neg (by simp [hrest a rfl])

theorem head?_dropWhile (l : List α) : ∀ a ∈ (l.dropWhile p).head?, p a = false := by
  intro a ha
  have hnot := List.head?_dropWhile_not p l
  rwa [Option.mem_def.mp ha] at hnot

end Span

end Lists
