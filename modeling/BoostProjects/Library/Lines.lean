import Mathlib.Data.List.DropRight
import Mathlib.Data.List.Forall2
import Mathlib.Data.List.TakeWhile

/-!
# Lines

The lines of a text are what its delimiters end; what follows the last delimiter
is no line yet. `lines_append_cons` cuts a text at a delimiter, and the other
rules follow from it.

A reader that loses bytes at the front of some lines reads shorter lines, but as
many: `suffix_splitOn` compares the parts of two texts that differ only before
their first delimiter.

`words` are the parts between the delimiters, with no empty one at the end.
Joining them is inverse to taking them, up to one delimiter at the end.

`start` is the text before the first delimiter. In a text that holds one delimiter,
a different one gives a different start.
-/

namespace Lines

variable {α : Type*} [DecidableEq α] {delim : α}

/-- The parts of a text that a delimiter ends, without it. -/
def lines (delim : α) (text : List α) : List (List α) := (text.splitOn delim).dropLast

theorem lines_of_notMem {text : List α} (h : delim ∉ text) : lines delim text = [] := by
  rw [lines, List.splitOn_eq_singleton h]
  rfl

theorem lines_append_cons (first second : List α) :
    lines delim (first ++ delim :: second) = first.splitOn delim ++ lines delim second := by
  rw [lines, List.splitOn_append_cons_self,
    List.dropLast_append_of_ne_nil (List.splitOn_ne_nil delim second), lines]

theorem lines_cons {line : List α} (h : delim ∉ line) (rest : List α) :
    lines delim (line ++ delim :: rest) = line :: lines delim rest := by
  rw [lines_append_cons, List.splitOn_eq_singleton h, List.singleton_append]

/-- Delimited lines are read back, and then those of what follows. -/
theorem lines_flatMap_append {texts : List (List α)} (h : ∀ line ∈ texts, delim ∉ line)
    (rest : List α) :
    lines delim (texts.flatMap (· ++ [delim]) ++ rest) = texts ++ lines delim rest := by
  induction texts with
  | nil => rfl
  | cons line texts ih =>
    have htexts := ih fun later hlater => h later (List.mem_cons_of_mem line hlater)
    rw [List.flatMap_cons, List.append_assoc, List.append_assoc, List.singleton_append,
      lines_cons (h line List.mem_cons_self), htexts, List.cons_append]

/-- Delimiting the lines and reading them back. -/
theorem lines_flatMap {texts : List (List α)} (h : ∀ line ∈ texts, delim ∉ line) :
    lines delim (texts.flatMap (· ++ [delim])) = texts := by
  have hlines := lines_flatMap_append h []
  rw [List.append_nil, lines_of_notMem List.not_mem_nil, List.append_nil] at hlines
  exact hlines

theorem splitOn_append_of_notMem {first : List α} (h : delim ∉ first) (second : List α) :
    (first ++ second).splitOn delim = (second.splitOn delim).modifyHead (first ++ ·) := by
  induction first with
  | nil =>
    rw [List.nil_append]
    cases second.splitOn delim <;> rfl
  | cons c first ih =>
    have hc : (c == delim) = false := beq_false_of_ne fun hc => h (hc ▸ List.mem_cons_self)
    have hfirst := ih fun hmem => h (List.mem_cons_of_mem c hmem)
    rw [List.cons_append, List.splitOn_cons_eq_if_modifyHead, hfirst, hc]
    cases second.splitOn delim <;> rfl

/-- Losing bytes at the front of the first line changes that line only. -/
theorem suffix_splitOn {lost first : List α} (hsuffix : lost <:+ first) (h : delim ∉ first)
    (rest : List α) :
    List.Forall₂ (· <:+ ·) ((lost ++ rest).splitOn delim) ((first ++ rest).splitOn delim) := by
  have hlost : delim ∉ lost := fun hmem => h (hsuffix.subset hmem)
  rw [splitOn_append_of_notMem hlost, splitOn_append_of_notMem h]
  cases rest.splitOn delim with
  | nil => exact .nil
  | cons head tail =>
    have hhead : lost ++ head <:+ first ++ head := by
      obtain ⟨start, rfl⟩ := hsuffix
      exact ⟨start, (List.append_assoc start lost head).symm⟩
    exact .cons hhead (List.forall₂_same.mpr fun line _ => List.suffix_rfl)

/-! ## Words -/

/-- The parts of a text between its delimiters; an empty one after the last
delimiter is left out. -/
def words (delim : α) (text : List α) : List (List α) :=
  if (text.splitOn delim).getLast? = some [] then lines delim text else text.splitOn delim

@[simp] theorem words_nil : words delim [] = [] := by
  simp [words, lines]

theorem words_of_notMem {text : List α} (h : delim ∉ text) (hne : text ≠ []) :
    words delim text = [text] := by
  rw [words, List.splitOn_eq_singleton h, List.getLast?_singleton,
    if_neg fun hnil => hne (Option.some.inj hnil)]

theorem words_cons {word : List α} (h : delim ∉ word) (rest : List α) :
    words delim (word ++ delim :: rest) = word :: words delim rest := by
  have hne := List.splitOn_ne_nil delim rest
  have hlast : (word :: rest.splitOn delim).getLast? = (rest.splitOn delim).getLast? := by
    rw [List.getLast?_cons, List.getLast?_eq_some_getLast hne]
    rfl
  rw [words, List.splitOn_append_cons_self_of_not_mem h, lines_cons h, hlast, words]
  split_ifs <;> rfl

/-- A text is empty, or one word, or begins with a word and a delimiter. -/
theorem word_induction {motive : List α → Prop} (delim : α) (nil : motive [])
    (last : ∀ text, text ≠ [] → delim ∉ text → motive text)
    (cons : ∀ word rest, delim ∉ word → motive rest → motive (word ++ delim :: rest))
    (text : List α) : motive text := by
  induction hlength : text.length using Nat.strongRecOn generalizing text with
  | ind n ih =>
    by_cases hmem : delim ∈ text
    · obtain ⟨word, rest, rfl, hword⟩ := List.eq_append_cons_of_mem hmem
      refine cons word rest hword (ih rest.length ?_ rest rfl)
      rw [← hlength, List.length_append, List.length_cons]
      omega
    · rcases eq_or_ne text [] with rfl | hne
      · exact nil
      · exact last text hne hmem

theorem words_eq_nil_iff {text : List α} : words delim text = [] ↔ text = [] := by
  induction text using word_induction delim with
  | nil => simp
  | last text hne hmem => simp [words_of_notMem hmem hne, hne]
  | cons word rest hword _ => simp [words_cons hword]

theorem notMem_of_mem_words {text : List α} : ∀ word ∈ words delim text, delim ∉ word := by
  induction text using word_induction delim with
  | nil => simp
  | last text hne hmem => simpa [words_of_notMem hmem hne] using hmem
  | cons word rest hword ih =>
    rw [words_cons hword]
    exact List.forall_mem_cons.mpr ⟨hword, ih⟩

/-- The words joined again are the text, without the delimiter it may end with. -/
theorem intercalate_words (text : List α) :
    [delim].intercalate (words delim text) =
      if text.getLast? = some delim then text.dropLast else text := by
  induction text using word_induction delim with
  | nil => simp
  | last text hne hmem =>
    have hlast : text.getLast? ≠ some delim := fun h => hmem (List.mem_of_getLast? h)
    rw [words_of_notMem hmem hne, List.intercalate_singleton, if_neg hlast]
  | cons word rest hword ih =>
    rw [words_cons hword]
    rcases eq_or_ne rest [] with rfl | hne
    · simp
    · have hlast : (word ++ delim :: rest).getLast? = rest.getLast? := by
        rw [List.getLast?_append_cons, List.getLast?_cons, List.getLast?_eq_some_getLast hne]
        rfl
      have hdrop : (word ++ delim :: rest).dropLast = word ++ delim :: rest.dropLast := by
        rw [List.dropLast_append_cons, List.dropLast_cons_of_ne_nil hne]
      rw [List.intercalate_cons_of_ne_nil (mt words_eq_nil_iff.mp hne), ih, hlast, hdrop]
      split_ifs <;> simp

/-- Words with no delimiter in them, the last one not empty, are read back from
the text that joins them. -/
theorem words_intercalate {texts : List (List α)} (hne : texts ≠ [])
    (h : ∀ text ∈ texts, delim ∉ text) (hlast : texts.getLast? ≠ some []) :
    words delim ([delim].intercalate texts) = texts := by
  rw [words, List.splitOn_intercalate delim h hne, if_neg hlast]

/-! ## The start of a text -/

/-- The text before the first delimiter, all of it without one. -/
def start (delim : α) (text : List α) : List α := text.takeWhile (· ≠ delim)

theorem start_append_of_notMem {line : List α} (h : delim ∉ line) (rest : List α) :
    start delim (line ++ rest) = line ++ start delim rest := by
  refine List.takeWhile_append_of_pos fun c hc => ?_
  exact decide_eq_true fun heq => h (heq ▸ hc)

theorem start_append_cons {line : List α} (h : delim ∉ line) (rest : List α) :
    start delim (line ++ delim :: rest) = line := by
  rw [start_append_of_notMem h, start, List.takeWhile_cons_of_neg (by simp), List.append_nil]

/-- A text that holds the delimiter, cut at the first one. -/
theorem exists_start {text : List α} (h : delim ∈ text) :
    ∃ line rest, delim ∉ line ∧ text = line ++ delim :: rest ∧ start delim text = line := by
  obtain ⟨line, rest, rfl, hline⟩ := List.eq_append_cons_of_mem h
  exact ⟨line, rest, hline, rfl, start_append_cons hline rest⟩

theorem start_append_of_mem {first : List α} (h : delim ∈ first) (second : List α) :
    start delim (first ++ second) = start delim first := by
  obtain ⟨line, rest, hline, rfl, hstart⟩ := exists_start h
  rw [hstart, List.append_assoc, List.cons_append]
  exact start_append_cons hline (rest ++ second)

theorem notMem_start (text : List α) : delim ∉ start delim text := by
  intro hmem
  simpa using List.mem_takeWhile_imp hmem

/-- **The start tells the delimiter**, in a text that holds it. -/
theorem start_eq_start_iff {other : α} {text : List α} (h : delim ∈ text) :
    start other text = start delim text ↔ other = delim := by
  constructor
  · obtain ⟨line, rest, -, rfl, hstart⟩ := exists_start h
    rw [hstart]
    intro heq
    by_contra hne
    -- The other delimiter is not in the line, so its start goes on with this one.
    have hother : other ∉ line := heq ▸ notMem_start (line ++ delim :: rest)
    have hgoes : start other (delim :: rest) = delim :: start other rest :=
      List.takeWhile_cons_of_pos (decide_eq_true (Ne.symm hne))
    rw [start_append_of_notMem hother, hgoes] at heq
    exact absurd (List.append_right_eq_self.mp heq) (List.cons_ne_nil _ _)
  · rintro rfl
    rfl

end Lines
