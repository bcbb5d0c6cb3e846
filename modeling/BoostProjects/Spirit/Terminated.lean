import BoostProjects.Spirit.Parsers

/-!
# A list with a comma after every integer

`test3` parses a string like `[12345,42,5,]` with the repetition of Qi:

    '[' >> *(int_ >> ',') >> ']'

It does not look at what `parse` returns. The values are appended to the vector one by
one and stay there when the parser fails, so that on every input the program prints the
values of as many integers with a comma as there are behind the bracket (`test3_prints`).

The grammar of `test4` has the commas between the integers. The two accept the same
lists, but for the last comma and the empty list, and no string is accepted by both.
-/

namespace BoostProjects.Spirit.Parsers

open Cpp Descent Grammar

/-! ## The program -/

/-- `int_ >> ','` -/
def item : Parser Char ℤ := thenLit int_ ','

/-- `'[' >> *(int_ >> ',')`, with `fuel` a bound on the repetitions -/
def items (fuel : ℕ) : Parser Char (List ℤ) := litThen '[' (star fuel item)

/-- The grammar of `test3`. -/
def bracketedItems (fuel : ℕ) : Parser Char (List ℤ) := thenLit (items fuel) ']'

/-- `output` after `qi::parse` with that grammar: the repetition appends to the vector
what it parses, and nothing is taken back where the last bracket is missing. -/
def output (fuel : ℕ) (input : Str) : Option (List ℤ) :=
  (items fuel input).map fun
    | some (values, _) => values
    | none => []

/-- What `test3` prints for an output. -/
def printed (output : List ℤ) : Str :=
  "test3() parse result: size ".toList ++ Nat.toDigits 10 output.length ++ ['\n'] ++
    output.flatMap fun i => decimalText i ++ ['\n']

/-- `test3`, on any input. -/
def test3 (fuel : ℕ) (input : Str) : Option Str := (output fuel input).map printed

/-! ## The languages -/

/-- An integer and a comma. -/
def itemText (literal : Literal) : Str := literal.text ++ [',']

/-- An integer and a comma, with its value. -/
def itemLang : Lang Char ℤ := fun v text =>
  ∃ literal : Literal, text = itemText literal ∧ literal.value = v

/-- Integers with a comma each in brackets, with their values. -/
def itemsLang : Lang Char (List ℤ) := fun values text =>
  ∃ literals : List Literal, text = '[' :: literals.flatMap itemText ++ [']'] ∧
    values = literals.map Literal.value

theorem recognizes_item (n : ℕ) : Recognizes n item itemLang fun _ => True := by
  have hcomma : ∀ rest, NoDigit (',' :: rest) := by
    rintro rest c ⟨⟩
    rfl
  apply ((int_recognizes n).thenLit hcomma).congr
  intro v text
  constructor
  · rintro ⟨_, ⟨literal, rfl, hvalue⟩, rfl⟩
    exact ⟨literal, rfl, hvalue⟩
  · rintro ⟨literal, rfl, hvalue⟩
    exact ⟨_, ⟨literal, rfl, hvalue⟩, rfl⟩

theorem ne_nil_of_itemLang {v : ℤ} {text : Str} (h : itemLang v text) : text ≠ [] := by
  obtain ⟨literal, rfl, -⟩ := h
  exact List.append_ne_nil_of_right_ne_nil _ (List.cons_ne_nil _ _)

theorem item_bracket (rest : Str) : item (']' :: rest) = some none := rfl

/-- No item is at the front of the rest. -/
theorem item_fails_iff {rest : Str} :
    item rest = some none ↔ ∀ literal rest', rest ≠ itemText literal ++ rest' := by
  constructor
  · rintro h literal rest' rfl
    have htakes := (recognizes_item ((itemText literal ++ rest').length + 1)).complete
      ⟨literal, rfl, rfl⟩ trivial (Nat.lt_succ_self _)
    rw [h] at htakes
    exact absurd htakes nofun
  · intro h
    match hitem : item rest with
    | none => exact absurd hitem ((recognizes_item (rest.length + 1)).answers (Nat.lt_succ_self _))
    | some none => rfl
    | some (some (v, rest')) =>
      obtain ⟨_, ⟨literal, rfl, -⟩, heq⟩ := (recognizes_item (rest.length + 1)).sound hitem
      exact absurd heq (h literal rest')

theorem repeats_itemLang_iff {values : List ℤ} {text : Str} :
    Repeats itemLang values text ↔
      ∃ literals : List Literal, text = literals.flatMap itemText ∧
        values = literals.map Literal.value := by
  constructor
  · intro h
    induction h with
    | nil => exact ⟨[], rfl, rfl⟩
    | cons hfirst _ ih =>
      obtain ⟨literal, rfl, rfl⟩ := hfirst
      obtain ⟨literals, rfl, rfl⟩ := ih
      exact ⟨literal :: literals, rfl, rfl⟩
  · rintro ⟨literals, rfl, rfl⟩
    induction literals with
    | nil => exact .nil
    | cons literal literals ih => exact .cons ⟨literal, rfl, rfl⟩ ih

theorem itemsLang_iff {values : List ℤ} {text : Str} :
    (∃ inner, Behind '[' (Repeats itemLang) values inner ∧ text = inner ++ [']']) ↔
      itemsLang values text := by
  constructor
  · rintro ⟨_, ⟨_, hrepeats, rfl⟩, rfl⟩
    obtain ⟨literals, rfl, rfl⟩ := repeats_itemLang_iff.mp hrepeats
    exact ⟨literals, rfl, rfl⟩
  · rintro ⟨literals, rfl, rfl⟩
    exact ⟨_, ⟨_, repeats_itemLang_iff.mpr ⟨literals, rfl, rfl⟩, rfl⟩, rfl⟩

theorem recognizes_bracketedItems (n : ℕ) :
    Recognizes (n + 1) (bracketedItems n) itemsLang fun _ => True := by
  have hstar : Recognizes n (star n item) (Repeats itemLang) fun rest => item rest = some none :=
    (recognizes_item n).star ne_nil_of_itemLang (fun _ _ => trivial) id
  exact ((hstar.litThen '[').thenLit item_bracket).congr fun _ _ => itemsLang_iff

/-! ## What is printed -/

/-- As many integers with a comma as there are behind the bracket. -/
structure Longest (input : Str) (literals : List Literal) (rest : Str) : Prop where
  input : input = '[' :: literals.flatMap itemText ++ rest
  rest : ∀ literal rest', rest ≠ itemText literal ++ rest'

theorem output_of_head {fuel : ℕ} {input : Str} (h : input.head? ≠ some '[') :
    output fuel input = some [] := by
  rw [output, items, litThen_of_head h]
  rfl

theorem output_of_longest {fuel : ℕ} {input rest : Str} {literals : List Literal}
    (h : Longest input literals rest) (hfuel : input.length ≤ fuel) :
    output fuel input = some (literals.map Literal.value) := by
  obtain ⟨rfl, hrest⟩ := h
  rw [List.cons_append, List.length_cons] at hfuel
  have hstar := (recognizes_item fuel).star_complete ne_nil_of_itemLang (fun _ _ => trivial)
    (fun hstops => hstops) (Nat.le_refl fuel) (repeats_itemLang_iff.mpr ⟨literals, rfl, rfl⟩)
    (item_fails_iff.mpr hrest) hfuel
  rw [output, items, List.cons_append, litThen_cons, hstar]
  rfl

theorem exists_longest (text : Str) : ∃ literals rest, Longest ('[' :: text) literals rest := by
  obtain ⟨values, _, rest, -, hrepeats, rfl, hstops⟩ :=
    (recognizes_item (text.length + 1)).star_longest ne_nil_of_itemLang (Nat.le_refl _)
      (Nat.lt_succ_self _)
  obtain ⟨literals, rfl, -⟩ := repeats_itemLang_iff.mp hrepeats
  exact ⟨literals, rest, rfl, item_fails_iff.mp hstops⟩

/-! ## The two grammars -/

theorem flatMap_itemText (literal : Literal) (literals : List Literal) :
    (literal :: literals).flatMap itemText =
      [','].intercalate ((literal :: literals).map Literal.text) ++ [','] := by
  rw [List.map_cons, intercalate_cons, List.flatMap_cons, itemText, List.append_assoc,
    List.append_assoc, List.append_cancel_left_eq]
  induction literals with
  | nil => rfl
  | cons next literals ih =>
    rw [List.flatMap_cons, List.map_cons, List.flatMap_cons, itemText, List.append_assoc, ih]
    simp

theorem itemsLang_iff_listLang {values : List ℤ} (hvalues : values ≠ []) (text : Str) :
    itemsLang values ('[' :: text ++ [',', ']']) ↔ listLang values ('[' :: text ++ [']']) := by
  constructor
  · rintro ⟨literals, htext, rfl⟩
    obtain ⟨literal, literals, rfl⟩ := List.exists_cons_of_ne_nil (mt (congrArg _) hvalues)
    refine ⟨_, List.cons_ne_nil literal literals, ?_, rfl⟩
    rw [flatMap_itemText] at htext
    rw [inBrackets]
    simpa using htext
  · rintro ⟨literals, hne, htext, rfl⟩
    obtain ⟨literal, literals, rfl⟩ := List.exists_cons_of_ne_nil hne
    refine ⟨literal :: literals, ?_, rfl⟩
    rw [flatMap_itemText]
    rw [inBrackets] at htext
    simpa using htext

/-- The last character of joined integers is a digit. -/
theorem exists_digit {literals : List Literal} (hne : literals ≠ []) :
    ∃ before c, [','].intercalate (literals.map Literal.text) = before ++ [c] ∧ c.isDigit := by
  obtain ⟨literal, more, hcons⟩ := List.exists_cons_of_ne_nil hne
  have hitems := flatMap_itemText literal more
  rw [← hcons] at hitems
  obtain ⟨before, last, rfl⟩ := (List.eq_nil_or_concat literals).resolve_left hne
  obtain ⟨digits, c, hdigits⟩ := (List.eq_nil_or_concat last.digits).resolve_left last.nonempty
  rw [List.concat_eq_append] at hitems hdigits ⊢
  refine ⟨before.flatMap itemText ++ last.sign.text ++ digits, c, ?_, ?_⟩
  · rw [List.flatMap_append, List.flatMap_singleton, itemText, ← List.append_assoc,
      List.append_cancel_right_eq, Literal.text, hdigits] at hitems
    rw [← hitems]
    simp
  · apply last.isDigit
    rw [hdigits]
    simp

/-- A list with its commas between the integers is none with a comma after each. -/
theorem not_itemsLang_of_listLang {values values' : List ℤ} {text : Str} (h : listLang values text) :
    ¬ itemsLang values' text := by
  rintro ⟨literals', htext, -⟩
  obtain ⟨literals, hne, rfl, -⟩ := h
  obtain ⟨before, c, hbefore, hc⟩ := exists_digit hne
  rw [inBrackets, List.append_left_inj, List.cons.injEq, hbefore] at htext
  cases literals' with
  | nil => simp at htext
  | cons literal literals' =>
    rw [flatMap_itemText] at htext
    obtain ⟨-, hlast⟩ := List.append_inj' htext.2 rfl
    rw [List.cons.injEq] at hlast
    rw [hlast.1] at hc
    cases hc

/-- **The list of `test3`.** On every input the program prints the values of the longest
run of integers with a comma each behind the bracket, and nothing but the size 0 where
there is no bracket. The grammar accepts a list of at least one value exactly if that of
`test4` accepts it without the last comma, and no string is accepted by both. -/
theorem test3_prints :
    (∀ input, ∃ values, (∀ fuel, input.length ≤ fuel → test3 fuel input = some (printed values)) ∧
      (input.head? ≠ some '[' ∧ values = [] ∨
        ∃ literals rest, Longest input literals rest ∧ values = literals.map Literal.value)) ∧
    (∀ values text fuel, values ≠ [] → ('[' :: text ++ [',', ']']).length ≤ fuel →
      (bracketedItems fuel ('[' :: text ++ [',', ']']) = some (some (values, [])) ↔
        bracketed fuel ('[' :: text ++ [']']) = some (some (values, [])))) ∧
    ∀ input values values' fuel, input.length ≤ fuel →
      bracketed fuel input = some (some (values, [])) →
        bracketedItems fuel input ≠ some (some (values', [])) := by
  refine ⟨fun input => ?_, fun values text fuel hvalues hfuel => ?_,
    fun input values values' fuel hfuel hlist hitems => ?_⟩
  · by_cases hhead : input.head? = some '['
    · obtain ⟨text, rfl⟩ := List.head?_eq_some_iff.mp hhead
      obtain ⟨literals, rest, hlongest⟩ := exists_longest text
      refine ⟨literals.map Literal.value, fun fuel hfuel => ?_, .inr ⟨literals, rest, hlongest, rfl⟩⟩
      rw [test3, output_of_longest hlongest hfuel, Option.map_some]
    · refine ⟨[], fun fuel _ => ?_, .inl ⟨hhead, rfl⟩⟩
      rw [test3, output_of_head hhead, Option.map_some]
  · have hshort : ('[' :: text ++ [']']).length < fuel + 1 := by
      simp only [List.length_append, List.length_cons, List.length_nil] at hfuel ⊢
      omega
    rw [(recognizes_bracketedItems fuel).accepts_iff trivial (Nat.lt_succ_of_le hfuel),
      (recognizes_bracketed fuel).accepts_iff trivial hshort]
    exact itemsLang_iff_listLang hvalues text
  · rw [(recognizes_bracketed fuel).accepts_iff trivial (Nat.lt_succ_of_le hfuel)] at hlist
    rw [(recognizes_bracketedItems fuel).accepts_iff trivial (Nat.lt_succ_of_le hfuel)] at hitems
    exact not_itemsLang_of_listLang hlist hitems

/-- The input of `test3` is that of `test4` with a last comma. -/
theorem test3_prints_three :
    bracketedItems 13 "[12345,42,5,]".toList = some (some ([12345, 42, 5], [])) :=
  (test3_prints.2.1 [12345, 42, 5] "12345,42,5".toList 13 (by decide) (by decide)).mpr (by decide)

example : output 13 "[12345,42,5,]".toList = some [12345, 42, 5] := by decide

-- The last value has no comma, and the bracket is not reached.
example : output 7 "[1,2,x]".toList = some [1, 2] := by decide

end BoostProjects.Spirit.Parsers
