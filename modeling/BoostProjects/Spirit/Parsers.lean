import BoostProjects.Spirit.Grammar

/-!
# A bracketed list of integers

`test4` parses a string like `[12345,42,5]` with the list operator of Qi:

    '[' >> (int_ % ',') >> ']'

`parseOrDie_bracketed` says that printing a list and parsing it gives the list
back, and that nothing is accepted but integers joined with commas in brackets.
-/

namespace BoostProjects.Spirit.Parsers

open Cpp Descent Grammar

/-! ## The program -/

/-- The grammar of `test4`, with `fuel` a bound on the repetitions. -/
def bracketed (fuel : ℕ) : Parser Char (List ℤ) :=
  thenLit (litThen '[' (mapValue (fun v => v.1 :: v.2) (chain fuel ',' int_))) ']'

/-- `ParseOrDie`, which appends what is parsed to `output`: the vector, or an
exception with the input from where the parser has stopped. -/
def parseOrDie (p : Parser Char (List ℤ)) (input : Str) (output : List ℤ) :
    Option (Except Str (List ℤ)) :=
  (p input).map fun
    | some (values, []) => .ok (output ++ values)
    | some (_, rest) => .error rest
    | none => .error input

/-- The decimal number that is printed for an `int`. -/
def decimalText (v : ℤ) : Str :=
  if v < 0 then '-' :: Nat.toDigits 10 v.natAbs else Nat.toDigits 10 v.natAbs

/-- Texts joined with commas, in brackets. -/
def inBrackets (texts : List Str) : Str := '[' :: [','].intercalate texts ++ [']']

/-! ## The language -/

/-- A list of integers in brackets, with their values. -/
def listLang : Lang Char (List ℤ) := fun values text =>
  ∃ literals : List Literal, literals ≠ [] ∧ text = inBrackets (literals.map Literal.text) ∧
    values = literals.map Literal.value

theorem forall₂_intLang_iff {values : List ℤ} {texts : List Str} :
    List.Forall₂ intLang values texts ↔
      ∃ literals : List Literal, texts = literals.map Literal.text ∧
        values = literals.map Literal.value := by
  constructor
  · intro h
    induction h with
    | nil => exact ⟨[], rfl, rfl⟩
    | cons hfirst _ ih =>
      obtain ⟨literal, rfl, rfl⟩ := hfirst
      obtain ⟨literals, rfl, rfl⟩ := ih
      exact ⟨literal :: literals, rfl, rfl⟩
  · rintro ⟨literals, rfl, rfl⟩
    induction literals with
    | nil => exact .nil
    | cons literal literals ih => exact .cons ⟨literal, rfl, rfl⟩ ih

theorem listLang_iff {values : List ℤ} {text : Str} :
    (∃ inner, Behind '[' (fun values text =>
        ∃ v, Chained ',' intLang v text ∧ v.1 :: v.2 = values) values inner ∧
      text = inner ++ [']']) ↔ listLang values text := by
  constructor
  · rintro ⟨_, ⟨_, ⟨⟨v, vs⟩, hchained, rfl⟩, rfl⟩, rfl⟩
    obtain ⟨texts, htexts, rfl⟩ := chained_iff.mp hchained
    obtain ⟨literals, rfl, hvalues⟩ := forall₂_intLang_iff.mp htexts
    refine ⟨literals, ?_, rfl, hvalues⟩
    rintro rfl
    exact absurd hvalues (List.cons_ne_nil v vs)
  · rintro ⟨literals, hne, rfl, rfl⟩
    obtain ⟨literal, literals, rfl⟩ := List.exists_cons_of_ne_nil hne
    refine ⟨_, ⟨_, ⟨(literal.value, literals.map Literal.value), ?_, rfl⟩, rfl⟩, rfl⟩
    exact chained_iff.mpr ⟨_, forall₂_intLang_iff.mpr ⟨literal :: literals, rfl, rfl⟩, rfl⟩

theorem recognizes_bracketed (n : ℕ) :
    Recognizes (n + 1) (bracketed n) listLang fun _ => True := by
  have hcomma : ∀ rest, NoDigit (',' :: rest) := by
    rintro rest c ⟨⟩
    rfl
  have hclose : ∀ rest, NoDigit (']' :: rest) ∧ (']' :: rest).head? ≠ some ',' := by
    refine fun rest => ⟨?_, nofun⟩
    rintro c ⟨⟩
    rfl
  have hinner := ((int_recognizes n).chain hcomma).mapValue (f := fun v => v.1 :: v.2)
  exact ((hinner.litThen '[').thenLit hclose).congr fun _ _ => listLang_iff

theorem extends_bracketed {m n : ℕ} (hmn : m ≤ n) : Extends (bracketed m) (bracketed n) :=
  (((Extends.refl int_).chain hmn).mapValue.litThen '[').thenLit

/-! ## Printed integers -/

theorem decimal_toDigits (n : ℕ) : Istream.decimal (Nat.toDigits 10 n) = n :=
  Nat.ofDigitChars_ten_toDigits

/-- The integer of the grammar that is printed for an `int`. -/
def literalOf (v : ℤ) (hv : IsInt v) : Literal where
  sign := if v < 0 then .minus else .none
  digits := Nat.toDigits 10 v.natAbs
  isDigit _ hc := Nat.isDigit_of_mem_toDigits (by decide) (by decide) hc
  nonempty := Nat.toDigits_ne_nil
  fits := by
    rw [decimal_toDigits]
    unfold IsInt at hv ⊢
    split_ifs <;> simp only [Sign.factor] <;> omega

theorem value_literalOf {v : ℤ} (hv : IsInt v) : (literalOf v hv).value = v := by
  rw [Literal.value, literalOf, decimal_toDigits]
  split_ifs <;> simp only [Sign.factor] <;> omega

theorem text_literalOf {v : ℤ} (hv : IsInt v) : (literalOf v hv).text = decimalText v := by
  rw [Literal.text, literalOf, decimalText]
  split_ifs <;> rfl

/-- The printed list is one of the language. -/
theorem listLang_decimalText {values : List ℤ} (hne : values ≠ []) (hints : ∀ v ∈ values, IsInt v) :
    listLang values (inBrackets (values.map decimalText)) := by
  refine ⟨values.attach.map fun v => literalOf v.1 (hints v.1 v.2), ?_, ?_, ?_⟩
  · simpa using hne
  · rw [List.map_map]
    simp only [Function.comp_def, text_literalOf]
    exact congrArg inBrackets List.attach_map_val.symm
  · rw [List.map_map]
    simp only [Function.comp_def, value_literalOf]
    exact (List.attach_map_subtype_val values).symm

/-! ## What is accepted -/

theorem parseOrDie_ok_iff {p : Parser Char (List ℤ)} {input : Str} {output : List ℤ} :
    parseOrDie p input [] = some (.ok output) ↔ p input = some (some (output, [])) := by
  unfold parseOrDie
  match p input with
  | none => simp
  | some none => simp
  | some (some (a, [])) => simp
  | some (some (a, c :: rest)) => simp

theorem parseOrDie_of_listLang {values : List ℤ} {text : Str} (h : listLang values text) {fuel : ℕ}
    (hfuel : text.length ≤ fuel) : parseOrDie (bracketed fuel) text [] = some (.ok values) := by
  have hlength : (text ++ []).length < fuel + 1 := by
    rw [List.append_nil]
    exact Nat.lt_succ_of_le hfuel
  have htakes := (recognizes_bracketed fuel).complete h trivial hlength
  rw [List.append_nil] at htakes
  exact parseOrDie_ok_iff.mpr htakes

theorem listLang_of_parseOrDie {fuel : ℕ} {input : Str} {output : List ℤ}
    (h : parseOrDie (bracketed fuel) input [] = some (.ok output)) : listLang output input := by
  obtain ⟨text, htext, rfl⟩ := (recognizes_bracketed fuel).sound (parseOrDie_ok_iff.mp h)
  rwa [List.append_nil]

/-- The descent comes to an end, with an outcome that no more fuel changes. -/
theorem parseOrDie_answers (input : Str) :
    ∃ outcome, ∀ fuel, input.length ≤ fuel →
      parseOrDie (bracketed fuel) input [] = some outcome := by
  obtain ⟨answer, hanswer⟩ := Option.ne_none_iff_exists'.mp
    ((recognizes_bracketed input.length).answers (Nat.lt_succ_self input.length))
  obtain ⟨outcome, houtcome⟩ : ∃ outcome,
      parseOrDie (bracketed input.length) input [] = some outcome := by
    rw [parseOrDie, hanswer]
    exact ⟨_, rfl⟩
  refine ⟨outcome, fun fuel hfuel => ?_⟩
  have hmore : bracketed fuel input = some answer := extends_bracketed hfuel hanswer
  rw [← houtcome, parseOrDie, parseOrDie, hmore, hanswer]

/-- **Bracketed lists go round.** A list of `int`s that is printed is parsed back,
and on every string the parser comes to an end and returns exactly the values of
the integers whose texts, joined with commas and in brackets, are the string. -/
theorem parseOrDie_bracketed :
    (∀ values : List ℤ, values ≠ [] → (∀ v ∈ values, IsInt v) →
      ∀ fuel, (inBrackets (values.map decimalText)).length ≤ fuel →
        parseOrDie (bracketed fuel) (inBrackets (values.map decimalText)) [] = some (.ok values)) ∧
    ∀ input, ∃ outcome,
      (∀ fuel, input.length ≤ fuel → parseOrDie (bracketed fuel) input [] = some outcome) ∧
      ∀ output, outcome = .ok output ↔
        ∃ literals : List Literal, literals ≠ [] ∧
          input = inBrackets (literals.map Literal.text) ∧
          output = literals.map Literal.value := by
  constructor
  · intro values hne hints fuel hfuel
    exact parseOrDie_of_listLang (listLang_decimalText hne hints) hfuel
  · intro input
    obtain ⟨outcome, houtcome⟩ := parseOrDie_answers input
    refine ⟨outcome, houtcome, fun output => ⟨?_, fun h => ?_⟩⟩
    · rintro rfl
      exact listLang_of_parseOrDie (houtcome _ (Nat.le_refl _))
    · have hparse := parseOrDie_of_listLang h (Nat.le_refl _)
      rw [houtcome _ (Nat.le_refl _)] at hparse
      exact Option.some.inj hparse

theorem parseOrDie_bracketed_three :
    parseOrDie (bracketed 12) "[12345,42,5]".toList [] = some (.ok [12345, 42, 5]) :=
  parseOrDie_bracketed.1 [12345, 42, 5] (by decide) (by decide) 12 (by decide)

example : parseOrDie (bracketed 9) "[1,2,]".toList [] = some (.error "[1,2,]".toList) := by decide

end BoostProjects.Spirit.Parsers
