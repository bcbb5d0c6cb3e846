import BoostProjects.Cpp.Istream
import BoostProjects.Library.Descent
import Mathlib.Algebra.Ring.Int.Defs

/-!
# The grammar of sums and products

`ArithmeticGrammar3` has four rules, each with an `int` attribute:

    start   = product >> *('+' >> product)
    product = factor >> *('*' >> factor)
    factor  = int_ | group
    group   = '(' >> start >> ')'

None of them has a semantic action, so `product` and `start` make their attribute
out of those of their components in a way the grammar does not say. That way is a
parameter here, and what is accepted does not depend on it.

The trees below are the derivations of the grammar. `recognizes_start` says that
the descent takes off the texts of trees, by one rule of the library for each
combinator; the attribute it gives is the one that the tree has.
-/

namespace BoostProjects.Spirit.Grammar

open Cpp Descent

/-! ## The program -/

/-- The values of an `int`. -/
def IsInt (v : ℤ) : Prop := -2 ^ 31 ≤ v ∧ v < 2 ^ 31

instance (v : ℤ) : Decidable (IsInt v) := inferInstanceAs (Decidable (_ ∧ _))

/-- The sign in front of a number, if there is one. -/
inductive Sign
  | none
  | plus
  | minus
  deriving DecidableEq, Repr

/-- The sign, as it is written. -/
def Sign.text : Sign → Str
  | .none => []
  | .plus => ['+']
  | .minus => ['-']

/-- What the sign multiplies a number by. -/
def Sign.factor : Sign → ℤ
  | .minus => -1
  | _ => 1

/-- The optional sign of a number. -/
def extractSign : Str → Sign × Str
  | '+' :: rest => (.plus, rest)
  | '-' :: rest => (.minus, rest)
  | rest => (.none, rest)

/-- `qi::int_`: a sign and the longest run of digits, if the number is an `int`. -/
def int_ : Parser Char ℤ := fun input =>
  let (sign, rest) := extractSign input
  let digits := rest.takeWhile Char.isDigit
  let value := sign.factor * Istream.decimal digits
  some (if digits ≠ [] ∧ IsInt value then some (value, rest.dropWhile Char.isDigit) else none)

/-- How `product` and `start` make their attribute out of that of their first
component and those of the repeated ones. -/
structure Attributes where
  product : ℤ → List ℤ → ℤ
  start : ℤ → List ℤ → ℤ

section Rules

variable (attributes : Attributes)

/-- `factor` -/
def factor (group : Parser Char ℤ) : Parser Char ℤ := alt int_ group

/-- `product` -/
def product (fuel : ℕ) (group : Parser Char ℤ) : Parser Char ℤ :=
  mapValue (fun v => attributes.product v.1 v.2) (chain fuel '*' (factor group))

/-- `start` -/
def start (fuel : ℕ) (group : Parser Char ℤ) : Parser Char ℤ :=
  mapValue (fun v => attributes.start v.1 v.2) (chain fuel '+' (product attributes fuel group))

/-- `group`, with `fuel` a bound on the nesting and on the repetitions. -/
def group : ℕ → Parser Char ℤ
  | 0 => fun _ => none
  | fuel + 1 => thenLit (litThen '(' (start attributes fuel (group fuel))) ')'

/-- `arithmetic_grammar3` -/
def arithmeticGrammar3 (fuel : ℕ) : Parser Char ℤ := start attributes fuel (group attributes fuel)

end Rules

/-- `ParseOrDie`: the result, or an exception with the input from where the parser
has stopped, which is printed first. -/
def parseOrDie (p : Parser Char ℤ) (input : Str) : Option (Except Str ℤ) :=
  (p input).map fun
    | some (result, []) => .ok result
    | some (_, rest) => .error rest
    | none => .error input

/-! ## Derivations -/

/-- An integer of the grammar: an optional sign and digits, with a value that an
`int` can have. -/
structure Literal where
  sign : Sign
  digits : Str
  isDigit : ∀ c ∈ digits, c.isDigit
  nonempty : digits ≠ []
  fits : IsInt (sign.factor * Istream.decimal digits)

/-- A number, as it is written. -/
def Literal.text (literal : Literal) : Str := literal.sign.text ++ literal.digits

/-- What a number stands for. -/
def Literal.value (literal : Literal) : ℤ := literal.sign.factor * Istream.decimal literal.digits

/-- The rules, with one for each repetition. -/
inductive Rule
  | start
  | products
  | product
  | factors
  | factor
  deriving DecidableEq, Repr

/-- The derivations of the grammar. -/
inductive Tree : Rule → Type
  | int (literal : Literal) : Tree .factor
  | group (inner : Tree .start) : Tree .factor
  | product (first : Tree .factor) (more : Tree .factors) : Tree .product
  | noFactor : Tree .factors
  | times (next : Tree .factor) (more : Tree .factors) : Tree .factors
  | start (first : Tree .product) (more : Tree .products) : Tree .start
  | noProduct : Tree .products
  | plus (next : Tree .product) (more : Tree .products) : Tree .products

namespace Tree

/-- The string that a tree derives. -/
def text : {rule : Rule} → Tree rule → Str
  | _, int literal => literal.text
  | _, group inner => '(' :: inner.text ++ [')']
  | _, product first more => first.text ++ more.text
  | _, noFactor => []
  | _, times next more => '*' :: next.text ++ more.text
  | _, start first more => first.text ++ more.text
  | _, noProduct => []
  | _, plus next more => '+' :: next.text ++ more.text

/-- The value of an expression. -/
def value : {rule : Rule} → Tree rule → ℤ
  | _, int literal => literal.value
  | _, group inner => inner.value
  | _, product first more => first.value * more.value
  | _, noFactor => 1
  | _, times next more => next.value * more.value
  | _, start first more => first.value + more.value
  | _, noProduct => 0
  | _, plus next more => next.value + more.value

end Tree

/-- The whole string derives from the start rule. -/
def Derives (input : Str) : Prop := ∃ tree : Tree .start, tree.text = input

/-- What the components of a rule have as their attribute: a repetition has a
list. -/
abbrev Rule.Attribute : Rule → Type
  | .products | .factors => List ℤ
  | _ => ℤ

/-- The attribute of a tree. -/
def Tree.attribute (attributes : Attributes) : {rule : Rule} → Tree rule → rule.Attribute
  | _, int literal => literal.value
  | _, group inner => inner.attribute attributes
  | _, product first more =>
    attributes.product (first.attribute attributes) (more.attribute attributes)
  | _, noFactor => []
  | _, times next more => next.attribute attributes :: more.attribute attributes
  | _, start first more =>
    attributes.start (first.attribute attributes) (more.attribute attributes)
  | _, noProduct => []
  | _, plus next more => next.attribute attributes :: more.attribute attributes

/-! ## Integers -/

/-- What may follow an integer: no digit that would belong to it. -/
def NoDigit (rest : Str) : Prop := ∀ c ∈ rest.head?, c.isDigit = false

/-- The value of an integer of the grammar. -/
def intLang : Lang Char ℤ := fun v text => ∃ literal : Literal, literal.text = text ∧ literal.value = v

theorem extractSign_append (input : Str) :
    input = (extractSign input).1.text ++ (extractSign input).2 := by
  unfold extractSign
  split <;> rfl

/-- A sign is read back in front of digits. -/
theorem extractSign_text {sign : Sign} {digits rest : Str} (hdigits : ∀ c ∈ digits, c.isDigit)
    (hne : digits ≠ []) :
    extractSign (sign.text ++ (digits ++ rest)) = (sign, digits ++ rest) := by
  cases sign with
  | plus => rfl
  | minus => rfl
  | none =>
    obtain ⟨c, digits, rfl⟩ := List.exists_cons_of_ne_nil hne
    have hc : c.isDigit := hdigits c List.mem_cons_self
    have hplus : c ≠ '+' := by
      rintro rfl
      exact absurd hc (by decide)
    have hminus : c ≠ '-' := by
      rintro rfl
      exact absurd hc (by decide)
    simp only [Sign.text, List.nil_append, List.cons_append, extractSign]
    split <;> simp_all

theorem int_recognizes (n : ℕ) : Recognizes n int_ intLang NoDigit where
  sound := by
    intro input v rest h
    have happend := extractSign_append input
    rcases hsign : extractSign input with ⟨sign, body⟩
    rw [hsign] at happend
    rw [int_, hsign] at h
    obtain ⟨⟨hne, hfits⟩, hpair⟩ := Option.ite_none_right_eq_some.mp (Option.some.inj h)
    obtain ⟨rfl, rfl⟩ := Prod.mk.inj (Option.some.inj hpair)
    let literal : Literal :=
      { sign
        digits := body.takeWhile Char.isDigit
        isDigit := fun c hc => List.mem_takeWhile_imp hc
        nonempty := hne
        fits := hfits }
    refine ⟨literal.text, ⟨literal, rfl, rfl⟩, ?_⟩
    rw [Literal.text, List.append_assoc, List.takeWhile_append_dropWhile]
    exact happend
  complete := by
    rintro v text rest ⟨literal, rfl, rfl⟩ hrest -
    have htake : (literal.digits ++ rest).takeWhile Char.isDigit = literal.digits :=
      Lists.takeWhile_span literal.isDigit hrest
    have hdrop : (literal.digits ++ rest).dropWhile Char.isDigit = rest :=
      Lists.dropWhile_span literal.isDigit hrest
    rw [Literal.text, List.append_assoc, int_,
      extractSign_text literal.isDigit literal.nonempty]
    simp only [htake, hdrop]
    rw [if_pos ⟨literal.nonempty, literal.fits⟩]
    rfl
  answers _ := nofun

/-! ## The rules -/

section Recognition

variable (attributes : Attributes)

/-- The texts that derive from a rule, with the attributes of their trees. -/
def lang (rule : Rule) : Lang Char rule.Attribute := fun a text =>
  ∃ tree : Tree rule, tree.text = text ∧ tree.attribute attributes = a

/-- What may follow a product: nothing that would make it longer. -/
def FollowProduct (rest : Str) : Prop := NoDigit rest ∧ rest.head? ≠ some '*'

/-- What may follow a sum. -/
def FollowStart (rest : Str) : Prop := FollowProduct rest ∧ rest.head? ≠ some '+'

variable {attributes}

theorem repeats_factors : (tree : Tree .factors) →
    Repeats (Behind '*' (lang attributes .factor)) (tree.attribute attributes) tree.text
  | .noFactor => .nil
  | .times next more => .cons ⟨next.text, ⟨next, rfl, rfl⟩, rfl⟩ (repeats_factors more)

theorem repeats_products : (tree : Tree .products) →
    Repeats (Behind '+' (lang attributes .product)) (tree.attribute attributes) tree.text
  | .noProduct => .nil
  | .plus next more => .cons ⟨next.text, ⟨next, rfl, rfl⟩, rfl⟩ (repeats_products more)

theorem lang_factors_of_repeats {values : List ℤ} {text : Str}
    (h : Repeats (Behind '*' (lang attributes .factor)) values text) :
    lang attributes .factors values text := by
  induction h with
  | nil => exact ⟨.noFactor, rfl, rfl⟩
  | cons hfirst _ ih =>
    obtain ⟨_, ⟨next, rfl, rfl⟩, rfl⟩ := hfirst
    obtain ⟨more, rfl, rfl⟩ := ih
    exact ⟨.times next more, rfl, rfl⟩

theorem lang_products_of_repeats {values : List ℤ} {text : Str}
    (h : Repeats (Behind '+' (lang attributes .product)) values text) :
    lang attributes .products values text := by
  induction h with
  | nil => exact ⟨.noProduct, rfl, rfl⟩
  | cons hfirst _ ih =>
    obtain ⟨_, ⟨next, rfl, rfl⟩, rfl⟩ := hfirst
    obtain ⟨more, rfl, rfl⟩ := ih
    exact ⟨.plus next more, rfl, rfl⟩

theorem lang_product_iff {a : ℤ} {text : Str} :
    (∃ v, Chained '*' (lang attributes .factor) v text ∧ attributes.product v.1 v.2 = a) ↔
      lang attributes .product a text := by
  constructor
  · rintro ⟨⟨v, vs⟩, ⟨_, _, ⟨first, rfl, rfl⟩, hmore, rfl⟩, rfl⟩
    obtain ⟨more, rfl, rfl⟩ := lang_factors_of_repeats hmore
    exact ⟨.product first more, rfl, rfl⟩
  · rintro ⟨tree, rfl, rfl⟩
    match tree with
    | .product first more =>
      exact ⟨(_, _), ⟨_, _, ⟨first, rfl, rfl⟩, repeats_factors more, rfl⟩, rfl⟩

theorem lang_start_iff {a : ℤ} {text : Str} :
    (∃ v, Chained '+' (lang attributes .product) v text ∧ attributes.start v.1 v.2 = a) ↔
      lang attributes .start a text := by
  constructor
  · rintro ⟨⟨v, vs⟩, ⟨_, _, ⟨first, rfl, rfl⟩, hmore, rfl⟩, rfl⟩
    obtain ⟨more, rfl, rfl⟩ := lang_products_of_repeats hmore
    exact ⟨.start first more, rfl, rfl⟩
  · rintro ⟨tree, rfl, rfl⟩
    match tree with
    | .start first more =>
      exact ⟨(_, _), ⟨_, _, ⟨first, rfl, rfl⟩, repeats_products more, rfl⟩, rfl⟩

variable (attributes) in
/-- A sum in parentheses. -/
def groupLang : Lang Char ℤ := fun a text =>
  ∃ inner, Behind '(' (lang attributes .start) a inner ∧ text = inner ++ [')']

theorem lang_factor_iff {a : ℤ} {text : Str} :
    (intLang a text ∨ groupLang attributes a text) ↔ lang attributes .factor a text := by
  constructor
  · rintro (⟨literal, rfl, rfl⟩ | ⟨_, ⟨_, ⟨inner, rfl, rfl⟩, rfl⟩, rfl⟩)
    · exact ⟨.int literal, rfl, rfl⟩
    · exact ⟨.group inner, rfl, rfl⟩
  · rintro ⟨tree, rfl, rfl⟩
    match tree with
    | .int literal => exact .inl ⟨literal, rfl, rfl⟩
    | .group inner => exact .inr ⟨_, ⟨_, ⟨inner, rfl, rfl⟩, rfl⟩, rfl⟩

section Levels

variable {n : ℕ} {parser : Parser Char ℤ}
  (h : Recognizes n parser (groupLang attributes) fun _ => True)
include h

theorem recognizes_factor : Recognizes n (factor parser) (lang attributes .factor) NoDigit := by
  -- An integer and a group begin with different characters.
  have hfail : ∀ {a text rest}, groupLang attributes a text → int_ (text ++ rest) = some none := by
    rintro a text rest ⟨_, ⟨inner, -, rfl⟩, rfl⟩
    rfl
  exact ((int_recognizes n).alt (h.weaken fun _ _ => trivial) hfail).congr fun _ _ => lang_factor_iff

theorem recognizes_product :
    Recognizes n (product attributes n parser) (lang attributes .product) FollowProduct := by
  have hstar : ∀ rest, NoDigit ('*' :: rest) := by
    rintro rest c ⟨⟩
    rfl
  exact ((recognizes_factor h).chain hstar).mapValue.congr fun _ _ => lang_product_iff

theorem recognizes_start :
    Recognizes n (start attributes n parser) (lang attributes .start) FollowStart := by
  have hplus : ∀ rest, FollowProduct ('+' :: rest) := by
    refine fun rest => ⟨?_, nofun⟩
    rintro c ⟨⟩
    rfl
  exact ((recognizes_product h).chain hplus).mapValue.congr fun _ _ => lang_start_iff

end Levels

/-- The recursion: a group is recognised on inputs one longer than those on which
the sum inside it is. -/
theorem recognizes_group (n : ℕ) :
    Recognizes n (group attributes n) (groupLang attributes) fun _ => True := by
  induction n with
  | zero =>
    exact ⟨fun h => absurd h nofun, fun _ _ h => absurd h (Nat.not_lt_zero _),
      fun h => absurd h (Nat.not_lt_zero _)⟩
  | succ n ih =>
    have hclose : ∀ rest, FollowStart (')' :: rest) := by
      refine fun rest => ⟨⟨?_, nofun⟩, nofun⟩
      rintro c ⟨⟩
      rfl
    exact ((recognizes_start ih).litThen '(').thenLit hclose

theorem recognizes_arithmeticGrammar3 (n : ℕ) :
    Recognizes n (arithmeticGrammar3 attributes n) (lang attributes .start) FollowStart :=
  recognizes_start (recognizes_group n)

end Recognition

/-! ## What is accepted -/

section Accepted

variable {attributes : Attributes} {m n : ℕ}

theorem extends_start {p q : Parser Char ℤ} (h : Extends p q) (hmn : m ≤ n) :
    Extends (start attributes m p) (start attributes n q) := by
  have hfactor : Extends (factor p) (factor q) := (Extends.refl int_).alt h
  exact ((hfactor.chain hmn).mapValue.chain hmn).mapValue

/-- An answer does not change when there is more fuel. -/
theorem extends_group (hmn : m ≤ n) : Extends (group attributes m) (group attributes n) := by
  induction m generalizing n with
  | zero => exact fun _ _ h => absurd h nofun
  | succ m ih =>
    obtain ⟨n, rfl⟩ := Nat.exists_eq_succ_of_ne_zero (Nat.ne_of_gt (Nat.zero_lt_of_lt hmn))
    have hle := Nat.le_of_succ_le_succ hmn
    exact ((extends_start (ih hle) hle).litThen '(').thenLit

theorem parseOrDie_ok_iff {p : Parser Char ℤ} {input : Str} {result : ℤ} :
    parseOrDie p input = some (.ok result) ↔ p input = some (some (result, [])) := by
  unfold parseOrDie
  match p input with
  | none => simp
  | some none => simp
  | some (some (a, [])) => simp
  | some (some (a, c :: rest)) => simp

/-- The string of a tree is parsed to the end, and gives the attribute of the tree. -/
theorem parseOrDie_text (tree : Tree .start) {fuel : ℕ} (hfuel : tree.text.length < fuel) :
    parseOrDie (arithmeticGrammar3 attributes fuel) tree.text =
      some (.ok (tree.attribute attributes)) := by
  have hend : FollowStart [] := ⟨⟨nofun, nofun⟩, nofun⟩
  have htree : lang attributes .start (tree.attribute attributes) tree.text := ⟨tree, rfl, rfl⟩
  have htakes := (recognizes_arithmeticGrammar3 fuel).complete htree hend
    (by rwa [List.append_nil])
  rw [List.append_nil] at htakes
  exact parseOrDie_ok_iff.mpr htakes

/-- **The grammar accepts exactly its language.** On every string the descent comes
to an end, with an outcome that no more fuel changes, and it returns exactly for
the strings that derive from the start rule. -/
theorem parseOrDie_iff_derives (attributes : Attributes) (input : Str) :
    ∃ outcome, (∀ fuel, input.length < fuel →
        parseOrDie (arithmeticGrammar3 attributes fuel) input = some outcome) ∧
      ((∃ result, outcome = .ok result) ↔ Derives input) := by
  have hrecognizes := @recognizes_arithmeticGrammar3 attributes (input.length + 1)
  obtain ⟨answer, hanswer⟩ := Option.ne_none_iff_exists'.mp
    (hrecognizes.answers (Nat.lt_succ_self input.length))
  have hsome : parseOrDie (arithmeticGrammar3 attributes (input.length + 1)) input ≠ none := by
    rw [parseOrDie, hanswer]
    exact nofun
  obtain ⟨outcome, hfirst⟩ := Option.ne_none_iff_exists'.mp hsome
  have houtcome : ∀ fuel, input.length < fuel →
      parseOrDie (arithmeticGrammar3 attributes fuel) input = some outcome := by
    intro fuel hfuel
    have hmore : arithmeticGrammar3 attributes fuel input = some answer :=
      extends_start (extends_group hfuel) hfuel hanswer
    rw [← hfirst, parseOrDie, parseOrDie, hmore, hanswer]
  refine ⟨outcome, houtcome, ?_, ?_⟩
  · rintro ⟨result, rfl⟩
    have hparse := parseOrDie_ok_iff.mp (houtcome _ (Nat.lt_succ_self input.length))
    obtain ⟨text, ⟨tree, htree, -⟩, hinput⟩ := hrecognizes.sound hparse
    exact ⟨tree, by rw [htree, hinput, List.append_nil]⟩
  · rintro ⟨tree, rfl⟩
    have hparse := houtcome _ (Nat.lt_succ_self tree.text.length)
    rw [parseOrDie_text tree (Nat.lt_succ_self _)] at hparse
    exact ⟨_, (Option.some.inj hparse).symm⟩

end Accepted

end BoostProjects.Spirit.Grammar
