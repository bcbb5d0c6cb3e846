import BoostProjects.Spirit.Grammar
import Mathlib.Algebra.BigOperators.Group.List.Basic

/-!
# The result of the arithmetic grammar

`test3` prints the attribute of `start` as the parse result of `1+2*3`. The
rules compute nothing: an attribute is one of those of the components, copied.
So the result is the value of some integer of the input, and it is the value of
the expression only where that integer has the same value.

With `firstComponent`, which is how Qi hands a single attribute to a sequence, the
integer is the leftmost one. With `evaluate` in place of a copy the same descent
would compute the value, so a string has one value only.
-/

namespace BoostProjects.Spirit.Grammar

open Cpp Descent

/-- A rule gets its attribute by copying that of a component. -/
structure Attributes.Copies (attributes : Attributes) : Prop where
  product : ∀ v vs, attributes.product v vs ∈ v :: vs
  start : ∀ v vs, attributes.start v vs ∈ v :: vs

/-- The attribute of the first component. -/
def firstComponent : Attributes where
  product v _ := v
  start v _ := v

/-- The attribute that a semantic action would compute. -/
def evaluate : Attributes where
  product v vs := v * vs.prod
  start v vs := v + vs.sum

/-- The attribute of a component that has the value `target`, if there is one. -/
def prefer (target : ℤ) : Attributes where
  product v vs := if target ∈ vs then target else v
  start v vs := if target ∈ vs then target else v

theorem firstComponent_copies : firstComponent.Copies :=
  ⟨fun _ _ => List.mem_cons_self, fun _ _ => List.mem_cons_self⟩

theorem prefer_copies (target : ℤ) : (prefer target).Copies := by
  have hmem : ∀ v : ℤ, ∀ vs, (if target ∈ vs then target else v) ∈ v :: vs := by
    intro v vs
    split_ifs with h
    · exact List.mem_cons_of_mem v h
    · exact List.mem_cons_self
  exact ⟨hmem, hmem⟩

namespace Tree

/-- The values of the integers of a tree, from left to right. -/
def literals : {rule : Rule} → Tree rule → List ℤ
  | _, int literal => [literal.value]
  | _, group inner => inner.literals
  | _, product first more => first.literals ++ more.literals
  | _, noFactor => []
  | _, times next more => next.literals ++ more.literals
  | _, start first more => first.literals ++ more.literals
  | _, noProduct => []
  | _, plus next more => next.literals ++ more.literals

/-- Every subexpression has a value that an `int` can have. -/
def Fits : {rule : Rule} → Tree rule → Prop
  | _, int literal => IsInt literal.value
  | _, group inner => inner.Fits
  | _, product first more => first.Fits ∧ more.Fits ∧ IsInt (first.value * more.value)
  | _, noFactor => True
  | _, times next more => next.Fits ∧ more.Fits
  | _, start first more => first.Fits ∧ more.Fits ∧ IsInt (first.value + more.value)
  | _, noProduct => True
  | _, plus next more => next.Fits ∧ more.Fits

end Tree

/-- The values that an attribute is made of. -/
def Rule.values : (rule : Rule) → rule.Attribute → List ℤ
  | .products, vs => vs
  | .factors, vs => vs
  | .start, v => [v]
  | .product, v => [v]
  | .factor, v => [v]

section Copied

variable {attributes : Attributes} {rule : Rule}

/-- What is copied of a first component and more of them is a value of theirs. -/
private theorem mem_append_of_copied {v a : ℤ} {as first more : List ℤ} (hv : v ∈ a :: as)
    (hfirst : ∀ v ∈ [a], v ∈ first) (hmore : ∀ v ∈ as, v ∈ more) : v ∈ first ++ more := by
  rcases List.mem_cons.mp hv with rfl | has
  · exact List.mem_append_left more (hfirst v List.mem_cons_self)
  · exact List.mem_append_right first (hmore v has)

/-- A copied attribute is the value of an integer of the tree. -/
theorem mem_literals_of_copies (h : attributes.Copies) (tree : Tree rule) :
    ∀ v ∈ rule.values (tree.attribute attributes), v ∈ tree.literals := by
  induction tree with
  | int literal => exact fun _ hv => hv
  | group inner ih => exact ih
  | noFactor => exact fun _ hv => hv
  | noProduct => exact fun _ hv => hv
  | product first more ihFirst ihMore =>
    intro v hv
    obtain rfl := List.mem_singleton.mp hv
    exact mem_append_of_copied (h.product _ _) ihFirst ihMore
  | start first more ihFirst ihMore =>
    intro v hv
    obtain rfl := List.mem_singleton.mp hv
    exact mem_append_of_copied (h.start _ _) ihFirst ihMore
  | times next more ihNext ihMore => exact fun v hv => mem_append_of_copied hv ihNext ihMore
  | plus next more ihNext ihMore => exact fun v hv => mem_append_of_copied hv ihNext ihMore

/-- Every integer of the tree is what some way of copying gives. -/
theorem mem_values_prefer {target : ℤ} (tree : Tree rule) (h : target ∈ tree.literals) :
    target ∈ rule.values (tree.attribute (prefer target)) := by
  have hprefer : ∀ {a : ℤ} {as : List ℤ}, target ∈ [a] ∨ target ∈ as →
      target ∈ [if target ∈ as then target else a] := by
    rintro a as (ha | has)
    · obtain rfl := List.mem_singleton.mp ha
      rw [ite_self]
      exact ha
    · rw [if_pos has]
      exact List.mem_cons_self
  induction tree with
  | int literal => exact h
  | group inner ih => exact ih h
  | noFactor => exact h
  | noProduct => exact h
  | product first more ihFirst ihMore =>
    exact hprefer ((List.mem_append.mp h).imp ihFirst ihMore)
  | start first more ihFirst ihMore =>
    exact hprefer ((List.mem_append.mp h).imp ihFirst ihMore)
  | times next more ihNext ihMore =>
    exact List.mem_append.mpr ((List.mem_append.mp h).imp ihNext ihMore)
  | plus next more ihNext ihMore =>
    exact List.mem_append.mpr ((List.mem_append.mp h).imp ihNext ihMore)

/-- The first component's attribute is the value of the leftmost integer. -/
theorem head?_values_firstComponent (tree : Tree rule) :
    (rule.values (tree.attribute firstComponent)).head? = tree.literals.head? := by
  have happend : ∀ {a : ℤ} {first : List ℤ} (more : List ℤ), [a].head? = first.head? →
      some a = (first ++ more).head? := by
    intro a first more hfirst
    rw [List.head?_append, ← hfirst]
    rfl
  induction tree with
  | int literal => rfl
  | group inner ih => exact ih
  | noFactor => rfl
  | noProduct => rfl
  | product first more ihFirst ihMore => exact happend more.literals ihFirst
  | start first more ihFirst ihMore => exact happend more.literals ihFirst
  | times next more ihNext ihMore => exact happend more.literals ihNext
  | plus next more ihNext ihMore => exact happend more.literals ihNext

/-- The value of a tree, from the attribute that semantic actions would give it. -/
def Rule.total : (rule : Rule) → rule.Attribute → ℤ
  | .products, vs => vs.sum
  | .factors, vs => vs.prod
  | .start, v => v
  | .product, v => v
  | .factor, v => v

theorem total_attribute_evaluate (tree : Tree rule) :
    rule.total (tree.attribute evaluate) = tree.value := by
  induction tree with
  | int literal => rfl
  | group inner ih => exact ih
  | noFactor => rfl
  | noProduct => rfl
  | product first more ihFirst ihMore => exact congrArg₂ (· * ·) ihFirst ihMore
  | start first more ihFirst ihMore => exact congrArg₂ (· + ·) ihFirst ihMore
  | times next more ihNext ihMore =>
    exact (List.prod_cons).trans (congrArg₂ (· * ·) ihNext ihMore)
  | plus next more ihNext ihMore =>
    exact (List.sum_cons).trans (congrArg₂ (· + ·) ihNext ihMore)

end Copied

/-- A string has the value of any tree that derives it. -/
theorem value_eq_of_text_eq {tree tree' : Tree .start} (h : tree.text = tree'.text) :
    tree.value = tree'.value := by
  have hparse := @parseOrDie_text evaluate tree _ (Nat.lt_succ_self _)
  have hparse' := @parseOrDie_text evaluate tree' _ (Nat.lt_succ_self _)
  rw [h, hparse'] at hparse
  calc
    tree.value = tree.attribute evaluate := (total_attribute_evaluate tree).symm
    _ = tree'.attribute evaluate := (Except.ok.inj (Option.some.inj hparse)).symm
    _ = tree'.value := total_attribute_evaluate tree'

/-- `ParseOrDie` on the string of the tree stores the value of the expression. -/
def StoresValue (attributes : Attributes) (tree : Tree .start) : Prop :=
  ∀ fuel, tree.text.length < fuel →
    parseOrDie (arithmeticGrammar3 attributes fuel) tree.text = some (.ok tree.value)

theorem storesValue_iff {attributes : Attributes} {tree : Tree .start} :
    StoresValue attributes tree ↔ tree.attribute attributes = tree.value := by
  constructor
  · intro h
    have hvalue := h _ (Nat.lt_succ_self _)
    rw [parseOrDie_text tree (Nat.lt_succ_self _)] at hvalue
    exact Except.ok.inj (Option.some.inj hvalue)
  · intro h fuel hfuel
    rw [parseOrDie_text tree hfuel, h]

/-- **When the result is the value.** It is, however the attributes are copied,
exactly if every integer of the string has the value of the expression; and when
the first component's attribute is copied, exactly if the leftmost one has. -/
theorem storesValue_iff_literals (tree : Tree .start) :
    ((∀ attributes : Attributes, attributes.Copies → StoresValue attributes tree) ↔
      ∀ v ∈ tree.literals, v = tree.value) ∧
    (StoresValue firstComponent tree ↔ tree.literals.head? = some tree.value) := by
  refine ⟨⟨?_, ?_⟩, ?_⟩
  · intro h v hv
    have hresult := storesValue_iff.mp (h (prefer v) (prefer_copies v))
    have hmem := mem_values_prefer tree hv
    exact (List.mem_singleton.mp hmem).trans hresult
  · intro h attributes hcopies
    exact storesValue_iff.mpr
      (h _ (mem_literals_of_copies hcopies tree _ (List.mem_singleton_self _)))
  · rw [storesValue_iff, ← head?_values_firstComponent tree]
    exact Option.some_inj.symm

/-- An integer of one digit. -/
def digit (c : Char) (hc : c.isDigit) (hfits : IsInt (1 * Istream.decimal [c])) : Literal where
  sign := .none
  digits := [c]
  isDigit _ hd := List.mem_singleton.mp hd ▸ hc
  nonempty := List.cons_ne_nil c []
  fits := hfits

/-- `1+2*3`, the input of `test3`. -/
def onePlusTwoTimesThree : Tree .start :=
  .start (.product (.int (digit '1' rfl (by decide))) .noFactor)
    (.plus (.product (.int (digit '2' rfl (by decide)))
      (.times (.int (digit '3' rfl (by decide))) .noFactor)) .noProduct)

/-- `1+2*3` is 7, and no way of copying attributes gives that result. -/
theorem not_storesValue_onePlusTwoTimesThree :
    onePlusTwoTimesThree.text = ['1', '+', '2', '*', '3'] ∧ onePlusTwoTimesThree.Fits ∧
      onePlusTwoTimesThree.value = 7 ∧
      ¬ ∃ attributes : Attributes, attributes.Copies ∧
        StoresValue attributes onePlusTwoTimesThree := by
  have hvalue : onePlusTwoTimesThree.value = 7 := by decide
  have hliterals : onePlusTwoTimesThree.literals = [1, 2, 3] := by decide
  refine ⟨rfl, ?_, hvalue, ?_⟩
  · simp only [onePlusTwoTimesThree, Tree.Fits]
    decide
  · rintro ⟨attributes, hcopies, hstores⟩
    have hmem := mem_literals_of_copies hcopies onePlusTwoTimesThree _ (List.mem_singleton_self _)
    rw [storesValue_iff.mp hstores, hvalue, hliterals] at hmem
    exact absurd hmem (by decide)

example : parseOrDie (arithmeticGrammar3 firstComponent 6) ['1', '+', '2', '*', '3'] =
    some (.ok 1) := by decide

end BoostProjects.Spirit.Grammar
