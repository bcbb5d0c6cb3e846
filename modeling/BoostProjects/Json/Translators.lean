import BoostProjects.Library.Lists
import BoostProjects.Spirit.Grammar

/-!
# The translators of property trees

A translator turns the string that a property tree stores into a value, and back.
`Json.cpp` has two.

`string_to_int_translator` reads an integer off the front of the string with
`strtol`, whose result is wider than an `int`: `reads_iff_fits` says that it is
narrowed to another number exactly where it does not fit.

`my_id_translator` puts a string in quotes, and takes the first and last characters
off without looking at them: what is put is got back (`getsBack`), but only a string in
quotes is put back (`getsBack_and_putsBack_iff`).
-/

namespace BoostProjects.Json

open Cpp Spirit.Grammar

/-! ## `strtol` -/

/-- The number that a text begins with, behind white space, and what follows it. -/
def scan (text : Str) : Option (ℤ × Str) :=
  let (sign, rest) := extractSign (text.dropWhile isSpace)
  let digits := rest.takeWhile Char.isDigit
  if digits = [] then none
  else some (sign.factor * Istream.decimal digits, rest.dropWhile Char.isDigit)

/-- The nearest value of a `long`. -/
def saturate (n : ℤ) : ℤ := max (-2 ^ 63) (min n (2 ^ 63 - 1))

/-- `std::strtol` with base 10: the value, and the text from the end pointer on, which
is all of it where there is no number. -/
def strtol (text : Str) : ℤ × Str :=
  match scan text with
  | some (n, rest) => (saturate n, rest)
  | none => (0, text)

/-! ## The translators -/

namespace StringToIntTranslator

/-- `string_to_int_translator::get_value` -/
def getValue (s : Str) : Option Int32 :=
  let text := cStr s
  let (l, c) := strtol text
  -- The end pointer is the start of the string, or points behind it.
  if c ≠ text then some (Int32.ofInt l) else none

end StringToIntTranslator

namespace MyIdTranslator

/-- The exception of `substr` for a position behind the end. -/
inductive Exception
  | outOfRange
  deriving DecidableEq, Repr

/-- `size - n` in `std::size_t`, for sizes of strings. -/
def sizeMinus (size n : ℕ) : ℕ := if n ≤ size then size - n else size + 2 ^ 64 - n

/-- `std::string::substr` -/
def substr (s : Str) (pos count : ℕ) : Except Exception Str :=
  if s.length < pos then .error .outOfRange else .ok ((s.drop pos).take count)

/-- `my_id_translator::get_value` -/
def getValue (v : Str) : Except Exception (Option Str) :=
  (substr v 1 (sizeMinus v.length 2)).map some

/-- `my_id_translator::put_value` -/
def putValue (v : Str) : Option Str := some ('"' :: v ++ ['"'])

end MyIdTranslator

/-! ## The leading integer -/

/-- The text begins with white space, a sign and digits, each as far as it goes, and
the number they denote is `n`. -/
inductive Leading : Str → ℤ → Prop
  | mk {space digits rest : Str} (sign : Sign) (hspace : ∀ c ∈ space, isSpace c)
      (hdigits : ∀ c ∈ digits, c.isDigit) (hne : digits ≠ []) (hrest : NoDigit rest) :
      Leading (space ++ (sign.text ++ (digits ++ rest))) (sign.factor * Istream.decimal digits)

section Leading

variable {text : Str} {n : ℤ}

/-- A signed number does not begin with white space. -/
theorem isSpace_head?_eq_false {digits rest : Str} (sign : Sign)
    (hdigits : ∀ c ∈ digits, c.isDigit) (hne : digits ≠ []) :
    ∀ c ∈ (sign.text ++ (digits ++ rest)).head?, isSpace c = false := by
  cases sign with
  | plus =>
    rintro c ⟨⟩
    rfl
  | minus =>
    rintro c ⟨⟩
    rfl
  | none =>
    obtain ⟨d, digits, rfl⟩ := List.exists_cons_of_ne_nil hne
    rintro c ⟨⟩
    exact isSpace_eq_false_of_isDigit (hdigits d List.mem_cons_self)

theorem Leading.scan (h : Leading text n) :
    ∃ rest, scan text = some (n, rest) ∧ rest.length < text.length := by
  obtain @⟨space, digits, rest, sign, hspace, hdigits, hne, hrest⟩ := h
  refine ⟨rest, ?_, ?_⟩
  · rw [Json.scan, Lists.dropWhile_span hspace (isSpace_head?_eq_false sign hdigits hne),
      extractSign_text hdigits hne]
    simp only [Lists.takeWhile_span hdigits hrest, Lists.dropWhile_span hdigits hrest, if_neg hne]
  · have hpos := List.length_pos_of_ne_nil hne
    simp only [List.length_append]
    omega

theorem leading_of_scan {rest : Str} (h : scan text = some (n, rest)) : Leading text n := by
  have hskip : text.takeWhile isSpace ++ text.dropWhile isSpace = text :=
    List.takeWhile_append_dropWhile
  have happend := extractSign_append (text.dropWhile isSpace)
  rw [scan] at h
  rcases hsign : extractSign (text.dropWhile isSpace) with ⟨sign, body⟩
  rw [hsign] at h happend
  obtain ⟨hne, hpair⟩ := Option.ite_none_left_eq_some.mp h
  obtain ⟨rfl, rfl⟩ := Prod.mk.inj (Option.some.inj hpair)
  have hbody : body.takeWhile Char.isDigit ++ body.dropWhile Char.isDigit = body :=
    List.takeWhile_append_dropWhile
  have hleading : Leading (text.takeWhile isSpace ++ (sign.text ++
      (body.takeWhile Char.isDigit ++ body.dropWhile Char.isDigit)))
      (sign.factor * Istream.decimal (body.takeWhile Char.isDigit)) := by
    refine .mk sign ?_ ?_ hne (Lists.head?_dropWhile body)
    · exact fun c hc => List.mem_takeWhile_imp hc
    · exact fun c hc => List.mem_takeWhile_imp hc
  rwa [hbody, ← happend, hskip] at hleading

theorem Leading.unique {m : ℤ} (hn : Leading text n) (hm : Leading text m) : n = m := by
  obtain ⟨rest, hscan, -⟩ := hn.scan
  obtain ⟨rest', hscan', -⟩ := hm.scan
  rw [hscan] at hscan'
  exact (Prod.mk.inj (Option.some.inj hscan')).1

/-! ### The null character -/

theorem notMem_of_leading {space digits : Str} (sign : Sign) (hspace : ∀ c ∈ space, isSpace c)
    (hdigits : ∀ c ∈ digits, c.isDigit) : '\x00' ∉ space ++ (sign.text ++ digits) := by
  simp only [List.mem_append, not_or]
  refine ⟨fun hmem => ?_, ?_, fun hmem => ?_⟩
  · exact absurd (hspace _ hmem) (by decide)
  · cases sign <;> decide
  · exact absurd (hdigits _ hmem) (by decide)

/-- What a text begins with, its C string begins with. -/
theorem Leading.cStr (h : Leading text n) : Leading (cStr text) n := by
  obtain @⟨space, digits, rest, sign, hspace, hdigits, hne, hrest⟩ := h
  have hcut : Cpp.cStr (space ++ (sign.text ++ (digits ++ rest))) =
      space ++ (sign.text ++ (digits ++ Cpp.cStr rest)) := by
    have hnull := cStr_append_of_notMem rest (notMem_of_leading sign hspace hdigits)
    simpa only [List.append_assoc] using hnull
  rw [hcut]
  refine .mk sign hspace hdigits hne ?_
  cases rest with
  | nil => exact hrest
  | cons c rest =>
    intro d hd
    unfold Cpp.cStr at hd
    rw [List.takeWhile_cons] at hd
    split_ifs at hd
    · exact hrest d hd
    · exact absurd hd nofun

theorem Leading.append (h : Leading text n) {rest : Str} (hrest : NoDigit rest) :
    Leading (text ++ rest) n := by
  obtain @⟨space, digits, middle, sign, hspace, hdigits, hne, hmiddle⟩ := h
  have hassoc : space ++ (sign.text ++ (digits ++ middle)) ++ rest =
      space ++ (sign.text ++ (digits ++ (middle ++ rest))) := by
    simp only [List.append_assoc]
  rw [hassoc]
  refine .mk sign hspace hdigits hne ?_
  cases middle with
  | nil => exact hrest
  | cons c middle => exact hmiddle

theorem leading_cStr_iff : Leading (Cpp.cStr text) n ↔ Leading text n := by
  refine ⟨fun h => ?_, Leading.cStr⟩
  have hcut : NoDigit (text.dropWhile (· ≠ '\x00')) := by
    intro c hc
    have hnull : c = '\x00' := by simpa using Lists.head?_dropWhile text c hc
    rw [hnull]
    rfl
  have hleading := h.append hcut
  rwa [Cpp.cStr, List.takeWhile_append_dropWhile] at hleading

end Leading

/-! ## What the first translator reads -/

namespace StringToIntTranslator

variable {s : Str} {n : ℤ}

theorem getValue_of_leading (h : Leading s n) : getValue s = some (Int32.ofInt (saturate n)) := by
  obtain ⟨rest, hscan, hlength⟩ := (leading_cStr_iff.mpr h).scan
  have hmoved : rest ≠ cStr s := by
    rintro rfl
    exact Nat.lt_irrefl _ hlength
  simp only [getValue, strtol, hscan, if_pos hmoved]

theorem getValue_eq_none (h : ∀ n, ¬ Leading s n) : getValue s = none := by
  have hscan : scan (cStr s) = none := by
    refine Option.eq_none_iff_forall_ne_some.mpr fun ⟨n, rest⟩ hscan => ?_
    exact h n (leading_cStr_iff.mp (leading_of_scan hscan))
  simp only [getValue, strtol, hscan, ne_eq, not_true, if_false]

/-- What does not fit is narrowed to the number of the same lowest 32 bits. -/
theorem toInt_narrowed (h : Leading s n) :
    ∃ v, getValue s = some v ∧ v.toInt = (saturate n).bmod (2 ^ 32) :=
  ⟨_, getValue_of_leading h, Int32.toInt_ofInt⟩

theorem saturate_of_isInt (h : IsInt n) : (saturate n).bmod (2 ^ 32) = n := by
  obtain ⟨hlow, hhigh⟩ := h
  have hlong : saturate n = n := by
    unfold saturate
    omega
  rw [hlong]
  exact Int.bmod_eq_of_le (by omega) (by omega)

theorem isInt_toInt (v : Int32) : IsInt v.toInt := ⟨v.le_toInt, v.toInt_lt⟩

/-- The value is the leading integer, if there is one that fits in an `int`, and
there is none otherwise. -/
def Reads (s : Str) : Prop := ∀ v : Int32, getValue s = some v ↔ Leading s v.toInt

theorem reads_of_fits (h : ∀ n, Leading s n → IsInt n) : Reads s := by
  intro v
  constructor
  · intro hvalue
    have hsome : ∃ n, Leading s n := by
      by_contra hnone
      rw [getValue_eq_none (not_exists.mp hnone)] at hvalue
      exact absurd hvalue nofun
    obtain ⟨n, hn⟩ := hsome
    obtain ⟨v', hvalue', htoInt⟩ := toInt_narrowed hn
    obtain rfl := Option.some.inj (hvalue'.symm.trans hvalue)
    rw [htoInt, saturate_of_isInt (h n hn)]
    exact hn
  · intro hv
    obtain ⟨v', hvalue', htoInt⟩ := toInt_narrowed hv
    rw [saturate_of_isInt (isInt_toInt v)] at htoInt
    rw [hvalue', Int32.toInt_inj.mp htoInt]

/-- A number that does not fit is read as another one. -/
theorem not_reads_of_leading (h : Leading s n) (hfits : ¬ IsInt n) : ¬ Reads s := by
  intro hreads
  obtain ⟨v, hvalue, -⟩ := toInt_narrowed h
  have hv := (hreads v).mp hvalue
  exact hfits (h.unique hv ▸ isInt_toInt v)

/-- **The leading integer is read, exactly when it fits.** For every string, the
value is the integer that the string begins with where an `int` can hold it, and
missing otherwise, if and only if the string begins with no integer that an `int`
cannot hold. -/
theorem reads_iff_fits (s : Str) : Reads s ↔ ∀ n, Leading s n → IsInt n := by
  constructor
  · intro hreads n hn
    by_contra hfits
    exact not_reads_of_leading hn hfits hreads
  · exact reads_of_fits

/-- The number after the largest `int`, which is read as the smallest one. -/
theorem not_reads_too_large : ¬ ∀ s, Reads s := by
  intro hall
  have hscan : scan "2147483648".toList = some (2147483648, []) := by decide
  exact not_reads_of_leading (leading_of_scan hscan) (by decide) (hall _)

example : getValue "20 files".toList = some 20 := by decide

example : getValue "2147483648".toList = some (-2147483648) := by decide

end StringToIntTranslator

/-! ## The pair of the second translator -/

namespace MyIdTranslator

/-- What is put and got is the same string. -/
def GetsBack (v : Str) : Prop := (putValue v).map getValue = some (.ok (some v))

/-- What is stored can be got, and a value that it has is put as what is stored. -/
def PutsBack (w : Str) : Prop :=
  ∃ value, getValue w = .ok value ∧ ∀ u, value = some u → putValue u = some w

/-- The string is in double quotes. -/
def Quoted (w : Str) : Prop := ∃ u, w = '"' :: u ++ ['"']

theorem getValue_quoted (u : Str) : getValue ('"' :: u ++ ['"']) = .ok (some u) := by
  have hsize : ('"' :: u ++ ['"']).length = u.length + 2 := by simp
  have hinside : ¬ ('"' :: u ++ ['"']).length < 1 := by
    rw [hsize]
    omega
  rw [getValue, substr, if_neg hinside, hsize, sizeMinus, if_pos (by omega), Nat.add_sub_cancel]
  simp [Except.map]

theorem getsBack (v : Str) : GetsBack v := by
  rw [GetsBack, putValue, Option.map_some, getValue_quoted]

theorem putsBack_iff {w : Str} : PutsBack w ↔ Quoted w := by
  constructor
  · rintro ⟨value, hvalue, hput⟩
    obtain ⟨u, hu, rfl⟩ : ∃ u, substr w 1 (sizeMinus w.length 2) = .ok u ∧ value = some u := by
      revert hvalue
      rw [getValue]
      cases substr w 1 (sizeMinus w.length 2) with
      | error e => exact nofun
      | ok u =>
        rintro ⟨⟩
        exact ⟨u, rfl, rfl⟩
    exact ⟨u, (Option.some.inj (hput u rfl)).symm⟩
  · rintro ⟨u, rfl⟩
    refine ⟨some u, getValue_quoted u, ?_⟩
    rintro _ ⟨⟩
    rfl

/-- **A pair on quoted strings.** A string that is put is got back, and what is got
from a stored string puts it back, without an exception, if and only if the stored
string is in double quotes. -/
theorem getsBack_and_putsBack_iff (v w : Str) : GetsBack v ∧ PutsBack w ↔ Quoted w := by
  constructor
  · rintro ⟨-, hput⟩
    exact putsBack_iff.mp hput
  · intro hquoted
    exact ⟨getsBack v, putsBack_iff.mpr hquoted⟩

/-- From the empty string nothing can be got. -/
theorem not_putsBack_nil : ¬ ((∀ v, GetsBack v) ∧ ∀ w, PutsBack w) := by
  rintro ⟨-, hall⟩
  obtain ⟨u, hu⟩ := putsBack_iff.mp (hall [])
  exact absurd hu nofun

example : getValue "\"".toList = .ok (some []) := by decide

example : getValue "abc".toList = .ok (some "b".toList) := by decide

end MyIdTranslator

end BoostProjects.Json
