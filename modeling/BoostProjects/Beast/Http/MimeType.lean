import BoostProjects.Cpp.Str
import Mathlib.Data.List.Find

/-!
# The MIME table

The HTTPS server has two lookups over one table. `mimeType` takes the first
extension that the path ends with. `mimeTypeOld`, which it replaced, compares the
text from the last dot on with each extension, without regard to case.

A path ends with an extension of the table exactly if its text from the last dot
on is that extension (`isSuffix_iff`), so the two differ in the case only:
`mimeType_eq_mimeTypeOld_iff`.
-/

namespace BoostProjects.Beast.Http

open Cpp

/-- The extensions `mimeType` tests, in its order. -/
def mimeTypes : List (Str × Str) :=
  [(".htm", "text/html"), (".html", "text/html"), (".php", "text/html"), (".css", "text/css"),
    (".txt", "text/plain"), (".js", "application/javascript"), (".json", "application/json"),
    (".xml", "application/xml"), (".swf", "application/x-shockwave-flash"),
    (".flv", "video/x-flv"), (".png", "image/png"), (".jpe", "image/jpeg"),
    (".jpeg", "image/jpeg"), (".jpg", "image/jpeg"), (".gif", "image/gif"),
    (".bmp", "image/bmp"), (".ico", "image/vnd.microsoft.icon"), (".tiff", "image/tiff"),
    (".tif", "image/tiff"), (".svg", "image/svg+xml"), (".svgz", "image/svg+xml")].map
  fun entry => (entry.1.toList, entry.2.toList)

/-- `mimeType` -/
def mimeType (path : Str) : Str :=
  match mimeTypes.find? fun entry => entry.1.isSuffixOf path with
  | some entry => entry.2
  | none => "application/text".toList

example : mimeType "/index.html".toList = "text/html".toList := by decide

/-! ## The lookup it replaced -/

/-- What both lookups return where no extension matches. -/
def defaultType : Str := "application/text".toList

/-- The type of what a lookup has found. -/
def typeOf : Option (Str × Str) → Str
  | some entry => entry.2
  | none => defaultType

/-- `beast::iequals`: equal up to the case of ASCII letters. -/
def iequals (left right : Str) : Bool := left.map Char.toLower = right.map Char.toLower

/-- `path.rfind(".")`: the position of the last dot. -/
def rfindDot : Str → Option ℕ
  | [] => none
  | c :: path =>
    match rfindDot path with
    | some pos => some (pos + 1)
    | none => if c = '.' then some 0 else none

/-- The text from the last dot on, empty without a dot. -/
def ext (path : Str) : Str :=
  match rfindDot path with
  | some pos => path.drop pos
  | none => []

/-- `mime_type_old`: the same extensions, in the same order. -/
def mimeTypeOld (path : Str) : Str :=
  typeOf (mimeTypes.find? fun entry => iequals (ext path) entry.1)

/-! ## The table -/

/-- The extensions are a dot and lower-case text without a dot, and none has the
type of what is not found. -/
structure WellFormed (entry : Str × Str) : Prop where
  dot : ∃ name, entry.1 = '.' :: name ∧ '.' ∉ name
  lower : entry.1.map Char.toLower = entry.1
  known : entry.2 ≠ defaultType

theorem wellFormed_of_mem {entry : Str × Str} (h : entry ∈ mimeTypes) : WellFormed entry := by
  have htable : mimeTypes.all (fun entry => entry.1.head? = some '.' && decide ('.' ∉ entry.1.tail) &&
      entry.1.map Char.toLower == entry.1 && entry.2 != defaultType) = true := by
    decide
  have hentry := List.all_eq_true.mp htable entry h
  simp only [Bool.and_eq_true, decide_eq_true_eq, beq_iff_eq, bne_iff_ne] at hentry
  obtain ⟨⟨⟨hhead, htail⟩, hlower⟩, hknown⟩ := hentry
  exact ⟨⟨entry.1.tail, (List.cons_head?_tail hhead).symm, htail⟩, hlower, hknown⟩

/-! ## The text from the last dot on -/

theorem rfindDot_of_notMem {path : Str} (h : '.' ∉ path) : rfindDot path = none := by
  induction path with
  | nil => rfl
  | cons c path ih =>
    obtain ⟨hc, hpath⟩ := not_or.mp (mt List.mem_cons.mpr h)
    rw [rfindDot, ih hpath]
    exact if_neg fun heq => hc heq.symm

theorem rfindDot_append (before : Str) {name : Str} (h : '.' ∉ name) :
    rfindDot (before ++ '.' :: name) = some before.length := by
  induction before with
  | nil =>
    rw [List.nil_append, rfindDot, rfindDot_of_notMem h]
    rfl
  | cons c before ih => rw [List.cons_append, rfindDot, ih, List.length_cons]

theorem ext_append (before : Str) {name : Str} (h : '.' ∉ name) :
    ext (before ++ '.' :: name) = '.' :: name := by
  rw [ext, rfindDot_append before h]
  exact List.drop_left

theorem ext_isSuffix (path : Str) : ext path <:+ path := by
  unfold ext
  split
  · exact List.drop_suffix _ path
  · exact List.nil_suffix

/-- A path ends with an extension exactly if that is its text from the last dot on. -/
theorem isSuffix_iff {entry : Str × Str} (h : WellFormed entry) {path : Str} :
    entry.1 <:+ path ↔ ext path = entry.1 := by
  constructor
  · rintro ⟨before, rfl⟩
    obtain ⟨name, hname, hdot⟩ := h.dot
    rw [hname]
    exact ext_append before hdot
  · intro heq
    exact heq ▸ ext_isSuffix path

/-! ## The two lookups -/

section Lookup

variable {path : Str}

theorem iequals_iff {left right : Str} :
    iequals left right ↔ left.map Char.toLower = right.map Char.toLower := decide_eq_true_iff

theorem iequals_refl (text : Str) : iequals text text := iequals_iff.mpr rfl

/-- Extensions of the table are equal if they are without regard to case. -/
theorem eq_of_iequals {entry entry' : Str × Str} (h : WellFormed entry) (h' : WellFormed entry')
    (heq : iequals entry.1 entry'.1) : entry.1 = entry'.1 := by
  rw [iequals_iff, h.lower, h'.lower] at heq
  exact heq

theorem mimeType_eq_typeOf (path : Str) :
    mimeType path = typeOf (mimeTypes.find? fun entry => entry.1.isSuffixOf path) := by
  unfold mimeType
  generalize (mimeTypes.find? fun entry => entry.1.isSuffixOf path) = found
  cases found with
  | none => rfl
  | some entry => rfl

/-- `mimeType` goes by the text from the last dot on, too. -/
theorem mimeType_eq_ext (path : Str) :
    mimeType path = typeOf (mimeTypes.find? fun entry => ext path = entry.1) := by
  rw [mimeType_eq_typeOf]
  refine congrArg typeOf (List.find?_congr fun entry hentry => ?_)
  rw [Bool.eq_iff_iff, List.isSuffixOf_iff_suffix, decide_eq_true_iff]
  exact isSuffix_iff (wellFormed_of_mem hentry)

/-- No extension of the table is the text from the last dot on up to its case only. -/
def ExactCase (path : Str) : Prop :=
  ∀ entry ∈ mimeTypes, iequals (ext path) entry.1 → ext path = entry.1

theorem mimeType_of_exactCase (h : ExactCase path) : mimeType path = mimeTypeOld path := by
  rw [mimeType_eq_ext, mimeTypeOld]
  refine congrArg typeOf (List.find?_congr fun entry hentry => ?_)
  rw [Bool.eq_iff_iff, decide_eq_true_iff]
  constructor
  · intro heq
    exact heq ▸ iequals_refl entry.1
  · exact h entry hentry

/-- Where the case is not exact, only the old lookup finds the extension. -/
theorem mimeType_of_not_exactCase (h : ¬ ExactCase path) :
    mimeType path = defaultType ∧ mimeTypeOld path ≠ defaultType := by
  unfold ExactCase at h
  push Not at h
  obtain ⟨entry, hentry, hcase, hne⟩ := h
  constructor
  · have hnone : (mimeTypes.find? fun entry => ext path = entry.1) = none := by
      refine List.find?_eq_none.mpr fun entry' hentry' => ?_
      rw [decide_eq_true_iff]
      intro heq
      rw [heq] at hcase hne
      exact hne (eq_of_iequals (wellFormed_of_mem hentry') (wellFormed_of_mem hentry) hcase)
    rw [mimeType_eq_ext, hnone, typeOf]
  · have hfound : (mimeTypes.find? fun entry => iequals (ext path) entry.1).isSome := by
      rw [List.find?_isSome]
      exact ⟨entry, hentry, hcase⟩
    obtain ⟨found, hfind⟩ := Option.isSome_iff_exists.mp hfound
    rw [mimeTypeOld, hfind]
    exact (wellFormed_of_mem (List.mem_of_find?_eq_some hfind)).known

end Lookup

/-- **The lookups agree up to case.** For every path the new lookup gives what the
old one gave exactly if no extension of the table is the text from the last dot on
up to its case only. -/
theorem mimeType_eq_mimeTypeOld_iff (path : Str) :
    mimeType path = mimeTypeOld path ↔ ExactCase path := by
  constructor
  · intro heq
    by_contra h
    obtain ⟨hnew, hold⟩ := mimeType_of_not_exactCase h
    exact hold (heq.symm.trans hnew)
  · exact mimeType_of_exactCase

/-- A page in capitals is no text to the new lookup. -/
theorem not_mimeType_eq_mimeTypeOld : ¬ ∀ path, mimeType path = mimeTypeOld path := by
  intro hall
  have hpage := hall "/INDEX.HTML".toList
  revert hpage
  decide

end BoostProjects.Beast.Http
