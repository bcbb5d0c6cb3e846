import BoostProjects.Beast.Http.HandleRequest
import BoostProjects.Library.LexicalPath

/-!
# Confinement to the document root

What `handle_request` opens lies, lexically, under its document root.

The validation rejects every target with two dots side by side, so neither the
target nor the target with `index.html` behind it has `..` as a component. All
that remains is the seam, and there `path_cat` always leaves a separator: the
target brings one and a trailing one of the root is dropped first.

The path is a `std::string`, but it is opened as a C string, so the result is
stated for both: a null character in the target cuts the path short inside the
root.
-/

namespace BoostProjects.Beast.Http

open Cpp LexicalPath

variable {docRoot target rest : Str}

/-- The target brings the separator of the seam. -/
theorem Accepted.exists_cons (h : Accepted target) :
    ∃ rest, target = '/' :: rest ∧ NoParent '.' target := by
  obtain ⟨hne, hhead, hdots⟩ : target ≠ [] ∧ target[0]? = some '/' ∧ ¬ "..".toList <:+: target := by
    simpa only [Accepted, not_or, not_not] using h
  cases target with
  | nil => exact absurd rfl hne
  | cons c rest =>
    obtain rfl : c = '/' := Option.some.inj hhead
    exact ⟨rest, rfl, hdots⟩

/-- Appending `index.html` brings no two dots together. -/
theorem filePath_eq_of_accepted (h : Accepted target) :
    ∃ rest, NoParent '.' rest ∧ filePath docRoot target = pathCat docRoot ('/' :: rest) := by
  obtain ⟨rest, rfl, hdots⟩ := h.exists_cons
  unfold filePath
  by_cases hlast : ('/' :: rest).getLast? = some '/'
  · obtain ⟨start, hstart⟩ := List.getLast?_eq_some_iff.mp hlast
    -- The separator at the end of the target keeps the dots apart.
    have hindex : NoParent '.' (('/' :: rest) ++ "index.html".toList) := by
      rw [hstart, List.append_assoc, List.singleton_append]
      refine NoParent.append_sep (by decide) (hdots.of_infix ?_) (by decide)
      rw [hstart]
      exact (List.prefix_append start ['/']).isInfix
    refine ⟨rest ++ "index.html".toList, hindex.of_infix (List.suffix_cons '/' _).isInfix, ?_⟩
    rw [if_pos hlast, ← List.cons_append]
    unfold pathCat
    split_ifs <;> simp only [List.append_assoc]
  · exact ⟨rest, hdots.of_infix (List.suffix_cons '/' rest).isInfix, if_neg hlast⟩

/-- What `path_cat` puts before its second argument: the root, less a separator
at its end. -/
theorem exists_pathCat_eq_append (hroot : docRoot ≠ []) :
    ∃ base, (docRoot = base ∨ docRoot = base ++ ['/']) ∧
      ∀ path, pathCat docRoot path = base ++ path := by
  by_cases hlast : docRoot.getLast? = some '/'
  · obtain ⟨base, rfl⟩ := List.getLast?_eq_some_iff.mp hlast
    refine ⟨base, Or.inr rfl, fun path => ?_⟩
    rw [pathCat, if_neg hroot, if_pos hlast, List.dropLast_concat]
  · refine ⟨docRoot, Or.inl rfl, fun path => ?_⟩
    rw [pathCat, if_neg hroot, if_neg hlast]

/-- `path_cat` keeps what it appends under the root, with a separator at the end
of the root or without. -/
theorem within_pathCat (hroot : docRoot ≠ []) (hrest : NoParent '.' rest) :
    Within '/' '.' docRoot (pathCat docRoot ('/' :: rest)) := by
  obtain ⟨base, hbase, hpath⟩ := exists_pathCat_eq_append hroot
  rw [hpath]
  rcases hbase with rfl | rfl
  · exact within_append_sep hroot hrest
  -- The root ended in a separator; what is left of it may be nothing.
  · by_cases hempty : base = []
    · subst hempty
      exact within_sep_cons hrest
    · rw [within_append_singleton_sep_iff hempty]
      exact within_append_sep hempty hrest

/-- The same of the C string of the path, under the C string of the root. -/
theorem within_cStr_pathCat (hroot : docRoot ≠ []) (hrest : NoParent '.' rest) :
    Within '/' '.' (cStr docRoot) (cStr (pathCat docRoot ('/' :: rest))) := by
  obtain ⟨base, hbase, hpath⟩ := exists_pathCat_eq_append hroot
  by_cases hnull : '\x00' ∈ base
  · -- The path is cut inside the root, where the C string of the root ends too.
    have hcut : cStr docRoot = cStr base := by
      rcases hbase with rfl | rfl
      · rfl
      · exact cStr_append_of_mem ['/'] hnull
    rw [hcut, hpath, cStr_append_of_mem _ hnull]
    exact within_refl (cStr base)
  -- The root is its own C string, and a null in the target cuts behind the seam.
  · have hnotMem : '\x00' ∉ docRoot := by
      rcases hbase with rfl | rfl
      · exact hnull
      · simpa using hnull
    have hsep : cStr ('/' :: rest) = '/' :: cStr rest := rfl
    rw [cStr_eq_self hnotMem, hpath, cStr_append_of_notMem _ hnull, hsep, ← hpath]
    exact within_pathCat hroot (hrest.of_infix (cStr_prefix_self rest).isInfix)

/-- **Document-root confinement.** If `handle_request` opens a path, the method
is `GET` or `HEAD`, the target passed the validation, and the path resolves to
somewhere within the document root; so does the C string that the open sees. A
request that the validation rejects opens nothing. -/
theorem handleRequest_opened_within (platform : Platform) (files : FileSystem)
    (docRoot : Str) (hroot : docRoot ≠ []) (request : Request) :
    (∀ path, (handleRequest platform files docRoot request).opened = some path →
      (request.method = .get ∨ request.method = .head) ∧
        Within '/' '.' docRoot path ∧ Within '/' '.' (cStr docRoot) (cStr path)) ∧
    (¬ (request.method.Served ∧ Accepted request.target) →
      (handleRequest platform files docRoot request).opened = none) := by
  constructor
  · intro path hopened
    obtain ⟨hmethod, haccepted, rfl⟩ := handleRequest_opened_eq_some_iff.mp hopened
    obtain ⟨rest, hrest, hpath⟩ := filePath_eq_of_accepted haccepted
    rw [hpath]
    exact ⟨hmethod, within_pathCat hroot hrest, within_cStr_pathCat hroot hrest⟩
  · intro hrejected
    rw [Option.eq_none_iff_forall_ne_some]
    intro path hopened
    obtain ⟨hmethod, haccepted, -⟩ := handleRequest_opened_eq_some_iff.mp hopened
    exact hrejected ⟨hmethod, haccepted⟩

/-- A directory under a root with a separator at its end, and without. -/
theorem handleRequest_opened_within_slash :
    ((handleRequest .plain FileSystem.bare "/srv/www/".toList
        (.plain .get "/docs/".toList)).opened = some "/srv/www/docs/index.html".toList ∧
      Within '/' '.' "/srv/www/".toList "/srv/www/docs/index.html".toList) ∧
    ((handleRequest .plain FileSystem.bare "/srv/www".toList
        (.plain .get "/docs/".toList)).opened = some "/srv/www/docs/index.html".toList ∧
      Within '/' '.' "/srv/www".toList "/srv/www/docs/index.html".toList) := by
  have hslash : (handleRequest .plain FileSystem.bare "/srv/www/".toList
      (.plain .get "/docs/".toList)).opened = some "/srv/www/docs/index.html".toList := by decide
  have hbare : (handleRequest .plain FileSystem.bare "/srv/www".toList
      (.plain .get "/docs/".toList)).opened = some "/srv/www/docs/index.html".toList := by decide
  have hwithin := (handleRequest_opened_within .plain FileSystem.bare "/srv/www/".toList (by decide)
    (.plain .get "/docs/".toList)).1 _ hslash
  have hwithin' := (handleRequest_opened_within .plain FileSystem.bare "/srv/www".toList (by decide)
    (.plain .get "/docs/".toList)).1 _ hbare
  exact ⟨⟨hslash, hwithin.2.1⟩, hbare, hwithin'.2.1⟩

end BoostProjects.Beast.Http
