import Mathlib.Data.List.Infix

/-!
# Lexical path resolution

A path is a string over an alphabet with a separator and a dot. Splitting it at
the separator gives its components; resolving it walks the components with a
stack, on which an empty component and `.` leave nothing, `..` removes the top,
and any other name is pushed.

Resolution never looks at a file system, so it says where a path leads when no
component is a link. `Within root path` is confinement in that sense. The rule
for establishing it is `within_append_sep`: a path that continues its root past
a separator stays within the root if nowhere in the continuation two dots stand
side by side.
-/

namespace LexicalPath

variable {α : Type*} [DecidableEq α] (sep dot : α)

/-- Enter one component from the directory the stack names. -/
def enter (stack : List (List α)) (component : List α) : List (List α) :=
  if component = [] ∨ component = [dot] then stack
  else if component = [dot, dot] then stack.dropLast
  else stack ++ [component]

/-- The names of the directories a path leads through, outermost first. -/
def resolve (path : List α) : List (List α) :=
  (path.splitOn sep).foldl (enter dot) []

/-- The path starts where the root starts, and its resolution continues the
resolution of the root. -/
def Within (root path : List α) : Prop :=
  (path.head? = some sep ↔ root.head? = some sep) ∧
    resolve sep dot root <+: resolve sep dot path

/-- No two dots stand side by side, so no component can be `..`. -/
def NoParent (path : List α) : Prop := ¬ [dot, dot] <:+: path

instance (path : List α) : Decidable (NoParent dot path) :=
  inferInstanceAs (Decidable (¬ _))

variable {sep dot}

@[simp] theorem enter_nil (stack : List (List α)) : enter dot stack [] = stack :=
  if_pos (Or.inl rfl)

theorem prefix_enter {stack : List (List α)} {component : List α}
    (hup : component ≠ [dot, dot]) : stack <+: enter dot stack component := by
  unfold enter
  by_cases hstay : component = [] ∨ component = [dot]
  · rw [if_pos hstay]
  · rw [if_neg hstay, if_neg hup]
    exact List.prefix_append stack [component]

/-- Without a `..`, walking on only goes deeper. -/
theorem prefix_foldl_enter {components stack : List (List α)}
    (hup : ∀ component ∈ components, component ≠ [dot, dot]) :
    stack <+: components.foldl (enter dot) stack := by
  induction components generalizing stack with
  | nil => exact List.prefix_rfl
  | cons component rest ih =>
    have hfirst : stack <+: enter dot stack component :=
      prefix_enter (hup component List.mem_cons_self)
    refine hfirst.trans (ih fun later hlater => ?_)
    exact hup later (List.mem_cons_of_mem component hlater)

/-- Resolving a path joined from two is resolving the first and walking on with
the components of the second. -/
theorem resolve_append_sep (first second : List α) :
    resolve sep dot (first ++ sep :: second) =
      (second.splitOn sep).foldl (enter dot) (resolve sep dot first) := by
  rw [resolve, List.splitOn_append_cons_self, List.foldl_append, ← resolve]

/-- A separator at the end of a path changes nothing. -/
@[simp] theorem resolve_append_singleton_sep (path : List α) :
    resolve sep dot (path ++ [sep]) = resolve sep dot path := by
  rw [resolve_append_sep, List.splitOn_nil, List.foldl_cons, List.foldl_nil, enter_nil]

/-- A component of a path is a part of the path. -/
theorem infix_of_mem_splitOn {path component : List α} (hmem : component ∈ path.splitOn sep) :
    component <:+: path := by
  obtain ⟨before, after, hsplit⟩ := List.append_of_mem hmem
  have hpath : [sep].intercalate (before ++ component :: after) = path := by
    rw [← hsplit, List.intercalate_splitOn]
  rw [← hpath]
  clear hmem hsplit hpath
  induction before with
  | nil =>
    cases after with
    | nil => rw [List.nil_append, List.intercalate_singleton]
    | cons next after =>
      rw [List.nil_append, List.intercalate_cons_cons, List.append_assoc]
      exact (List.prefix_append component _).isInfix
  | cons first before ih =>
    rw [List.cons_append, List.intercalate_cons_of_ne_nil (by simp)]
    exact ih.trans (List.suffix_append _ _).isInfix

theorem NoParent.ne_of_mem_splitOn {path : List α} (h : NoParent dot path) :
    ∀ component ∈ path.splitOn sep, component ≠ [dot, dot] := by
  rintro component hmem rfl
  exact h (infix_of_mem_splitOn hmem)

omit [DecidableEq α] in
theorem NoParent.of_infix {part path : List α} (h : NoParent dot path) (hpart : part <:+: path) :
    NoParent dot part :=
  fun hdots => h (hdots.trans hpart)

omit [DecidableEq α] in
/-- Two dots cannot meet across a separator. -/
theorem NoParent.append_sep {first second : List α} (hsep : sep ≠ dot)
    (hfirst : NoParent dot first) (hsecond : NoParent dot second) :
    NoParent dot (first ++ sep :: second) := by
  induction first with
  | nil =>
    intro hdots
    rcases List.infix_cons_iff.mp hdots with hprefix | hinfix
    · exact hsep (List.cons_prefix_cons.mp hprefix).1.symm
    · exact hsecond hinfix
  | cons head tail ih =>
    have htail := ih (hfirst.of_infix (List.suffix_cons head tail).isInfix)
    intro hdots
    rcases List.infix_cons_iff.mp hdots with hprefix | hinfix
    · -- Two dots at the front are either both in the first part or meet the separator.
      obtain ⟨hhead, hprefix⟩ := List.cons_prefix_cons.mp hprefix
      cases tail with
      | nil => exact hsep (List.cons_prefix_cons.mp hprefix).1.symm
      | cons next tail =>
        obtain ⟨hnext, -⟩ := List.cons_prefix_cons.mp hprefix
        rw [← hhead, ← hnext] at hfirst
        exact hfirst (List.prefix_append [dot, dot] tail).isInfix
    · exact htail hinfix

/-- A separator at the end of the root does not matter. -/
theorem within_append_singleton_sep_iff {root path : List α} (hroot : root ≠ []) :
    Within sep dot (root ++ [sep]) path ↔ Within sep dot root path := by
  rw [Within, Within, resolve_append_singleton_sep, List.head?_append_of_ne_nil root hroot]

/-- **Confinement.** A path that continues its root past a separator leads to
somewhere within the root, if no two dots stand side by side in what follows. -/
theorem within_append_sep {root rest : List α} (hroot : root ≠ []) (hrest : NoParent dot rest) :
    Within sep dot root (root ++ sep :: rest) := by
  constructor
  · rw [List.head?_append_of_ne_nil root hroot]
  · rw [resolve_append_sep]
    exact prefix_foldl_enter hrest.ne_of_mem_splitOn

/-- The same under the root that is the separator alone. -/
theorem within_sep_cons {rest : List α} (hrest : NoParent dot rest) :
    Within sep dot [sep] (sep :: rest) := by
  constructor
  · rw [List.head?_cons, List.head?_cons]
  · have hroot : resolve sep dot [sep] = resolve sep dot [] := resolve_append_singleton_sep []
    have hpath : resolve sep dot ([] ++ sep :: rest) = _ := resolve_append_sep [] rest
    rw [List.nil_append] at hpath
    rw [hroot, hpath]
    exact prefix_foldl_enter hrest.ne_of_mem_splitOn

theorem within_refl (root : List α) : Within sep dot root root :=
  ⟨Iff.rfl, List.prefix_rfl⟩

end LexicalPath
