import Mathlib.Data.List.Forall2

/-!
# Recursive descent

A parser takes a value off the front of its input, or fails and leaves the input
as it was. The combinators are a literal before or behind a parser, sequence,
ordered alternative and greedy repetition; there is no backtracking into what has
succeeded.

What a parser should take off is a language with values. Greedy choices can only
be right when the input goes on in a suitable way, so `Recognizes` says that a
parser takes exactly the texts of a language where they are followed as required.
It carries a bound: for inputs below it the parser has an answer. There is one
rule for each combinator.
-/

namespace Descent

variable {τ α β : Type*}

/-- The answer of a parser: a value and the rest of the input, or a failure. No
answer, the outer `none`, stands for a recursion that has not come to an end. -/
abbrev Parser (τ α : Type*) := List τ → Option (Option (α × List τ))

/-! ## Combinators -/

/-- The element `c`, and then `p`. -/
def litThen [DecidableEq τ] (c : τ) (p : Parser τ α) : Parser τ α
  | [] => some none
  | d :: input => if d = c then p input else some none

/-- `p`, and then the element `c`. -/
def thenLit [DecidableEq τ] (p : Parser τ α) (c : τ) : Parser τ α := fun input =>
  (p input).map fun
    | some (a, d :: rest) => if d = c then some (a, rest) else none
    | _ => none

/-- `p`, and then `q`. -/
def seq (p : Parser τ α) (q : Parser τ β) : Parser τ (α × β) := fun input =>
  (p input).bind fun
    | none => some none
    | some (a, rest) => (q rest).map (Option.map fun result => ((a, result.1), result.2))

/-- `p`, or else `q`. -/
def alt (p q : Parser τ α) : Parser τ α := fun input =>
  (p input).bind fun
    | none => q input
    | some result => some (some result)

/-- `p` as often as it succeeds, at most `fuel` times and a failure. -/
def star : ℕ → Parser τ α → Parser τ (List α)
  | 0, _, _ => none
  | fuel + 1, p, input =>
    (p input).bind fun
      | none => some (some ([], input))
      | some (a, rest) => (star fuel p rest).map (Option.map fun result =>
          (a :: result.1, result.2))

/-- `p` with `f` applied to its value. -/
def mapValue (f : α → β) (p : Parser τ α) : Parser τ β := fun input =>
  (p input).map (Option.map fun result => (f result.1, result.2))

/-- `p`, and then `p` behind the element `c` as often as that succeeds. -/
def chain [DecidableEq τ] (fuel : ℕ) (c : τ) (p : Parser τ α) : Parser τ (α × List α) :=
  seq p (star fuel (litThen c p))

section Equations

variable {p : Parser τ α} {q : Parser τ β} {input mid : List τ} {a : α}

theorem seq_of_fails (h : p input = some none) : seq p q input = some none := by
  rw [seq, h]
  rfl

theorem seq_of_takes (h : p input = some (some (a, mid))) :
    seq p q input = (q mid).map (Option.map fun result => ((a, result.1), result.2)) := by
  rw [seq, h]
  rfl

theorem star_of_fails (h : p input = some none) (fuel : ℕ) :
    star (fuel + 1) p input = some (some ([], input)) := by
  rw [star, h]
  rfl

theorem star_of_takes (h : p input = some (some (a, mid))) (fuel : ℕ) :
    star (fuel + 1) p input =
      (star fuel p mid).map (Option.map fun result => (a :: result.1, result.2)) := by
  rw [star, h]
  rfl

theorem litThen_cons [DecidableEq τ] (c : τ) : litThen c p (c :: input) = p input :=
  if_pos rfl

theorem litThen_of_head [DecidableEq τ] {c : τ} (h : input.head? ≠ some c) :
    litThen c p input = some none := by
  match input, h with
  | [], _ => rfl
  | d :: input, h => exact if_neg fun hd => h (congrArg some hd)

theorem map_pair_eq_some_iff {γ δ : Type*} {f : γ → δ} {answer : Option (Option (γ × List τ))}
    {d : δ} {rest : List τ} :
    answer.map (Option.map fun result => (f result.1, result.2)) = some (some (d, rest)) ↔
      ∃ c, answer = some (some (c, rest)) ∧ f c = d := by
  match answer with
  | none => simp
  | some none => simp
  | some (some (c, rest')) => simp [and_comm]

end Equations

/-! ## Languages -/

/-- The texts of a language, each with its values. -/
abbrev Lang (τ α : Type*) := α → List τ → Prop

/-- The parser takes the texts of `L` off the front of its input, and all of them
whose rest satisfies `F`; it has an answer for inputs shorter than `n`. -/
structure Recognizes (n : ℕ) (p : Parser τ α) (L : Lang τ α) (F : List τ → Prop) : Prop where
  sound : ∀ {input a rest}, p input = some (some (a, rest)) →
    ∃ text, L a text ∧ input = text ++ rest
  complete : ∀ {a text rest}, L a text → F rest → (text ++ rest).length < n →
    p (text ++ rest) = some (some (a, rest))
  answers : ∀ {input}, input.length < n → p input ≠ none

/-- Texts of a language one after the other. -/
inductive Repeats (L : Lang τ α) : Lang τ (List α)
  | nil : Repeats L [] []
  | cons {a : α} {values : List α} {text more : List τ} :
      L a text → Repeats L values more → Repeats L (a :: values) (text ++ more)

/-- A text of the language behind the element `c`. -/
def Behind (c : τ) (L : Lang τ α) : Lang τ α := fun a text => ∃ inner, L a inner ∧ text = c :: inner

/-- A text of the language, and more of them behind `c` each. -/
def Chained (c : τ) (L : Lang τ α) : Lang τ (α × List α) := fun value text =>
  ∃ first more, L value.1 first ∧ Repeats (Behind c L) value.2 more ∧ text = first ++ more

section Joined

variable {L : Lang τ α} {c : τ}

theorem intercalate_cons (text : List τ) (texts : List (List τ)) :
    [c].intercalate (text :: texts) = text ++ texts.flatMap (c :: ·) := by
  induction texts generalizing text with
  | nil => simp
  | cons next texts ih => rw [List.intercalate_cons_cons, ih, List.flatMap_cons]; simp

theorem repeats_behind_iff {values : List α} {text : List τ} :
    Repeats (Behind c L) values text ↔
      ∃ texts, List.Forall₂ L values texts ∧ text = texts.flatMap (c :: ·) := by
  constructor
  · intro h
    induction h with
    | nil => exact ⟨[], .nil, rfl⟩
    | cons hfirst _ ih =>
      obtain ⟨first, hfirst, rfl⟩ := hfirst
      obtain ⟨texts, htexts, rfl⟩ := ih
      exact ⟨first :: texts, .cons hfirst htexts, rfl⟩
  · rintro ⟨texts, htexts, rfl⟩
    induction htexts with
    | nil => exact .nil
    | cons hfirst _ ih => exact .cons ⟨_, hfirst, rfl⟩ ih

/-- A chain is texts of the language joined with the element. -/
theorem chained_iff {a : α} {values : List α} {text : List τ} :
    Chained c L (a, values) text ↔
      ∃ texts, List.Forall₂ L (a :: values) texts ∧ text = [c].intercalate texts := by
  constructor
  · rintro ⟨first, _, hfirst, hmore, rfl⟩
    obtain ⟨texts, htexts, rfl⟩ := repeats_behind_iff.mp hmore
    exact ⟨first :: texts, .cons hfirst htexts, (intercalate_cons first texts).symm⟩
  · rintro ⟨_, hall, rfl⟩
    obtain ⟨first, texts, hfirst, htexts, rfl⟩ := List.forall₂_cons_left_iff.mp hall
    exact ⟨first, _, hfirst, repeats_behind_iff.mpr ⟨texts, htexts, rfl⟩,
      intercalate_cons first texts⟩

end Joined

namespace Recognizes

variable {n : ℕ} {p : Parser τ α} {q : Parser τ β} {L : Lang τ α} {M : Lang τ β}
  {F G : List τ → Prop}

theorem mono {m : ℕ} (h : Recognizes n p L F) (hm : m ≤ n) : Recognizes m p L F where
  sound := h.sound
  complete ha hrest hlength := h.complete ha hrest (Nat.lt_of_lt_of_le hlength hm)
  answers hlength := h.answers (Nat.lt_of_lt_of_le hlength hm)

theorem weaken {F' : List τ → Prop} (h : Recognizes n p L F) (hF : ∀ rest, F' rest → F rest) :
    Recognizes n p L F' where
  sound := h.sound
  complete ha hrest := h.complete ha (hF _ hrest)
  answers := h.answers

theorem congr {L' : Lang τ α} (h : Recognizes n p L F) (hL : ∀ a text, L a text ↔ L' a text) :
    Recognizes n p L' F where
  sound hp := by
    obtain ⟨text, htext, hinput⟩ := h.sound hp
    exact ⟨text, (hL _ _).mp htext, hinput⟩
  complete ha := h.complete ((hL _ _).mpr ha)
  answers := h.answers

/-- The input is taken to its end exactly if it is in the language. -/
theorem accepts_iff {input : List τ} {a : α} (h : Recognizes n p L F) (hend : F [])
    (hlength : input.length < n) : p input = some (some (a, [])) ↔ L a input := by
  constructor
  · intro hp
    obtain ⟨text, htext, rfl⟩ := h.sound hp
    rwa [List.append_nil]
  · intro ha
    have hcomplete := h.complete ha hend (by rwa [List.append_nil])
    rwa [List.append_nil] at hcomplete

theorem mapValue {f : α → β} (h : Recognizes n p L F) :
    Recognizes n (mapValue f p) (fun b text => ∃ a, L a text ∧ f a = b) F where
  sound hp := by
    obtain ⟨result, hresult, heq⟩ := Option.map_eq_some_iff.mp hp
    obtain ⟨⟨a, rest⟩, rfl, hpair⟩ := Option.map_eq_some_iff.mp heq
    obtain ⟨rfl, rfl⟩ := Prod.mk.inj hpair
    obtain ⟨text, htext, hinput⟩ := h.sound hresult
    exact ⟨text, ⟨a, htext, rfl⟩, hinput⟩
  complete := by
    rintro b text rest ⟨a, ha, rfl⟩ hrest hlength
    simp only [Descent.mapValue, h.complete ha hrest hlength, Option.map_some]
  answers hlength := by
    simpa [Descent.mapValue] using h.answers hlength

theorem seq (hp : Recognizes n p L F) (hq : Recognizes n q M G)
    (hfollow : ∀ {b text rest}, M b text → G rest → F (text ++ rest)) :
    Recognizes n (seq p q) (fun value text =>
      ∃ first second, L value.1 first ∧ M value.2 second ∧ text = first ++ second) G where
  sound := by
    rintro input ⟨a, b⟩ rest h
    match hmid : p input with
    | none => simp [Descent.seq, hmid] at h
    | some none => simp [seq_of_fails hmid] at h
    | some (some (a', mid)) =>
      rw [seq_of_takes hmid] at h
      obtain ⟨b', hb, hpair⟩ := map_pair_eq_some_iff.mp h
      obtain ⟨rfl, rfl⟩ := Prod.mk.inj hpair
      obtain ⟨first, hfirst, rfl⟩ := hp.sound hmid
      obtain ⟨second, hsecond, rfl⟩ := hq.sound hb
      exact ⟨first ++ second, ⟨first, second, hfirst, hsecond, rfl⟩, by rw [List.append_assoc]⟩
  complete := by
    rintro ⟨a, b⟩ text rest ⟨first, second, hfirst, hsecond, rfl⟩ hrest hlength
    rw [List.append_assoc] at hlength ⊢
    have hshort : (second ++ rest).length < n := by
      rw [List.length_append] at hlength
      omega
    rw [seq_of_takes (hp.complete hfirst (hfollow hsecond hrest) hlength),
      hq.complete hsecond hrest hshort]
    rfl
  answers := by
    intro input hlength h
    match hmid : p input with
    | none => exact hp.answers hlength hmid
    | some none => simp [seq_of_fails hmid] at h
    | some (some (a, mid)) =>
      obtain ⟨first, -, rfl⟩ := hp.sound hmid
      rw [seq_of_takes hmid, Option.map_eq_none_iff] at h
      rw [List.length_append] at hlength
      exact hq.answers (by omega) h

theorem alt {q : Parser τ α} {M : Lang τ α} (hp : Recognizes n p L F) (hq : Recognizes n q M F)
    (hfail : ∀ {b text rest}, M b text → p (text ++ rest) = some none) :
    Recognizes n (alt p q) (fun a text => L a text ∨ M a text) F where
  sound := by
    intro input a rest h
    match hp' : p input with
    | none => simp [Descent.alt, hp'] at h
    | some none =>
      simp only [Descent.alt, hp', Option.bind_some] at h
      obtain ⟨text, htext, hinput⟩ := hq.sound h
      exact ⟨text, .inr htext, hinput⟩
    | some (some result) =>
      simp only [Descent.alt, hp', Option.bind_some] at h
      obtain ⟨text, htext, hinput⟩ := hp.sound (hp'.trans h)
      exact ⟨text, .inl htext, hinput⟩
  complete := by
    rintro a text rest (ha | ha) hrest hlength
    · rw [Descent.alt, hp.complete ha hrest hlength]
      rfl
    · rw [Descent.alt, hfail ha, Option.bind_some, hq.complete ha hrest hlength]
  answers := by
    intro input hlength h
    match hp' : p input with
    | none => exact hp.answers hlength hp'
    | some none =>
      simp only [Descent.alt, hp', Option.bind_some] at h
      exact hq.answers hlength h
    | some (some result) => simp [Descent.alt, hp'] at h

/-- A literal in front takes one element off, so there is an answer for inputs one
longer. -/
theorem litThen [DecidableEq τ] (c : τ) (hp : Recognizes n p L F) :
    Recognizes (n + 1) (litThen c p) (Behind c L) F where
  sound := by
    intro input a rest h
    match input with
    | [] => simp [Descent.litThen] at h
    | d :: input =>
      by_cases hd : d = c
      · rw [hd, litThen_cons] at h
        obtain ⟨text, htext, rfl⟩ := hp.sound h
        exact ⟨c :: text, ⟨text, htext, rfl⟩, by rw [hd, List.cons_append]⟩
      · have hhead : (d :: input).head? ≠ some c := fun hhead => hd (Option.some.inj hhead)
        rw [litThen_of_head hhead] at h
        exact absurd h nofun
  complete := by
    rintro a text rest ⟨inner, hinner, rfl⟩ hrest hlength
    rw [List.cons_append, List.length_cons] at hlength
    rw [List.cons_append, litThen_cons]
    exact hp.complete hinner hrest (by omega)
  answers := by
    intro input hlength
    match input with
    | [] => exact nofun
    | d :: input =>
      rw [List.length_cons] at hlength
      by_cases hd : d = c
      · rw [hd, litThen_cons]
        exact hp.answers (by omega)
      · have hhead : (d :: input).head? ≠ some c := fun hhead => hd (Option.some.inj hhead)
        rw [litThen_of_head hhead]
        exact nofun

/-- A literal behind asks nothing of what follows it. -/
theorem thenLit [DecidableEq τ] {c : τ} (hp : Recognizes n p L F) (hF : ∀ rest, F (c :: rest)) :
    Recognizes n (thenLit p c) (fun a text => ∃ inner, L a inner ∧ text = inner ++ [c])
      (fun _ => True) where
  sound := by
    intro input a rest h
    obtain ⟨answer, hanswer, h⟩ := Option.map_eq_some_iff.mp h
    match answer, h with
    | some (a', d :: rest'), h =>
      have h : (if d = c then some (a', rest') else none) = some (a, rest) := h
      obtain ⟨rfl, hpair⟩ := Option.ite_none_right_eq_some.mp h
      obtain ⟨rfl, rfl⟩ := Prod.mk.inj (Option.some.inj hpair)
      obtain ⟨inner, hinner, rfl⟩ := hp.sound hanswer
      exact ⟨inner ++ [d], ⟨inner, hinner, rfl⟩, by simp⟩
  complete := by
    rintro a text rest ⟨inner, hinner, rfl⟩ - hlength
    rw [List.append_assoc, List.singleton_append] at hlength ⊢
    rw [Descent.thenLit, hp.complete hinner (hF rest) hlength]
    simp
  answers := by
    intro input hlength h
    exact hp.answers hlength (Option.map_eq_none_iff.mp h)

theorem star_sound (hp : Recognizes n p L F) {m : ℕ} {input rest : List τ} {values : List α}
    (h : Descent.star m p input = some (some (values, rest))) :
    ∃ text, Repeats L values text ∧ input = text ++ rest := by
  induction m generalizing input values with
  | zero => exact absurd h nofun
  | succ m ih =>
    match hmid : p input with
    | none => simp [Descent.star, hmid] at h
    | some none =>
      rw [star_of_fails hmid] at h
      obtain ⟨rfl, rfl⟩ := Prod.mk.inj (Option.some.inj (Option.some.inj h))
      exact ⟨[], .nil, rfl⟩
    | some (some (a, mid)) =>
      rw [star_of_takes hmid] at h
      obtain ⟨values', hvalues, rfl⟩ := map_pair_eq_some_iff.mp h
      obtain ⟨first, hfirst, rfl⟩ := hp.sound hmid
      obtain ⟨more, hmore, rfl⟩ := ih hvalues
      exact ⟨first ++ more, .cons hfirst hmore, by rw [List.append_assoc]⟩

/-- Each round takes at least one element off, so the rounds do not run out. -/
theorem star_complete (hp : Recognizes n p L F) (hne : ∀ {a text}, L a text → text ≠ [])
    (hnext : ∀ {values text rest}, Repeats L values text → G rest → F (text ++ rest))
    (hstop : ∀ {rest}, G rest → p rest = some none) {m : ℕ} (hm : m ≤ n) {values : List α}
    {text rest : List τ} (hvalues : Repeats L values text) (hrest : G rest)
    (hlength : (text ++ rest).length < m) :
    Descent.star m p (text ++ rest) = some (some (values, rest)) := by
  induction hvalues generalizing m with
  | nil =>
    obtain ⟨m, rfl⟩ := Nat.exists_eq_succ_of_ne_zero (Nat.ne_of_gt (Nat.zero_lt_of_lt hlength))
    exact star_of_fails (hstop hrest) m
  | cons hfirst hmore ih =>
    obtain ⟨m, rfl⟩ := Nat.exists_eq_succ_of_ne_zero (Nat.ne_of_gt (Nat.zero_lt_of_lt hlength))
    -- The text taken is not empty, so what is left is shorter than the fuel left.
    have hpos := List.length_pos_of_ne_nil (hne hfirst)
    rw [List.append_assoc] at hlength ⊢
    have htakes := hp.complete hfirst (hnext hmore hrest) (Nat.lt_of_lt_of_le hlength hm)
    rw [List.length_append] at hlength
    rw [star_of_takes htakes, ih (Nat.le_of_succ_le hm) (by omega)]
    rfl

theorem star_answers (hp : Recognizes n p L F) (hne : ∀ {a text}, L a text → text ≠ [])
    {m : ℕ} (hm : m ≤ n) {input : List τ} (hlength : input.length < m) :
    Descent.star m p input ≠ none := by
  induction m generalizing input with
  | zero => exact absurd hlength (Nat.not_lt_zero _)
  | succ m ih =>
    intro h
    match hmid : p input with
    | none => exact hp.answers (Nat.lt_of_lt_of_le hlength hm) hmid
    | some none => simp [star_of_fails hmid] at h
    | some (some (a, mid)) =>
      obtain ⟨first, hfirst, rfl⟩ := hp.sound hmid
      have hpos := List.length_pos_of_ne_nil (hne hfirst)
      rw [star_of_takes hmid, Option.map_eq_none_iff] at h
      rw [List.length_append] at hlength
      exact ih (Nat.le_of_succ_le hm) (by omega) h

/-- Repetition goes on until the parser fails. -/
theorem star_longest (hp : Recognizes n p L F) (hne : ∀ {a text}, L a text → text ≠ [])
    {m : ℕ} (hm : m ≤ n) {input : List τ} (hlength : input.length < m) :
    ∃ values text rest, Descent.star m p input = some (some (values, rest)) ∧
      Repeats L values text ∧ input = text ++ rest ∧ p rest = some none := by
  induction m generalizing input with
  | zero => exact absurd hlength (Nat.not_lt_zero _)
  | succ m ih =>
    match hmid : p input with
    | none => exact absurd hmid (hp.answers (Nat.lt_of_lt_of_le hlength hm))
    | some none => exact ⟨[], [], input, star_of_fails hmid m, .nil, rfl, hmid⟩
    | some (some (a, mid)) =>
      obtain ⟨first, hfirst, rfl⟩ := hp.sound hmid
      have hpos := List.length_pos_of_ne_nil (hne hfirst)
      rw [List.length_append] at hlength
      obtain ⟨values, text, rest, hstar, hrepeats, rfl, hstops⟩ :=
        ih (Nat.le_of_succ_le hm) (by omega : mid.length < m)
      refine ⟨a :: values, first ++ text, rest, ?_, .cons hfirst hrepeats, ?_, hstops⟩
      · rw [star_of_takes hmid, hstar]
        rfl
      · rw [List.append_assoc]

/-- Repetition takes one text after the other, where `F` holds in front of every
further one, and ends where the parser fails. -/
theorem star (hp : Recognizes n p L F) (hne : ∀ {a text}, L a text → text ≠ [])
    (hnext : ∀ {values text rest}, Repeats L values text → G rest → F (text ++ rest))
    (hstop : ∀ {rest}, G rest → p rest = some none) :
    Recognizes n (star n p) (Repeats L) G where
  sound := hp.star_sound
  complete := hp.star_complete hne hnext hstop (Nat.le_refl n)
  answers := hp.star_answers hne (Nat.le_refl n)

/-- A chain ends where neither a text of the language can be longer nor the
element between them follows. -/
theorem chain [DecidableEq τ] {c : τ} (hp : Recognizes n p L F) (hF : ∀ rest, F (c :: rest)) :
    Recognizes n (chain n c p) (Chained c L) (fun rest => F rest ∧ rest.head? ≠ some c) := by
  have hnext : ∀ {values text rest}, Repeats (Behind c L) values text →
      (F rest ∧ rest.head? ≠ some c) → F (text ++ rest) := by
    intro values text rest hvalues hrest
    cases hvalues with
    | nil => exact hrest.1
    | cons hfirst _ =>
      obtain ⟨inner, -, rfl⟩ := hfirst
      exact hF _
  have hne : ∀ {a text}, Behind c L a text → text ≠ [] := by
    rintro a text ⟨inner, -, rfl⟩
    exact List.cons_ne_nil c inner
  have hstar := star ((hp.litThen c).mono (Nat.le_succ n)) hne hnext
    fun hrest => litThen_of_head hrest.2
  exact hp.seq hstar hnext

end Recognizes

/-! ## More fuel -/

/-- `q` has every answer of `p`. -/
def Extends (p q : Parser τ α) : Prop :=
  ∀ ⦃input answer⦄, p input = some answer → q input = some answer

namespace Extends

variable {p p' : Parser τ α} {q q' : Parser τ β}

theorem refl (p : Parser τ α) : Extends p p := fun _ _ => id

theorem mapValue {f : α → β} (h : Extends p p') :
    Extends (mapValue f p) (Descent.mapValue f p') := by
  intro input answer hanswer
  obtain ⟨answer', hp, rfl⟩ := Option.map_eq_some_iff.mp hanswer
  exact Option.map_eq_some_iff.mpr ⟨answer', h hp, rfl⟩

theorem seq (hp : Extends p p') (hq : Extends q q') : Extends (seq p q) (Descent.seq p' q') := by
  intro input answer hanswer
  match hmid : p input with
  | none => simp [Descent.seq, hmid] at hanswer
  | some none =>
    rw [seq_of_fails hmid] at hanswer
    rw [seq_of_fails (hp hmid), hanswer]
  | some (some (a, mid)) =>
    rw [seq_of_takes hmid] at hanswer
    obtain ⟨answer', hq', rfl⟩ := Option.map_eq_some_iff.mp hanswer
    rw [seq_of_takes (hp hmid), hq hq', Option.map_some]

theorem alt {q q' : Parser τ α} (hp : Extends p p') (hq : Extends q q') :
    Extends (alt p q) (Descent.alt p' q') := by
  intro input answer hanswer
  obtain ⟨answer', hp', hthen⟩ := Option.bind_eq_some_iff.mp hanswer
  refine Option.bind_eq_some_iff.mpr ⟨answer', hp hp', ?_⟩
  match answer' with
  | none => exact hq hthen
  | some result => exact hthen

theorem litThen [DecidableEq τ] (c : τ) (h : Extends p p') :
    Extends (litThen c p) (Descent.litThen c p') := by
  intro input answer hanswer
  by_cases hhead : input.head? = some c
  · obtain ⟨rest, rfl⟩ := List.head?_eq_some_iff.mp hhead
    rw [litThen_cons] at hanswer ⊢
    exact h hanswer
  · rw [litThen_of_head hhead] at hanswer ⊢
    exact hanswer

theorem thenLit [DecidableEq τ] {c : τ} (h : Extends p p') :
    Extends (thenLit p c) (Descent.thenLit p' c) := by
  intro input answer hanswer
  obtain ⟨answer', hp, rfl⟩ := Option.map_eq_some_iff.mp hanswer
  exact Option.map_eq_some_iff.mpr ⟨answer', h hp, rfl⟩

theorem star (h : Extends p p') {m n : ℕ} (hmn : m ≤ n) :
    Extends (star m p) (Descent.star n p') := by
  induction m generalizing n with
  | zero => exact fun _ _ hanswer => absurd hanswer nofun
  | succ m ih =>
    obtain ⟨n, rfl⟩ := Nat.exists_eq_succ_of_ne_zero (Nat.ne_of_gt (Nat.zero_lt_of_lt hmn))
    intro input answer hanswer
    match hmid : p input with
    | none => simp [Descent.star, hmid] at hanswer
    | some none =>
      rw [star_of_fails hmid] at hanswer
      rw [star_of_fails (h hmid), hanswer]
    | some (some (a, mid)) =>
      rw [star_of_takes hmid] at hanswer
      obtain ⟨answer', hstar, rfl⟩ := Option.map_eq_some_iff.mp hanswer
      rw [star_of_takes (h hmid), ih (Nat.le_of_succ_le_succ hmn) hstar, Option.map_some]

theorem chain [DecidableEq τ] {c : τ} (h : Extends p p') {m n : ℕ} (hmn : m ≤ n) :
    Extends (chain m c p) (Descent.chain n c p') :=
  h.seq ((h.litThen c).star hmn)

end Extends

end Descent
