import BoostProjects.Cpp.Str
import BoostProjects.Library.Lists
import Mathlib.Algebra.Ring.Nat
import Mathlib.Data.List.TakeWhile

/-!
# Input streams

A `std::istream` is the characters of its buffer that have not been read, and its
state. An extraction from a stream that is not good fails, and reads nothing; one
that reaches the end of the buffer remembers that.
-/

namespace BoostProjects.Cpp

/-- `std::isspace` in the C locale. -/
def isSpace (c : Char) : Bool :=
  c = ' ' || c = '\t' || c = '\n' || c = '\x0b' || c = '\x0c' || c = '\r'

/-- A digit is no white space. -/
theorem isSpace_eq_false_of_isDigit {c : Char} (h : c.isDigit) : isSpace c = false := by
  by_contra hspace
  rw [Bool.not_eq_false, isSpace] at hspace
  simp only [Bool.or_eq_true, decide_eq_true_eq] at hspace
  rcases hspace with ((((rfl | rfl) | rfl) | rfl) | rfl) | rfl <;> exact absurd h (by decide)

/-- A `std::istream` on a buffer: what is left of it, and the state. -/
structure Istream where
  /-- The characters of the buffer that have not been read. -/
  unread : Str
  eof : Bool := false
  fail : Bool := false
  deriving DecidableEq, Repr

namespace Istream

/-- `stream.good()` -/
def good (stream : Istream) : Bool := !stream.eof && !stream.fail

/-- The beginning of a formatted extraction: white space is skipped. -/
def sentry (stream : Istream) : Istream :=
  if stream.eof || stream.fail then { stream with fail := true }
  else
    let unread := stream.unread.dropWhile isSpace
    { unread, eof := unread.isEmpty, fail := unread.isEmpty }

/-- `stream >> s`, for an empty string `s`. -/
def extractString (stream : Istream) : Str × Istream :=
  let stream := stream.sentry
  if stream.fail then ([], stream)
  else
    let rest := stream.unread.dropWhile fun c => !isSpace c
    (stream.unread.takeWhile fun c => !isSpace c, { unread := rest, eof := rest.isEmpty })

/-- The value of a string of decimal digits. -/
def decimal (digits : Str) : ℕ :=
  digits.foldl (fun value c => 10 * value + (c.toNat - '0'.toNat)) 0

/-- The sign before a number, whether it is a minus, and what follows it. -/
def splitSign : Str → Bool × Str
  | '-' :: unsigned => (true, unsigned)
  | '+' :: unsigned => (false, unsigned)
  | unsigned => (false, unsigned)

/-- `stream >> n`, for an `unsigned int` `n`. What has a minus sign is negated, and
what is too large is a failure that stores the largest value. A sign is read even if no
digit follows it. -/
def extractUnsigned (stream : Istream) : ℕ × Istream :=
  let stream := stream.sentry
  -- Nothing is stored then, but the stream has failed.
  if stream.fail then (0, stream)
  else
    let (negative, unsigned) := splitSign stream.unread
    let digits := unsigned.takeWhile Char.isDigit
    let rest := unsigned.dropWhile Char.isDigit
    let stream := { unread := rest, eof := rest.isEmpty }
    if digits = [] then (0, { stream with fail := true })
    else if 2 ^ 32 ≤ decimal digits then (2 ^ 32 - 1, { stream with fail := true })
    else if negative then ((2 ^ 32 - decimal digits) % 2 ^ 32, stream)
    else (decimal digits, stream)

/-- `std::getline(stream, line)` -/
def getline (stream : Istream) : Str × Istream :=
  -- The string is then left as it was.
  if stream.eof || stream.fail then ([], { stream with fail := true })
  else
    let line := stream.unread.takeWhile (· ≠ '\n')
    match stream.unread.dropWhile (· ≠ '\n') with
    | [] => (line, { unread := [], eof := true, fail := line.isEmpty })
    | _ :: rest => (line, { unread := rest })

/-! ## Reading a number -/

theorem splitSign_of_isDigit {text : Str} (h : ∀ c ∈ text.head?, c.isDigit) :
    splitSign text = (false, text) := by
  unfold splitSign
  split
  · exact absurd (h '-' rfl) (by decide)
  · exact absurd (h '+' rfl) (by decide)
  · rfl

/-- What an extraction leaves of a buffer. -/
theorem unread_extractUnsigned (buffer : Str) :
    (extractUnsigned { unread := buffer }).2.unread =
      (splitSign (buffer.dropWhile isSpace)).2.dropWhile Char.isDigit := by
  cases htext : buffer.dropWhile isSpace with
  | nil => simp [extractUnsigned, sentry, htext, splitSign]
  | cons c text =>
    simp only [extractUnsigned, sentry, htext, Bool.or_self, Bool.false_eq_true, if_false,
      List.isEmpty_cons]
    split_ifs <;> rfl

/-- White space in front of a number is skipped. -/
theorem extractUnsigned_cons {c : Char} (hc : isSpace c = true) (buffer : Str) :
    extractUnsigned { unread := c :: buffer } = extractUnsigned { unread := buffer } := by
  have hsentry : sentry { unread := c :: buffer } = sentry { unread := buffer } := by
    simp only [sentry, List.dropWhile_cons_of_pos hc]
    rfl
  rw [extractUnsigned, hsentry, extractUnsigned]

/-- Digits at the front are read up to what follows them. -/
theorem extractUnsigned_digits {digits rest : Str} (hdigits : ∀ c ∈ digits, c.isDigit = true)
    (hne : digits ≠ []) (hrest : ∀ c ∈ rest.head?, c.isDigit = false) :
    extractUnsigned { unread := digits ++ rest } =
      if 2 ^ 32 ≤ decimal digits then
        (2 ^ 32 - 1, { unread := rest, eof := rest.isEmpty, fail := true })
      else (decimal digits, { unread := rest, eof := rest.isEmpty }) := by
  obtain ⟨d, more, rfl⟩ := List.exists_cons_of_ne_nil hne
  have hd : d.isDigit = true := hdigits d List.mem_cons_self
  have hskip : (d :: more ++ rest).dropWhile isSpace = d :: more ++ rest :=
    List.dropWhile_cons_of_neg (by rw [isSpace_eq_false_of_isDigit hd]; exact Bool.false_ne_true)
  have hsign : splitSign (d :: more ++ rest) = (false, d :: more ++ rest) :=
    splitSign_of_isDigit (by rintro c ⟨⟩; exact hd)
  have hsentry : sentry { unread := d :: more ++ rest } = { unread := d :: more ++ rest } := by
    simp only [sentry, hskip]
    rfl
  rw [extractUnsigned, hsentry]
  simp only [hsign, Lists.takeWhile_span hdigits hrest, Lists.dropWhile_span hdigits hrest]
  rfl

/-! ## Reading what is there -/

theorem extractString_word {word : Str} (hne : word ≠ []) (hword : ∀ c ∈ word, isSpace c = false)
    {space : Char} (hspace : isSpace space = true) (rest : Str) :
    extractString { unread := word ++ space :: rest } = (word, { unread := space :: rest }) := by
  have hskip : (word ++ space :: rest).dropWhile isSpace = word ++ space :: rest := by
    obtain ⟨c, word, rfl⟩ := List.exists_cons_of_ne_nil hne
    exact List.dropWhile_cons_of_neg (by simp [hword c List.mem_cons_self])
  have hall : ∀ c ∈ word, (!isSpace c) = true := by
    intro c hc
    rw [hword c hc]
    rfl
  have hend : ∀ c ∈ (space :: rest).head?, (!isSpace c) = false := by
    rintro c ⟨⟩
    rw [hspace]
    rfl
  simp [extractString, sentry, hskip, Lists.takeWhile_span hall hend,
    Lists.dropWhile_span hall hend]

theorem getline_append {line : Str} (hline : '\n' ∉ line) (rest : Str) :
    getline { unread := line ++ '\n' :: rest } = (line, { unread := rest }) := by
  have hall : ∀ c ∈ line, decide (c ≠ '\n') = true := by
    intro c hc
    exact decide_eq_true fun heq => hline (heq ▸ hc)
  have hend : ∀ c ∈ ('\n' :: rest).head?, decide (c ≠ '\n') = false := by
    rintro c ⟨⟩
    rfl
  rw [getline, Lists.takeWhile_span hall hend, Lists.dropWhile_span hall hend]
  rfl

/-- A line that is read makes the rest shorter. -/
theorem length_getline {stream : Istream} (h : stream.getline.2.fail = false) :
    stream.getline.2.unread.length < stream.unread.length := by
  rw [getline] at h ⊢
  by_cases hgood : (stream.eof || stream.fail) = true
  · rw [if_pos hgood] at h
    simp at h
  · rw [if_neg hgood] at h ⊢
    have hsplit := congrArg List.length
      (List.takeWhile_append_dropWhile (p := fun c => decide (c ≠ '\n')) (l := stream.unread))
    rw [List.length_append] at hsplit
    cases hdrop : stream.unread.dropWhile (· ≠ '\n') with
    | nil =>
      -- The last line has no end, but it has characters.
      simp only [hdrop, List.isEmpty_eq_false_iff] at h hsplit ⊢
      exact Nat.lt_of_lt_of_eq (List.length_pos_iff.mpr h) hsplit
    | cons c rest =>
      simp only [hdrop, List.length_cons] at hsplit ⊢
      omega

end Istream

end BoostProjects.Cpp
