import BoostProjects.Library.Lines
import Mathlib.Data.List.Chain

/-!
# The token parser

`token_parser` yields the parts of a buffer between its spaces, as slices of the
buffer: one at each space, and after the loop what is left if it is not empty.
Its indices are `size_t`s that never pass `len`, so they are numbers here.

The tokens are the words of the buffer, which gives both directions: joined by
single spaces they are the buffer again, up to a space at its end, and the words
of a joined text are read back. `loop_words` carries the loop's two indices, one
at the start of the token and one at the end of the bytes looked at.
-/

namespace BoostProjects.Coroutines.TokenParser

open Lines

/-! ## The program -/

/-- `Token`, with its pointer as the distance from the start of the buffer. -/
structure Token where
  data : ℕ
  size : ℕ
  deriving DecidableEq, Repr

/-- `' '` -/
def space : Int8 := 32

/-- The tokens yielded from index `i` on, when the next one begins at `start`,
in at most `fuel` turns of the loop; `none` where they read outside the buffer. -/
def loop (buf : List Int8) (len : ℕ) : ℕ → ℕ → ℕ → Option (List Token)
  | 0, _, _ => none
  | fuel + 1, i, start =>
    if i < len then
      buf[i]?.bind fun c =>
        if c = space then
          (loop buf len fuel (i + 1) (i + 1)).map ({ data := start, size := i - start } :: ·)
        else
          loop buf len fuel (i + 1) start
    else if start < len then
      some [{ data := start, size := len - start }]
    else
      some []

/-- `token_parser`: the tokens it yields, when `fuel` turns of the loop are
enough and no turn reads outside the buffer. -/
def tokenParser (fuel : ℕ) (buf : List Int8) (len : ℕ) : Option (List Token) :=
  loop buf len fuel 0 0

/-- The bytes of a token. -/
def Token.content (buf : List Int8) (token : Token) : List Int8 :=
  (buf.drop token.data).take token.size

/-! ## The loop -/

/-- The token after `token` begins behind one space. -/
def Token.Next (buf : List Int8) (token next : Token) : Prop :=
  buf[token.data + token.size]? = some space ∧ next.data = token.data + token.size + 1

/-- The tokens are slices of the first `len` bytes of the buffer, one behind the
other from `start` on, with one space between any two. -/
structure Sliced (buf : List Int8) (len start : ℕ) (tokens : List Token) : Prop where
  inside : ∀ token ∈ tokens, token.data + token.size ≤ len
  head : ∀ token ∈ tokens.head?, token.data = start
  next : tokens.IsChain (Token.Next buf)

namespace Sliced

variable {buf : List Int8} {len start : ℕ}

theorem nil : Sliced buf len start [] := ⟨by simp, by simp, .nil⟩

theorem singleton {size : ℕ} (h : start + size ≤ len) :
    Sliced buf len start [{ data := start, size }] :=
  ⟨by simpa using h, by simp, .singleton _⟩

theorem cons {i : ℕ} {tokens : List Token} (hstart : start ≤ i) (hi : i < len)
    (hspace : buf[i]? = some space) (h : Sliced buf len (i + 1) tokens) :
    Sliced buf len start ({ data := start, size := i - start } :: tokens) := by
  have hend : start + (i - start) = i := Nat.add_sub_cancel' hstart
  refine ⟨?_, by simp, ?_⟩
  · refine List.forall_mem_cons.mpr ⟨?_, h.inside⟩
    simp only [hend]
    omega
  · refine h.next.cons fun next hnext => ⟨?_, ?_⟩
    · simpa only [hend] using hspace
    · simpa only [hend] using h.head next hnext

end Sliced

section Loop

variable {buf : List Int8} {len : ℕ}

/-- The bytes from `start` to `i` are `word`, the beginning of the next token. -/
theorem content_eq {i start : ℕ} {word : List Int8} (hlen : len ≤ buf.length) (hi : i ≤ len)
    (hstart : start ≤ i) (hword : (buf.take len).drop start = word ++ (buf.take len).drop i) :
    Token.content buf { data := start, size := i - start } = word := by
  have hlength := congrArg List.length hword
  rw [List.length_append, List.length_drop, List.length_drop, List.length_take_of_le hlen]
    at hlength
  have hsize : i - start = word.length := by omega
  have htake : ((buf.take len).drop start).take (i - start) =
      (buf.drop start).take (i - start) := by
    rw [List.drop_take, List.take_take, Nat.min_eq_left (by omega)]
  rw [Token.content, ← htake, hword, hsize, List.take_left]

/-- What is left after the loop is the last token. -/
theorem loop_end (hlen : len ≤ buf.length) {start : ℕ} (hstart : start ≤ len)
    (hmem : space ∉ (buf.take len).drop start) :
    ∃ tokens, (∀ fuel, 0 < fuel → loop buf len fuel len start = some tokens) ∧
      Sliced buf len start tokens ∧
      tokens.map (Token.content buf) = words space ((buf.take len).drop start) := by
  have hnone : (buf.take len).drop len = [] := by
    rw [List.drop_eq_nil_iff, List.length_take]
    omega
  rcases Nat.lt_or_ge start len with hlt | hge
  · have hcontent := content_eq hlen (Nat.le_refl len) hstart (by rw [hnone, List.append_nil])
    have hne : (buf.take len).drop start ≠ [] := by
      rw [ne_eq, List.drop_eq_nil_iff, List.length_take_of_le hlen]
      omega
    refine ⟨[{ data := start, size := len - start }], fun fuel hfuel => ?_,
      .singleton (by omega), ?_⟩
    · obtain ⟨fuel, rfl⟩ := Nat.exists_eq_succ_of_ne_zero (Nat.ne_of_gt hfuel)
      rw [loop, if_neg (Nat.lt_irrefl len), if_pos hlt]
    · rw [List.map_singleton, hcontent, words_of_notMem hmem hne]
  · refine ⟨[], fun fuel hfuel => ?_, .nil, ?_⟩
    · obtain ⟨fuel, rfl⟩ := Nat.exists_eq_succ_of_ne_zero (Nat.ne_of_gt hfuel)
      rw [loop, if_neg (Nat.lt_irrefl len), if_neg (Nat.not_lt.mpr hge)]
    · obtain rfl := Nat.le_antisymm hstart hge
      rw [hnone, words_nil, List.map_nil]

/-- From index `i` on, with `word` the bytes of the next token so far, the loop
yields the words of the buffer from that token on. -/
theorem loop_words (hlen : len ≤ buf.length) {i start : ℕ} {word : List Int8}
    (hstart : start ≤ i) (hi : i ≤ len) (hmem : space ∉ word)
    (hword : (buf.take len).drop start = word ++ (buf.take len).drop i) :
    ∃ tokens, (∀ fuel, len - i < fuel → loop buf len fuel i start = some tokens) ∧
      Sliced buf len start tokens ∧
      tokens.map (Token.content buf) = words space ((buf.take len).drop start) := by
  induction hleft : len - i generalizing i start word with
  | zero =>
    obtain rfl : i = len := by omega
    have hnone : (buf.take i).drop i = [] := by
      rw [List.drop_eq_nil_iff, List.length_take]
      omega
    rw [hnone, List.append_nil] at hword
    exact loop_end hlen hstart (hword ▸ hmem)
  | succ left ih =>
    have hlt : i < len := by omega
    have hbound : i < buf.length := by omega
    have hget : buf[i]? = some buf[i] := List.getElem?_eq_getElem hbound
    have hdrop : (buf.take len).drop i = buf[i] :: (buf.take len).drop (i + 1) := by
      rw [List.drop_eq_getElem_cons (by rw [List.length_take]; omega), List.getElem_take]
    by_cases hspace : buf[i] = space
    -- A space ends the token, and the next one begins behind it.
    · obtain ⟨tokens, hloop, hsliced, hwords⟩ :=
        ih (Nat.le_refl (i + 1)) hlt List.not_mem_nil (by simp) (by omega)
      refine ⟨{ data := start, size := i - start } :: tokens, fun fuel hfuel => ?_,
        hsliced.cons hstart hlt (hget.trans (congrArg some hspace)), ?_⟩
      · obtain ⟨fuel, rfl⟩ := Nat.exists_eq_succ_of_ne_zero (Nat.ne_of_gt (Nat.zero_lt_of_lt hfuel))
        rw [loop, if_pos hlt, hget, Option.bind_some, if_pos hspace, hloop fuel (by omega)]
        rfl
      · rw [List.map_cons, content_eq hlen hi hstart hword, hwords, hword, hdrop, hspace,
          words_cons hmem]
    -- Any other byte belongs to the token.
    · have hmem' : space ∉ word ++ [buf[i]] := by
        simpa [hmem] using fun h => hspace h.symm
      have hword' : (buf.take len).drop start =
          (word ++ [buf[i]]) ++ (buf.take len).drop (i + 1) := by
        rw [List.append_assoc, List.singleton_append, ← hdrop, hword]
      obtain ⟨tokens, hloop, hsliced, hwords⟩ :=
        ih (Nat.le_succ_of_le hstart) hlt hmem' hword' (by omega)
      refine ⟨tokens, fun fuel hfuel => ?_, hsliced, hwords⟩
      obtain ⟨fuel, rfl⟩ := Nat.exists_eq_succ_of_ne_zero (Nat.ne_of_gt (Nat.zero_lt_of_lt hfuel))
      rw [loop, if_pos hlt, hget, Option.bind_some, if_neg hspace, hloop fuel (by omega)]

end Loop

/-! ## The parser -/

/-- The tokens of the first `len` bytes of a buffer are their words. -/
theorem tokenParser_words {buf : List Int8} {len : ℕ} (hlen : len ≤ buf.length) :
    ∃ tokens, (∀ fuel, len < fuel → tokenParser fuel buf len = some tokens) ∧
      Sliced buf len 0 tokens ∧
      tokens.map (Token.content buf) = words space (buf.take len) :=
  loop_words hlen (Nat.le_refl 0) (Nat.zero_le len) List.not_mem_nil rfl

/-- **The parser is the inverse of joining with single spaces**, up to one space
at the end. The tokens of a buffer are slices of it in order, without spaces and
one space apart; joined they are the buffer, or the buffer without the space it
ends with. Texts without spaces, the last one not empty, are read back from the
text that joins them. -/
theorem tokenParser_exact (buf : List Int8) :
    (∃ tokens, (∀ fuel, buf.length < fuel → tokenParser fuel buf buf.length = some tokens) ∧
      (∀ token ∈ tokens, token.data + token.size ≤ buf.length ∧
        space ∉ token.content buf) ∧
      (∀ token ∈ tokens.head?, token.data = 0) ∧
      tokens.IsChain (fun token next => buf[token.data + token.size]? = some space ∧
        next.data = token.data + token.size + 1) ∧
      [space].intercalate (tokens.map (Token.content buf)) =
        (if buf.getLast? = some space then buf.dropLast else buf) ∧
      (buf = [] → tokens = [])) ∧
    ∀ texts : List (List Int8), texts ≠ [] → (∀ text ∈ texts, space ∉ text) →
      texts.getLast? ≠ some [] → buf = [space].intercalate texts →
      ∃ tokens, (∀ fuel, buf.length < fuel → tokenParser fuel buf buf.length = some tokens) ∧
        tokens.map (Token.content buf) = texts := by
  obtain ⟨tokens, hparser, hsliced, hwords⟩ := tokenParser_words (Nat.le_refl buf.length)
  rw [List.take_length] at hwords
  constructor
  · refine ⟨tokens, hparser, fun token htoken => ⟨hsliced.inside token htoken, ?_⟩,
      hsliced.head, hsliced.next, ?_, ?_⟩
    · have hcontent := List.mem_map_of_mem (f := Token.content buf) htoken
      exact notMem_of_mem_words _ (hwords ▸ hcontent)
    · rw [hwords, intercalate_words]
    · rintro rfl
      exact List.map_eq_nil_iff.mp (hwords.trans words_nil)
  · intro texts hne hmem hlast hbuf
    exact ⟨tokens, hparser, by rw [hwords, hbuf, words_intercalate hne hmem hlast]⟩

/-- `"FIX SIMPLE PARSER"`, the text of the demo. -/
def text : List Int8 := [70, 73, 88, 32, 83, 73, 77, 80, 76, 69, 32, 80, 65, 82, 83, 69, 82]

example : tokenParser 18 text 17 = some [⟨0, 3⟩, ⟨4, 6⟩, ⟨11, 6⟩] := by decide

end BoostProjects.Coroutines.TokenParser
