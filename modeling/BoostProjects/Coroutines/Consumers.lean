import BoostProjects.Coroutines.Incremental
import BoostProjects.Coroutines.TokenParser

/-!
# The loops that print the parsers' items

Both demos print what their parser yields with `operator<<` of a `const char *`,
which takes a pointer and no length: it writes the bytes up to the first NUL. An
item is a slice with its own size and no terminator, so what is printed goes on
behind it.

The loop has to read the NUL to stop, and a NUL inside the slice cuts the text
short: `insert_text_iff` and `insert_reads_iff` show that no slice has its exact
text printed by reads of its own bytes alone.
-/

namespace BoostProjects.Coroutines

/-! ## The program -/

/-- What `operator<<` does with a `const char *` into an array: the bytes it
writes, `none` where it reads on past the end of the array, and the offsets of
the bytes it reads. -/
structure Insertion where
  text : Option (List Int8)
  reads : List ℕ
  deriving DecidableEq, Repr

/-- `operator<<` at the offset `pos`, with `input` the array from there on. -/
def insert : List Int8 → ℕ → Insertion
  | [], pos => { text := none, reads := [pos] }
  | c :: input, pos =>
    if c = 0 then
      { text := some [], reads := [pos] }
    else
      { text := (insert input (pos + 1)).text.map (c :: ·)
        reads := pos :: (insert input (pos + 1)).reads }

/-- `'\n'` -/
def newline : Int8 := 10

/-- One line of a consumer: what it writes first, the bytes that a pointer to the
offset `pos` gives, and a newline. -/
def printLine (start array : List Int8) (pos : ℕ) : Insertion where
  text := (insert (array.drop pos) pos).text.map fun text => start ++ text ++ [newline]
  reads := (insert (array.drop pos) pos).reads

/-- `token_parser::run` on the array `data`: each token with its line. The parser
gets all bytes of the array but the last. -/
def TokenParser.run (fuel : ℕ) (data : List Int8) : Option (List (Token × Insertion)) :=
  (tokenParser fuel data (data.length - 1)).map
    (List.map fun token => (token, printLine [] data token.data))

/-- What the loop over messages writes before the payload: the type and a space. -/
def BinaryParser.Message.start (message : BinaryParser.Message) : List Int8 :=
  [message.type.toInt8, TokenParser.space]

/-- `binary_parser_demo::run` on the array `raw`: each message with its line. -/
def BinaryParser.run (fuel : ℕ) (raw : List Int8) : Option (List (Message × Insertion)) :=
  (binaryParser fuel raw (.ofNat raw.length)).map
    (List.map fun message => (message, printLine message.start raw message.payload.toNat))

/-! ## What is printed for a slice -/

/-- The exact line for a slice of the array. -/
def ExactText (start array : List Int8) (pos size : ℕ) (line : Insertion) : Prop :=
  line.text = some (start ++ (array.drop pos).take size ++ [newline])

/-- No byte outside the slice is read. -/
def ReadsInside (pos size : ℕ) (line : Insertion) : Prop :=
  ∀ offset ∈ line.reads, pos ≤ offset ∧ offset < pos + size

/-- The text is that of a slice exactly if the first NUL stands right behind it. -/
theorem insert_text_iff {slice rest : List Int8} {pos : ℕ} :
    (insert (slice ++ rest) pos).text = some slice ↔ 0 ∉ slice ∧ rest.head? = some 0 := by
  induction slice generalizing pos with
  | nil =>
    cases rest with
    | nil => simp [insert]
    | cons c rest => by_cases hc : c = 0 <;> simp [insert, hc]
  | cons c slice ih =>
    by_cases hc : c = 0
    · simp [insert, hc]
    · have hmap : (insert (c :: slice ++ rest) pos).text = some (c :: slice) ↔
          (insert (slice ++ rest) (pos + 1)).text = some slice := by
        simp [insert, hc]
      rw [hmap, ih, List.mem_cons, not_or]
      simp [Ne.symm hc]

theorem le_of_mem_reads {input : List Int8} {pos : ℕ} :
    ∀ offset ∈ (insert input pos).reads, pos ≤ offset := by
  induction input generalizing pos with
  | nil => simp [insert]
  | cons c input ih =>
    by_cases hc : c = 0
    · simp [insert, hc]
    · simp only [insert, if_neg hc]
      refine List.forall_mem_cons.mpr ⟨Nat.le_refl pos, fun offset hoffset => ?_⟩
      exact Nat.le_of_succ_le (ih offset hoffset)

theorem mem_reads (input : List Int8) (pos : ℕ) : pos ∈ (insert input pos).reads := by
  cases input with
  | nil => simp [insert]
  | cons c input => by_cases hc : c = 0 <;> simp [insert, hc]

/-- The reads stay inside a slice exactly if it has a NUL to stop at. -/
theorem insert_reads_iff {slice rest : List Int8} {pos : ℕ} :
    ReadsInside pos slice.length (insert (slice ++ rest) pos) ↔ 0 ∈ slice := by
  induction slice generalizing pos with
  | nil =>
    refine iff_of_false (fun h => ?_) List.not_mem_nil
    have hpos := (h pos (mem_reads _ pos)).2
    exact Nat.lt_irrefl _ hpos
  | cons c slice ih =>
    by_cases hc : c = 0
    · simp [ReadsInside, insert, hc]
    · have hmem : 0 ∈ c :: slice ↔ 0 ∈ slice := by simp [Ne.symm hc]
      rw [hmem, ← @ih (pos + 1)]
      simp only [ReadsInside, List.cons_append, insert, if_neg hc, List.length_cons,
        List.forall_mem_cons]
      constructor
      · rintro ⟨-, h⟩ offset hoffset
        have hle := le_of_mem_reads offset hoffset
        have hlt := (h offset hoffset).2
        omega
      · refine fun h => ⟨by omega, fun offset hoffset => ?_⟩
        have hbounds := h offset hoffset
        omega

section Line

variable {start array : List Int8} {pos size : ℕ}

/-- The array from `pos` on, as the slice and what stands behind it. -/
theorem drop_eq_slice (h : pos + size ≤ array.length) :
    ∃ slice, slice = (array.drop pos).take size ∧ slice.length = size ∧
      array.drop pos = slice ++ array.drop (pos + size) := by
  refine ⟨_, rfl, ?_, ?_⟩
  · rw [List.length_take, List.length_drop]
    omega
  · rw [← List.drop_drop, List.take_append_drop]

theorem exactText_printLine_iff (h : pos + size ≤ array.length) :
    ExactText start array pos size (printLine start array pos) ↔
      0 ∉ (array.drop pos).take size ∧ array[pos + size]? = some 0 := by
  obtain ⟨slice, hslice, -, hdrop⟩ := drop_eq_slice h
  have hhead : array[pos + size]? = (array.drop (pos + size)).head? := by
    rw [List.head?_drop]
  have hline : ExactText start array pos size (printLine start array pos) ↔
      (insert (slice ++ array.drop (pos + size)) pos).text = some slice := by
    rw [ExactText, printLine, ← hslice, hdrop]
    simp
  rw [hline, insert_text_iff, hhead, ← hslice]

theorem readsInside_printLine_iff (h : pos + size ≤ array.length) :
    ReadsInside pos size (printLine start array pos) ↔ 0 ∈ (array.drop pos).take size := by
  obtain ⟨slice, hslice, rfl, hdrop⟩ := drop_eq_slice h
  rw [← hslice, ← insert_reads_iff, ← hdrop]
  rfl

/-- An exact text needs a slice without a NUL, reads inside the slice one with a
NUL. -/
theorem not_exactText_and_readsInside (h : pos + size ≤ array.length) :
    ¬ (ExactText start array pos size (printLine start array pos) ∧
      ReadsInside pos size (printLine start array pos)) := by
  rw [exactText_printLine_iff h, readsInside_printLine_iff h]
  rintro ⟨⟨hnot, -⟩, hmem⟩
  exact hnot hmem

end Line

/-! ## The two loops -/

/-- Every token of the array has its exact line printed, by reads of its own
bytes alone. -/
def TokenParser.RendersSlices (data : List Int8) : Prop :=
  ∃ items, (∀ fuel, data.length ≤ fuel → run fuel data = some items) ∧
    ∀ item ∈ items, ExactText [] data item.1.data item.1.size item.2 ∧
      ReadsInside item.1.data item.1.size item.2

/-- The same for the messages of the array. -/
def BinaryParser.RendersSlices (raw : List Int8) : Prop :=
  ∃ items, (∀ fuel, raw.length < fuel → run fuel raw = some items) ∧
    ∀ item ∈ items,
      ExactText item.1.start raw item.1.payload.toNat item.1.size.toNat item.2 ∧
      ReadsInside item.1.payload.toNat item.1.size.toNat item.2

/-- The run over an array is a line for each token, a slice of the array. -/
theorem TokenParser.run_eq {data : List Int8} (hdata : data ≠ []) :
    ∃ tokens, (∀ fuel, data.length ≤ fuel → run fuel data =
        some (tokens.map fun token => (token, printLine [] data token.data))) ∧
      (∀ token ∈ tokens, token.data + token.size ≤ data.length) ∧
      (tokens = [] ↔ data.length = 1) := by
  have hpos := List.length_pos_of_ne_nil hdata
  obtain ⟨tokens, hparser, hsliced, hwords⟩ := tokenParser_words (Nat.sub_le data.length 1)
  refine ⟨tokens, fun fuel hfuel => ?_, fun token htoken => ?_, ?_⟩
  · rw [run, hparser fuel (by omega)]
    rfl
  · have hinside := hsliced.inside token htoken
    omega
  · rw [← @List.map_eq_nil_iff _ _ (Token.content data), hwords, Lines.words_eq_nil_iff,
      ← List.length_eq_zero_iff, List.length_take]
    omega

/-- The run over an array is a line for each message, its payload a slice of the
array. -/
theorem BinaryParser.run_eq {raw : List Int8} (hraw : raw.length ≤ 2 ^ 63 - 1) :
    ∃ messages, (∀ fuel, raw.length < fuel → run fuel raw =
        some (messages.map fun message =>
          (message, printLine message.start raw message.payload.toNat))) ∧
      (∀ message ∈ messages, message.payload.toNat + message.size.toNat ≤ raw.length) ∧
      (messages = [] ↔ Incomplete raw) := by
  obtain ⟨frames, rest, hdecodes⟩ := messageCode.exists_decodes raw
  obtain ⟨messages, hparser, hdenotes⟩ := binaryParser_decodes hraw hdecodes
  refine ⟨messages, fun fuel hfuel => ?_, inside_of_denotes hdenotes, ?_⟩
  · rw [run, hparser fuel hfuel]
    rfl
  · rw [← split_eq_none_iff]
    constructor
    · rintro rfl
      obtain rfl := List.forall₂_nil_left_iff.mp hdenotes
      obtain ⟨hbuf, hnone⟩ := FrameCode.decodes_iff.mp hdecodes
      rw [FrameCode.encodeAll_nil, List.nil_append] at hbuf
      exact hbuf ▸ hnone
    · intro hnone
      obtain ⟨rfl, -⟩ := hdecodes.unique (.stop hnone)
      exact List.forall₂_nil_right_iff.mp hdenotes

/-- A run of which no line is good is good exactly if it has no line. -/
theorem exists_run_iff {ι κ : Type*} {run : ℕ → Option (List κ)} {bound : ℕ} {items : List ι}
    {line : ι → κ} {good : κ → Prop}
    (hrun : ∀ fuel, bound ≤ fuel → run fuel = some (items.map line))
    (hgood : ∀ item ∈ items, ¬ good (line item)) :
    (∃ lines, (∀ fuel, bound ≤ fuel → run fuel = some lines) ∧ ∀ line ∈ lines, good line) ↔
      items = [] := by
  constructor
  · rintro ⟨lines, hrun', hall⟩
    obtain rfl := Option.some.inj
      ((hrun' _ (Nat.le_refl _)).symm.trans (hrun _ (Nat.le_refl _)))
    refine List.eq_nil_iff_forall_not_mem.mpr fun item hitem => ?_
    exact hgood item hitem (hall _ (List.mem_map_of_mem hitem))
  · rintro rfl
    exact ⟨[], hrun, by simp⟩

/-- **No item is printed as the slice it is.** So the loops print what they were
given exactly for the arrays that hold no item. The text of an item is right when
its slice has no NUL and one follows it, and the reads stay inside when the slice
has one. -/
theorem consumers_exact (data raw : List Int8) (hdata : data ≠ [])
    (hraw : raw.length ≤ 2 ^ 63 - 1) :
    (TokenParser.RendersSlices data ↔ data.length = 1) ∧
    (BinaryParser.RendersSlices raw ↔ BinaryParser.Incomplete raw) ∧
    (∃ items, (∀ fuel, data.length ≤ fuel → TokenParser.run fuel data = some items) ∧
      ∀ item ∈ items,
        (ExactText [] data item.1.data item.1.size item.2 ↔
          0 ∉ item.1.content data ∧ data[item.1.data + item.1.size]? = some 0) ∧
        (ReadsInside item.1.data item.1.size item.2 ↔ 0 ∈ item.1.content data)) ∧
    ∃ items, (∀ fuel, raw.length < fuel → BinaryParser.run fuel raw = some items) ∧
      ∀ item ∈ items,
        (ExactText item.1.start raw item.1.payload.toNat item.1.size.toNat item.2 ↔
          0 ∉ item.1.content raw ∧
            raw[item.1.payload.toNat + item.1.size.toNat]? = some 0) ∧
        (ReadsInside item.1.payload.toNat item.1.size.toNat item.2 ↔
          0 ∈ item.1.content raw) := by
  obtain ⟨tokens, htokens, hinside, hnil⟩ := TokenParser.run_eq hdata
  obtain ⟨messages, hmessages, hinside', hnil'⟩ := BinaryParser.run_eq hraw
  refine ⟨?_, ?_, ⟨_, htokens, ?_⟩, ⟨_, hmessages, ?_⟩⟩
  · rw [← hnil]
    exact exists_run_iff htokens fun token htoken =>
      not_exactText_and_readsInside (hinside token htoken)
  · rw [← hnil']
    exact exists_run_iff hmessages fun message hmessage =>
      not_exactText_and_readsInside (hinside' message hmessage)
  · refine List.forall_mem_map.mpr fun token htoken => ?_
    exact ⟨exactText_printLine_iff (hinside token htoken),
      readsInside_printLine_iff (hinside token htoken)⟩
  · refine List.forall_mem_map.mpr fun message hmessage => ?_
    exact ⟨exactText_printLine_iff (hinside' message hmessage),
      readsInside_printLine_iff (hinside' message hmessage)⟩

/-- The array `data` of the demo: its text and the NUL of the literal. -/
def TokenParser.data : List Int8 := text ++ [0]

theorem consumers_exact_demo :
    (TokenParser.RendersSlices TokenParser.data ↔ TokenParser.data.length = 1) ∧
    (BinaryParser.RendersSlices BinaryParser.raw ↔
      BinaryParser.Incomplete BinaryParser.raw) :=
  have h := consumers_exact TokenParser.data BinaryParser.raw (by decide) (by decide)
  ⟨h.1, h.2.1⟩

/-- The demos print the rest of the array for their first items: the first line is
the whole text, and the second array has no NUL to stop at. -/
theorem not_rendersSlices_demo :
    ¬ TokenParser.RendersSlices TokenParser.data ∧
      ¬ BinaryParser.RendersSlices BinaryParser.raw := by
  constructor
  · rintro ⟨items, hrun, hitems⟩
    have hfirst : (TokenParser.run 18 TokenParser.data).bind List.head? =
        some (⟨0, 3⟩, { text := some (TokenParser.text ++ [newline])
                        reads := List.range 18 }) := by decide
    rw [hrun 18 (by decide), Option.bind_some] at hfirst
    have htext := (hitems _ (List.mem_of_head? hfirst)).1
    revert htext
    unfold ExactText
    decide
  · rintro ⟨items, hrun, hitems⟩
    have hfirst : (BinaryParser.run 10 BinaryParser.raw).bind List.head? =
        some (⟨1, 2, 3⟩, { text := none, reads := [2, 3, 4, 5, 6, 7, 8, 9] }) := by decide
    rw [hrun 10 (by decide), Option.bind_some] at hfirst
    have htext := (hitems _ (List.mem_of_head? hfirst)).1
    revert htext
    unfold ExactText
    decide

end BoostProjects.Coroutines
