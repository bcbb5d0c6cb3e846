import BoostProjects.Coroutines.BinaryParser

/-!
# Parsing a stream of messages in parts

`binary_parser` breaks off at the first incomplete message. What it has then
taken up is the sum of `2 + size` over the messages it yielded, and the parser
can go on from there once more bytes have come in: the messages are those of the
whole buffer, wherever it was cut.

The argument is made on the format: `FrameCode.Decodes.append` puts two greedy
cuts together, and `parses_of_decodes` reads the parser off the cut.
-/

namespace BoostProjects.Coroutines.BinaryParser

/-- The parser yields `messages` on `buf`, given enough turns of its loop. -/
def Parses (buf : List Int8) (messages : List Message) : Prop :=
  ∀ fuel, buf.length < fuel → binaryParser fuel buf (.ofNat buf.length) = some messages

/-- The messages by content: each with its type and the bytes of its payload. -/
def contents (buf : List Int8) (messages : List Message) : List (UInt8 × List Int8) :=
  messages.map fun message => (message.type, message.content buf)

/-- How many bytes the messages take up, headers included. -/
def consumed (messages : List Message) : ℕ :=
  (messages.map fun message => 2 + message.size.toNat).sum

/-- The contents parsed from a stream that comes in chunks: each chunk goes behind
what the parser left of the chunks before it. -/
def feed : List Int8 → List (List Int8) → Option (List (UInt8 × List Int8))
  | _, [] => some []
  | carry, chunk :: chunks => do
    let buf := carry ++ chunk
    let messages ← binaryParser (buf.length + 1) buf (.ofNat buf.length)
    let later ← feed (buf.drop (consumed messages)) chunks
    return contents buf messages ++ later

theorem Parses.unique {buf : List Int8} {messages messages' : List Message}
    (h : Parses buf messages) (h' : Parses buf messages') : messages = messages' :=
  Option.some.inj ((h _ (Nat.lt_succ_self _)).symm.trans (h' _ (Nat.lt_succ_self _)))

section Cut

variable {buf rest : List Int8} {frames : List Frame}

theorem length_encode (frame : Frame) : frame.encode.length = 2 + frame.payload.length := by
  rw [Frame.encode, List.length_cons, List.length_cons]
  omega

theorem consumed_of_denotes {messages : List Message}
    (h : List.Forall₂ (Denotes buf) messages frames) :
    consumed messages = (messageCode.encodeAll frames).length := by
  induction h with
  | nil => rfl
  | cons hdenotes _ ih =>
    obtain ⟨-, -, hsize, -⟩ := hdenotes
    rw [consumed, List.map_cons, List.sum_cons, ← consumed, ih, hsize, FrameCode.encodeAll_cons,
      List.length_append]
    exact congrArg (· + _) (length_encode _).symm

/-- The parser read off the cut of its buffer: the contents are those of the
frames, and what it has not taken up is the rest. -/
theorem parses_of_decodes (hlen : buf.length ≤ 2 ^ 63 - 1)
    (h : messageCode.Decodes buf frames rest) :
    ∃ messages, Parses buf messages ∧
      contents buf messages = frames.map (fun frame => (frame.type, frame.payload)) ∧
      buf.drop (consumed messages) = rest := by
  obtain ⟨messages, hparses, hdenotes⟩ := binaryParser_decodes hlen h
  obtain ⟨hbuf, -⟩ := FrameCode.decodes_iff.mp h
  refine ⟨messages, hparses, map_content_of_denotes hdenotes, ?_⟩
  rw [consumed_of_denotes hdenotes, hbuf, List.drop_left]

/-- Parsing up to a cut and then on from what is left. -/
theorem parses_append {p s : List Int8} (hlen : (p ++ s).length ≤ 2 ^ 63 - 1) :
    ∃ first second whole, Parses p first ∧
      Parses (p.drop (consumed first) ++ s) second ∧ Parses (p ++ s) whole ∧
      contents (p ++ s) whole =
        contents p first ++ contents (p.drop (consumed first) ++ s) second := by
  have hp : p.length ≤ 2 ^ 63 - 1 := by
    rw [List.length_append] at hlen
    omega
  obtain ⟨frames, rest, hdecodes⟩ := messageCode.exists_decodes p
  obtain ⟨first, hfirst, hcontents, rfl⟩ := parses_of_decodes hp hdecodes
  have hrest : (p.drop (consumed first) ++ s).length ≤ 2 ^ 63 - 1 := by
    rw [List.length_append] at hlen ⊢
    rw [List.length_drop]
    omega
  obtain ⟨frames', rest', hdecodes'⟩ := messageCode.exists_decodes (p.drop (consumed first) ++ s)
  obtain ⟨second, hsecond, hcontents', -⟩ := parses_of_decodes hrest hdecodes'
  obtain ⟨whole, hwhole, hall, -⟩ := parses_of_decodes hlen (hdecodes.append hdecodes')
  exact ⟨first, second, whole, hfirst, hsecond, hwhole,
    by rw [hall, hcontents, hcontents', List.map_append]⟩

end Cut

/-- The chunks behind a carried rest give the contents of all of it together. -/
theorem feed_eq {chunks : List (List Int8)} {carry : List Int8}
    (hlen : (carry ++ chunks.flatten).length ≤ 2 ^ 63 - 1) (hcarry : Frame.split carry = none) :
    ∃ whole, Parses (carry ++ chunks.flatten) whole ∧
      feed carry chunks = some (contents (carry ++ chunks.flatten) whole) := by
  induction chunks generalizing carry with
  | nil =>
    rw [List.flatten_nil, List.append_nil] at hlen ⊢
    have hdecodes : messageCode.Decodes carry [] carry := .stop hcarry
    obtain ⟨whole, hwhole, hcontents, -⟩ := parses_of_decodes hlen hdecodes
    exact ⟨whole, hwhole, by rw [hcontents]; rfl⟩
  | cons chunk chunks ih =>
    rw [List.flatten_cons, ← List.append_assoc] at hlen ⊢
    have hbuf : (carry ++ chunk).length ≤ 2 ^ 63 - 1 := by
      rw [List.length_append] at hlen
      omega
    -- What the parser leaves of this chunk is incomplete again, as the next step needs.
    obtain ⟨frames, rest, hdecodes⟩ := messageCode.exists_decodes (carry ++ chunk)
    obtain ⟨first', hfirst', -, hrest⟩ := parses_of_decodes hbuf hdecodes
    obtain ⟨first, second, whole, hfirst, hsecond, hwhole, hcontents⟩ := parses_append hlen
    obtain rfl := hfirst.unique hfirst'
    have hnone : Frame.split ((carry ++ chunk).drop (consumed first)) = none :=
      hrest ▸ (FrameCode.decodes_iff.mp hdecodes).2
    have hlater : ((carry ++ chunk).drop (consumed first) ++ chunks.flatten).length ≤
        2 ^ 63 - 1 := by
      rw [List.length_append] at hlen ⊢
      rw [List.length_drop]
      omega
    obtain ⟨second', hsecond', hfeed⟩ := ih hlater hnone
    obtain rfl := hsecond.unique hsecond'
    refine ⟨whole, hwhole, ?_⟩
    simp only [feed, hfirst _ (Nat.lt_succ_self _), hfeed, hcontents, Option.bind_eq_bind,
      Option.bind_some]
    rfl

/-- **Parsing in parts loses nothing.** Wherever a buffer is cut, the messages of
the first part and then those of what is left of it together with the second part
are the messages of the buffer. So a stream may be fed in any chunks, and no part
at the front of a buffer yields a message that the whole does not. -/
theorem binaryParser_incremental (buf : List Int8) (hlen : buf.length ≤ 2 ^ 63 - 1) :
    (∀ p s, buf = p ++ s → ∃ first second whole, Parses p first ∧
      Parses (p.drop (consumed first) ++ s) second ∧ Parses buf whole ∧
      contents buf whole = contents p first ++ contents (p.drop (consumed first) ++ s) second) ∧
    (∀ chunks : List (List Int8), chunks.flatten = buf →
      ∃ whole, Parses buf whole ∧ feed [] chunks = some (contents buf whole)) ∧
    ∀ p, p <+: buf → ∃ first whole, Parses p first ∧ Parses buf whole ∧
      contents p first <+: contents buf whole := by
  refine ⟨?_, ?_, ?_⟩
  · rintro p s rfl
    exact parses_append hlen
  · rintro chunks rfl
    exact @feed_eq chunks [] hlen rfl
  · rintro p ⟨s, rfl⟩
    obtain ⟨first, second, whole, hfirst, -, hwhole, hcontents⟩ := parses_append hlen
    exact ⟨first, whole, hfirst, hwhole, _, hcontents.symm⟩

theorem binaryParser_incremental_raw :
    (∀ p s, raw = p ++ s → ∃ first second whole, Parses p first ∧
      Parses (p.drop (consumed first) ++ s) second ∧ Parses raw whole ∧
      contents raw whole = contents p first ++ contents (p.drop (consumed first) ++ s) second) ∧
    (∀ chunks : List (List Int8), chunks.flatten = raw →
      ∃ whole, Parses raw whole ∧ feed [] chunks = some (contents raw whole)) ∧
    ∀ p, p <+: raw → ∃ first whole, Parses p first ∧ Parses raw whole ∧
      contents p first <+: contents raw whole :=
  binaryParser_incremental raw (by decide)

end BoostProjects.Coroutines.BinaryParser
