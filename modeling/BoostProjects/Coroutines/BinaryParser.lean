import BoostProjects.Library.FrameCode
import Mathlib.Algebra.Ring.Nat
import Mathlib.Data.List.Forall2

/-!
# The binary message parser

`binary_parser` walks a buffer of `[u8 type][u8 size][payload]` messages and
yields each complete one, as a slice of the buffer. The buffer holds C `char`s,
which are signed; offsets and lengths are `size_t`, so their sums are modulo
`2 ^ 64`.

Below it stands `messageCode`, the format as a code of frames. The loop is the
greedy cut of that code: `loop_decodes` follows it frame by frame, and
`binaryParser_exact` states what the parser yields on every buffer and on every
sequence of encoded messages.
-/

namespace BoostProjects.Coroutines.BinaryParser

/-! ## The program -/

/-- `Message`, with its payload pointer as the distance from the start of the
buffer. -/
structure Message where
  type : UInt8
  payload : UInt64
  size : UInt64
  deriving DecidableEq, Repr

/-- What one turn of the loop does: leave it, or yield a message and go on from
a new offset. -/
inductive Turn
  | leave
  | yield (message : Message) (next : UInt64)
  deriving DecidableEq, Repr

/-- The loop condition and the loop body at offset `i`; `none` where they read
outside the buffer. -/
def turn (buf : List Int8) (len i : UInt64) : Option Turn :=
  if i + 2 ≤ len then do
    -- `char` is signed: the conversion keeps the byte, not the number.
    let type := (← buf[i.toNat]?).toUInt8
    let size := (← buf[(i + 1).toNat]?).toUInt8
    if i + 2 + size.toUInt64 > len then
      return .leave
    else
      return .yield { type, payload := i + 2, size := size.toUInt64 } (i + (2 + size.toUInt64))
  else
    return .leave

/-- The messages yielded from offset `i` on, in at most `fuel` turns. -/
def loop (buf : List Int8) (len : UInt64) : ℕ → UInt64 → Option (List Message)
  | 0, _ => none
  | fuel + 1, i => (turn buf len i).bind fun
    | .leave => some []
    | .yield message next => (loop buf len fuel next).map (message :: ·)

/-- `binary_parser`: the messages it yields, when `fuel` turns of the loop are
enough and no turn reads outside the buffer. -/
def binaryParser (fuel : ℕ) (buf : List Int8) (len : UInt64) : Option (List Message) :=
  loop buf len fuel 0

/-- The bytes of a message's payload. -/
def Message.content (buf : List Int8) (message : Message) : List Int8 :=
  (buf.drop message.payload.toNat).take message.size.toNat

/-- A yielded message written out again. -/
def Message.encode (buf : List Int8) (message : Message) : List Int8 :=
  message.type.toInt8 :: message.size.toUInt8.toInt8 :: message.content buf

/-! ## The format -/

/-- A message as the format has it: a payload that its size byte can count. -/
structure Frame where
  type : UInt8
  payload : List Int8
  fits : payload.length ≤ 255

namespace Frame

/-- The bytes of a message: its type, its size and its payload. -/
def encode (frame : Frame) : List Int8 :=
  frame.type.toInt8 :: (UInt8.ofNat frame.payload.length).toInt8 :: frame.payload

/-- The first frame of the input, if it is complete. -/
def split : List Int8 → Option (Frame × List Int8)
  | type :: size :: input =>
    if h : size.toUInt8.toNat ≤ input.length then
      some ({ type := type.toUInt8
              payload := input.take size.toUInt8.toNat
              fits := by
                rw [List.length_take_of_le h]
                exact Nat.le_of_lt_succ size.toUInt8.toNat_lt },
            input.drop size.toUInt8.toNat)
    else none
  | _ => none

end Frame

/-- What is left of a stream when no complete frame is: fewer than two bytes, or
fewer bytes after the first two than the second of them counts. -/
def Incomplete : List Int8 → Prop
  | _ :: size :: input => input.length < size.toUInt8.toNat
  | _ => True

theorem split_eq_none_iff (input : List Int8) : Frame.split input = none ↔ Incomplete input := by
  match input with
  | [] | [_] => simp [Frame.split, Incomplete]
  | _ :: size :: input => simp [Frame.split, Incomplete]

/-- The format `[u8 type][u8 size][payload]`. -/
def messageCode : FrameCode Frame Int8 where
  encode := Frame.encode
  split := Frame.split
  split_encode frame rest := by
    -- A payload that fits is counted by one byte without wrapping around.
    have hsize : frame.payload.length % 256 = frame.payload.length :=
      Nat.mod_eq_of_lt (Nat.lt_succ_of_le frame.fits)
    simp [Frame.encode, Frame.split, hsize]
  encode_split := by
    intro input frame rest h
    match input with
    | [] | [_] => simp [Frame.split] at h
    | type :: size :: input =>
      rw [Frame.split, Option.dite_none_right_eq_some] at h
      obtain ⟨hle, h⟩ := h
      obtain ⟨rfl, rfl⟩ := Prod.mk.inj (Option.some.inj h)
      simp [Frame.encode, List.length_take_of_le hle]
  encode_ne_nil frame := List.cons_ne_nil _ _

/-! ## The loop follows the format -/

section Loop

variable {buf : List Int8} {i : UInt64}

/-- No sum of the loop wraps around: an offset into the buffer and a whole
message fit in `size_t`. -/
private theorem toNat_add_of_le (hlen : buf.length ≤ 2 ^ 63 - 1) (hi : i.toNat ≤ buf.length)
    {k : UInt64} (hk : k.toNat ≤ 257) : (i + k).toNat = i.toNat + k.toNat := by
  rw [UInt64.toNat_add, Nat.mod_eq_of_lt]
  omega

private theorem toNat_two_add (size : UInt8) :
    (2 + size.toUInt64).toNat = 2 + size.toNat := by
  have hsize := size.toNat_lt
  rw [UInt64.toNat_add, UInt8.toNat_toUInt64, show (2 : UInt64).toNat = 2 from rfl,
    Nat.mod_eq_of_lt]
  omega

/-- Fewer than two bytes left: the loop is left. -/
theorem turn_of_length_lt (hlen : buf.length ≤ 2 ^ 63 - 1) (hi : i.toNat ≤ buf.length)
    (h : (buf.drop i.toNat).length < 2) :
    turn buf (.ofNat buf.length) i = some .leave := by
  have hcond : ¬ i + 2 ≤ UInt64.ofNat buf.length := by
    rw [UInt64.le_iff_toNat_le, toNat_add_of_le hlen hi (by decide), UInt64.toNat_ofNat']
    rw [List.length_drop] at h
    simp only [UInt64.reduceToNat]
    omega
  rw [turn, if_neg hcond]
  rfl

/-- Two bytes left: they are the type and the size, and the loop is left exactly
when the payload is cut short. -/
theorem turn_of_cons (hlen : buf.length ≤ 2 ^ 63 - 1) {type size : Int8} {input : List Int8}
    (h : buf.drop i.toNat = type :: size :: input) :
    turn buf (.ofNat buf.length) i = some (if input.length < size.toUInt8.toNat then .leave else
      .yield { type := type.toUInt8, payload := i + 2, size := size.toUInt8.toUInt64 }
        (i + (2 + size.toUInt8.toUInt64))) := by
  have hlength := congrArg List.length h
  rw [List.length_drop, List.length_cons, List.length_cons] at hlength
  have hi : i.toNat ≤ buf.length := by omega
  have hsize := size.toUInt8.toNat_lt
  -- No `size_t` sum of this turn wraps around, so each is the sum of numbers.
  have htwo : (i + 2).toNat = i.toNat + 2 := toNat_add_of_le hlen hi (by decide)
  have hone : (i + 1).toNat = i.toNat + 1 := toNat_add_of_le hlen hi (by decide)
  have hcond : i + 2 ≤ UInt64.ofNat buf.length := by
    rw [UInt64.le_iff_toNat_le, htwo, UInt64.toNat_ofNat']
    omega
  have hfirst : buf[i.toNat]? = some type := by
    rw [← Nat.add_zero i.toNat, ← List.getElem?_drop, h]
    rfl
  have hsecond : buf[(i + 1).toNat]? = some size := by
    rw [hone, ← List.getElem?_drop, h]
    rfl
  have hlong : i + 2 + size.toUInt8.toUInt64 > UInt64.ofNat buf.length ↔
      input.length < size.toUInt8.toNat := by
    rw [gt_iff_lt, UInt64.lt_iff_toNat_lt, UInt64.toNat_add, htwo, UInt8.toNat_toUInt64,
      UInt64.toNat_ofNat']
    omega
  simp only [turn, if_pos hcond, hfirst, hsecond, Option.bind_eq_bind, Option.bind_some, hlong]
  split_ifs <;> rfl

/-- What the parser yields for a frame: its type, and its payload as a slice of
the buffer. -/
def Denotes (buf : List Int8) (message : Message) (frame : Frame) : Prop :=
  message.type = frame.type ∧
    message.payload.toNat + message.size.toNat ≤ buf.length ∧
    message.size.toNat = frame.payload.length ∧
    message.content buf = frame.payload

theorem Denotes.encode_eq {message : Message} {frame : Frame} (h : Denotes buf message frame) :
    message.encode buf = frame.encode := by
  obtain ⟨htype, -, hsize, hcontent⟩ := h
  have hbyte : message.size.toUInt8 = UInt8.ofNat frame.payload.length := by
    rw [← hsize]
    exact UInt8.toNat_inj.mp (by simp)
  rw [Message.encode, Frame.encode, htype, hcontent, hbyte]

/-- One turn takes one frame off what is left of the buffer. -/
theorem turn_split (hlen : buf.length ≤ 2 ^ 63 - 1) {frame : Frame} {rest : List Int8}
    (h : Frame.split (buf.drop i.toNat) = some (frame, rest)) :
    ∃ message next, turn buf (.ofNat buf.length) i = some (.yield message next) ∧
      buf.drop next.toNat = rest ∧ next.toNat ≤ buf.length ∧ Denotes buf message frame := by
  match hdrop : buf.drop i.toNat with
  | [] | [_] => simp [hdrop, Frame.split] at h
  | type :: size :: input =>
    rw [hdrop, Frame.split, Option.dite_none_right_eq_some] at h
    obtain ⟨hle, h⟩ := h
    obtain ⟨rfl, rfl⟩ := Prod.mk.inj (Option.some.inj h)
    have hlength := congrArg List.length hdrop
    rw [List.length_drop, List.length_cons, List.length_cons] at hlength
    have hi : i.toNat ≤ buf.length := by omega
    have hsize := size.toUInt8.toNat_lt
    have htwo : (i + 2).toNat = i.toNat + 2 := toNat_add_of_le hlen hi (by decide)
    have hnext : (i + (2 + size.toUInt8.toUInt64)).toNat = i.toNat + (2 + size.toUInt8.toNat) := by
      rw [toNat_add_of_le hlen hi, toNat_two_add]
      rw [toNat_two_add]
      omega
    have hinput : buf.drop (i.toNat + 2) = input := by
      rw [← List.drop_drop, hdrop]
      rfl
    refine ⟨_, _, by rw [turn_of_cons hlen hdrop, if_neg (Nat.not_lt.mpr hle)], ?_, ?_, ?_⟩
    · rw [hnext, ← Nat.add_assoc, ← List.drop_drop, hinput]
    · rw [hnext]
      omega
    · refine ⟨rfl, ?_, ?_, ?_⟩
      · simp only [htwo, UInt8.toNat_toUInt64]
        omega
      · simp only [UInt8.toNat_toUInt64, List.length_take_of_le hle]
      · simp only [Message.content, htwo, hinput, UInt8.toNat_toUInt64]

/-- The loop from offset `i` on, when the rest of the buffer is cut into
`frames`: one turn for each of them, and one more. -/
theorem loop_decodes (hlen : buf.length ≤ 2 ^ 63 - 1) {input rest : List Int8}
    {frames : List Frame} (h : messageCode.Decodes input frames rest)
    (hinput : buf.drop i.toNat = input) (hi : i.toNat ≤ buf.length) :
    ∃ messages, (∀ fuel, frames.length < fuel →
        loop buf (.ofNat buf.length) fuel i = some messages) ∧
      List.Forall₂ (Denotes buf) messages frames := by
  induction h generalizing i with
  | @stop input hnone =>
    refine ⟨[], fun fuel hfuel => ?_, .nil⟩
    obtain ⟨fuel, rfl⟩ := Nat.exists_eq_succ_of_ne_zero (Nat.ne_of_gt hfuel)
    -- Both ways to be incomplete leave the loop: no header, or a payload cut short.
    have hleave : turn buf (.ofNat buf.length) i = some .leave := by
      match input, (split_eq_none_iff input).mp hnone with
      | [], _ | [_], _ => exact turn_of_length_lt hlen hi (by simp [hinput])
      | _ :: size :: input, hshort =>
        have hshort : input.length < size.toUInt8.toNat := hshort
        rw [turn_of_cons hlen hinput, if_pos hshort]
    rw [loop, hleave]
    rfl
  | @frame input next rest frame frames hsplit _ ih =>
    -- One turn takes the first frame off; the induction is on the cut of what is left.
    obtain ⟨message, j, hturn, hdrop, hj, hdenotes⟩ := turn_split hlen (hinput ▸ hsplit)
    obtain ⟨messages, hmessages, hforall⟩ := ih hdrop hj
    refine ⟨message :: messages, fun fuel hfuel => ?_, .cons hdenotes hforall⟩
    obtain ⟨fuel, rfl⟩ := Nat.exists_eq_succ_of_ne_zero (Nat.ne_of_gt (Nat.zero_lt_of_lt hfuel))
    rw [loop, hturn]
    simp only [Option.bind_some]
    rw [hmessages fuel (by rw [List.length_cons] at hfuel; omega)]
    rfl

end Loop

/-! ## The parser -/

/-- Whatever the frames and the rest of a buffer are, the parser yields those
frames. -/
theorem binaryParser_decodes {buf rest : List Int8} {frames : List Frame}
    (hlen : buf.length ≤ 2 ^ 63 - 1) (h : messageCode.Decodes buf frames rest) :
    ∃ messages, (∀ fuel, buf.length < fuel →
        binaryParser fuel buf (.ofNat buf.length) = some messages) ∧
      List.Forall₂ (Denotes buf) messages frames := by
  have hstart : buf.drop (0 : UInt64).toNat = buf := rfl
  obtain ⟨messages, hloop, hforall⟩ := loop_decodes hlen h hstart (Nat.zero_le _)
  exact ⟨messages, fun fuel hfuel => hloop fuel (Nat.lt_of_le_of_lt h.length_le hfuel), hforall⟩

section Denoted

variable {buf : List Int8} {messages : List Message} {frames : List Frame}

theorem flatMap_encode_of_denotes (h : List.Forall₂ (Denotes buf) messages frames) :
    messages.flatMap (Message.encode buf) = messageCode.encodeAll frames := by
  induction h with
  | nil => rfl
  | cons hdenotes _ ih =>
    rw [List.flatMap_cons, FrameCode.encodeAll_cons, ih, hdenotes.encode_eq]
    rfl

theorem map_content_of_denotes (h : List.Forall₂ (Denotes buf) messages frames) :
    messages.map (fun message => (message.type, message.content buf)) =
      frames.map fun frame => (frame.type, frame.payload) := by
  induction h with
  | nil => rfl
  | cons hdenotes _ ih =>
    obtain ⟨htype, -, -, hcontent⟩ := hdenotes
    rw [List.map_cons, List.map_cons, ih, htype, hcontent]

theorem inside_of_denotes (h : List.Forall₂ (Denotes buf) messages frames) :
    ∀ message ∈ messages, message.payload.toNat + message.size.toNat ≤ buf.length := by
  induction h with
  | nil => simp
  | cons hdenotes _ ih => exact List.forall_mem_cons.mpr ⟨hdenotes.2.1, ih⟩

end Denoted

/-- **The parser is the exact decoder of the format.** On every buffer a pointer
difference can measure it stops without reading outside it, its slices lie in the
buffer, and the messages written out again are the buffer up to a rest that holds
no complete one. On a sequence of encoded messages and an incomplete tail it
yields exactly those messages. -/
theorem binaryParser_exact (buf : List Int8) (hlen : buf.length ≤ 2 ^ 63 - 1) :
    (∃ messages rest, (∀ fuel, buf.length < fuel →
        binaryParser fuel buf (.ofNat buf.length) = some messages) ∧
      (∀ message ∈ messages,
        message.payload.toNat + message.size.toNat ≤ buf.length) ∧
      messages.flatMap (Message.encode buf) ++ rest = buf ∧ Incomplete rest) ∧
    ∀ (frames : List Frame) (tail : List Int8), Incomplete tail →
      buf = frames.flatMap Frame.encode ++ tail →
      ∃ messages, (∀ fuel, buf.length < fuel →
          binaryParser fuel buf (.ofNat buf.length) = some messages) ∧
        messages.map (fun message => (message.type, message.content buf)) =
          frames.map fun frame => (frame.type, frame.payload) := by
  constructor
  -- Every buffer has a greedy cut into frames and a rest.
  · obtain ⟨frames, rest, hdecodes⟩ := messageCode.exists_decodes buf
    obtain ⟨messages, hparser, hforall⟩ := binaryParser_decodes hlen hdecodes
    obtain ⟨hbuf, hrest⟩ := FrameCode.decodes_iff.mp hdecodes
    refine ⟨messages, rest, hparser, inside_of_denotes hforall, ?_,
      (split_eq_none_iff rest).mp hrest⟩
    rw [flatMap_encode_of_denotes hforall, ← hbuf]
  -- Encoded frames and an incomplete tail are such a cut already.
  · intro frames tail htail hbuf
    have hdecodes : messageCode.Decodes buf frames tail :=
      FrameCode.decodes_iff.mpr ⟨hbuf, (split_eq_none_iff tail).mpr htail⟩
    obtain ⟨messages, hparser, hforall⟩ := binaryParser_decodes hlen hdecodes
    exact ⟨messages, hparser, map_content_of_denotes hforall⟩

/-- The array `raw` of the demo: two messages and nothing after them. -/
def raw : List Int8 := [1, 3, 65, 66, 67, 2, 2, 88, 89]

theorem binaryParser_exact_raw :
    (∃ messages rest, (∀ fuel, raw.length < fuel →
        binaryParser fuel raw (.ofNat raw.length) = some messages) ∧
      (∀ message ∈ messages,
        message.payload.toNat + message.size.toNat ≤ raw.length) ∧
      messages.flatMap (Message.encode raw) ++ rest = raw ∧ Incomplete rest) ∧
    ∀ (frames : List Frame) (tail : List Int8), Incomplete tail →
      raw = frames.flatMap Frame.encode ++ tail →
      ∃ messages, (∀ fuel, raw.length < fuel →
          binaryParser fuel raw (.ofNat raw.length) = some messages) ∧
        messages.map (fun message => (message.type, message.content raw)) =
          frames.map fun frame => (frame.type, frame.payload) :=
  binaryParser_exact raw (by decide)

example : binaryParser 10 raw 9 = some [⟨1, 2, 3⟩, ⟨2, 7, 2⟩] := by decide

end BoostProjects.Coroutines.BinaryParser
