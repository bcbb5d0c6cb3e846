import Mathlib.Data.List.Basic

/-!
# Streams of self-delimiting frames

A frame code writes each frame so that its end can be told from its own
elements. A stream of such frames is cut greedily: take one complete frame after
another until what is left holds none.

`decodes_iff` says that the greedy cut finds the frames and the rest of a stream
in the only way the stream can be written; round trips and the effect of adding
more input are read off it.
-/

/-- A code of frames over an alphabet. `split` takes one complete frame off the
front of its input, and `none` says that there is none. -/
structure FrameCode (φ α : Type*) where
  encode : φ → List α
  split : List α → Option (φ × List α)
  split_encode : ∀ frame rest, split (encode frame ++ rest) = some (frame, rest)
  encode_split : ∀ {input frame rest}, split input = some (frame, rest) →
    input = encode frame ++ rest
  encode_ne_nil : ∀ frame, encode frame ≠ []

namespace FrameCode

variable {φ α : Type*} (code : FrameCode φ α)

/-- The frames of a stream, one after the other. -/
def encodeAll (frames : List φ) : List α := frames.flatMap code.encode

@[simp] theorem encodeAll_nil : code.encodeAll [] = [] := rfl

@[simp] theorem encodeAll_cons (frame : φ) (frames : List φ) :
    code.encodeAll (frame :: frames) = code.encode frame ++ code.encodeAll frames :=
  List.flatMap_cons

/-- Cutting `input` greedily gives `frames` and leaves `rest`. -/
inductive Decodes : List α → List φ → List α → Prop
  | stop {rest : List α} : code.split rest = none → Decodes rest [] rest
  | frame {input next rest : List α} {frame : φ} {frames : List φ} :
      code.split input = some (frame, next) → Decodes next frames rest →
      Decodes input (frame :: frames) rest

variable {code}

theorem length_lt_of_split {input rest : List α} {frame : φ}
    (h : code.split input = some (frame, rest)) : rest.length < input.length := by
  have hpos := List.length_pos_of_ne_nil (code.encode_ne_nil frame)
  rw [code.encode_split h, List.length_append]
  omega

/-- **The greedy cut is the only one.** -/
theorem decodes_iff {input rest : List α} {frames : List φ} :
    code.Decodes input frames rest ↔
      input = code.encodeAll frames ++ rest ∧ code.split rest = none := by
  constructor
  · intro h
    induction h with
    | stop hnone => exact ⟨rfl, hnone⟩
    | frame hsplit _ ih =>
      refine ⟨?_, ih.2⟩
      rw [code.encode_split hsplit, encodeAll_cons, List.append_assoc, ← ih.1]
  · rintro ⟨rfl, hnone⟩
    induction frames with
    | nil => exact .stop hnone
    | cons frame frames ih =>
      refine .frame ?_ ih
      rw [encodeAll_cons, List.append_assoc, code.split_encode]

/-- Every input is cut into some frames and a rest. -/
theorem exists_decodes (input : List α) : ∃ frames rest, code.Decodes input frames rest := by
  induction hlength : input.length using Nat.strongRecOn generalizing input with
  | ind n ih =>
    cases hsplit : code.split input with
    | none => exact ⟨[], input, .stop hsplit⟩
    | some pair =>
      obtain ⟨frame, next⟩ := pair
      obtain ⟨frames, rest, hnext⟩ :=
        ih next.length (hlength ▸ length_lt_of_split hsplit) next rfl
      exact ⟨frame :: frames, rest, .frame hsplit hnext⟩

/-- There are no more frames than elements. -/
theorem Decodes.length_le {input rest : List α} {frames : List φ}
    (h : code.Decodes input frames rest) : frames.length ≤ input.length := by
  induction h with
  | stop _ => exact Nat.zero_le _
  | frame hsplit _ ih =>
    have hlt := length_lt_of_split hsplit
    rw [List.length_cons]
    omega

theorem Decodes.unique {input rest rest' : List α} {frames frames' : List φ}
    (h : code.Decodes input frames rest) (h' : code.Decodes input frames' rest') :
    frames = frames' ∧ rest = rest' := by
  induction h generalizing frames' with
  | stop hnone =>
    cases h' with
    | stop _ => exact ⟨rfl, rfl⟩
    | frame hsplit _ => exact absurd hsplit (hnone ▸ nofun)
  | frame hsplit _ ih =>
    cases h' with
    | stop hnone => exact absurd hsplit (hnone ▸ nofun)
    | frame hsplit' hrest =>
      obtain ⟨rfl, rfl⟩ := Prod.mk.inj (Option.some.inj (hsplit.symm.trans hsplit'))
      obtain ⟨rfl, rfl⟩ := ih hrest
      exact ⟨rfl, rfl⟩

/-- More input leaves the frames that were cut, and is cut behind what was left. -/
theorem Decodes.append {input rest rest' : List α} {frames frames' : List φ} {more : List α}
    (h : code.Decodes input frames rest) (hmore : code.Decodes (rest ++ more) frames' rest') :
    code.Decodes (input ++ more) (frames ++ frames') rest' := by
  obtain ⟨hinput, -⟩ := decodes_iff.mp h
  obtain ⟨hrest, hnone⟩ := decodes_iff.mp hmore
  refine decodes_iff.mpr ⟨?_, hnone⟩
  rw [hinput, List.append_assoc, hrest, encodeAll, encodeAll, encodeAll, List.flatMap_append,
    List.append_assoc]

end FrameCode
