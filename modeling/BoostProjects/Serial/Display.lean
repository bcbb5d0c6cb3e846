import BoostProjects.Library.Halting
import BoostProjects.Library.Lines
import BoostProjects.Serial.Service

/-!
# What the display shows of a stream of numbers

Of a buffer that holds complete lines, `lineReceived` is called until nothing is
left of it: each non-empty line is shown, and the digits after the last newline
are extracted as well, but the stream then sees the end of the buffer and they
are lost. So what a piece contributes is itself if it has no newline, and
otherwise only its part up to the last newline: `kept`.

`exists_mem_eval` computes what is shown for every way of cutting a stream of
digits and newlines. From it follows exactly which cuts of a list of numbers
show one right bar for each.
-/

namespace BoostProjects.Serial

open Boost Cpp Lines StateTransition

/-- A text of digits and newlines. -/
def Numeric (text : Str) : Prop := ∀ c ∈ text, c.isDigit = true ∨ c = '\n'

theorem Numeric.append {first second : Str} (hfirst : Numeric first) (hsecond : Numeric second) :
    Numeric (first ++ second) := by
  intro c hc
  rcases List.mem_append.mp hc with h | h
  · exact hfirst c h
  · exact hsecond c h

theorem Numeric.left {first second : Str} (h : Numeric (first ++ second)) : Numeric first :=
  fun c hc => h c (List.mem_append_left second hc)

theorem Numeric.right {first second : Str} (h : Numeric (first ++ second)) : Numeric second :=
  fun c hc => h c (List.mem_append_right first hc)

/-- Without a newline, only digits are left. -/
theorem Numeric.digits {text : Str} (h : Numeric text) (hnewline : '\n' ∉ text) :
    ∀ c ∈ text, c.isDigit = true := by
  intro c hc
  refine (h c hc).resolve_right ?_
  rintro rfl
  exact hnewline hc

/-! ## Extracting from lines -/

/-- The number a line of digits denotes. -/
def number (line : Str) : ℕ := Nat.ofDigitChars 10 line 0

theorem decimal_eq_number (line : Str) : Istream.decimal line = number line :=
  Nat.ofDigitChars_eq_foldl.symm

/-- A newline at the front is skipped. -/
theorem extract_newline (text : Str) : extract ('\n' :: text) = extract text := by
  rw [extract, Istream.extractUnsigned_cons (by decide), extract]

/-- Digits at the front are read up to what follows them. -/
theorem extract_digits {line rest : Str} (hline : ∀ c ∈ line, c.isDigit = true) (hne : line ≠ [])
    (hrest : rest.head? = some '\n' ∨ rest = []) :
    extract (line ++ rest) =
      { rest
        value := if number line < UInt32.size then UInt32.ofNat (number line) else 0xFFFFFFFF
        good := number line < UInt32.size ∧ rest ≠ [] } := by
  have hstop : ∀ c ∈ rest.head?, c.isDigit = false := by
    rintro c hc
    obtain hhead | rfl := hrest
    · obtain rfl := Option.some.inj (hhead.symm.trans hc)
      rfl
    · cases hc
  rw [extract, Istream.extractUnsigned_digits hline hne hstop, decimal_eq_number]
  by_cases hfits : number line < UInt32.size
  · have hnot : ¬ 2 ^ 32 ≤ number line := Nat.not_le.mpr hfits
    rw [if_neg hnot, if_pos hfits]
    cases rest <;> simp [Istream.good, hfits]
  · have hle : 2 ^ 32 ≤ number line := Nat.le_of_not_lt hfits
    rw [if_pos hle, if_neg hfits]
    simp [Istream.good, hfits]

/-- Digits up to the end of the buffer are removed, and nothing is shown. -/
theorem extract_tail {tail : Str} (htail : ∀ c ∈ tail, c.isDigit = true) :
    (extract tail).rest = [] ∧ Service.shownBy (extract tail) = none := by
  by_cases hne : tail = []
  · subst hne
    exact ⟨rfl, rfl⟩
  · have hextract := extract_digits htail hne (Or.inr rfl)
    rw [List.append_nil] at hextract
    rw [hextract]
    simp [Service.shownBy]

/-! ## Bars -/

/-- The length of the bar for a value. -/
def barLength (value : ℕ) : ℕ := min 64 (value / 16 + 1)

theorem Service.toNat_boxes (value : UInt32) : (boxes value).toNat = barLength value.toNat := by
  -- A value shifted right by 4 is far from the end of 32 bits, so the sum does not wrap.
  have hshift : ((value >>> 4) + 1).toNat = value.toNat / 16 + 1 := by
    rw [UInt32.toNat_add, UInt32.toNat_shiftRight]
    have hvalue := value.toNat_lt
    simp [Nat.shiftRight_eq_div_pow]
    omega
  have hmin : boxes value =
      if (64 : UInt32) ≤ (value >>> 4) + 1 then (64 : UInt32) else (value >>> 4) + 1 := rfl
  rw [hmin, barLength]
  split_ifs with hle
  · have hle' := UInt32.le_iff_toNat_le.mp hle
    rw [hshift] at hle'
    exact (Nat.min_eq_left hle').symm
  · have hle' : value.toNat / 16 + 1 ≤ 64 := by
      rw [← hshift]
      exact Nat.le_of_not_le fun h => hle (UInt32.le_iff_toNat_le.mpr h)
    rw [hshift, Nat.min_eq_right hle']

/-- What is shown for a line. -/
def shownLine (line : Str) : Option Str :=
  if line ≠ [] ∧ number line < UInt32.size then some (bar (barLength (number line))) else none

/-- What is shown for a text. -/
def shown (text : Str) : List Str := (lines '\n' text).filterMap shownLine

theorem extract_line {line : Str} (hline : ∀ c ∈ line, c.isDigit = true) (hne : line ≠ [])
    (rest : Str) :
    (extract (line ++ '\n' :: rest)).rest = '\n' :: rest ∧
      Service.shownBy (extract (line ++ '\n' :: rest)) = shownLine line := by
  rw [extract_digits hline hne (Or.inl rfl)]
  refine ⟨rfl, ?_⟩
  by_cases hfits : number line < UInt32.size
  · have hvalue : (UInt32.ofNat (number line)).toNat = number line := UInt32.toNat_ofNat_of_lt hfits
    simp [Service.shownBy, shownLine, hfits, hne, Service.toNat_boxes, hvalue]
  · simp [Service.shownBy, shownLine, hfits]

theorem shown_of_notMem {text : Str} (h : '\n' ∉ text) : shown text = [] := by
  rw [shown, lines_of_notMem h]
  rfl

theorem shown_cons {line : Str} (h : '\n' ∉ line) (rest : Str) :
    shown (line ++ '\n' :: rest) = (shownLine line).toList ++ shown rest := by
  rw [shown, lines_cons h, List.filterMap_cons, shown]
  cases shownLine line <;> rfl

theorem shown_append_cons (first second : Str) :
    shown (first ++ '\n' :: second) =
      (first.splitOn '\n').filterMap shownLine ++ shown second := by
  rw [shown, lines_append_cons, List.filterMap_append, shown]

/-! ## Draining the buffer -/

namespace Service

/-- The service with a read in flight. -/
def holding (port : List Str) (data : Str) (cout : List Str) : Service :=
  { port, serialData := data, reading := true, cout }

theorem opened_eq (port : List Str) : opened port = holding port [] [] := rfl

variable (port : List Str) {data : Str} (cout : List Str)

theorem step_holding_of_mem (h : '\n' ∈ data) :
    step (holding port data cout) =
      some (holding port (extract data).rest (cout ++ (shownBy (extract data)).toList)) := by
  rw [step_of_mem rfl h, lineReceived_success]
  rfl

theorem step_holding_cons (piece : Str) (h : '\n' ∉ data) :
    step (holding (piece :: port) data cout) = some (holding port (data ++ piece) cout) :=
  step_of_notMem rfl h rfl

theorem step_holding_nil (h : '\n' ∉ data) : step (holding [] data cout) = none :=
  (step_eq_none_iff rfl).mpr ⟨h, rfl⟩

/-- A newline at the front changes only that the read completes. -/
theorem step_holding_newline (text : Str) :
    step (holding port ('\n' :: text) cout) =
      some (holding port (extract text).rest (cout ++ (shownBy (extract text)).toList)) := by
  rw [step_holding_of_mem port cout List.mem_cons_self, extract_newline]

/-- **Draining.** With a newline left over at the front, the buffer is emptied,
and what is shown is the lines behind it. -/
theorem reaches₁_drained (text : Str) (htext : Numeric text) :
    Reaches₁ step (holding port ('\n' :: text) cout) (holding port [] (cout ++ shown text)) := by
  -- Each line taken leaves its newline at the front of a shorter text.
  induction hlength : text.length using Nat.strong_induction_on generalizing text cout with
  | _ n ih =>
    have hstep := step_holding_newline port cout text
    by_cases hnewline : '\n' ∈ text
    · obtain ⟨line, rest, rfl, hline⟩ := List.eq_append_cons_of_mem hnewline
      have hrest : Numeric rest := fun c hc =>
        htext c (List.mem_append_right line (List.mem_cons_of_mem '\n' hc))
      have hless : rest.length < n := by
        rw [← hlength, List.length_append, List.length_cons]
        omega
      rw [shown_cons hline]
      by_cases hne : line = []
      · -- Two newlines: the next step is the one from the second alone.
        subst hne
        rw [List.nil_append, extract_newline, ← step_holding_newline] at hstep
        rw [List.nil_append, reaches₁_eq hstep]
        exact ih rest.length hless cout rest hrest rfl
      · obtain ⟨hdata, hshown⟩ := extract_line (htext.left.digits hline) hne rest
        rw [hdata, hshown] at hstep
        have hdrained := ih rest.length hless (cout ++ (shownLine line).toList) rest hrest rfl
        rw [List.append_assoc] at hdrained
        exact hdrained.head hstep
    -- No newline is left: the digits are extracted at the end of the buffer, and lost.
    · obtain ⟨hdata, hshown⟩ := extract_tail (htext.digits hnewline)
      rw [hdata, hshown] at hstep
      rw [shown_of_notMem hnewline]
      exact Relation.TransGen.single hstep

/-- A buffer of complete lines and a tail is emptied. -/
theorem reaches_drained (htext : Numeric data) (hnewline : '\n' ∈ data) :
    Reaches step (holding port data cout) (holding port [] (cout ++ shown data)) := by
  have hsame : step (holding port ('\n' :: data) cout) = step (holding port data cout) := by
    rw [step_holding_newline, step_holding_of_mem port cout hnewline]
  exact ((reaches₁_eq hsame).mp (reaches₁_drained port cout data htext)).to_reflTransGen

end Service

/-! ## What is kept of the pieces -/

/-- What a piece contributes: if it completes a line, the bytes after its last
newline are lost. -/
def kept (piece : Str) : Str :=
  if '\n' ∈ piece then piece.rdropWhile (· ≠ '\n') else piece

/-- The bytes of the stream that are not lost. -/
def survivors (pieces : List Str) : Str := pieces.flatMap kept

theorem kept_of_notMem {piece : Str} (h : '\n' ∉ piece) : kept piece = piece := if_neg h

/-- A piece that completes a line, cut at its last newline. -/
theorem exists_kept_eq {piece : Str} (h : '\n' ∈ piece) :
    ∃ front tail, piece = front ++ '\n' :: tail ∧ '\n' ∉ tail ∧ kept piece = front ++ ['\n'] := by
  obtain ⟨tail, front, hsplit, htail⟩ :=
    List.eq_append_cons_of_mem (List.mem_reverse.mpr h)
  have hpiece : piece = front.reverse ++ '\n' :: tail.reverse := by
    rw [← piece.reverse_reverse, hsplit]
    simp
  refine ⟨front.reverse, tail.reverse, hpiece, fun hmem => htail (List.mem_reverse.mp hmem), ?_⟩
  have hdrop : ∀ c ∈ tail, decide (c ≠ '\n') = true := fun c hc =>
    decide_eq_true fun hnewline => htail (hnewline ▸ hc)
  rw [kept, if_pos h, List.rdropWhile, hsplit, List.dropWhile_append_of_pos hdrop]
  simp

/-- **What is shown of a stream.** A service that holds the start of a line shows
the lines of what survives of the stream, and then waits. -/
theorem exists_mem_eval (pieces : List Str) (hpieces : Numeric pieces.flatten) (data : Str)
    (hdata : Numeric data) (hnewline : '\n' ∉ data) (cout : List Str) :
    ∃ final ∈ eval Service.step (Service.holding pieces data cout),
      final.cout = cout ++ shown (data ++ survivors pieces) := by
  induction pieces generalizing data cout with
  | nil =>
    refine ⟨_, mem_eval.mpr ⟨.refl, Service.step_holding_nil cout hnewline⟩, ?_⟩
    rw [survivors, List.flatMap_nil, List.append_nil, shown_of_notMem hnewline, List.append_nil]
    rfl
  | cons piece rest ih =>
    have hpiece : Numeric piece := hpieces.left
    have hrest : Numeric rest.flatten := hpieces.right
    have hsurvivors : survivors (piece :: rest) = kept piece ++ survivors rest :=
      List.flatMap_cons
    have hstep := Service.step_holding_cons rest cout piece hnewline
    rw [reaches_eval (Relation.ReflTransGen.single hstep), hsurvivors]
    by_cases hmem : '\n' ∈ piece
    · -- The buffer is emptied, and the rest of the stream starts on an empty one.
      obtain ⟨front, tail, hsplit, htail, hkept⟩ := exists_kept_eq hmem
      have hshown : shown (data ++ (kept piece ++ survivors rest)) =
          shown (data ++ piece) ++ shown (survivors rest) := by
        have hleft : data ++ (kept piece ++ survivors rest) =
            (data ++ front) ++ '\n' :: survivors rest := by
          rw [hkept]
          simp
        have hright : data ++ piece = (data ++ front) ++ '\n' :: tail := by
          rw [hsplit, List.append_assoc]
        rw [hleft, hright, shown_append_cons, shown_append_cons, shown_of_notMem htail,
          List.append_nil]
      have hdrained := Service.reaches_drained rest cout (hdata.append hpiece)
        (List.mem_append_right data hmem)
      rw [reaches_eval hdrained, hshown, ← List.append_assoc]
      exact ih hrest [] (fun c hc => absurd hc List.not_mem_nil) List.not_mem_nil _
    · -- No line is complete, and the piece is added to the one begun.
      have hnone : '\n' ∉ data ++ piece := by
        simpa [hnewline] using hmem
      rw [kept_of_notMem hmem, ← List.append_assoc]
      exact ih hrest (data ++ piece) (hdata.append hpiece) hnone cout

/-! ## A stream of numbers -/

/-- The decimal text of a number. -/
def decimal (value : UInt32) : Str := Nat.toDigits 10 value.toNat

/-- The numbers as they are sent, each followed by a newline. -/
def wire (numbers : List UInt32) : Str := numbers.flatMap fun value => decimal value ++ ['\n']

theorem isDigit_of_mem_decimal {value : UInt32} {c : Char} (hc : c ∈ decimal value) :
    c.isDigit = true :=
  Nat.isDigit_of_mem_toDigits (by decide) (by decide) hc

theorem numeric_wire (numbers : List UInt32) : Numeric (wire numbers) := by
  intro c hc
  obtain ⟨value, -, hmem⟩ := List.mem_flatMap.mp hc
  rcases List.mem_append.mp hmem with hdigit | hnewline
  · exact Or.inl (isDigit_of_mem_decimal hdigit)
  · exact Or.inr (List.mem_singleton.mp hnewline)

theorem lines_wire (numbers : List UInt32) : lines '\n' (wire numbers) = numbers.map decimal := by
  have htexts : wire numbers = (numbers.map decimal).flatMap (· ++ ['\n']) := by
    rw [wire, List.flatMap_map]
  rw [htexts]
  apply lines_flatMap
  intro line hline
  obtain ⟨value, -, rfl⟩ := List.mem_map.mp hline
  intro hmem
  exact absurd (isDigit_of_mem_decimal hmem) (by decide)

/-- Each line that survives is the end of a line that was sent. -/
theorem suffix_lines (pieces : List Str) {lost data : Str} (hsuffix : lost <:+ data)
    (hnewline : '\n' ∉ data) :
    List.Forall₂ (· <:+ ·) (lines '\n' (lost ++ survivors pieces))
      (lines '\n' (data ++ pieces.flatten)) := by
  induction pieces generalizing lost data with
  | nil =>
    have hlost : '\n' ∉ lost := fun hmem => hnewline (hsuffix.subset hmem)
    rw [survivors, List.flatMap_nil, List.flatten_nil, List.append_nil, List.append_nil,
      lines_of_notMem hlost, lines_of_notMem hnewline]
    exact .nil
  | cons piece rest ih =>
    have hsurvivors : survivors (piece :: rest) = kept piece ++ survivors rest :=
      List.flatMap_cons
    rw [hsurvivors, List.flatten_cons]
    by_cases hmem : '\n' ∈ piece
    · obtain ⟨front, tail, hsplit, htail, hkept⟩ := exists_kept_eq hmem
      have hleft : lost ++ (kept piece ++ survivors rest) =
          (lost ++ front) ++ '\n' :: survivors rest := by
        rw [hkept]
        simp
      have hright : data ++ (piece ++ rest.flatten) =
          (data ++ front) ++ '\n' :: (tail ++ rest.flatten) := by
        rw [hsplit]
        simp
      rw [hleft, hright, lines_append_cons, lines_append_cons]
      have hrest := ih (List.nil_suffix (l := tail)) htail
      rw [List.nil_append] at hrest
      exact List.rel_append (suffix_splitOn hsuffix hnewline front) hrest
    · have hlonger : lost ++ piece <:+ data ++ piece := by
        obtain ⟨start, rfl⟩ := hsuffix
        exact ⟨start, (List.append_assoc start lost piece).symm⟩
      have hnone : '\n' ∉ data ++ piece := by
        simpa [hnewline] using hmem
      rw [kept_of_notMem hmem, ← List.append_assoc, ← List.append_assoc]
      exact ih hlonger hnone

theorem number_decimal (value : UInt32) : number (decimal value) = value.toNat :=
  Nat.ofDigitChars_ten_toDigits

/-- What is left of a number is no greater. -/
theorem number_le_of_suffix {value : UInt32} {line : Str} (h : line <:+ decimal value) :
    number line ≤ value.toNat := by
  obtain ⟨lost, hlost⟩ := h
  have hsplit : Nat.ofDigitChars 10 line (Nat.ofDigitChars 10 lost 0) = _ :=
    Nat.ofDigitChars_eq_ofDigitChars_zero
  rw [← number_decimal value, ← hlost, number, number, Nat.ofDigitChars_append, hsplit]
  exact Nat.le_add_left _ _

/-- The line still has a digit, and gives the bar of the number. -/
def SameBar (value : UInt32) (line : Str) : Prop :=
  line ≠ [] ∧ barLength (number line) = barLength value.toNat

instance (value : UInt32) (line : Str) : Decidable (SameBar value line) :=
  inferInstanceAs (Decidable (_ ∧ _))

theorem shownLine_eq_some_iff {value : UInt32} {line : Str} (h : line <:+ decimal value) :
    shownLine line = some (bar (barLength value.toNat)) ↔ SameBar value line := by
  have hfits : number line < UInt32.size :=
    (number_le_of_suffix h).trans_lt value.toNat_lt
  unfold shownLine SameBar
  by_cases hne : line = []
  · simp [hne]
  · simp [hne, hfits, bar_injective.eq_iff]

/-- One bar is shown for each number, in order, exactly if every line gives the
bar of its number. -/
theorem filterMap_shownLine_eq_iff {numbers : List UInt32} {texts : List Str}
    (h : List.Forall₂ (fun line value => line <:+ decimal value) texts numbers) :
    texts.filterMap shownLine = numbers.map (fun value => bar (barLength value.toNat)) ↔
      List.Forall₂ SameBar numbers texts := by
  induction h with
  | nil => exact iff_of_true rfl .nil
  | @cons line value texts numbers hline hrest ih =>
    rw [List.forall₂_cons, ← shownLine_eq_some_iff hline, ← ih, List.map_cons]
    cases hshown : shownLine line with
    | none =>
      -- A bar is missing, and the lines that follow cannot make up for it.
      rw [List.filterMap_cons_none hshown]
      refine iff_of_false (fun heq => ?_) nofun
      have hlength := congrArg List.length heq
      have hle := List.length_filterMap_le shownLine texts
      rw [List.length_cons, List.length_map, ← hrest.length_eq] at hlength
      omega
    | some text =>
      rw [List.filterMap_cons_some hshown, List.cons.injEq, Option.some.injEq]

/-- The service comes to wait, having shown the lines that survive. -/
theorem exists_mem_eval_opened {numbers : List UInt32} {pieces : List Str}
    (hpieces : pieces.flatten = wire numbers) :
    ∃ final ∈ eval Service.step (Service.opened pieces),
      final.cout = (lines '\n' (survivors pieces)).filterMap shownLine := by
  have hnumeric : Numeric pieces.flatten := hpieces ▸ numeric_wire numbers
  have hempty : Numeric [] := fun c hc => absurd hc List.not_mem_nil
  rw [Service.opened_eq]
  exact exists_mem_eval pieces hnumeric [] hempty List.not_mem_nil []

/-- **One bar per number, exactly when.** However the text of the numbers is cut
into pieces, the service comes to wait, and it has shown one bar of the right
length for each number if and only if every number, less the digits that a piece
with a newline carries behind its last newline, still has a digit and gives the
same bar. -/
theorem shows_bars_iff (numbers : List UInt32) (pieces : List Str)
    (hpieces : pieces.flatten = wire numbers) :
    ∃ final ∈ eval Service.step (Service.opened pieces),
      (final.cout = numbers.map (fun value => bar (min 64 (value.toNat / 16 + 1))) ↔
        List.Forall₂ SameBar numbers (lines '\n' (survivors pieces))) := by
  obtain ⟨final, hfinal, hcout⟩ := exists_mem_eval_opened hpieces
  refine ⟨final, hfinal, ?_⟩
  have hlines := suffix_lines pieces (List.suffix_rfl (l := [])) List.not_mem_nil
  rw [List.nil_append, List.nil_append, hpieces, lines_wire, List.forall₂_map_right_iff] at hlines
  rw [hcout]
  exact filterMap_shownLine_eq_iff hlines

/-- Two lines in a piece each. -/
theorem shows_bars_two_lines :
    ∃ final ∈ eval Service.step (Service.opened ["12\n".toList, "34\n".toList]),
      final.cout = [bar 1, bar 3] := by
  obtain ⟨final, hfinal, hiff⟩ :=
    shows_bars_iff [12, 34] ["12\n".toList, "34\n".toList] (by decide)
  exact ⟨final, hfinal, hiff.mpr (by decide)⟩

/-- The same two lines with the cut inside the second number: its first digit is
lost. -/
theorem shows_bars_cut_number :
    ["12\n3".toList, "4\n".toList].flatten = wire [12, 34] ∧
      ∃ final ∈ eval Service.step (Service.opened ["12\n3".toList, "4\n".toList]),
        final.cout = [bar 1, bar 1] ∧ final.cout ≠ [bar 1, bar 3] := by
  have hpieces : ["12\n3".toList, "4\n".toList].flatten = wire [12, 34] := by decide
  obtain ⟨final, hfinal, hcout⟩ := exists_mem_eval_opened hpieces
  have hbars : final.cout = [bar 1, bar 1] := hcout.trans (by decide)
  refine ⟨hpieces, final, hfinal, hbars, ?_⟩
  rw [hbars]
  decide

/-! ### Whole lines -/

theorem sameBar_decimal (value : UInt32) : SameBar value (decimal value) :=
  ⟨Nat.toDigits_ne_nil, congrArg barLength (number_decimal value)⟩

/-- Nothing is lost of a piece that ends with its last newline. -/
theorem kept_of_getLast? {piece : Str} (h : '\n' ∈ piece → piece.getLast? = some '\n') :
    kept piece = piece := by
  by_cases hmem : '\n' ∈ piece
  · obtain ⟨front, rfl⟩ := List.getLast?_eq_some_iff.mp (h hmem)
    rw [kept, if_pos hmem]
    exact List.rdropWhile_concat_neg _ _ _ (by decide)
  · exact kept_of_notMem hmem

/-- If every piece that completes a line ends there, every number is shown. -/
theorem shows_bars_of_whole_lines {numbers : List UInt32} {pieces : List Str}
    (hpieces : pieces.flatten = wire numbers)
    (hwhole : ∀ piece ∈ pieces, '\n' ∈ piece → piece.getLast? = some '\n') :
    ∃ final ∈ eval Service.step (Service.opened pieces),
      final.cout = numbers.map fun value => bar (barLength value.toNat) := by
  have hsurvivors : survivors pieces = wire numbers := by
    have hmap : pieces.map kept = pieces.map id :=
      List.map_congr_left fun piece hpiece => kept_of_getLast? (hwhole piece hpiece)
    rw [survivors, List.flatMap_def, hmap, List.map_id, hpieces]
  obtain ⟨final, hfinal, hcout⟩ := exists_mem_eval_opened hpieces
  refine ⟨final, hfinal, ?_⟩
  rw [hcout, hsurvivors, lines_wire, filterMap_shownLine_eq_iff]
  · exact List.forall₂_map_right_iff.mpr
      (List.forall₂_same.mpr fun value _ => sameBar_decimal value)
  · exact List.forall₂_map_left_iff.mpr (List.forall₂_same.mpr fun value _ => List.suffix_rfl)

end BoostProjects.Serial
