import BoostProjects.Library.Lists
import BoostProjects.Serial.Console

/-!
# The keys that are shown

The console thread posts a handler for each character it reads, and the other
thread shows it: the line of the input is row 10, from column 10 on, and begins
anew when `m_charCount` has passed 60. Meanwhile that thread writes the banner,
the time and the bars.

None of the characters is lost or shown twice, whatever the order in which the
handlers are taken (`Shows.run`); taken in turn they are shown in the order in
which they were typed, each in the column of its number, and all of them come up.
-/

namespace BoostProjects.Serial.Program

open Boost Cpp Transition

variable {program next : Program}

/-! ## The texts -/

/-- What a character looks like. -/
def glyph (c : Char) : Str :=
  if isprint c then [c]
  else if iscntrl c then reverseVideo ++ [Char.ofNat (c.toNat ||| 0x40)] ++ normalVideo
  else graphicCharSet ++ [graphicDiamond] ++ normalCharSet

/-- A character shown in a column of the input. -/
def keyText (column : ℕ) (c : Char) : Str := rowCol 10 (10 + column) ++ clearEol ++ glyph c

/-- The texts of characters, from the first column on and after 61 of them again. -/
def keyTexts (keys : List Char) : List Str :=
  keys.zipIdx.map fun key => keyText (key.2 % 61) key.1

/-- The text goes to the row of the input. -/
def isKeyText (text : Str) : Bool := "\x1b[10;".toList.isPrefixOf text

/-- The characters that are to be shown by handlers in the queue. -/
def keyOf : Handler → Option Char
  | .input c => some c
  | _ => none

/-- The keys whose handlers are queued, in order. -/
def keysQueued (program : Program) : List Char := program.queue.filterMap keyOf

/-- The characters that the console thread posts. -/
def typed (events : List Event) : List Char := (consoleChars events).filter (· ≠ ctrlC)

theorem keyTexts_concat (keys : List Char) (c : Char) :
    keyTexts (keys ++ [c]) = keyTexts keys ++ [keyText (keys.length % 61) c] := by
  simp [keyTexts, List.zipIdx_append]

theorem isKeyText_keyText (column : ℕ) (c : Char) : isKeyText (keyText column c) = true := by
  rw [isKeyText, List.isPrefixOf_iff_prefix]
  have hten : Nat.toDigits 10 10 = ['1', '0'] := by decide
  simp [keyText, rowCol, hten]

theorem isKeyText_bar (length : ℕ) : isKeyText (bar length) = false := by
  have htwelve : Nat.toDigits 10 12 = ['1', '2'] := by decide
  simp [isKeyText, bar, rowCol, htwelve, List.isPrefixOf]

theorem isKeyText_time (now : Str) : isKeyText (rowCol 1 40 ++ clearEol ++ now) = false := by
  have hone : Nat.toDigits 10 1 = ['1'] := by decide
  simp [isKeyText, rowCol, hone, List.isPrefixOf]

/-! ## What the handlers do to the input line -/

/-- The input line, its column and the characters to be shown are left alone. -/
structure KeepsKeys (program next : Program) : Prop where
  charCount : next.charCount = program.charCount
  texts : next.cout.filter isKeyText = program.cout.filter isKeyText
  queued : next.keysQueued = program.keysQueued

theorem keepsKeys_refl (program : Program) : KeepsKeys program program := ⟨rfl, rfl, rfl⟩

theorem KeepsKeys.print (h : KeepsKeys program next) {output : Str}
    (houtput : isKeyText output = false) : KeepsKeys program (next.print output) := by
  refine ⟨h.charCount, ?_, h.queued⟩
  rw [← h.texts]
  simp [Program.print, houtput]

theorem KeepsKeys.post (h : KeepsKeys program next) {handler : Handler}
    (hhandler : keyOf handler = none) : KeepsKeys program (next.post handler) := by
  refine ⟨h.charCount, h.texts, ?_⟩
  rw [← h.queued]
  simp [keysQueued, Program.post, hhandler]

theorem KeepsKeys.readLine (h : KeepsKeys program next) : KeepsKeys program next.readLine := by
  rw [Program.readLine]
  have hkeeps : KeepsKeys program { next with reads := next.reads + 1 } :=
    ⟨h.charCount, h.texts, h.queued⟩
  split_ifs
  · exact hkeeps.post rfl
  · exact ⟨h.charCount, h.texts, h.queued⟩

theorem KeepsKeys.lineReceived (h : KeepsKeys program next) (ec : ErrorCode) :
    KeepsKeys program (next.lineReceived ec) := by
  rcases ec.failed_or_eq_success with hec | rfl
  · rw [Program.lineReceived, if_pos hec]
    exact h
  · rw [lineReceived_success]
    -- A bar is not in the row of the input.
    have hshown : ((Service.shownBy (extract next.serialData)).toList).filter isKeyText = [] := by
      cases hgood : (extract next.serialData).good with
      | true => simp [Service.shownBy, hgood, isKeyText_bar]
      | false => simp [Service.shownBy, hgood]
    refine KeepsKeys.readLine ⟨h.charCount, ?_, h.queued⟩
    rw [List.filter_append, hshown, List.append_nil]
    exact h.texts

theorem KeepsKeys.portRead (h : KeepsKeys program next) (ec : ErrorCode) (bytes : Str) :
    KeepsKeys program (next.portRead ec bytes) := by
  rw [Program.portRead]
  split_ifs
  · have hkeeps : KeepsKeys program { next with serialData := next.serialData ++ bytes } :=
      ⟨h.charCount, h.texts, h.queued⟩
    exact hkeeps.lineReceived ec
  · exact ⟨h.charCount, h.texts, h.queued⟩

theorem KeepsKeys.cancelTimer (h : KeepsKeys program next) :
    KeepsKeys program next.cancelTimer := by
  rw [Program.cancelTimer]
  have hkeeps : KeepsKeys program { next with waiting := false } :=
    ⟨h.charCount, h.texts, h.queued⟩
  split_ifs
  · exact hkeeps.post rfl
  · exact h

theorem KeepsKeys.cancelPort (h : KeepsKeys program next) : KeepsKeys program next.cancelPort := by
  rw [Program.cancelPort]
  have hkeeps : KeepsKeys program { next with reading := false } :=
    ⟨h.charCount, h.texts, h.queued⟩
  split_ifs
  · exact hkeeps.post rfl
  · exact h

theorem KeepsKeys.timerExpired (h : KeepsKeys program next) (ec : ErrorCode) (now : Str) :
    KeepsKeys program (next.timerExpired ec now) := by
  rw [Program.timerExpired]
  split_ifs
  · exact h
  · have hcancelled := (h.print (isKeyText_time now)).cancelTimer
    exact ⟨hcancelled.charCount, hcancelled.texts, hcancelled.queued⟩

theorem KeepsKeys.stop (h : KeepsKeys program next) : KeepsKeys program next.stop := by
  have hcancelled := h.cancelTimer.cancelPort
  exact ⟨hcancelled.charCount, hcancelled.texts, hcancelled.queued⟩

/-- Only `showInput` writes to the input line. -/
theorem keepsKeys_handle (program : Program) (now : Str) {handler : Handler}
    (hhandler : keyOf handler = none) : KeepsKeys program (program.handle now handler) := by
  cases handler with
  | banner =>
    refine (keepsKeys_refl program).print ?_
    rw [isKeyText, List.append_assoc, List.append_assoc]
    rfl
  | input c => exact nomatch hhandler
  | timerExpired ec => exact (keepsKeys_refl program).timerExpired ec now
  | portRead ec bytes => exact (keepsKeys_refl program).portRead ec bytes

/-- No handler queues a character. -/
theorem keysQueued_handle (program : Program) (now : Str) (handler : Handler) :
    (program.handle now handler).keysQueued = program.keysQueued := by
  cases hkey : keyOf handler with
  | none => exact (keepsKeys_handle program now hkey).queued
  | some c =>
    cases handler with
    | input c' => rfl
    | banner | timerExpired | portRead => exact nomatch hkey

/-! ## What has been shown -/

/-- The input line has shown `shown`. -/
structure Shows (shown : List Char) (program : Program) : Prop where
  texts : program.cout.filter isKeyText = keyTexts shown
  bound : program.charCount ≤ 61
  count : program.charCount % 61 = shown.length % 61

theorem Shows.keeps {shown : List Char} (h : Shows shown program) (hkeeps : KeepsKeys program next) :
    Shows shown next := by
  refine ⟨hkeeps.texts.trans h.texts, ?_, ?_⟩
  · rw [hkeeps.charCount]
    exact h.bound
  · rw [hkeeps.charCount]
    exact h.count

theorem Shows.showInput {shown : List Char} (h : Shows shown program) (c : Char) :
    Shows (shown ++ [c]) (program.showInput c) := by
  have hbound := h.bound
  have hcount := h.count
  have hcolumn : (if program.charCount > 60 then 0 else program.charCount) = shown.length % 61 := by
    split_ifs <;> omega
  have hshow : program.showInput c =
      { program with charCount := shown.length % 61 + 1 }.print
        (keyText (shown.length % 61) c) := by
    rw [← hcolumn]
    rfl
  rw [hshow]
  refine ⟨?_, ?_, ?_⟩
  · rw [keyTexts_concat, ← h.texts]
    simp [print, isKeyText_keyText]
  · exact Nat.mod_lt _ (Nat.succ_pos 60)
  · rw [List.length_append, List.length_singleton]
    exact Nat.mod_add_mod _ _ _

/-! ## Runs -/

/-- From `program` to `next` the characters shown and to be shown stay the same but for
those typed; with the handlers taken in turn, they stay in order. -/
structure Advances (shown : List Char) (program : Program) (event : Event) (shown' : List Char)
    (next : Program) : Prop where
  shows : Shows shown' next
  perm : (shown' ++ next.keysQueued).Perm (shown ++ program.keysQueued ++ typed [event])
  inOrder : InOrder event →
    shown' ++ next.keysQueued = shown ++ program.keysQueued ++ typed [event]

theorem advances_of_eq {shown shown' : List Char} {event : Event} (hshows : Shows shown' next)
    (heq : shown' ++ next.keysQueued = shown ++ program.keysQueued ++ typed [event]) :
    Advances shown program event shown' next :=
  ⟨hshows, heq ▸ .refl _, fun _ => heq⟩

theorem Shows.advances_keeps {shown : List Char} (h : Shows shown program) {event : Event}
    (hkeeps : KeepsKeys program next) (htyped : typed [event] = []) :
    Advances shown program event shown next := by
  apply advances_of_eq (h.keeps hkeeps)
  rw [hkeeps.queued, htyped, List.append_nil]

theorem Shows.advances_getchar {shown : List Char} (h : Shows shown program) {c : Char}
    (hstep : step program (.getchar c) = some next) :
    Advances shown program (.getchar c) shown next := by
  by_cases hc : c = ctrlC
  · subst hc
    have hstop := (keepsKeys_refl program).stop
    rw [step_ctrlC hstep]
    exact h.advances_keeps ⟨hstop.charCount, hstop.texts, hstop.queued⟩ rfl
  · obtain ⟨-, hnext⟩ := Option.ite_none_right_eq_some.mp hstep
    rw [if_neg hc] at hnext
    obtain rfl := Option.some.inj hnext
    have htyped : typed [.getchar c] = [c] := by simp [typed, consoleChars, hc]
    have hqueued : (program.input c).keysQueued = program.keysQueued ++ [c] := by
      simp [keysQueued, input, post, keyOf]
    refine advances_of_eq ⟨h.texts, h.bound, h.count⟩ ?_
    rw [htyped, hqueued, List.append_assoc]

/-- A handler is taken: it is removed from the queue. -/
theorem Shows.advances_handle {shown : List Char} (h : Shows shown program) {i : ℕ} {now : Str}
    (hstep : step program (.handle i now) = some next) :
    ∃ shown', Advances shown program (.handle i now) shown' next := by
  obtain ⟨handler, hhandler, rfl⟩ := Option.map_eq_some_iff.mp hstep
  obtain ⟨before, after, hqueue, rfl⟩ := Lists.exists_split_of_getElem? hhandler
  have herase : program.queue.eraseIdx before.length = before ++ after := by
    rw [hqueue, Lists.eraseIdx_split]
  have hqueued : ∀ queue, keysQueued { program with queue } = queue.filterMap keyOf := fun _ => rfl
  rw [herase]
  cases hkey : keyOf handler with
  | none =>
    have hsame : keysQueued { program with queue := before ++ after } = program.keysQueued := by
      rw [hqueued, keysQueued, hqueue, List.filterMap_append, List.filterMap_append,
        List.filterMap_cons_none hkey]
    have hkeeps := keepsKeys_handle { program with queue := before ++ after } now hkey
    exact ⟨shown, h.advances_keeps ⟨hkeeps.charCount, hkeeps.texts, hkeeps.queued.trans hsame⟩ rfl⟩
  | some c =>
    obtain rfl : handler = .input c := by
      cases handler with
      | input c' => exact congrArg _ (Option.some.inj hkey)
      | banner | timerExpired | portRead => exact nomatch hkey
    have hshows : Shows shown { program with queue := before ++ after } :=
      ⟨h.texts, h.bound, h.count⟩
    have hbefore : program.keysQueued = before.filterMap keyOf ++ c :: after.filterMap keyOf := by
      rw [keysQueued, hqueue, List.filterMap_append, List.filterMap_cons_some hkey]
    have hafter : (({ program with queue := before ++ after } : Program).handle now
        (.input c)).keysQueued = before.filterMap keyOf ++ after.filterMap keyOf :=
      List.filterMap_append
    refine ⟨shown ++ [c], hshows.showInput c, ?_, fun hturn => ?_⟩
    · have htyped : typed [.handle before.length now] = [] := rfl
      rw [hafter, hbefore, htyped, List.append_nil, List.append_assoc, List.singleton_append]
      exact List.perm_middle.symm.append_left shown
    · have hnil : before = [] := List.length_eq_zero_iff.mp (hturn _ _ rfl)
      rw [hafter, hbefore, hnil]
      simp [typed, consoleChars]

theorem Shows.step {shown : List Char} (h : Shows shown program) {event : Event}
    (hstep : step program event = some next) :
    ∃ shown', Advances shown program event shown' next := by
  cases event with
  | getchar c => exact ⟨shown, h.advances_getchar hstep⟩
  | timerFired =>
    obtain ⟨-, hnext⟩ := Option.ite_none_right_eq_some.mp hstep
    obtain rfl := Option.some.inj hnext
    have hkeeps : KeepsKeys program { program with waiting := false } := ⟨rfl, rfl, rfl⟩
    exact ⟨shown, h.advances_keeps (hkeeps.post rfl) rfl⟩
  | arrived bytes =>
    obtain ⟨-, hnext⟩ := Option.ite_none_right_eq_some.mp hstep
    obtain rfl := Option.some.inj hnext
    have hkeeps : KeepsKeys program { program with reading := false } := ⟨rfl, rfl, rfl⟩
    exact ⟨shown, h.advances_keeps (hkeeps.post rfl) rfl⟩
  | readFailed ec =>
    obtain ⟨-, hnext⟩ := Option.ite_none_right_eq_some.mp hstep
    obtain rfl := Option.some.inj hnext
    have hkeeps : KeepsKeys program { program with reading := false } := ⟨rfl, rfl, rfl⟩
    exact ⟨shown, h.advances_keeps (hkeeps.post rfl) rfl⟩
  | handle i now => exact h.advances_handle hstep

theorem typed_cons (event : Event) (events : List Event) :
    typed (event :: events) = typed [event] ++ typed events := by
  rw [typed, typed, typed, ← List.filter_append, consoleChars, consoleChars, consoleChars,
    ← List.filterMap_append, List.singleton_append]

/-- Along a run nothing is lost, and in turn nothing changes places. -/
theorem Shows.after {shown : List Char} {events : List Event} {final : Program}
    (h : Shows shown program) (hrun : Transition.run Program.step program events = some final) :
    ∃ shown', Shows shown' final ∧
      (shown' ++ final.keysQueued).Perm (shown ++ program.keysQueued ++ typed events) ∧
      ((∀ event ∈ events, InOrder event) →
        shown' ++ final.keysQueued = shown ++ program.keysQueued ++ typed events) := by
  induction events generalizing shown program with
  | nil =>
    obtain rfl := Option.some.inj hrun
    have heq : shown ++ program.keysQueued = shown ++ program.keysQueued ++ typed [] :=
      (List.append_nil _).symm
    exact ⟨shown, h, heq ▸ .refl _, fun _ => heq⟩
  | cons event events ih =>
    obtain ⟨next, hstep, hrest⟩ := run_cons_eq_some_iff.mp hrun
    obtain ⟨middle, hmiddle⟩ := h.step hstep
    obtain ⟨shown', hshows, hperm, hinOrder⟩ := ih hmiddle.shows hrest
    rw [typed_cons, ← List.append_assoc]
    refine ⟨shown', hshows, hperm.trans (hmiddle.perm.append_right _), fun hevents => ?_⟩
    obtain ⟨hevent, hevents⟩ := List.forall_mem_cons.mp hevents
    rw [hinOrder hevents, hmiddle.inOrder hevent]

theorem shows_opened : Shows [] opened := ⟨rfl, Nat.zero_le _, rfl⟩

/-! ### All characters come up -/

/-- Handlers that are queued later show no characters. -/
theorem keyOf_of_queued {handlers more : List Handler} (hqueue : next.queue = handlers ++ more)
    (hqueued : next.keysQueued = handlers.filterMap keyOf) : more.filterMap keyOf = [] := by
  rw [keysQueued, hqueue, List.filterMap_append] at hqueued
  simpa using hqueued

/-- Taking the handlers in turn, the characters that are to be shown are shown. -/
theorem canReach_noKeys {front back : List Handler} (hqueue : program.queue = front ++ back)
    (hback : back.filterMap keyOf = []) :
    CanReach step IsNext (fun final => final.keysQueued = []) program := by
  induction front generalizing program back with
  | nil =>
    refine .here ?_
    rw [keysQueued, hqueue]
    exact hback
  | cons handler front ih =>
    have hstep := step_handle_zero [] hqueue
    have hqueued := keysQueued_handle { program with queue := front ++ back } [] handler
    obtain ⟨more, hmore⟩ :=
      (extends_handle { program with queue := front ++ back } [] handler).queue
    have hnone : more.filterMap keyOf = [] := keyOf_of_queued hmore.symm hqueued
    refine .head hstep ⟨[], rfl⟩ (ih ((List.append_assoc _ _ _ ▸ hmore).symm) ?_)
    rw [List.filterMap_append, hback, hnone]
    rfl

theorem typed_of_isNext {events : List Event} (h : ∀ event ∈ events, IsNext event) :
    typed events = [] := by
  induction events with
  | nil => rfl
  | cons event events ih =>
    obtain ⟨⟨now, rfl⟩, hevents⟩ := List.forall_mem_cons.mp h
    rw [typed_cons, ih hevents]
    rfl

/-- **Every key is shown once, in its place.** Whatever the schedule of the two threads,
the characters shown, each in the column of its number modulo 61, and those still to
be shown are together the characters typed. With the handlers taken in turn they are
so in the order of typing, and all that were typed can come up. -/
theorem keys_shown (events : List Event) (program : Program)
    (hrun : Transition.run step opened events = some program) :
    ∃ shown, program.cout.filter isKeyText = keyTexts shown ∧
      (shown ++ program.keysQueued).Perm (typed events) ∧
      ((∀ event ∈ events, InOrder event) →
        shown ++ program.keysQueued = typed events ∧
        CanReach step IsNext (fun final => final.cout.filter isKeyText = keyTexts (typed events))
          program) := by
  obtain ⟨shown, hshows, hperm, hinOrder⟩ := shows_opened.after hrun
  refine ⟨shown, hshows.texts, hperm, fun hevents => ⟨hinOrder hevents, ?_⟩⟩
  obtain ⟨more, final, hmore, hfinal, hempty⟩ :=
    canReach_noKeys (List.append_nil program.queue).symm rfl
  refine ⟨more, final, hmore, hfinal, ?_⟩
  obtain ⟨shown', hshows', -, hinOrder'⟩ := hshows.after hfinal
  have hturn : ∀ event ∈ more, InOrder event := by
    intro event hevent
    obtain ⟨now, rfl⟩ := hmore event hevent
    exact inOrder_handle_zero now
  have hshown : shown' ++ final.keysQueued = shown ++ program.keysQueued ++ typed more :=
    hinOrder' hturn
  have hall : shown ++ program.keysQueued = typed events := hinOrder hevents
  rw [hempty, hall, typed_of_isNext hmore, List.append_nil, List.append_nil] at hshown
  rw [hshows'.texts, hshown]

/-- Two keys are typed, and the first is shown; the time is shown between them. -/
theorem keys_shown_two : ∃ program,
    Transition.run step opened
        [.getchar 'a', .timerFired, .getchar 'b', .handle 0 [], .handle 0 [], .handle 0 ['\n']] =
      some program ∧
      CanReach step IsNext (fun final => final.cout.filter isKeyText = keyTexts ['a', 'b'])
        program := by
  obtain ⟨program, hprogram⟩ : ∃ program, Transition.run step opened
      [.getchar 'a', .timerFired, .getchar 'b', .handle 0 [], .handle 0 [], .handle 0 ['\n']] =
      some program := ⟨_, rfl⟩
  obtain ⟨shown, -, -, hturn⟩ := keys_shown _ program hprogram
  refine ⟨program, hprogram, (hturn ?_).2⟩
  simp [InOrder]

end BoostProjects.Serial.Program
