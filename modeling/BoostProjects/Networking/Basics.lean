import BoostProjects.Networking.HTTP

/-!
# A reply up to a delimiter

`readFromSocketUntilDelim` fills a buffer until it holds the delimiter, and then
takes a line off it. The line ends at a newline, whatever the delimiter is.

So the reply is the text before the first delimiter exactly if the delimiter is
the newline: `readFromSocketUntilDelim_iff`. The one caller passes another.
-/

namespace BoostProjects.Networking.Basics

open Boost Cpp HTTP

/-- `read_from_socket_until_delim`, on what is read from the network. -/
def readFromSocketUntilDelim (closing : ErrorCode) (delim : Char) (reads : List Str) :
    Except ErrorCode Str :=
  match readUntil closing [delim] [] reads with
  | .error ec => .error ec
  | .ok (unread, _) =>
    let inputStream : Istream := { unread }
    .ok inputStream.getline.1

/-- `writeToSocketAndReadUntil`, where `code` and `what` are the texts of an error. -/
def writeToSocketAndReadUntil (code what : ErrorCode → Str) (network : Network) : Transcript :=
  let failed (ec : ErrorCode) : Str :=
    "Error occurred! Error code = ".toList ++ code ec ++ ". Message: ".toList ++ what ec
  if network.opening.failed then { console := failed network.opening }
  else
    { request := "Hello".toList
      console :=
        match readFromSocketUntilDelim network.closing '|' network.reads with
        | .error ec => failed ec
        | .ok reply => reply ++ ['\n'] }

section Reply

variable {closing : ErrorCode} {delim : Char} {reads : List Str}

theorem getline_eq_start (unread : Str) :
    (Istream.getline { unread }).1 = Lines.start '\n' unread := by
  rw [Istream.getline]
  simp only [Bool.or_self, Bool.false_eq_true, if_false]
  split <;> rfl

/-- The buffer holds the delimiter, and begins as what was sent. -/
theorem readFromSocketUntilDelim_eq (hdelim : delim ∈ reads.flatten) :
    ∃ unread, delim ∈ unread ∧
      readFromSocketUntilDelim closing delim reads = .ok (Lines.start '\n' unread) ∧
      Lines.start delim reads.flatten = Lines.start delim unread := by
  have hsent : [delim] <:+: [] ++ reads.flatten := (List.singleton_infix_iff _ _).mpr hdelim
  obtain ⟨unread, reads', hread, hfound, hsame⟩ := @readUntil_found closing _ _ _ hsent
  have hmem := (List.singleton_infix_iff _ _).mp hfound
  refine ⟨unread, hmem, ?_, ?_⟩
  · rw [readFromSocketUntilDelim, hread]
    exact congrArg Except.ok (getline_eq_start unread)
  · rw [← List.nil_append reads.flatten, ← hsame]
    exact Lines.start_append_of_mem hmem reads'.flatten

/-- Any other delimiter than the newline gives another reply. -/
theorem reply_eq_start_iff (hdelim : delim ∈ reads.flatten) :
    readFromSocketUntilDelim closing delim reads = .ok (Lines.start delim reads.flatten) ↔
      delim = '\n' := by
  obtain ⟨unread, hmem, hreply, hstart⟩ := @readFromSocketUntilDelim_eq closing _ _ hdelim
  rw [hreply, hstart, Except.ok.injEq, Lines.start_eq_start_iff hmem]
  exact eq_comm

/-- Without the delimiter there is no reply. -/
theorem readFromSocketUntilDelim_error (hdelim : delim ∉ reads.flatten) :
    readFromSocketUntilDelim closing delim reads = .error closing := by
  have hsent : ¬ [delim] <:+: [] ++ reads.flatten := mt (List.singleton_infix_iff _ _).mp hdelim
  rw [readFromSocketUntilDelim, readUntil_error hsent]

end Reply

/-- What a server sends before `|` is never what the client prints for it. -/
theorem console_ne_start (code what : ErrorCode → Str) {network : Network}
    (hopening : network.opening = .success) (hdelim : '|' ∈ network.reads.flatten) :
    (writeToSocketAndReadUntil code what network).console ≠
      Lines.start '|' network.reads.flatten ++ ['\n'] := by
  obtain ⟨unread, -, hreply, -⟩ := @readFromSocketUntilDelim_eq network.closing _ _ hdelim
  have hconsole : (writeToSocketAndReadUntil code what network).console =
      Lines.start '\n' unread ++ ['\n'] := by
    rw [writeToSocketAndReadUntil, hopening, hreply]
    rfl
  intro heq
  rw [hconsole, List.append_left_inj] at heq
  rw [heq, reply_eq_start_iff hdelim] at hreply
  exact absurd hreply (by decide)

/-- **Up to the delimiter, exactly when.** However a stream that holds the delimiter
is cut into reads, the reply is the text before the first one if and only if the
delimiter is the newline. -/
theorem readFromSocketUntilDelim_iff (closing : ErrorCode) (delim : Char) (reads : List Str)
    (hdelim : delim ∈ reads.flatten) :
    readFromSocketUntilDelim closing delim reads = .ok (reads.flatten.takeWhile (· ≠ delim)) ↔
      delim = '\n' :=
  reply_eq_start_iff hdelim

theorem readFromSocketUntilDelim_newline :
    readFromSocketUntilDelim eof '\n' ["on".toList, "e\ntw".toList, "o".toList] =
      .ok "one".toList :=
  (readFromSocketUntilDelim_iff eof '\n' ["on".toList, "e\ntw".toList, "o".toList]
    (by decide)).mpr rfl

/-- The delimiter of the caller, which stays in its reply. -/
theorem not_readFromSocketUntilDelim :
    ¬ ∀ (delim : Char) (reads : List Str), delim ∈ reads.flatten →
      readFromSocketUntilDelim eof delim reads = .ok (reads.flatten.takeWhile (· ≠ delim)) := by
  intro hall
  have hreply := hall '|' ["one|two\n".toList] (by decide)
  revert hreply
  decide

end BoostProjects.Networking.Basics
