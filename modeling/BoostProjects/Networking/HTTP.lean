import BoostProjects.Boost.Completion
import BoostProjects.Cpp.Istream
import BoostProjects.Library.Lines
import Mathlib.Data.List.DropRight

/-!
# The hand-written HTTP client

Two functions send the same request to different addresses and treat the answer
alike. They read it with a single buffer: `read_until` fills the buffer until its
unread part holds a delimiter, and lines are taken off its front.

The empty line that ends the headers is looked for only after the status line has
been taken off. If there are no headers, one half of `"\r\n\r\n"` has gone with it.
-/

namespace BoostProjects.Networking.HTTP

open Boost Cpp Lines

/-- The end of a line. -/
def crlf : Str := ['\r', '\n']

/-- `"HTTP/"` -/
def http : Str := ['H', 'T', 'T', 'P', '/']

/-- What the client meets: whether it can resolve, connect and send its request,
the pieces in which the answer arrives, and the error that ends it. -/
structure Network where
  opening : ErrorCode := .success
  reads : List Str := []
  closing : ErrorCode := eof
  deriving DecidableEq, Repr

/-- `asio::read_until`: the unread part of the buffer, which holds the delimiter,
and what has not been read from the network. -/
def readUntil (closing : ErrorCode) (delim : Str) (unread : Str) :
    List Str → Except ErrorCode (Str × List Str)
  | [] => if delim <:+: unread then .ok (unread, []) else .error closing
  | piece :: reads =>
    if delim <:+: unread then .ok (unread, piece :: reads)
    else readUntil closing delim (unread ++ piece) reads

/-- The loop over the headers: what it prints, and the stream after it. -/
def printHeaders (responseStream : Istream) : Str × Istream :=
  if _h : responseStream.getline.2.fail = true ∨ responseStream.getline.1 = ['\r'] then
    ([], responseStream.getline.2)
  else
    let printed := printHeaders responseStream.getline.2
    (responseStream.getline.1 ++ ['\n'] ++ printed.1, printed.2)
termination_by responseStream.unread.length
decreasing_by
  exact Istream.length_getline (Bool.eq_false_iff.mpr (not_or.mp _h).1)

section Client

-- `e.what()`, for an exception with an error code.
variable (what : ErrorCode → Str)

/-- The `catch` of the client. -/
def catchException (ec : ErrorCode) : Str := "Exception: ".toList ++ what ec ++ ['\n']

/-- The loop that reads to the end: each piece is printed as it is read. -/
def printPieces (closing : ErrorCode) : List Str → Str
  | [] => if closing ≠ eof then catchException what closing else []
  | piece :: reads => piece ++ printPieces closing reads

/-- What is printed from the second `read_until` on. -/
def printContent (closing : ErrorCode) (responseStream : Istream) (reads : List Str) : Str :=
  match readUntil closing (crlf ++ crlf) responseStream.unread reads with
  | .error ec => catchException what ec
  | .ok (unread, reads) =>
    let (headers, responseStream) := printHeaders { responseStream with unread }
    headers ++ ['\n'] ++ responseStream.unread ++ printPieces what closing reads

/-- What is printed of the answer. -/
def printResponse (network : Network) : Str :=
  match readUntil network.closing crlf [] network.reads with
  | .error ec => catchException what ec
  | .ok (unread, reads) =>
    let responseStream : Istream := { unread }
    let (httpVersion, responseStream) := responseStream.extractString
    let (statusCode, responseStream) := responseStream.extractUnsigned
    let (_, responseStream) := responseStream.getline
    if responseStream.fail ∨ httpVersion.take 5 ≠ http then
      "Invalid response\n".toList
    else if 200 ≠ statusCode then
      "Response returned with status code ".toList ++ (Nat.repr statusCode).toList ++ ['\n']
    else printContent what network.closing responseStream reads

/-- What the client sends and what it prints. -/
structure Transcript where
  request : Str := []
  console : Str
  deriving DecidableEq, Repr

/-- The body of both functions. -/
def get (host path : Str) (network : Network) : Transcript :=
  if network.opening.failed then { console := catchException what network.opening }
  else
    { request := "GET ".toList ++ path ++ " HTTP/1.0\r\n".toList ++
        "Host: ".toList ++ host ++ crlf ++ "Accept: */*\r\n".toList ++
        "Connection: close\r\n\r\n".toList
      console := printResponse what network }

/-- `Networking::HTTP::sendRequestGET` -/
def sendRequestGET (network : Network) : Transcript :=
  get what "0.0.0.0.".toList "/debug".toList network

/-- `Simple_Synch::httpGetRequest_TcpSocket` -/
def httpGetRequestTcpSocket (network : Network) : Transcript :=
  get what "0.0.0.0".toList "/index".toList network

end Client

/-! ## Responses -/

/-- A well-formed response with status code 200. -/
structure Response where
  /-- What follows `HTTP/` in the version. -/
  version : Str
  reason : Str
  headers : List Str
  body : Str
  version_spaceless : ∀ c ∈ version, isSpace c = false
  reason_line : '\n' ∉ reason
  headers_ne_nil : ∀ header ∈ headers, header ≠ []
  headers_line : ∀ header ∈ headers, '\n' ∉ header

namespace Response

variable (response : Response)

/-- The line with the status 200. -/
def statusLine : Str :=
  http ++ response.version ++ [' ', '2', '0', '0', ' '] ++ response.reason

/-- The lines of the headers. -/
def headerLines : Str := response.headers.flatMap fun header => header ++ crlf

/-- What follows the status line. -/
def rest : Str := response.headerLines ++ crlf ++ response.body

/-- The response, as it is sent. -/
def bytes : Str := response.statusLine ++ crlf ++ response.rest

/-- The header lines with a newline each, one newline, and the body. -/
def printed : Str := response.headerLines ++ ['\n'] ++ response.body

end Response

section Reading

variable {closing : ErrorCode} {delim unread : Str} {reads : List Str}

/-- If the delimiter is there or still comes, it is found, and nothing is lost. -/
theorem readUntil_found (h : delim <:+: unread ++ reads.flatten) :
    ∃ unread' reads', readUntil closing delim unread reads = .ok (unread', reads') ∧
      delim <:+: unread' ∧ unread' ++ reads'.flatten = unread ++ reads.flatten := by
  induction reads generalizing unread with
  | nil =>
    rw [List.flatten_nil, List.append_nil] at h
    exact ⟨unread, [], if_pos h, h, rfl⟩
  | cons piece reads ih =>
    rw [readUntil]
    split_ifs with hfound
    · exact ⟨unread, piece :: reads, rfl, hfound, rfl⟩
    · rw [List.flatten_cons, ← List.append_assoc] at h ⊢
      exact ih h

/-- If it never comes, the end of the stream is an error. -/
theorem readUntil_error (h : ¬ delim <:+: unread ++ reads.flatten) :
    readUntil closing delim unread reads = .error closing := by
  induction reads generalizing unread with
  | nil =>
    rw [List.flatten_nil, List.append_nil] at h
    exact if_neg h
  | cons piece reads ih =>
    have hunread : ¬ delim <:+: unread := fun hfound => h (hfound.trans (List.infix_append' [] _ _))
    rw [readUntil, if_neg hunread]
    rw [List.flatten_cons, ← List.append_assoc] at h
    exact ih h

theorem printPieces_eof (what : ErrorCode → Str) : printPieces what eof reads = reads.flatten := by
  induction reads with
  | nil => rfl
  | cons piece reads ih => rw [printPieces, ih, List.flatten_cons]

/-- What holds a delimiter that ends a line holds the whole line, if both begin the
same text. -/
theorem line_isPrefix {line rest start : Str} {c : Char} (hline : ¬ delim <:+: line)
    (hstart : start <+: (line ++ [c]) ++ rest) (hfound : delim <:+: start) :
    line ++ [c] <+: start := by
  rcases List.prefix_or_prefix_of_prefix hstart (List.prefix_append (line ++ [c]) rest) with
    hle | hle
  · rcases List.prefix_concat_iff.mp hle with heq | hle
    · exact heq ▸ List.prefix_rfl
    · exact absurd (hfound.trans hle.isInfix) hline
  · exact hle

/-- Up to its end, a line read with its delimiter is followed by what is left. -/
theorem readUntil_line {line rest : Str} {c : Char} (hline : ¬ delim <:+: line)
    (hfound : delim <:+: line ++ [c] ++ rest) (hbytes : unread ++ reads.flatten = line ++ [c] ++ rest) :
    ∃ left reads', readUntil closing delim unread reads = .ok (line ++ [c] ++ left, reads') ∧
      left ++ reads'.flatten = rest := by
  rw [← hbytes] at hfound
  obtain ⟨unread', reads', hread, hfound', hsame⟩ := @readUntil_found closing _ _ _ hfound
  obtain ⟨left, rfl⟩ := line_isPrefix hline ⟨reads'.flatten, hsame.trans hbytes⟩ hfound'
  refine ⟨left, reads', hread, ?_⟩
  rw [hbytes, List.append_assoc _ left] at hsame
  exact List.append_cancel_left hsame

end Reading

/-! ### The status line -/

section Response

variable {response : Response}

theorem newline_notMem_version : '\n' ∉ response.version := fun hmem =>
  nomatch response.version_spaceless '\n' hmem

theorem newline_notMem_statusLine : '\n' ∉ response.statusLine := by
  simp [Response.statusLine, http, newline_notMem_version, response.reason_line]

theorem not_infix_of_newline {delim line : Str} (hdelim : '\n' ∈ delim) (hline : '\n' ∉ line) :
    ¬ delim <:+: line := fun hholds => hline (hholds.subset hdelim)

/-- The version is taken off the front. -/
theorem extractString_statusLine (left : Str) :
    Istream.extractString { unread := response.statusLine ++ crlf ++ left } =
      (http ++ response.version,
        { unread := [' ', '2', '0', '0', ' '] ++ (response.reason ++ ['\r'] ++ '\n' :: left) }) := by
  have hname : ∀ c ∈ http, isSpace c = false := by simp [http, isSpace]
  have hword := List.forall_mem_append.mpr ⟨hname, response.version_spaceless⟩
  have hsplit : response.statusLine ++ crlf ++ left =
      (http ++ response.version) ++
        ' ' :: (['2', '0', '0', ' '] ++ (response.reason ++ ['\r'] ++ '\n' :: left)) := by
    simp [Response.statusLine, crlf]
  rw [hsplit]
  exact Istream.extractString_word (by simp [http]) hword rfl _

/-- The status code is taken off next. -/
theorem extractUnsigned_statusLine (left : Str) :
    Istream.extractUnsigned { unread := [' ', '2', '0', '0', ' '] ++ left } =
      (200, { unread := ' ' :: left }) :=
  rfl

/-- The rest of the line is taken off, with the newline. -/
theorem getline_statusLine (left : Str) :
    Istream.getline { unread := ' ' :: (response.reason ++ ['\r'] ++ '\n' :: left) } =
      (' ' :: (response.reason ++ ['\r']), { unread := left }) := by
  refine @Istream.getline_append (' ' :: (response.reason ++ ['\r'])) ?_ left
  simp [response.reason_line]

/-! ### The headers -/

/-- An empty line is one of the lines. -/
theorem cr_mem_lines {text : Str} (h : crlf ++ crlf <:+: text) : ['\r'] ∈ lines '\n' text := by
  obtain ⟨before, after, rfl⟩ := h
  have hsplit : before ++ (crlf ++ crlf) ++ after =
      (before ++ ['\r']) ++ '\n' :: (['\r'] ++ '\n' :: after) := by
    simp [crlf]
  rw [hsplit, lines_append_cons, lines_cons (by decide)]
  exact List.mem_append_right _ List.mem_cons_self

/-- Among the header lines there is no empty one. -/
theorem not_infix_headerLines : ¬ crlf ++ crlf <:+: response.headerLines ++ ['\r'] := by
  intro hholds
  have hheaders : response.headerLines =
      (response.headers.map (· ++ ['\r'])).flatMap (· ++ ['\n']) := by
    simp [Response.headerLines, List.flatMap_map, crlf]
  have hlines : ∀ line ∈ response.headers.map (· ++ ['\r']), '\n' ∉ line := by
    intro line hline
    obtain ⟨header, hheader, rfl⟩ := List.mem_map.mp hline
    simp [response.headers_line header hheader]
  have hmem := cr_mem_lines hholds
  rw [hheaders, lines_flatMap_append hlines, lines_of_notMem (by decide), List.append_nil] at hmem
  obtain ⟨header, hheader, heq⟩ := List.mem_map.mp hmem
  exact response.headers_ne_nil header hheader (List.append_left_eq_self.mp heq)

theorem printHeaders_blank (left : Str) :
    printHeaders { unread := crlf ++ left } = ([], { unread := left }) := by
  have hgetline : Istream.getline { unread := crlf ++ left } = (['\r'], { unread := left }) :=
    @Istream.getline_append ['\r'] (by decide) left
  rw [printHeaders, hgetline]
  exact dif_pos (Or.inr rfl)

theorem printHeaders_line {header : Str} (hne : header ≠ []) (hheader : '\n' ∉ header)
    (left : Str) :
    printHeaders { unread := header ++ crlf ++ left } =
      (header ++ crlf ++ (printHeaders { unread := left }).1,
        (printHeaders { unread := left }).2) := by
  have hgetline : Istream.getline { unread := header ++ crlf ++ left } =
      (header ++ ['\r'], { unread := left }) := by
    have hsplit : header ++ crlf ++ left = (header ++ ['\r']) ++ '\n' :: left := by simp [crlf]
    rw [hsplit]
    exact Istream.getline_append (by simp [hheader]) left
  rw [printHeaders, hgetline]
  have hgoes : ¬ (false = true ∨ header ++ ['\r'] = ['\r']) := by simp [hne]
  rw [dif_neg hgoes]
  simp [crlf]

theorem printHeaders_headers {headers : List Str} (hne : ∀ header ∈ headers, header ≠ [])
    (hline : ∀ header ∈ headers, '\n' ∉ header) (left : Str) :
    printHeaders { unread := headers.flatMap (· ++ crlf) ++ crlf ++ left } =
      (headers.flatMap (· ++ crlf), { unread := left }) := by
  induction headers with
  | nil => exact printHeaders_blank left
  | cons header headers ih =>
    obtain ⟨hne, hnes⟩ := List.forall_mem_cons.mp hne
    obtain ⟨hline, hlines⟩ := List.forall_mem_cons.mp hline
    rw [List.flatMap_cons, List.append_assoc, List.append_assoc, printHeaders_line hne hline,
      ← List.append_assoc, ih hnes hlines]

/-! ### The answer -/

/-- An empty line follows the status line: after the headers, or in the body. -/
def Response.BlankLineFollows (response : Response) : Prop :=
  response.headers ≠ [] ∨ crlf ++ crlf <:+: crlf ++ response.body

theorem infix_rest_iff : crlf ++ crlf <:+: response.rest ↔ response.BlankLineFollows := by
  unfold Response.BlankLineFollows
  rcases List.eq_nil_or_concat response.headers with hheaders | ⟨headers, header, hheaders⟩
  · have hrest : response.rest = crlf ++ response.body := by
      simp [Response.rest, Response.headerLines, hheaders]
    simp [hrest, hheaders]
  · refine iff_of_true ?_ (Or.inl (by simp [hheaders]))
    refine ⟨headers.flatMap (· ++ crlf) ++ header, response.body, ?_⟩
    simp [Response.rest, Response.headerLines, hheaders]

variable {what : ErrorCode → Str} {left : Str} {reads : List Str}

/-- Where an empty line follows, all is printed as it came. -/
theorem printContent_of_blankLine (hblank : response.BlankLineFollows)
    (hrest : left ++ reads.flatten = response.rest) :
    printContent what eof { unread := left } reads = response.printed := by
  have hfound := infix_rest_iff.mpr hblank
  have hsplit : response.rest = (response.headerLines ++ ['\r']) ++ ['\n'] ++ response.body := by
    simp [Response.rest, crlf]
  rw [hsplit] at hrest hfound
  obtain ⟨left', reads', hread, hbody⟩ :=
    @readUntil_line eof _ _ _ _ _ _ not_infix_headerLines hfound hrest
  have hheaders : printHeaders { unread := response.headerLines ++ ['\r'] ++ ['\n'] ++ left' } =
      (response.headerLines, { unread := left' }) := by
    have hprinted := printHeaders_headers response.headers_ne_nil response.headers_line left'
    rw [crlf] at hprinted
    simpa [Response.headerLines, crlf] using hprinted
  rw [printContent, hread]
  dsimp only
  rw [hheaders, printPieces_eof]
  simp [Response.printed, ← hbody]

/-- Otherwise nothing but the end of the stream is reported. -/
theorem printContent_of_no_blankLine (hblank : ¬ response.BlankLineFollows)
    (hrest : left ++ reads.flatten = response.rest) :
    printContent what eof { unread := left } reads = catchException what eof := by
  rw [← infix_rest_iff, ← hrest] at hblank
  rw [printContent, readUntil_error hblank]

/-- The status line is read and accepted. -/
theorem printResponse_eq {network : Network} (hclosing : network.closing = eof)
    (hreads : network.reads.flatten = response.bytes) :
    ∃ left reads, left ++ reads.flatten = response.rest ∧
      printResponse what network = printContent what eof { unread := left } reads := by
  have hbytes : [] ++ network.reads.flatten =
      (response.statusLine ++ ['\r']) ++ ['\n'] ++ response.rest := by
    rw [List.nil_append, hreads]
    simp [Response.bytes, crlf]
  have hline : ¬ crlf <:+: response.statusLine ++ ['\r'] :=
    not_infix_of_newline (by decide) (by simp [newline_notMem_statusLine])
  have hfound : crlf <:+: (response.statusLine ++ ['\r']) ++ ['\n'] ++ response.rest :=
    ⟨response.statusLine, response.rest, by simp [crlf]⟩
  obtain ⟨left, reads, hread, hrest⟩ := @readUntil_line eof _ _ _ _ _ _ hline hfound hbytes
  refine ⟨left, reads, hrest, ?_⟩
  have hunread : response.statusLine ++ ['\r'] ++ ['\n'] ++ left =
      response.statusLine ++ crlf ++ left := by simp [crlf]
  rw [printResponse, hclosing, hread]
  dsimp only
  rw [hunread, extractString_statusLine]
  dsimp only
  rw [extractUnsigned_statusLine]
  dsimp only
  rw [getline_statusLine]
  dsimp only
  have hversion : (http ++ response.version).take 5 = http := rfl
  rw [if_neg (not_or.mpr ⟨Bool.false_ne_true, not_not.mpr hversion⟩), if_neg (not_not.mpr rfl)]

theorem console_get (host path : Str) {network : Network} (hopening : network.opening = .success) :
    (get what host path network).console = printResponse what network := by
  rw [get, hopening]
  rfl

/-- What an exception reports is not what should be printed. -/
theorem catchException_ne_printed (hblank : ¬ response.BlankLineFollows) (ec : ErrorCode) :
    catchException what ec ≠ response.printed := by
  have hheaders : response.headers = [] := by
    by_contra hne
    exact hblank (Or.inl hne)
  have hprinted : response.printed.head? = some '\n' := by
    rw [Response.printed, Response.headerLines, hheaders]
    rfl
  have hexception : (catchException what ec).head? = some 'E' := rfl
  intro heq
  rw [heq, hprinted] at hexception
  exact absurd (Option.some.inj hexception) (by decide)

theorem console_get_iff (host path : Str) {network : Network}
    (hopening : network.opening = .success) (hclosing : network.closing = eof)
    (hreads : network.reads.flatten = response.bytes) :
    (get what host path network).console = response.printed ↔ response.BlankLineFollows := by
  obtain ⟨left, reads, hrest, hconsole⟩ := @printResponse_eq response what network hclosing hreads
  rw [console_get host path hopening, hconsole]
  constructor
  · intro hprinted
    by_contra hblank
    rw [printContent_of_no_blankLine hblank hrest] at hprinted
    exact catchException_ne_printed hblank eof hprinted
  · intro hblank
    exact printContent_of_blankLine hblank hrest

end Response

/-- **Faithful, exactly when.** However the bytes of a well-formed 200 response are
cut into reads, both clients print its header lines, a newline and its body, if and
only if an empty line follows the status line: the response has a header, or its
body begins with the end of a line or holds an empty line. -/
theorem console_eq_printed_iff (what : ErrorCode → Str) (response : Response) (network : Network)
    (hopening : network.opening = .success) (hclosing : network.closing = eof)
    (hreads : network.reads.flatten = response.bytes) :
    ((sendRequestGET what network).console = response.printed ↔ response.BlankLineFollows) ∧
      ((httpGetRequestTcpSocket what network).console = response.printed ↔
        response.BlankLineFollows) :=
  ⟨console_get_iff _ _ hopening hclosing hreads, console_get_iff _ _ hopening hclosing hreads⟩

/-- One header, and the end of the headers cut in two. -/
theorem console_eq_printed_cut :
    (sendRequestGET (fun _ => []) { reads :=
      ["HTTP/1.0 200 OK\r\nAge: 1\r\n\r".toList, "\nhel".toList, "lo".toList] }).console =
        "Age: 1\r\n\nhello".toList :=
  (console_eq_printed_iff _ ⟨"1.0".toList, "OK".toList, ["Age: 1".toList], "hello".toList,
    by simp [isSpace], by decide, by decide, by decide⟩ _ rfl rfl (by decide)).1.mpr (Or.inl nofun)

/-- A response without headers, of which nothing is printed. -/
theorem not_console_eq_printed_no_headers :
    ¬ ∀ (response : Response) (network : Network), network.opening = .success →
      network.closing = eof → network.reads.flatten = response.bytes →
        (sendRequestGET (fun _ => "end of file".toList) network).console = response.printed := by
  intro hall
  have hprinted := hall ⟨"1.0".toList, "OK".toList, [], "hello".toList, by simp [isSpace], by decide,
    by decide, by decide⟩ { reads := ["HTTP/1.0 200 OK\r\n\r\nhello".toList] } rfl rfl (by decide)
  revert hprinted
  decide

end BoostProjects.Networking.HTTP
