import BoostProjects.Beast.Http.HandleRequest

/-!
# The responses of `handle_request`

Two things a client on a kept-alive connection relies on to find the next
response: that the length in the header is the length of the body, and that a
response to `HEAD` has no body.

The header of a response depends on the request only through its target, its
version and its keep-alive flag, so `HEAD` and `GET` get the same one. Their
bodies are where the two differ. An error response carries a text whatever the
method; and a file of `2 ^ 16` bytes or more is declared with the low sixteen
bits of its size, because the size is kept in a `uint16_t` on its way to the
header.
-/

namespace BoostProjects.Beast.Http

open Boost Cpp

variable {platform : Platform} {files : FileSystem} {docRoot : Str} {request head get : Request}

/-! ## Declared and delivered length -/

@[simp] theorem header_okResponse (path : Str) (body : File) :
    (okResponse platform request path body).header =
      okHeader platform request path body.size.toUInt16 := by
  unfold okResponse
  split_ifs <;> rfl

theorem body_okResponse_of_head (hmethod : request.method = .head) (path : Str) (body : File) :
    (okResponse platform request path body).body = .empty := by
  rw [okResponse, if_pos hmethod]

theorem body_okResponse_of_get (hmethod : request.method = .get) (path : Str) (body : File) :
    (okResponse platform request path body).body = .file body := by
  rw [okResponse, if_neg (by rw [hmethod]; decide)]

/-- Sixteen bits hold the size exactly of the files shorter than `2 ^ 16`. -/
theorem File.toUInt64_toUInt16_size_iff (file : File) :
    file.size.toUInt16.toUInt64 = file.size ↔ file.content.length < 2 ^ 16 := by
  rw [← UInt64.toNat_inj, UInt16.toNat_toUInt64, UInt64.toNat_toUInt16, file.toNat_size,
    Nat.mod_eq_iff_lt (by decide)]

/-- A response with status 200 that says how long the file is, and to a `GET`
request sends that many bytes. -/
def DeclaresLength (request : Request) (file : File) (response : Response) : Prop :=
  response.header.status = .ok ∧ response.header.contentLength = some file.size ∧
    (request.method = .get → response.body.length = file.size.toNat)

/-- **Declared length is delivered length exactly below 64 KiB.** Whatever file
is opened for an accepted `GET` or `HEAD` request, its size is what the header
says if and only if it is less than `2 ^ 16`. -/
theorem handleRequest_declaresLength_iff (platform : Platform) (files : FileSystem)
    (docRoot : Str) (request : Request) (hmethod : request.method = .get ∨ request.method = .head)
    (haccepted : Accepted request.target) (file : File)
    (hopen : files (cStr (filePath docRoot request.target)) = .ok file) :
    DeclaresLength request file (handleRequest platform files docRoot request).response ↔
      file.content.length < 2 ^ 16 := by
  rw [handleRequest_of_ok hmethod haccepted hopen, ← file.toUInt64_toUInt16_size_iff]
  constructor
  -- The header says the low sixteen bits, so it says the size only if they hold it.
  · rintro ⟨-, hlength, -⟩
    rw [header_okResponse] at hlength
    exact Option.some.inj hlength
  · intro hsize
    refine ⟨by rw [header_okResponse]; rfl, ?_, fun hget => ?_⟩
    · rw [header_okResponse]
      exact congrArg some hsize
    · rw [body_okResponse_of_get hget, file.toNat_size]
      rfl

/-- A file of `length` zero bytes. -/
def File.zeros (length : ℕ) (fits : length < 2 ^ 64) : File where
  content := List.replicate length 0
  fits := by rwa [List.length_replicate]

theorem handleRequest_declaresLength_three :
    DeclaresLength (.plain .get "/a".toList) (.zeros 3 (by decide))
      (handleRequest .plain (FileSystem.serving (.zeros 3 (by decide))) "/".toList
        (.plain .get "/a".toList)).response := by
  apply (handleRequest_declaresLength_iff .plain (FileSystem.serving (.zeros 3 (by decide)))
    "/".toList (.plain .get "/a".toList) (Or.inl rfl) (by decide) (.zeros 3 (by decide)) rfl).mpr
  decide

/-- The first length that is lost: a file of 64 KiB is declared empty. -/
theorem handleRequest_not_declaresLength_64KiB :
    Accepted "/a".toList ∧
      ¬ DeclaresLength (.plain .get "/a".toList) (.zeros (2 ^ 16) (by decide))
        (handleRequest .plain (FileSystem.serving (.zeros (2 ^ 16) (by decide))) "/".toList
          (.plain .get "/a".toList)).response := by
  have haccepted : Accepted "/a".toList := by decide
  refine ⟨haccepted, ?_⟩
  rw [handleRequest_of_ok (Or.inl rfl) haccepted rfl]
  rintro ⟨-, hlength, -⟩
  rw [header_okResponse] at hlength
  -- Sixteen bits would have to hold `2 ^ 16`.
  have hsize := (File.toUInt64_toUInt16_size_iff _).mp (Option.some.inj hlength)
  rw [File.zeros, List.length_replicate] at hsize
  exact Nat.lt_irrefl _ hsize

/-! ## `HEAD` and `GET` -/

/-- The file of the target was opened without error. -/
def Opens (files : FileSystem) (docRoot target : Str) : Prop :=
  ∃ file, files (cStr (filePath docRoot target)) = .ok file

/-- Two requests that differ at most in method, fields and body, with the same
keep-alive flag. -/
structure SameResource (platform : Platform) (head get : Request) : Prop where
  target : head.target = get.target
  version : head.version = get.version
  keepAlive : platform.keepAlive head.version head.fields =
    platform.keepAlive get.version get.fields

/-- An error response has a body. -/
theorem length_body_errorResponse (status : Status) (text : Str) :
    (errorResponse platform request status text).body.length = text.length := rfl

theorem SameResource.header_errorResponse (h : SameResource platform head get)
    (status : Status) (text : Str) :
    (errorResponse platform head status text).header =
      (errorResponse platform get status text).header := by
  simp only [errorResponse, Response.preparePayload, h.version, ← h.keepAlive]

theorem SameResource.okHeader (h : SameResource platform head get) (path : Str) (size : UInt16) :
    Http.okHeader platform head path size = Http.okHeader platform get path size := by
  simp only [Http.okHeader, h.version, ← h.keepAlive]

/-- `HEAD` and `GET` get the same header, on every way through the function. -/
theorem SameResource.header_handleRequest (h : SameResource platform head get)
    (hhead : head.method = .head) (hget : get.method = .get) :
    (handleRequest platform files docRoot head).response.header =
      (handleRequest platform files docRoot get).response.header := by
  have hheadServed : head.method.Served := Or.inr hhead
  have hgetServed : get.method.Served := Or.inl hget
  by_cases haccepted : Accepted get.target
  · have haccepted' : Accepted head.target := h.target ▸ haccepted
    cases hopen : files (cStr (filePath docRoot get.target)) with
    | error errorCode =>
      have hopen' : files (cStr (filePath docRoot head.target)) = .error errorCode := by
        rw [h.target, hopen]
      rw [handleRequest_of_error hheadServed haccepted' hopen',
        handleRequest_of_error hgetServed haccepted hopen]
      by_cases hmissing : errorCode.val = .noSuchFileOrDirectory
      · rw [if_pos hmissing, if_pos hmissing, h.target]
        exact h.header_errorResponse _ _
      · rw [if_neg hmissing, if_neg hmissing]
        exact h.header_errorResponse _ _
    | ok file =>
      have hopen' : files (cStr (filePath docRoot head.target)) = .ok file := by
        rw [h.target, hopen]
      rw [handleRequest_of_ok hheadServed haccepted' hopen',
        handleRequest_of_ok hgetServed haccepted hopen, header_okResponse, header_okResponse,
        h.target]
      exact h.okHeader _ _
  · have haccepted' : ¬ Accepted head.target := h.target ▸ haccepted
    rw [handleRequest_of_not_accepted hheadServed haccepted',
      handleRequest_of_not_accepted hgetServed haccepted]
    exact h.header_errorResponse _ _

/-- The response to `HEAD` is without a body exactly when it has status 200. -/
theorem length_body_handleRequest_eq_zero_iff (hhead : head.method = .head) :
    (handleRequest platform files docRoot head).response.body.length = 0 ↔
      Accepted head.target ∧ Opens files docRoot head.target := by
  have hserved : head.method.Served := Or.inr hhead
  by_cases haccepted : Accepted head.target
  -- The texts of both errors begin with a fixed phrase, so neither is empty.
  · cases hopen : files (cStr (filePath docRoot head.target)) with
    | error errorCode =>
      have hclosed : ¬ Opens files docRoot head.target := by
        rintro ⟨file, hfile⟩
        rw [hopen] at hfile
        exact nomatch hfile
      rw [handleRequest_of_error hserved haccepted hopen]
      split_ifs
      · simp [notFound, length_body_errorResponse, hclosed]
      · simp [serverError, length_body_errorResponse, hclosed]
    | ok file =>
      rw [handleRequest_of_ok hserved haccepted hopen, body_okResponse_of_head hhead]
      exact iff_of_true rfl ⟨haccepted, file, hopen⟩
  · rw [handleRequest_of_not_accepted hserved haccepted]
    simp [badRequest, length_body_errorResponse, haccepted]

/-- **`HEAD` mirrors `GET` exactly where there is a file to send.** The header
fields always agree; the response to `HEAD` has no body if and only if the
target is accepted and its file opens. -/
theorem handleRequest_head_mirrors_get_iff (platform : Platform) (files : FileSystem)
    (docRoot : Str) (head get : Request) (hhead : head.method = .head) (hget : get.method = .get)
    (hsame : SameResource platform head get) :
    ((handleRequest platform files docRoot head).response.header =
        (handleRequest platform files docRoot get).response.header ∧
      (handleRequest platform files docRoot head).response.body.length = 0) ↔
      Accepted head.target ∧ Opens files docRoot head.target := by
  rw [length_body_handleRequest_eq_zero_iff hhead]
  exact and_iff_right (hsame.header_handleRequest hhead hget)

/-- `HEAD` and `GET` of a file that is there. -/
theorem handleRequest_head_mirrors_get_three :
    (handleRequest .plain (FileSystem.serving (.zeros 3 (by decide))) "/".toList
        (.plain .head "/a".toList)).response.header =
      (handleRequest .plain (FileSystem.serving (.zeros 3 (by decide))) "/".toList
        (.plain .get "/a".toList)).response.header ∧
    (handleRequest .plain (FileSystem.serving (.zeros 3 (by decide))) "/".toList
        (.plain .head "/a".toList)).response.body.length = 0 := by
  apply (handleRequest_head_mirrors_get_iff .plain (FileSystem.serving (.zeros 3 (by decide)))
    "/".toList (.plain .head "/a".toList) (.plain .get "/a".toList) rfl rfl ⟨rfl, rfl, rfl⟩).mpr
  exact ⟨by decide, .zeros 3 (by decide), rfl⟩

/-- `HEAD` of a file that is not there is answered with a text. -/
theorem handleRequest_head_not_mirrors_missing :
    SameResource .plain (.plain .head "/a".toList) (.plain .get "/a".toList) ∧
      ¬ ((handleRequest .plain FileSystem.bare "/".toList
            (.plain .head "/a".toList)).response.header =
          (handleRequest .plain FileSystem.bare "/".toList
            (.plain .get "/a".toList)).response.header ∧
        (handleRequest .plain FileSystem.bare "/".toList
            (.plain .head "/a".toList)).response.body.length = 0) := by
  constructor
  · exact ⟨rfl, rfl, rfl⟩
  · decide

end BoostProjects.Beast.Http
