import BoostProjects.Beast.Http.Message
import BoostProjects.Beast.Http.MimeType

/-!
# `handle_request`

The one function of the HTTPS server that looks at requests. It answers with a
response and, on the way, may open one file; `Handled` records both.

The five constructors of responses come first, then the validation of the
request, then the function itself with one equation for each way through it.
-/

namespace BoostProjects.Beast.Http

open Boost Cpp

/-- Append an HTTP path to a local path. -/
def pathCat (base path : Str) : Str :=
  if base = [] then path
  else if base.getLast? = some '/' then base.dropLast ++ path
  else base ++ path

/-! ## Responses -/

section Responses

variable (platform : Platform) (request : Request)

/-- The body of the lambdas `bad_request`, `not_found` and `server_error`. -/
def errorResponse (status : Status) (text : Str) : Response :=
  Response.preparePayload
    { header :=
        { status, version := request.version
          server := platform.versionString
          contentType := "text/html".toList
          contentLength := none
          keepAlive := platform.keepAlive request.version request.fields }
      body := .string text }

/-- The lambda `bad_request`. -/
def badRequest (why : Str) : Response :=
  errorResponse platform request .badRequest why

/-- The lambda `not_found`. -/
def notFound (target : Str) : Response :=
  errorResponse platform request .notFound
    ("The resource '".toList ++ target ++ "' was not found.".toList)

/-- The lambda `server_error`. -/
def serverError (what : Str) : Response :=
  errorResponse platform request .internalServerError
    ("An error occurred: '".toList ++ what ++ "'".toList)

/-- The header of both responses with status 200. `size` is the `uint16_t` in
which the source keeps `body.size()`. -/
def okHeader (path : Str) (size : UInt16) : Header :=
  { status := .ok, version := request.version
    server := platform.versionString
    contentType := mimeType path
    contentLength := some size.toUInt64
    keepAlive := platform.keepAlive request.version request.fields }

/-- The response to a `HEAD` or `GET` request whose file was opened. -/
def okResponse (path : Str) (body : File) : Response :=
  -- `const uint16_t size = body.size();`
  let size : UInt16 := body.size.toUInt16
  if request.method = .head then
    { header := okHeader platform request path size, body := .empty }
  else
    { header := okHeader platform request path size, body := .file body }

end Responses

/-! ## The function -/

/-- The request target is absolute and does not contain `..`. -/
def Accepted (target : Str) : Prop :=
  ¬ (target = [] ∨ target[0]? ≠ some '/' ∨ "..".toList <:+: target)

instance (target : Str) : Decidable (Accepted target) :=
  inferInstanceAs (Decidable (¬ _))

/-- The path of the requested file. -/
def filePath (docRoot target : Str) : Str :=
  let path := pathCat docRoot target
  if target.getLast? = some '/' then path ++ "index.html".toList else path

/-- What `handle_request` does: the path it gives to `body.open`, if it comes
that far, and its response. -/
structure Handled where
  opened : Option Str
  response : Response
  deriving DecidableEq, Repr

section HandleRequest

variable (platform : Platform) (files : FileSystem) (docRoot : Str) (request : Request)

/-- `handle_request`. The path is opened as a C string. -/
def handleRequest : Handled :=
  if request.method ≠ .get ∧ request.method ≠ .head then
    { opened := none
      response := badRequest platform request "Unknown HTTP-method".toList }
  else if ¬ Accepted request.target then
    { opened := none
      response := badRequest platform request "Illegal request-target".toList }
  else
    -- The target is absolute and has no `..` in it.
    let path := filePath docRoot request.target
    { opened := some path
      response :=
        match files (cStr path) with
        | .error errorCode =>
            if errorCode.val = .noSuchFileOrDirectory then
              notFound platform request request.target
            else
              serverError platform request (platform.message errorCode.val)
        | .ok body => okResponse platform request path body }

/-- The methods that `handle_request` serves. -/
def Verb.Served (method : Verb) : Prop := method = .get ∨ method = .head

instance (method : Verb) : Decidable method.Served :=
  inferInstanceAs (Decidable (_ ∨ _))

variable {platform files docRoot request}

theorem handleRequest_of_not_served (h : ¬ request.method.Served) :
    handleRequest platform files docRoot request =
      { opened := none
        response := badRequest platform request "Unknown HTTP-method".toList } :=
  if_pos (not_or.mp h)

theorem handleRequest_of_not_accepted (hmethod : request.method.Served)
    (h : ¬ Accepted request.target) :
    handleRequest platform files docRoot request =
      { opened := none
        response := badRequest platform request "Illegal request-target".toList } := by
  rw [handleRequest, if_neg (fun h' => (not_or.mpr h') hmethod), if_pos h]

/-- A served request with an accepted target opens its file. -/
theorem handleRequest_opened (hmethod : request.method.Served) (h : Accepted request.target) :
    (handleRequest platform files docRoot request).opened =
      some (filePath docRoot request.target) := by
  rw [handleRequest, if_neg (fun h' => (not_or.mpr h') hmethod), if_neg (not_not.mpr h)]

/-- Only a served request with an accepted target opens anything. -/
theorem handleRequest_opened_eq_some_iff {path : Str} :
    (handleRequest platform files docRoot request).opened = some path ↔
      request.method.Served ∧ Accepted request.target ∧
        path = filePath docRoot request.target := by
  by_cases hmethod : request.method.Served
  · by_cases haccepted : Accepted request.target
    · rw [handleRequest_opened hmethod haccepted, Option.some.injEq]
      exact ⟨fun h => ⟨hmethod, haccepted, h.symm⟩, fun h => h.2.2.symm⟩
    · rw [handleRequest_of_not_accepted hmethod haccepted]
      exact ⟨nofun, fun h => absurd h.2.1 haccepted⟩
  · rw [handleRequest_of_not_served hmethod]
    exact ⟨nofun, fun h => absurd h.1 hmethod⟩

theorem handleRequest_of_ok (hmethod : request.method.Served) (h : Accepted request.target)
    {body : File} (hopen : files (cStr (filePath docRoot request.target)) = .ok body) :
    (handleRequest platform files docRoot request).response =
      okResponse platform request (filePath docRoot request.target) body := by
  rw [handleRequest, if_neg (fun h' => (not_or.mpr h') hmethod), if_neg (not_not.mpr h)]
  simp only [hopen]

theorem handleRequest_of_error (hmethod : request.method.Served) (h : Accepted request.target)
    {errorCode : OpenError}
    (hopen : files (cStr (filePath docRoot request.target)) = .error errorCode) :
    (handleRequest platform files docRoot request).response =
      if errorCode.val = .noSuchFileOrDirectory then
        notFound platform request request.target
      else
        serverError platform request (platform.message errorCode.val) := by
  rw [handleRequest, if_neg (fun h' => (not_or.mpr h') hmethod), if_neg (not_not.mpr h)]
  simp only [hopen]

end HandleRequest

end BoostProjects.Beast.Http
