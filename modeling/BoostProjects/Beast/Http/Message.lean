import BoostProjects.Boost.ErrorCode
import BoostProjects.Cpp.Str
import Mathlib.Algebra.Ring.Nat

/-!
# HTTP messages

The parts of Boost.Beast's `http::request` and `http::response` that the HTTPS
servers read and write. A request is a `request<string_body>`. A response has
one of three bodies: a string, an opened file, or none.

What the servers take from Boost without having it in their own source is
`Platform`: the version string, the reading of a request's `Connection` field,
and the texts of error codes.
-/

namespace BoostProjects.Beast.Http

open Boost Cpp

/-- `http::verb` -/
inductive Verb
  | unknown | delete_ | get | head | post | put | connect | options | trace
  | copy | lock | mkcol | move | propfind | proppatch | search | unlock | bind | rebind
  | unbind | acl | report | mkactivity | checkout | merge | msearch | notify | subscribe
  | unsubscribe | patch | purge | mkcalendar | link | unlink
  deriving DecidableEq, Repr

/-- The `http::status` values the servers send. -/
inductive Status
  | ok
  | badRequest
  | notFound
  | internalServerError
  deriving DecidableEq, Repr

/-- The header fields of a request, in order. -/
abbrev Fields := List (Str × Str)

/-- `http::request<http::string_body>` -/
structure Request where
  method : Verb
  target : Str
  version : ℕ
  fields : Fields
  body : Str
  deriving DecidableEq, Repr

/-- An opened regular file, `http::file_body::value_type`. -/
structure File where
  content : List UInt8
  fits : content.length < 2 ^ 64
  deriving DecidableEq, Repr

/-- `body.size()` -/
def File.size (file : File) : UInt64 := UInt64.ofNat file.content.length

theorem File.toNat_size (file : File) : file.size.toNat = file.content.length := by
  rw [size, UInt64.toNat_ofNat', Nat.mod_eq_of_lt file.fits]

/-- The body of a response: `string_body`, `file_body` or `empty_body`. -/
inductive Body
  | string (text : Str)
  | file (opened : File)
  | empty
  deriving DecidableEq, Repr

/-- The number of bytes that writing the body puts on the wire. A file is
written to its end, whatever the header says. -/
def Body.length : Body → ℕ
  | .string text => text.length
  | .file opened => opened.content.length
  | .empty => 0

/-- What the servers set of a response's header. `keepAlive` stands for the
`Connection` field, which with the version determines it. -/
structure Header where
  status : Status
  version : ℕ
  server : Str
  contentType : Str
  contentLength : Option UInt64
  keepAlive : Bool
  deriving DecidableEq, Repr

/-- `http::message_generator`: a response of any body type. -/
structure Response where
  header : Header
  body : Body
  deriving DecidableEq, Repr

/-- `response.prepare_payload()` for a string body. -/
def Response.preparePayload (response : Response) : Response :=
  { response with
    header := { response.header with
      contentLength := some (UInt64.ofNat response.body.length) } }

/-- What the servers use of Boost. -/
structure Platform where
  /-- `BOOST_BEAST_VERSION_STRING` -/
  versionString : Str
  /-- `request.keep_alive()`, from the version and the fields of the request. -/
  keepAlive : ℕ → Fields → Bool
  /-- `errorCode.message()` -/
  message : ErrorCode → Str

/-- Boost as it acts on requests without a `Connection` field: those of version
1.1 are kept alive. -/
def Platform.plain : Platform where
  versionString := "Boost.Beast/351".toList
  keepAlive version _ := decide (11 ≤ version)
  message _ := "Input/output error".toList

/-- A request for a target, of version 1.1 and without fields. -/
def Request.plain (method : Verb) (target : Str) : Request :=
  { method, target, version := 11, fields := [], body := [] }

/-- An `error_code` that is an error. -/
abbrev OpenError := { errorCode : ErrorCode // errorCode.failed = true }

/-- The state of the file system, as `body.open` sees it: what opening a path
for reading gives. -/
abbrev FileSystem := Str → Except OpenError File

/-- A file system in which every path opens the same file. -/
def FileSystem.serving (file : File) : FileSystem := fun _ => .ok file

/-- A file system without files. -/
def FileSystem.bare : FileSystem := fun _ => .error ⟨.noSuchFileOrDirectory, rfl⟩

end BoostProjects.Beast.Http
