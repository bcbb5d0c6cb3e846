import BoostProjects.Beast.Http.Message
import Mathlib.Data.List.DropRight

/-!
# The HTTP method helpers

`HTTP_Methods` of `Networking/Beast.cpp` has one function for each method. They
share a request, which keeps its body and its fields from call to call, and a
response, into which `http::read` appends the body of a reply.

The helpers that send data set all they need. `do_get` and `do_head` set neither
the body nor its length, and only `do_head` makes a new response. `independent_iff`
says for which sequences of calls none of this can be seen.
-/

namespace BoostProjects.Beast.Http.Methods

open Cpp

/-! ## The program -/

/-- `http::field::host` -/
def host : Str := "Host".toList

/-- `http::field::user_agent` -/
def userAgent : Str := "User-Agent".toList

/-- `http::field::content_length` -/
def contentLength : Str := "Content-Length".toList

/-- `erase` of the fields with a name. -/
def eraseField (name : Str) (fields : Fields) : Fields := fields.filter fun field => field.1 ≠ name

/-- `request.set`: the field replaces those of its name, at the end. -/
def setField (name value : Str) (fields : Fields) : Fields :=
  eraseField name fields ++ [(name, value)]

/-- `request.prepare_payload()` for a string body. -/
def preparePayload (request : Request) : Request :=
  if 0 < request.body.length ∨ request.method = .options ∨ request.method = .put ∨
      request.method = .post then
    { request with
      fields := setField contentLength (Nat.toDigits 10 request.body.length) request.fields }
  else { request with fields := eraseField contentLength request.fields }

/-- `http::response<http::dynamic_body>`: one that arrives, or the object that
replies are read into. -/
structure Reply where
  status : ℕ := 200
  version : ℕ := 11
  fields : Fields := []
  body : Str := []
  deriving DecidableEq, Repr

/-- The objects that the helpers share, and the requests written so far. -/
structure Objects where
  request : Request
  response : Reply := {}
  written : List Request := []
  deriving DecidableEq, Repr

namespace Objects

/-- `http::write` -/
def write (objects : Objects) : Objects :=
  { objects with written := objects.written ++ [objects.request] }

/-- `http::read`: the parser takes over the response, clears its header, and appends
to its body. -/
def read (reply : Reply) (objects : Objects) : Objects :=
  { objects with response := { reply with body := objects.response.body ++ reply.body } }

/-- `http::read_header` with a parser of its own, which has an empty body. -/
def readHeader (reply : Reply) (objects : Objects) : Objects :=
  { objects with response := { reply with body := [] } }

end Objects

/-- The target and the method that each helper sets. -/
def setTarget (target : Str) (method : Verb) (objects : Objects) : Objects :=
  { objects with request := { objects.request with target, method } }

/-- The body that a helper sets, and its length. -/
def setData (data : Str) (objects : Objects) : Objects :=
  { objects with request := preparePayload { objects.request with body := data } }

/-- The helpers with a body. -/
def sendData (target : Str) (method : Verb) (data : Str) (reply : Reply) (objects : Objects) :
    Objects :=
  (setData data (setTarget target method objects)).write.read reply

/-- `do_get` -/
def doGet (reply : Reply) (objects : Objects) : Objects :=
  (setTarget "/get".toList .get objects).write.read reply

/-- `do_head` -/
def doHead (reply : Reply) (objects : Objects) : Objects :=
  (setTarget "/get".toList .head objects).write.readHeader reply

/-- `do_patch` -/
def doPatch : Reply → Objects → Objects :=
  sendData "/patch".toList .patch "Some random patch data".toList

/-- `do_put` -/
def doPut : Reply → Objects → Objects :=
  sendData "/put".toList .put "Some random put data".toList

/-- `do_post` -/
def doPost : Reply → Objects → Objects :=
  sendData "/post".toList .post "Some random post data".toList

/-- `do_delete` -/
def doDelete : Reply → Objects → Objects :=
  sendData "/delete".toList .delete_ "Some random delete data".toList

/-- The functions that send one request each. -/
inductive Helper
  | get
  | head
  | patch
  | put
  | post
  | delete
  deriving DecidableEq, Repr

/-- What a function does to the shared objects, with the reply that it gets. -/
def Helper.perform : Helper → Reply → Objects → Objects
  | .get => doGet
  | .head => doHead
  | .patch => doPatch
  | .put => doPut
  | .post => doPost
  | .delete => doDelete

/-- A call of a helper and the reply to its request. A reply to `HEAD` has no body. -/
structure Call where
  helper : Helper
  reply : Reply
  bodyless : helper = .head → reply.body = []

/-- The objects that `Test` makes. -/
def initial (versionString : Str) : Objects where
  request :=
    { method := .unknown
      target := []
      version := 11
      fields := setField userAgent versionString (setField host "httpbin.cpp.al".toList [])
      body := [] }

/-- The objects after some calls. -/
def after (versionString : Str) (calls : List Call) : Objects :=
  calls.foldl (fun objects call => call.helper.perform call.reply objects) (initial versionString)

/-! ## One call -/

/-- The helpers that send data. -/
def Helper.Sends : Helper → Prop
  | .get | .head => False
  | _ => True

instance (helper : Helper) : Decidable helper.Sends :=
  match helper with
  | .get | .head => instDecidableFalse
  | .patch | .put | .post | .delete => instDecidableTrue

section Call

variable {objects : Objects} {reply : Reply} {helper : Helper}

theorem exists_sendData (h : helper.Sends) :
    ∃ target method data, 0 < data.length ∧ helper.perform = sendData target method data := by
  cases helper with
  | get => exact absurd h not_false
  | head => exact absurd h not_false
  | patch => exact ⟨_, _, _, by decide, rfl⟩
  | put => exact ⟨_, _, _, by decide, rfl⟩
  | post => exact ⟨_, _, _, by decide, rfl⟩
  | delete => exact ⟨_, _, _, by decide, rfl⟩

/-- A helper without data sets the target and the method, and nothing else. -/
theorem exists_setTarget (h : ¬ helper.Sends) :
    ∃ target method, ∀ reply objects, (helper.perform reply objects).request =
      { method, target, version := objects.request.version, fields := objects.request.fields
        body := objects.request.body } := by
  cases helper with
  | get => exact ⟨_, _, fun _ _ => rfl⟩
  | head => exact ⟨_, _, fun _ _ => rfl⟩
  | _ => exact absurd trivial h

/-- A helper with data sets all but the version and the other fields. -/
theorem request_sendData (target : Str) (method : Verb) {data : Str} (hdata : 0 < data.length) :
    (sendData target method data reply objects).request =
      { method, target, version := objects.request.version
        fields := setField contentLength (Nat.toDigits 10 data.length) objects.request.fields
        body := data } := by
  have hrequest : (sendData target method data reply objects).request =
      preparePayload { objects.request with target, method, body := data } := rfl
  rw [hrequest, preparePayload, if_pos (.inl hdata)]

theorem written_perform (helper : Helper) (reply : Reply) (objects : Objects) :
    (helper.perform reply objects).written =
      objects.written ++ [(helper.perform reply objects).request] := by
  cases helper <;> rfl

/-- All helpers but `do_head` append the body of the reply. -/
theorem body_perform (helper : Helper) (reply : Reply) (objects : Objects) :
    (helper.perform reply objects).response.body =
      if helper = .head then [] else objects.response.body ++ reply.body := by
  cases helper <;> rfl

/-! ### The fields -/

theorem eraseField_setField (name value : Str) (fields : Fields) :
    eraseField name (setField name value fields) = eraseField name fields := by
  simp [setField, eraseField]

/-- Apart from its length, a call leaves the fields as they are, and the version. -/
theorem eraseField_perform (helper : Helper) (reply : Reply) (objects : Objects) :
    eraseField contentLength (helper.perform reply objects).request.fields =
        eraseField contentLength objects.request.fields ∧
      (helper.perform reply objects).request.version = objects.request.version := by
  by_cases h : helper.Sends
  · obtain ⟨target, method, data, hdata, hperform⟩ := exists_sendData h
    rw [hperform, request_sendData target method hdata]
    exact ⟨eraseField_setField _ _ _, rfl⟩
  · obtain ⟨target, method, hrequest⟩ := exists_setTarget h
    rw [hrequest]
    exact ⟨rfl, rfl⟩

end Call

/-! ## Sequences of calls -/

section Calls

variable {versionString : Str} {calls before : List Call} {call : Call}

theorem after_concat (calls : List Call) (call : Call) :
    after versionString (calls ++ [call]) =
      call.helper.perform call.reply (after versionString calls) := by
  rw [after, List.foldl_concat, after]

/-- The initial fields have no length among them. -/
theorem eraseField_initial :
    eraseField contentLength (initial versionString).request.fields =
      (initial versionString).request.fields := rfl

/-- After any calls, the fields are the initial ones but for the length. -/
theorem eraseField_after (calls : List Call) :
    eraseField contentLength (after versionString calls).request.fields =
        (initial versionString).request.fields ∧
      (after versionString calls).request.version = 11 := by
  induction calls using List.reverseRecOn with
  | nil => exact ⟨eraseField_initial, rfl⟩
  | append_singleton calls call ih =>
    obtain ⟨hfields, hversion⟩ := eraseField_perform call.helper call.reply
      (after versionString calls)
    rw [after_concat]
    exact ⟨hfields.trans ih.1, hversion.trans ih.2⟩

/-- Without a helper that sends data, the request has neither a body nor its length. -/
theorem request_after_of_not_sends (h : ∀ call ∈ calls, ¬ call.helper.Sends) :
    (after versionString calls).request.fields = (initial versionString).request.fields ∧
      (after versionString calls).request.body = [] := by
  induction calls using List.reverseRecOn with
  | nil => exact ⟨rfl, rfl⟩
  | append_singleton calls call ih =>
    obtain ⟨hcalls, hlast⟩ := List.forall_mem_append.mp h
    have hcall := hlast call List.mem_cons_self
    obtain ⟨target, method, hrequest⟩ := exists_setTarget hcall
    rw [after_concat, hrequest]
    exact ih hcalls

/-- A body that has been set stays. -/
theorem body_after_ne_nil (h : ∃ call ∈ calls, call.helper.Sends) :
    (after versionString calls).request.body ≠ [] := by
  induction calls using List.reverseRecOn with
  | nil =>
    obtain ⟨call, hcall, -⟩ := h
    exact absurd hcall List.not_mem_nil
  | append_singleton calls call ih =>
    rw [after_concat]
    by_cases hcall : call.helper.Sends
    · obtain ⟨target, method, data, hdata, hperform⟩ := exists_sendData hcall
      rw [hperform, request_sendData target method hdata]
      exact List.length_pos_iff.mp hdata
    · obtain ⟨target, method, hrequest⟩ := exists_setTarget hcall
      rw [hrequest]
      obtain ⟨earlier, hmem, hsends⟩ := h
      rcases List.mem_append.mp hmem with hearlier | hlast
      · exact ih ⟨earlier, hearlier, hsends⟩
      · exact absurd (List.mem_singleton.mp hlast ▸ hsends) hcall

/-- The calls behind the last `do_head`. -/
def sinceHead (calls : List Call) : List Call :=
  calls.rtakeWhile fun call => call.helper ≠ .head

/-- The body of the response is what has been read since the last `do_head`. -/
theorem body_after (calls : List Call) :
    (after versionString calls).response.body =
      (sinceHead calls).flatMap fun call => call.reply.body := by
  induction calls using List.reverseRecOn with
  | nil => rfl
  | append_singleton calls call ih =>
    rw [after_concat, body_perform, ih]
    by_cases hhead : call.helper = .head <;> simp [sinceHead, hhead]

/-! ### What a call shows of the earlier ones -/

/-- The request that the call writes behind `before` is the one it writes first. -/
def SameRequest (versionString : Str) (before : List Call) (call : Call) : Prop :=
  (after versionString (before ++ [call])).written.getLast? =
    (after versionString [call]).written.getLast?

/-- The body of the response is that of the reply alone. -/
def OwnBody (versionString : Str) (before : List Call) (call : Call) : Prop :=
  (after versionString (before ++ [call])).response.body = call.reply.body

theorem sameRequest_iff :
    SameRequest versionString before call ↔
      (call.helper.perform call.reply (after versionString before)).request =
        (call.helper.perform call.reply (initial versionString)).request := by
  have hfirst : after versionString [call] =
      call.helper.perform call.reply (initial versionString) := rfl
  rw [SameRequest, hfirst, after_concat, written_perform, written_perform,
    List.getLast?_concat, List.getLast?_concat, Option.some.injEq]

/-- A helper with data writes the same request always, and one without does so if no
data has been sent. -/
theorem sameRequest_iff_sends :
    SameRequest versionString before call ↔
      (¬ call.helper.Sends → ∀ earlier ∈ before, ¬ earlier.helper.Sends) := by
  rw [sameRequest_iff]
  obtain ⟨hfields, hversion⟩ := @eraseField_after versionString before
  by_cases hsends : call.helper.Sends
  · refine iff_of_true ?_ (absurd hsends)
    obtain ⟨target, method, data, hdata, hperform⟩ := exists_sendData hsends
    rw [hperform, request_sendData target method hdata, request_sendData target method hdata,
      setField, setField, hfields, eraseField_initial, hversion]
    rfl
  obtain ⟨target, method, hrequest⟩ := exists_setTarget hsends
  rw [hrequest, hrequest]
  constructor
  · intro hsame _ earlier hearlier hearlierSends
    exact body_after_ne_nil ⟨earlier, hearlier, hearlierSends⟩ (congrArg Request.body hsame)
  · intro h
    obtain ⟨hsameFields, hbody⟩ := @request_after_of_not_sends versionString _ (h hsends)
    rw [hsameFields, hbody, hversion]
    rfl

theorem ownBody_iff :
    OwnBody versionString before call ↔
      (call.helper ≠ .head → ∀ earlier ∈ sinceHead before, earlier.reply.body = []) := by
  rw [OwnBody, after_concat, body_perform, body_after]
  split_ifs with hhead
  · exact iff_of_true (call.bodyless hhead).symm (absurd hhead)
  · rw [List.append_left_eq_self, List.flatMap_eq_nil_iff]
    exact ⟨fun h _ => h, fun h => h hhead⟩

end Calls

/-- Each call of the sequence writes the request that it writes when it is the first
call, and reads the body of its own reply. -/
def Independent (versionString : Str) (calls : List Call) : Prop :=
  ∀ before call, before ++ [call] <+: calls →
    SameRequest versionString before call ∧ OwnBody versionString before call

/-- Nothing of the calls before this one can be seen: without data of its own it
comes before all calls with data, and it makes a new response, or nothing has been
read into the old one. -/
def Fresh (before : List Call) (call : Call) : Prop :=
  (¬ call.helper.Sends → ∀ earlier ∈ before, ¬ earlier.helper.Sends) ∧
    (call.helper ≠ .head → ∀ earlier ∈ sinceHead before, earlier.reply.body = [])

/-- What `do_get` and `do_head` write when they are called first. -/
theorem written_first (versionString : Str) {call : Call} (h : ¬ call.helper.Sends) :
    ∃ request, (after versionString [call]).written.getLast? = some request ∧
      request.body = [] ∧ ∀ field ∈ request.fields, field.1 ≠ contentLength := by
  obtain ⟨target, method, hrequest⟩ := exists_setTarget h
  refine ⟨(call.helper.perform call.reply (initial versionString)).request, ?_, ?_, ?_⟩
  · have hwritten := written_perform call.helper call.reply (initial versionString)
    exact (congrArg List.getLast? hwritten).trans List.getLast?_concat
  · rw [hrequest]
    rfl
  · rw [hrequest, ← eraseField_initial]
    exact fun field hfield => of_decide_eq_true (List.mem_filter.mp hfield).2

/-- **Independent of the history, exactly when.** The requests of a sequence of calls
are those of first calls, and the bodies read are those of the replies, if and only
if no call finds something left by the calls before it. -/
theorem independent_iff (versionString : Str) (calls : List Call) :
    Independent versionString calls ↔
      ∀ before call, before ++ [call] <+: calls → Fresh before call := by
  refine forall_congr' fun before => forall_congr' fun call => imp_congr_right fun _ => ?_
  rw [sameRequest_iff_sends, ownBody_iff, Fresh]

/-- After the data of a `PUT`, `do_get` sends it once more. -/
theorem not_independent_put_get :
    ¬ ∀ versionString calls, Independent versionString calls := by
  intro hall
  let put : Call := ⟨.put, {}, nofun⟩
  let get : Call := ⟨.get, {}, nofun⟩
  have hsame := (hall [] [put, get] [put] get List.prefix_rfl).1
  exact sameRequest_iff_sends.mp hsame not_false put List.mem_cons_self trivial

end BoostProjects.Beast.Http.Methods
