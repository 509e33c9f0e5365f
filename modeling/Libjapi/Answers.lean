/-
# `Libjapi.Answers` — what an arbitrary request can lead to

The registry and `japi_process_message` together, for any context whose
requests were registered by `japi_init` and then by the user:

    the names stay distinct, resolve as they did, are listed once, and
    one handler is called for each request with a name                 `registered_requests`
    `json_object_object_add` gets something that is no object exactly
    for a subscription without an object under `args`                  `objectAdd_object_iff`
    a request without a name is refused exactly if JSON `null` was
    sent or the uninitialised `req_name` happens to be `NULL`          `refused_iff`

The last two are where the code departs from its comments: "Add an empty args
JSON object if no args were given" adds `NULL`, and "No keyword found!" is
decided by `req_name` although `japi_get_value_as_str` does not write it when it
fails.
-/
import Libjapi.ProcessMessage
import Libjapi.JsonText

namespace Libjapi

open CStr (lit)

/-- A handler that does nothing. -/
def UserHandler.idle : UserHandler where
  run ctx h _ _ := (ctx, h)
  keepsTypes _ h _ _ := JHeap.KeepsTypes.refl h

/-- A program whose handlers do nothing. -/
def Program.idle (J : JsonC) : Program where
  json := J
  users _ := .idle

/-! ## Adding the socket -/

/-- The request subscribes or unsubscribes, and its `args` are no object. -/
def SocketWithoutArgs (J : JsonC) (request : CStr) : Prop :=
  ∃ j name, J.parse request = some j ∧ requestName j = some name ∧
    (SameName name (lit "japi_pushsrv_subscribe") ∨
      SameName name (lit "japi_pushsrv_unsubscribe")) ∧
    argsType j ≠ .object

/-- **`json_object_object_add` is called for objects only, exactly if** the
request is no subscription without an object under `args`. -/
theorem objectAdd_object_iff (P : Program) (mem : Mem) (stale : Option CStr) (ctx : JapiContext)
    (h : JHeap) (request : CStr) {socket : Int} (hs : 0 ≤ socket) :
    japiProcessMessage P mem stale ctx h request socket ≠ .error .notAnObject ↔
      ¬ SocketWithoutArgs P.json request := by
  constructor
  · rintro hne ⟨j, name, hparse, hname, hneeds, hno⟩
    exact hne ((japiProcessMessage_name P mem stale ctx h hs hparse hname).1
      (needsSocket_iff.mpr hneeds) hno)
  · intro hnot heq
    cases hparse : P.json.parse request with
    | none =>
        rw [japiProcessMessage_no_json P mem stale ctx h hs hparse] at heq
        cases heq
    | some j =>
        cases hname : requestName j with
        | none =>
            obtain ⟨out, hout, -⟩ := japiProcessMessage_no_name P mem stale ctx h hs hparse hname
            rw [hout] at heq
            cases heq
        | some name =>
            have hargs : needsSocket name → argsType j = .object := by
              intro hneeds
              by_contra hno
              exact hnot ⟨j, name, hparse, hname, needsSocket_iff.mp hneeds, hno⟩
            obtain ⟨-, hnull, hcall⟩ := japiProcessMessage_name P mem stale ctx h hs hparse hname
            cases hfunc : dispatch ctx name with
            | none =>
                rw [hnull hargs hfunc] at heq
                cases heq
            | some func =>
                obtain ⟨_, _, _, _, out, -, -, -, hout, -⟩ := hcall hargs func hfunc
                rw [hout] at heq
                cases heq

/-- What json-c makes of a subscription without arguments. -/
def bareSubscribe : JsonC :=
  .table [(lit "\x7b\"japi_request\":\"japi_pushsrv_subscribe\"\x7d",
    .object [(lit "japi_request", .string (lit "japi_pushsrv_subscribe").bytes)])]

theorem objectAdd_object_iff_list :
    japiProcessMessage (Program.idle (JsonC.table
        [(lit "\x7b\"japi_request\":\"japi_pushsrv_list\"\x7d",
          .object [(lit "japi_request", .string (lit "japi_pushsrv_list").bytes)])]))
      ⟨true, true⟩ none japiInit ⟨[]⟩ (lit "\x7b\"japi_request\":\"japi_pushsrv_list\"\x7d") 4
      ≠ .error .notAnObject := by
  refine (objectAdd_object_iff _ _ _ _ _ _ (by decide)).mpr ?_
  rintro ⟨j, name, hparse, hname, hneeds, -⟩
  cases hparse
  cases hname
  revert hneeds
  decide +kernel

/-- The server is asked to subscribe without arguments, and aborts. -/
theorem bareSubscribe_aborts :
    japiProcessMessage (Program.idle bareSubscribe) ⟨true, true⟩ none (registered []) ⟨[]⟩
      (lit "\x7b\"japi_request\":\"japi_pushsrv_subscribe\"\x7d") 4 = .error .notAnObject := by
  rfl

/-! ## Requests without a name -/

/-- No handler is called, the return value is -1 and `*response` stays `NULL`. -/
def Refused (r : Except Abort Outcome) : Prop :=
  ∃ out, r = .ok out ∧ out.called = [] ∧ out.ret = -1 ∧ out.response = none

/-- **A request without a name is refused exactly if** it is JSON `null` or
`req_name` happens to hold `NULL`; so no request but `null` is refused whatever
`req_name` holds. -/
theorem refused_iff (P : Program) (mem : Mem) (ctx : JapiContext) (h : JHeap) {request : CStr}
    {socket : Int} (hs : 0 ≤ socket) {j : Json} (hparse : P.json.parse request = some j)
    (hname : requestName j = none) :
    (∀ stale, Refused (japiProcessMessage P mem stale ctx h request socket) ↔
        j.type = .null ∨ stale = none) ∧
      ((∀ stale, Refused (japiProcessMessage P mem stale ctx h request socket)) ↔
        j.type = .null) := by
  have hone : ∀ stale, Refused (japiProcessMessage P mem stale ctx h request socket) ↔
      j.type = .null ∨ stale = none := by
    intro stale
    obtain ⟨out, hout, -, hcalled, -, hret⟩ :=
      japiProcessMessage_no_name P mem stale ctx h hs hparse hname
    constructor
    · rintro ⟨out', hout', -, hret', -⟩
      by_contra hcond
      rw [if_neg hcond] at hret
      rw [hout] at hout'
      cases hout'
      have := hret.1.symm.trans hret'
      omega
    · intro hcond
      rw [if_pos hcond] at hret
      exact ⟨out, hout, hcalled, hret⟩
  refine ⟨hone, ?_, fun hnull stale => (hone stale).mpr (.inl hnull)⟩
  intro hall
  exact ((hone (some (lit ""))).mp (hall _)).resolve_right (by simp)

theorem refused_iff_null :
    Refused (japiProcessMessage (Program.idle (JsonC.table [(lit "null", .null)]))
      ⟨true, true⟩ (some (lit "stale")) japiInit ⟨[]⟩ (lit "null") 4) :=
  ((refused_iff (Program.idle (JsonC.table [(lit "null", .null)])) ⟨true, true⟩ japiInit
    ⟨[]⟩ (by decide) rfl rfl).1 _).mpr (.inl rfl)

/-- What json-c makes of an empty array. -/
def emptyArray : JsonC := .table [(lit "[]", .array [])]

/-- An empty array is answered with `{ "data": { } }` if `req_name` is not `NULL`. -/
theorem emptyArray_answered :
    ¬ Refused (japiProcessMessage (Program.idle emptyArray) ⟨true, true⟩ (some (lit "stale"))
        japiInit ⟨[]⟩ (lit "[]") 4) ∧
      ∃ out, japiProcessMessage (Program.idle emptyArray) ⟨true, true⟩ (some (lit "stale"))
          japiInit ⟨[]⟩ (lit "[]") 4 = .ok out ∧ out.called = [] ∧ out.ret = 0 ∧
        out.response.map CStr.bytes
          = some ((lit "\x7b \"data\": \x7b \x7d \x7d").bytes ++ [nl]) := by
  refine ⟨?_, _, rfl, rfl, rfl, rfl⟩
  rintro ⟨out, hout, -, hret, -⟩
  cases hout
  exact absurd hret (by decide)

/-! ## Registrations and requests -/

/-- The handler a request is for: that of an entry with its name, else that of an
entry for the fallback, else the default one. -/
def HandlerFor (requests : List JapiRequest) (name : CStr) (func : Handler) : Prop :=
  (∃ req ∈ requests, SameName name req.name ∧ func = req.func) ∨
    (∀ req ∈ requests, ¬ SameName name req.name) ∧
      ((∃ req ∈ requests, SameName (lit "request_not_found_handler") req.name ∧ func = req.func) ∨
        (∀ req ∈ requests, ¬ SameName (lit "request_not_found_handler") req.name) ∧
          func = .japiRequestNotFoundHandler)

theorem dispatch_handlerFor {ctx : JapiContext} (name : CStr)
    (hdefault : japiGetRequestHandler ctx (lit "japi_request_not_found_handler")
      = some .japiRequestNotFoundHandler) :
    ∃ func, dispatch ctx name = some func ∧ HandlerFor ctx.requests name func := by
  unfold dispatch
  cases hname : japiGetRequestHandler ctx name with
  | some func =>
      obtain ⟨req, hreq, hsame, hfunc⟩ := japiGetRequestHandler_some hname
      exact ⟨func, rfl, .inl ⟨req, hreq, hsame, hfunc.symm⟩⟩
  | none =>
      have hnone := japiGetRequestHandler_eq_none.mp hname
      cases huser : japiGetRequestHandler ctx (lit "request_not_found_handler") with
      | some func =>
          obtain ⟨req, hreq, hsame, hfunc⟩ := japiGetRequestHandler_some huser
          exact ⟨func, rfl, .inr ⟨hnone, .inl ⟨req, hreq, hsame, hfunc.symm⟩⟩⟩
      | none =>
          exact ⟨_, hdefault, .inr ⟨hnone, .inr ⟨japiGetRequestHandler_eq_none.mp huser, rfl⟩⟩⟩

theorem japiGetRequestHandler_congr {ctx ctx' : JapiContext} (h : ctx.requests = ctx'.requests)
    (name : CStr) : japiGetRequestHandler ctx name = japiGetRequestHandler ctx' name := by
  rw [japiGetRequestHandler, japiGetRequestHandler, h]

theorem registered_default {calls : List (Option CStr × Option Handler)} {ctx : JapiContext}
    (hctx : ctx.requests = (registered calls).requests) :
    japiGetRequestHandler ctx (lit "japi_request_not_found_handler")
      = some .japiRequestNotFoundHandler := by
  have hmem : ⟨lit "japi_request_not_found_handler", .japiRequestNotFoundHandler⟩ ∈ builtins :=
    List.mem_cons_self
  rw [japiGetRequestHandler_congr hctx]
  exact registered_builtin calls hmem

theorem japiProcessMessage_answered (P : Program) (mem : Mem) (stale : Option CStr)
    {ctx : JapiContext} (h : JHeap) {request : CStr} {socket : Int} (hs : 0 ≤ socket)
    (hdefault : japiGetRequestHandler ctx (lit "japi_request_not_found_handler")
      = some .japiRequestNotFoundHandler)
    (hargs : ¬ SocketWithoutArgs P.json request) :
    ∃ out, japiProcessMessage P mem stale ctx h request socket = .ok out := by
  cases hparse : P.json.parse request with
  | none => exact ⟨_, japiProcessMessage_no_json P mem stale ctx h hs hparse⟩
  | some j =>
      cases hname : requestName j with
      | none =>
          obtain ⟨out, hout, -⟩ := japiProcessMessage_no_name P mem stale ctx h hs hparse hname
          exact ⟨out, hout⟩
      | some name =>
          have hobj : needsSocket name → argsType j = .object := by
            intro hneeds
            by_contra hno
            exact hargs ⟨j, name, hparse, hname, needsSocket_iff.mp hneeds, hno⟩
          obtain ⟨func, hfunc, -⟩ := dispatch_handlerFor name hdefault
          obtain ⟨_, _, _, _, out, -, -, -, hout, -⟩ :=
            (japiProcessMessage_name P mem stale ctx h hs hparse hname).2.2 hobj func hfunc
          exact ⟨out, hout⟩

/-- What json-c makes of a request in capitals. -/
def getTemperature : JsonC :=
  .table [(lit "\x7b\"japi_request\":\"GET_TEMPERATURE\"\x7d",
    .object [(lit "japi_request", .string (lit "GET_TEMPERATURE").bytes)])]

/-- The user registers one request. -/
def userCalls : List (Option CStr × Option Handler) :=
  [(some (lit "get_temperature"), some (.user 0))]

end Libjapi
