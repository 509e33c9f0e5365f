/-
# `Libjapi.EchoedArgs` — `args` in the response

With `include_args_in_response` the response holds a second reference to the
arguments of the request, and its text is made after the handler ran.  Between
the two the socket of the client is put among the arguments of a subscription:

    `args` in the response are the arguments that were sent exactly if the
    request is no subscription, or they held that socket before    `response_args_iff`
-/
import Libjapi.Responses

namespace Libjapi

open CStr (lit)

/-- The handler modifies neither its request object nor the response around its own, which it
is not given, and leaves an object to answer with. -/
structure HandlerCall.KeepsRequest (c : HandlerCall) : Prop where
  args : c.heap.SameBelow c.served.heap c.jargs
  answers : ∃ data, c.LeavesEnvelope data

/-! ## The arguments in the response -/

theorem member_args (j : Json) (name : CStr) (socket : Int) (data : List (CStr × Json)) :
    (Json.object (responseMembers true j name socket data)).member? (lit "args") =
      (requestArguments j).map (withSocket name socket) := by
  have h₁ : (lit "args" == lit "japi_response") = false := by decide +kernel
  have h₂ : (lit "args" == lit "japi_request_no") = false := by decide +kernel
  have h₃ : (lit "args" == lit "data") = false := by decide +kernel
  simp only [responseMembers, envelope, Json.member?, if_true, List.cons_append, List.lookup_cons, h₁]
  cases requestNo j <;> cases requestArguments j <;> simp [List.lookup_cons, h₂, h₃]

theorem Json.setMember_eq_self {key : CStr} {val : Json} {ms : List (CStr × Json)} :
    Json.setMember key val ms = ms ↔ ms.lookup key = some val := by
  constructor
  · intro h
    rw [← h]
    exact Json.lookup_setMember_self key val ms
  · intro h
    induction ms with
    | nil => cases h
    | cons m ms ih =>
        obtain ⟨k, v⟩ := m
        by_cases hk : k = key
        · subst hk
          have hv : v = val := by simpa using h
          simp [Json.setMember, hv]
        · have hbeq : (key == k) = false := by simpa using fun h => hk h.symm
          rw [List.lookup_cons, hbeq] at h
          simp only [Json.setMember, if_neg hk, ih h]

theorem withSocket_eq_self {name : CStr} {socket : Int} {args : Json}
    (hobj : needsSocket name → args.type = .object) :
    withSocket name socket args = args ↔
      (needsSocket name → args.member? (lit "socket") = some (.int socket)) := by
  cases args with
  | object ms =>
      by_cases hneeds : needsSocket name
      · rw [withSocket, if_pos hneeds, Json.object.injEq, Json.setMember_eq_self]
        exact ⟨fun h _ => h, fun h => h hneeds⟩
      · rw [withSocket, if_neg hneeds]
        exact ⟨fun _ h => absurd h hneeds, fun _ => rfl⟩
  | _ =>
      refine ⟨fun _ hneeds => ?_, fun _ => rfl⟩
      cases hobj hneeds

theorem japiProcessMessage_args (P : Program) {mem : Mem} (stale : Option CStr)
    (calls : List (Option CStr × Option Handler)) {ctx : JapiContext}
    (hctx : ctx.requests = (registered calls).requests)
    (hinclude : ctx.includeArgsInResponse = true) (h : JHeap) {request : CStr} {socket : Int}
    (hs : 0 ≤ socket) {j : Json} (hparse : P.json.parse request = some j) {name : CStr}
    (hname : requestName j = some name) {args : Json} (hargs : requestArguments j = some args)
    (hobj : needsSocket name → args.type = .object)
    (hkeeps : ∀ c, handlerCall P mem ctx h request socket = some c →
      (∃ id, c.func = .user id) → c.KeepsRequest) :
    ∃ c data out, handlerCall P mem ctx h request socket = some c ∧
      c.served.heap.Denotes c.jrespData (.object data) ∧
      japiProcessMessage P mem stale ctx h request socket = .ok out ∧ out.ret = 0 ∧
      out.response.map CStr.bytes = (if mem.ndstr then some ((P.json.toJsonString
        (.object (responseMembers true j name socket data))).bytes ++ [nl]) else none) ∧
      (Json.object (responseMembers true j name socket data)).member? (lit "args") =
        some (withSocket name socket args) := by
  obtain ⟨func, hfunc, -⟩ := dispatch_handlerFor name (registered_default hctx)
  obtain ⟨c, resp, respData, hcall, -, rfl, hserved, hg⟩ := handlerCall_spec P mem ctx h hparse hname
    (fun hneeds => by rw [argsType_eq, hargs]; exact hobj hneeds) hfunc socket
  obtain ⟨data, hl⟩ : ∃ data, c.LeavesEnvelope data := by
    by_cases huser : ∃ id, c.func = .user id
    · exact (hkeeps c hcall huser).answers
    · exact hg.leavesEnvelope (hg.builtin hserved huser)
  obtain ⟨out, hfinish, hret, -, hline⟩ := hg.finish (P := P) hl mem.ndstr [c.func]
  have heq := japiProcessMessage_eq P mem stale ctx h request hs
  rw [hcall] at heq
  rw [hinclude] at hline
  refine ⟨c, data, out, hcall, hl.data, heq.trans hfinish, hret, hline, ?_⟩
  rw [member_args, hargs]
  rfl

/-- **The arguments come back as they were sent exactly if** the request is no subscription, or
they held the socket of the client. -/
theorem response_args_iff (P : Program) {mem : Mem} (stale : Option CStr)
    (calls : List (Option CStr × Option Handler)) {ctx : JapiContext}
    (hctx : ctx.requests = (registered calls).requests)
    (hinclude : ctx.includeArgsInResponse = true) (h : JHeap) {request : CStr} {socket : Int}
    (hs : 0 ≤ socket) {j : Json} (hparse : P.json.parse request = some j) {name : CStr}
    (hname : requestName j = some name) {args : Json} (hargs : requestArguments j = some args)
    (hobj : needsSocket name → args.type = .object)
    (hkeeps : ∀ c, handlerCall P mem ctx h request socket = some c →
      (∃ id, c.func = .user id) → c.KeepsRequest)
    (hinverse : ∀ c data, handlerCall P mem ctx h request socket = some c →
      c.served.heap.Denotes c.jrespData (.object data) →
      P.json.parse (P.json.toJsonString (.object (responseMembers true j name socket data))) =
        some (.object (responseMembers true j name socket data))) :
    ∃ out, japiProcessMessage P mem stale ctx h request socket = .ok out ∧
      (mem.ndstr = true → out.response ≠ none) ∧
      ∀ line ∈ out.response, ∃ text tree, line.bytes = CStr.bytes text ++ [nl] ∧
        P.json.parse text = some tree ∧
        (tree.member? (lit "args") = some args ↔
          (needsSocket name → args.member? (lit "socket") = some (.int socket))) := by
  obtain ⟨c, data, out, hcall, hdata, hout, -, hline, htree⟩ := japiProcessMessage_args P stale calls
    hctx hinclude h hs hparse hname hargs hobj hkeeps
  refine ⟨out, hout, ?_, ?_⟩
  · intro hmem hnone
    rw [hmem, hnone] at hline
    cases hline
  · intro line hmem
    rw [Option.mem_def.mp hmem] at hline
    cases hm : mem.ndstr with
    | false =>
        rw [hm] at hline
        cases hline
    | true =>
        rw [hm] at hline
        refine ⟨_, _, Option.some.inj hline, hinverse c data hcall hdata, ?_⟩
        rw [htree, Option.some.injEq]
        exact withSocket_eq_self hobj

theorem HandlerCall.Given.keepsRequest {c : HandlerCall} {h : JHeap} {resp respData : Ref}
    {j : Json} {name : CStr} {socket : Int} {includeArgs : Bool}
    (hg : c.Given h resp respData j name socket includeArgs) (hw : c.OnlyWrites h) :
    c.KeepsRequest := by
  refine ⟨?_, hg.leavesEnvelope hw⟩
  obtain ⟨r, data, hr, hw⟩ := hw
  rw [hg.jrespData] at hr
  cases hr
  refine hw.changes.sameBelow hg.args ?_
  rintro r ⟨⟩
  exact hg.args_data

theorem response_args_iff_thermometer :
    ∃ out, japiProcessMessage thermometerProgram ⟨true, true⟩ none thermometerCtx ⟨[]⟩ thermometerText
        4 = .ok out ∧ (true = true → out.response ≠ none) ∧
      ∀ line ∈ out.response, ∃ text tree, line.bytes = CStr.bytes text ++ [nl] ∧
        thermometerJson.parse text = some tree ∧
        (tree.member? (lit "args") = some (.object [(lit "unit", .string (lit "celsius").bytes)]) ↔
          (needsSocket (lit "get_temperature") →
            (Json.object [(lit "unit", .string (lit "celsius").bytes)]).member? (lit "socket")
              = some (.int 4))) := by
  have hctx : thermometerCtx.requests = (registered userCalls).requests := rfl
  have hinclude : thermometerCtx.includeArgsInResponse = true := rfl
  have hargs : requestArguments thermometerRequest
      = some (.object [(lit "unit", .string (lit "celsius").bytes)]) := rfl
  have hs : (0 : Int) ≤ 4 := by decide
  refine response_args_iff thermometerProgram none userCalls hctx hinclude ⟨[]⟩ hs
    thermometerRequest_parse thermometerRequest_name hargs (fun _ => rfl) ?_
    (fun c data hcall hdata => (thermometer_prints hcall hdata).2)
  intro c hcall _
  obtain ⟨c', resp, respData, hcall', -, -, -, hg⟩ := handlerCall_spec thermometerProgram
    ⟨true, true⟩ thermometerCtx ⟨[]⟩ thermometerRequest_parse thermometerRequest_name
    (by decide +kernel) thermometerCtx_dispatch 4
  rw [hcall] at hcall'
  cases hcall'
  exact hg.keepsRequest (thermometer_writes thermometerCtx_dispatch hcall).1

/-! ## A subscription -/

def subscriptionText : CStr :=
  lit ("\x7b\"japi_request\":\"japi_pushsrv_subscribe\"," ++
    "\"args\":\x7b\"service\":\"temperature\"\x7d\x7d")

def subscriptionRequest : Json :=
  .object [(lit "japi_request", .string (lit "japi_pushsrv_subscribe").bytes),
    (lit "args", .object [(lit "service", .string (lit "temperature").bytes)])]

/-- What it is answered with where there is no such service. -/
def subscriptionResponse : Json :=
  .object (responseMembers true subscriptionRequest (lit "japi_pushsrv_subscribe") 4
    [(lit "service", .string (lit "temperature").bytes), (lit "success", .boolean false),
      (lit "message", .string (lit "Push service not found.").bytes)])

def subscriptionJson : JsonC :=
  .table [(subscriptionText, subscriptionRequest),
    (CStr.ofBytes subscriptionResponse.text, subscriptionResponse)]

/-- The client of socket 4 sends a service, and gets the service and its socket back. -/
theorem subscription_echoes_socket :
    requestArguments subscriptionRequest
        = some (.object [(lit "service", .string (lit "temperature").bytes)]) ∧
      ∃ out text, japiProcessMessage (Program.idle subscriptionJson) ⟨true, true⟩ none
          thermometerCtx ⟨[]⟩ subscriptionText 4 = .ok out ∧
        out.response.map CStr.bytes = some (CStr.bytes text ++ [nl]) ∧
        subscriptionJson.parse text = some subscriptionResponse ∧
        subscriptionResponse.member? (lit "args") = some (.object
          [(lit "service", .string (lit "temperature").bytes), (lit "socket", .int 4)]) := by
  have hother : (CStr.ofBytes subscriptionResponse.text == subscriptionText) = false := by
    decide +kernel
  refine ⟨rfl, _, CStr.ofBytes subscriptionResponse.text, rfl, ?_, ?_, rfl⟩
  · decide +kernel
  · simp only [subscriptionJson, JsonC.table, List.lookup_cons, hother, beq_self_eq_true]

end Libjapi
