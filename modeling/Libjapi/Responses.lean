/-
# `Libjapi.Responses` — the line a request is answered with

A handler that only writes to its response object leaves everything around it as
it was; the built-in handlers are of this kind (`callHandler_writes`), and for
those of the user it is an assumption (`HandlerCall.OnlyWrites`).  The response
is then the envelope with what the handler wrote under `data`, and the line is
its text and one newline:

    every request with a name is answered with that line exactly if
    `japi_get_jobj_as_ndstr` gets its memory       `japiProcessMessage_response_iff`

Without it the call returns 0 all the same, with no response.  That json-c's
serialiser writes the response without a newline and that its parser inverts it is
assumed, as json-c is not part of the source.
-/
import Libjapi.HandlerCall
import Libjapi.Answers

namespace Libjapi

open CStr (lit)

/-! ## What the built-in handlers write -/

/-- The call returns, and wrote to the object `r` alone. -/
def Writes (S : Ref → Prop) (r : Ref) (h₀ : JHeap) (call : Except Abort Served) : Prop :=
  ∃ out ms, call = .ok out ∧ JHeap.Written S r h₀ out.heap ms

section Writes

variable {S : Ref → Prop} {r : Ref} {h₀ h : JHeap} {ms : List (CStr × Json)}

theorem JHeap.Written.done (hw : JHeap.Written S r h₀ h ms) (ctx : JapiContext)
    (joined : Option Addr) : Writes S r h₀ (pure ⟨ctx, h, joined⟩) := ⟨_, ms, rfl, hw⟩

theorem JHeap.Written.addNew (hw : JHeap.Written S r h₀ h ms) (key : CStr) {n : JNode} {v : Json}
    (hv : (h.alloc n).2.Denotes (h.alloc n).1 v) (hn : n.children = [])
    {rest : JHeap → Except Abort Served}
    (hrest : ∀ h' ms', JHeap.Written S r h₀ h' ms' → Writes S r h₀ (rest h')) :
    Writes S r h₀ (h.objectAddNew (some r) key n >>= rest) := by
  obtain ⟨h', hadd, hw'⟩ := hw.objectAddNew hv hn key
  rw [hadd]
  exact hrest h' _ hw'

theorem JHeap.Written.addString (hw : JHeap.Written S r h₀ h ms) (key : CStr) (s : List Byte)
    {rest : JHeap → Except Abort Served}
    (hrest : ∀ h' ms', JHeap.Written S r h₀ h' ms' → Writes S r h₀ (rest h')) :
    Writes S r h₀ (h.objectAddNew (some r) key (.string s) >>= rest) :=
  hw.addNew (v := .string s) key (JHeap.node?_alloc h _) rfl hrest

theorem JHeap.Written.addBoolean (hw : JHeap.Written S r h₀ h ms) (key : CStr) (b : Bool)
    {rest : JHeap → Except Abort Served}
    (hrest : ∀ h' ms', JHeap.Written S r h₀ h' ms' → Writes S r h₀ (rest h')) :
    Writes S r h₀ (h.objectAddNew (some r) key (.boolean b) >>= rest) :=
  hw.addNew (v := .boolean b) key (JHeap.node?_alloc h _) rfl hrest

theorem JHeap.Written.refuse (hw : JHeap.Written S r h₀ h ms) (message : CStr)
    (ctx : JapiContext) :
    Writes S r h₀ (do let h ← refusal h (some r) message; return (⟨ctx, h, none⟩ : Served)) := by
  rw [refusal, bind_assoc]
  refine hw.addBoolean _ _ fun h₁ _ hw₁ => ?_
  exact hw₁.addString _ _ fun h₂ _ hw₂ => hw₂.done ctx none

theorem japiPushsrvSubscribe_writes (J : JsonC) (malloc : Bool) (ctx : JapiContext) (jreq : JPtr)
    (hw : JHeap.Written S r h₀ h ms) :
    Writes S r h₀ (japiPushsrvSubscribe J malloc ctx h jreq (some r)) := by
  unfold japiPushsrvSubscribe
  split
  · exact hw.refuse _ ctx
  · exact hw.refuse _ ctx
  · dsimp only
    split
    · exact hw.refuse _ ctx
    · refine hw.addString _ _ fun h₁ _ hw₁ => ?_
      split
      · exact hw₁.addBoolean _ _ fun h₂ _ hw₂ => hw₂.done _ _
      · exact hw₁.refuse _ _

theorem japiPushsrvUnsubscribe_writes (J : JsonC) (ctx : JapiContext) (jreq : JPtr)
    (hw : JHeap.Written S r h₀ h ms) :
    Writes S r h₀ (japiPushsrvUnsubscribe J ctx h jreq (some r)) := by
  unfold japiPushsrvUnsubscribe
  split
  · exact hw.refuse _ ctx
  · exact hw.refuse _ ctx
  · dsimp only
    split
    · exact hw.refuse _ ctx
    · refine hw.addString _ _ fun h₁ _ hw₁ => ?_
      split
      · exact hw₁.addBoolean _ _ fun h₂ _ hw₂ => hw₂.done _ _
      · split
        · exact hw₁.refuse _ _
        · exact hw₁.refuse _ _

theorem Strings.node {h : JHeap} {p : JPtr} :
    ∀ {ps : List JPtr} {names : List CStr}, Strings h ps names → p ∈ ps →
      ∀ {q : Ref}, p = some q → ∃ s, h.node? q = some (.string s)
  | _ :: _, _ :: _, .cons ⟨q', hq', hn⟩ hs, hp, q, heq => by
      rcases List.mem_cons.mp hp with rfl | hp
      · obtain rfl : q' = q := Option.some.inj (hq'.symm.trans heq)
        exact ⟨_, hn⟩
      · exact Strings.node hs hp heq

theorem JHeap.Written.addNames (hw : JHeap.Written S r h₀ h ms) (names : List CStr) (key : CStr)
    (ctx : JapiContext) :
    Writes S r h₀ (do
      let h ← (Libjapi.addNames (h.alloc (.array [])).1 names (h.alloc (.array [])).2).objectAdd
        (some r) key (h.alloc (.array [])).1
      return (⟨ctx, h, none⟩ : Served)) := by
  obtain ⟨n, hn⟩ := hw.denotes.node
  have hr : r < h.cells.length := JHeap.node?_lt hn
  have hold : h₀.cells.length ≤ h.cells.length := hw.changes.types.length_le
  obtain ⟨ps, harr, hstr, hkept, hnew⟩ := addNames_spec names (JHeap.node?_alloc h (.array [])) .nil
  have hext : h.Extends (Libjapi.addNames (some h.cells.length) names (h.alloc (.array [])).2) := by
    intro q n hq
    exact hkept q n (JHeap.node?_lt hq).ne (JHeap.extends_alloc h _ q n hq)
  -- the array and its strings came after everything else
  have hreach : ∀ r', (Libjapi.addNames (some h.cells.length) names (h.alloc (.array [])).2).Reach
      (some h.cells.length) r' → h.cells.length ≤ r' := by
    intro r' hr'
    rcases (JHeap.reach_some harr).mp hr' with rfl | ⟨p, hp, hr'⟩
    · exact le_rfl
    · rcases hnew p hp with hnil | ⟨q, rfl, hle⟩
      · exact absurd hnil List.not_mem_nil
      · obtain ⟨s, hs⟩ := hstr.node hp rfl
        rcases (JHeap.reach_some hs).mp hr' with rfl | ⟨_, hq, -⟩
        · exact (Nat.le_succ _).trans (by simpa [JHeap.alloc] using hle)
        · exact absurd hq List.not_mem_nil
  obtain ⟨h', hadd, hw'⟩ := (hw.mono hext).objectAdd (q := some h.cells.length)
    (v := .array (names.map fun name => .string name.bytes)) ⟨ps, harr, hstr.denotes⟩
    (fun r' hr' => ⟨(hr.trans_le (hreach r' hr')).ne', .inl (hold.trans (hreach r' hr'))⟩) key
  refine ⟨⟨ctx, h', none⟩, _, ?_, hw'⟩
  rw [show (h.alloc (.array [])).1 = some h.cells.length from rfl, hadd]
  rfl

/-- **The built-in handlers write to their response alone.** -/
theorem callHandler_writes (P : Program) (malloc : Bool) (ctx : JapiContext) (jargs : JPtr)
    (hw : JHeap.Written S r h₀ h ms) {func : Handler} (huser : ∀ id, func ≠ .user id) :
    Writes S r h₀ (callHandler P malloc ctx h jargs (some r) func) := by
  cases func with
  | japiRequestNotFoundHandler => exact hw.addString _ _ fun h₁ _ hw₁ => hw₁.done ctx none
  | japiPushsrvSubscribe => exact japiPushsrvSubscribe_writes P.json malloc ctx jargs hw
  | japiPushsrvUnsubscribe => exact japiPushsrvUnsubscribe_writes P.json ctx jargs hw
  | japiPushsrvList => exact hw.addNames _ _ ctx
  | japiCmdList => exact hw.addNames _ _ ctx
  | user id => exact absurd rfl (huser id)

end Writes

/-! ## The response -/

/-- The handler wrote to its response object alone, which reaches nothing
afterwards but what is new, what the arguments reach, and what was there before
the request. -/
def HandlerCall.OnlyWrites (c : HandlerCall) (h : JHeap) : Prop :=
  ∃ r data, c.jrespData = some r ∧
    JHeap.Written (fun r' => c.heap.Reach c.jargs r' ∨ r' < h.cells.length) r c.heap
      c.served.heap data

/-- The members of the response to a request. -/
def responseMembers (includeArgs : Bool) (j : Json) (name : CStr) (socket : Int)
    (data : List (CStr × Json)) : List (CStr × Json) :=
  envelope (.string name.bytes) (requestNo j)
      (if includeArgs then (requestArguments j).map (withSocket name socket) else none) ++
    [(lit "data", .object data)]

theorem Json.setMember_append {key : CStr} {val : Json} {ms : List (CStr × Json)}
    (hkey : ∀ m ∈ ms, m.1 ≠ key) : Json.setMember key val ms = ms ++ [(key, val)] := by
  induction ms with
  | nil => rfl
  | cons m ms ih =>
      obtain ⟨hm, hms⟩ := List.forall_mem_cons.mp hkey
      simp only [Json.setMember, if_neg hm, ih hms, List.cons_append]

theorem envelope_keys {t : Json} {no args : Option Json} :
    ∀ m ∈ envelope t no args, m.1 ≠ lit "data" := by
  intro m hm
  simp only [envelope, List.mem_cons, List.mem_append, Option.mem_toList,
    Option.map_eq_some_iff] at hm
  rcases hm with rfl | ⟨_, -, rfl⟩ | ⟨_, -, rfl⟩
  · show lit "japi_response" ≠ lit "data"
    decide
  · show lit "japi_request_no" ≠ lit "data"
    decide
  · show lit "args" ≠ lit "data"
    decide

/-- The handler left the envelope alone, and in its response object an object that does
not reach the envelope. -/
structure HandlerCall.LeavesEnvelope (c : HandlerCall) (data : List (CStr × Json)) : Prop where
  envelope : c.heap.SameBelow c.served.heap c.jresp
  data : c.served.heap.Denotes c.jrespData (.object data)
  reach : ∀ r, c.jresp = some r → ¬ c.served.heap.Reach c.jrespData r

theorem HandlerCall.Given.leavesEnvelope {c : HandlerCall} {h : JHeap} {resp respData : Ref}
    {j : Json} {name : CStr} {socket : Int} {includeArgs : Bool}
    (hg : c.Given h resp respData j name socket includeArgs) (hw : c.OnlyWrites h) :
    ∃ data, c.LeavesEnvelope data := by
  obtain ⟨r, data, hr, hw⟩ := hw
  rw [hg.jrespData] at hr
  cases hr
  refine ⟨data, ?_, hg.jrespData ▸ hw.denotes, ?_⟩
  · rw [hg.jresp]
    refine hw.changes.sameBelow hg.response ?_
    rintro r ⟨⟩
    exact hg.resp_data
  · intro r hr hreach
    rw [hg.jresp] at hr
    cases hr
    rw [hg.jrespData] at hreach
    obtain ⟨n, hn⟩ := hg.response.node
    rcases hw.reach resp hreach with heq | hnew | hargs | hold
    · exact hg.resp_data (heq ▸ .here)
    · exact absurd (JHeap.node?_lt hn) hnew.not_gt
    · exact hg.args_resp hargs
    · exact absurd hold hg.fresh.not_gt

/-- **What follows the call**: the data of the handler is the last member, and the
line is the text of that and a newline. -/
theorem HandlerCall.Given.finish {P : Program} {c : HandlerCall} {h : JHeap}
    {resp respData : Ref} {j : Json} {name : CStr} {socket : Int} {includeArgs : Bool}
    (hg : c.Given h resp respData j name socket includeArgs) {data : List (CStr × Json)}
    (hl : c.LeavesEnvelope data) (malloc : Bool) (called : List Handler) :
    ∃ out, Libjapi.finish P malloc c.served c.jreq c.jresp c.jrespData called = .ok out ∧
      out.ret = 0 ∧ out.called = called ∧
      out.response.map CStr.bytes = if malloc then some ((P.json.toJsonString
        (.object (responseMembers includeArgs j name socket data))).bytes ++ [nl]) else none := by
  have henv := hl.envelope
  have hdata := hl.data
  rw [hg.jresp] at henv
  rw [hg.jrespData] at hdata
  obtain ⟨h', hadd, -, hd, -⟩ := (hg.response.frame henv).objectAdd hdata
    (hg.jrespData ▸ hl.reach resp hg.jresp) (lit "data")
  rw [Json.setMember_append envelope_keys] at hd
  refine ⟨⟨c.served.ctx, (h'.put c.jresp).put c.jreq, 0,
    japiGetJobjAsNdstr P.json malloc h' c.jresp, called, c.served.joined⟩, ?_, rfl, rfl, ?_⟩
  · simp only [Libjapi.finish, hg.jresp, hg.jrespData, hadd, bind, Except.bind, pure, Except.pure]
  · cases malloc with
    | false => rfl
    | true =>
        simp only [japiGetJobjAsNdstr, if_true, Option.map_some, hg.jresp, hd.read]
        rfl

/-- The serialiser writes the tree without a newline, and the parser inverts it. -/
def RoundTrips (J : JsonC) (tree : Json) : Prop :=
  nl ∉ (J.toJsonString tree).bytes ∧ J.parse (J.toJsonString tree) = some tree

/-- The response is the text of the tree and a newline, and there is no other
newline in it. -/
def OneLine (J : JsonC) (response : Option CStr) (tree : Json) : Prop :=
  ∃ text : CStr, response.map CStr.bytes = some (text.bytes ++ [nl]) ∧ nl ∉ text.bytes ∧
    J.parse text = some tree

theorem oneLine_iff {J : JsonC} {response : Option CStr} {tree : Json} {malloc : Bool}
    (hline : response.map CStr.bytes =
      if malloc then some ((J.toJsonString tree).bytes ++ [nl]) else none)
    (hprints : RoundTrips J tree) : OneLine J response tree ↔ malloc = true := by
  cases malloc with
  | false =>
      refine iff_of_false ?_ (by simp)
      rintro ⟨text, htext, -⟩
      rw [hline] at htext
      cases htext
  | true => exact iff_of_true ⟨_, hline, hprints.1, hprints.2⟩ rfl

theorem HandlerCall.Given.builtin {P : Program} {malloc : Bool} {ctx : JapiContext}
    {c : HandlerCall} {h : JHeap} {resp respData : Ref} {j : Json} {name : CStr} {socket : Int}
    {includeArgs : Bool} (hg : c.Given h resp respData j name socket includeArgs)
    (hserved : callHandler P malloc ctx c.heap c.jargs c.jrespData c.func = .ok c.served)
    (huser : ¬ ∃ id, c.func = .user id) : c.OnlyWrites h := by
  obtain ⟨served, data, heq, hw⟩ := callHandler_writes P malloc ctx c.jargs
    (JHeap.Written.refl (fun r' => c.heap.Reach c.jargs r' ∨ r' < h.cells.length) hg.data)
    (not_exists.mp huser)
  rw [hg.jrespData, heq] at hserved
  cases hserved
  exact ⟨respData, data, hg.jrespData, hw⟩

/-- **Every request with a name is answered with one line**, whose object has the
name, the request number and the arguments the request has, and as data what the
one handler that was called wrote to the empty object it was given, **exactly if** there
is memory for the line; 0 is returned without it, too. -/
theorem japiProcessMessage_response_iff (P : Program) (mem : Mem) (stale : Option CStr)
    (calls : List (Option CStr × Option Handler)) {ctx : JapiContext}
    (hctx : ctx.requests = (registered calls).requests) (h : JHeap) {request : CStr}
    {socket : Int} (hs : 0 ≤ socket) {j : Json} (hparse : P.json.parse request = some j)
    {name : CStr} (hmember : j.member? (lit "japi_request") = some (.string name.bytes))
    (hargs : (SameName name (lit "japi_pushsrv_subscribe") ∨
      SameName name (lit "japi_pushsrv_unsubscribe")) → argsType j = .object)
    (hwrites : ∀ c, handlerCall P mem ctx h request socket = some c →
      (∃ id, c.func = .user id) → c.OnlyWrites h)
    (hprints : ∀ c data, handlerCall P mem ctx h request socket = some c →
      c.served.heap.Denotes c.jrespData (.object data) → RoundTrips P.json
        (.object (responseMembers ctx.includeArgsInResponse j name socket data))) :
    ∃ c out data, handlerCall P mem ctx h request socket = some c ∧
      HandlerFor ctx.requests name c.func ∧ c.heap.Denotes c.jrespData (.object []) ∧
      c.served.heap.Denotes c.jrespData (.object data) ∧
      japiProcessMessage P mem stale ctx h request socket = .ok out ∧ out.ret = 0 ∧
      out.called = [c.func] ∧
      (OneLine P.json out.response
        (.object (responseMembers ctx.includeArgsInResponse j name socket data)) ↔
          mem.ndstr = true) := by
  have hname : requestName j = some name := by
    simp only [requestName, hmember, CStr.ofBytes_self]
  obtain ⟨func, hfunc, hfor⟩ := dispatch_handlerFor name (registered_default hctx)
  obtain ⟨c, resp, respData, hcall, -, rfl, hserved, hg⟩ := handlerCall_spec P mem ctx h hparse hname
    (fun hneeds => hargs (needsSocket_iff.mp hneeds)) hfunc socket
  have hw : c.OnlyWrites h := by
    by_cases huser : ∃ id, c.func = .user id
    · exact hwrites c hcall huser
    · exact hg.builtin hserved huser
  obtain ⟨data, hl⟩ := hg.leavesEnvelope hw
  obtain ⟨out, hfinish, hret, hcalled, hline⟩ := hg.finish (P := P) hl mem.ndstr [c.func]
  have heq := japiProcessMessage_eq P mem stale ctx h request hs
  rw [hcall] at heq
  refine ⟨c, out, data, hcall, hfor, hg.jrespData ▸ hg.data, hl.data, ?_, hret, hcalled,
    oneLine_iff hline (hprints c data hcall hl.data)⟩
  rw [show japiProcessMessage P mem stale ctx h request socket = _ from heq, hfinish]

/-! ## A thermometer -/

/-- A request with a number, which is null, and arguments. -/
def thermometerText : CStr :=
  lit ("\x7b\"japi_request\":\"get_temperature\",\"japi_request_no\":null," ++
    "\"args\":\x7b\"unit\":\"celsius\"\x7d\x7d")

def thermometerRequest : Json :=
  .object [(lit "japi_request", .string (lit "get_temperature").bytes),
    (lit "japi_request_no", .null),
    (lit "args", .object [(lit "unit", .string (lit "celsius").bytes)])]

/-- What it is answered with, and what json-c makes of that. -/
def thermometerResponse : Json :=
  .object (responseMembers true thermometerRequest (lit "get_temperature") 4
    [(lit "temperature", .int 23)])

def responseText : CStr :=
  lit ("\x7b \"japi_response\": \"get_temperature\", \"japi_request_no\": null, " ++
    "\"args\": \x7b \"unit\": \"celsius\" \x7d, \"data\": \x7b \"temperature\": 23 \x7d \x7d")

def thermometerJson : JsonC :=
  .table [(thermometerText, thermometerRequest), (responseText, thermometerResponse)]

theorem thermometerResponse_roundTrips : RoundTrips thermometerJson thermometerResponse := by
  have htext : thermometerJson.toJsonString thermometerResponse = responseText := by
    decide +kernel
  have hother : (responseText == thermometerText) = false := by decide +kernel
  rw [RoundTrips, htext]
  refine ⟨by decide +kernel, ?_⟩
  simp only [thermometerJson, JsonC.table, List.lookup_cons, hother, beq_self_eq_true]

/-- The handler of the user answers 23. -/
def thermometer : UserHandler where
  run ctx h _ jresp :=
    (ctx, ((h.objectAddNew jresp (lit "temperature") (.int 23)).toOption).getD h)
  keepsTypes ctx h jreq jresp := by
    cases hadd : h.objectAddNew jresp (lit "temperature") (.int 23) with
    | error e => exact JHeap.KeepsTypes.refl h
    | ok h' =>
        exact (JHeap.extends_alloc h _).keepsTypes.trans (JHeap.objectAdd_keepsTypes hadd)

def thermometerProgram : Program where
  json := thermometerJson
  users _ := thermometer

theorem thermometerRequest_parse :
    thermometerProgram.json.parse thermometerText = some thermometerRequest := rfl

theorem thermometerRequest_name : requestName thermometerRequest = some (lit "get_temperature") :=
  rfl

theorem thermometer_writes {mem : Mem} {ctx : JapiContext} {h : JHeap} {socket : Int}
    {c : HandlerCall} (hfunc : dispatch ctx (lit "get_temperature") = some (.user 0))
    (hcall : handlerCall thermometerProgram mem ctx h thermometerText socket = some c) :
    c.OnlyWrites h ∧
      c.served.heap.Denotes c.jrespData (.object [(lit "temperature", .int 23)]) := by
  obtain ⟨c', resp, respData, hcall', -, hid, hserved, hg⟩ := handlerCall_spec thermometerProgram mem
    ctx h thermometerRequest_parse thermometerRequest_name (by decide +kernel) hfunc socket
  rw [hcall] at hcall'
  cases hcall'
  rw [hid] at hserved
  obtain ⟨h', hadd, hw⟩ := (JHeap.Written.refl
    (fun r' => c.heap.Reach c.jargs r' ∨ r' < h.cells.length) hg.data).objectAddNew
    (n := .int 23) (v := .int 23) (JHeap.node?_alloc c.heap _) rfl (lit "temperature")
  have hrun : ((thermometerProgram.users 0).run ctx c.heap c.jargs c.jrespData).2 = h' := by
    show ((c.heap.objectAddNew c.jrespData _ _).toOption).getD c.heap = h'
    rw [hg.jrespData, hadd]
    rfl
  have hheap : c.served.heap = h' := by
    rw [← Except.ok.inj hserved]
    exact hrun
  rw [← hheap] at hw
  exact ⟨⟨respData, _, hg.jrespData, hw⟩, hg.jrespData ▸ hw.denotes⟩

/-- The user's request, with the arguments echoed. -/
def thermometerCtx : JapiContext := { registered userCalls with includeArgsInResponse := true }

theorem thermometerCtx_dispatch :
    dispatch thermometerCtx (lit "get_temperature") = some (.user 0) := by decide +kernel

theorem thermometer_prints {mem : Mem} {h : JHeap} {c : HandlerCall} {data : List (CStr × Json)}
    (hcall : handlerCall thermometerProgram mem thermometerCtx h thermometerText 4 = some c)
    (hdata : c.served.heap.Denotes c.jrespData (.object data)) :
    RoundTrips thermometerJson
      (.object (responseMembers true thermometerRequest (lit "get_temperature") 4 data)) := by
  have hwritten := (thermometer_writes thermometerCtx_dispatch hcall).2
  have heq : Json.object data = .object [(lit "temperature", .int 23)] :=
    hdata.read.symm.trans hwritten.read
  cases heq
  exact thermometerResponse_roundTrips

theorem japiProcessMessage_response_iff_thermometer :
    ∃ out, japiProcessMessage thermometerProgram ⟨true, true⟩ none thermometerCtx ⟨[]⟩
        thermometerText 4 = .ok out ∧ out.ret = 0 ∧ out.called = [.user 0] ∧
      OneLine thermometerJson out.response thermometerResponse := by
  have hctx : thermometerCtx.requests = (registered userCalls).requests := rfl
  have hmember : thermometerRequest.member? (lit "japi_request")
      = some (.string (lit "get_temperature").bytes) := rfl
  have hs : (0 : Int) ≤ 4 := by decide
  obtain ⟨c, out, data, hcall, -, -, hdata, hout, hret, hcalled, hline⟩ :=
    japiProcessMessage_response_iff thermometerProgram ⟨true, true⟩ none userCalls hctx ⟨[]⟩ hs
      thermometerRequest_parse hmember (by decide +kernel)
      (fun c hcall _ => (thermometer_writes thermometerCtx_dispatch hcall).1)
      (fun c data hcall hdata => thermometer_prints hcall hdata)
  have hwritten := (thermometer_writes thermometerCtx_dispatch hcall).2
  have heq : Json.object data = .object [(lit "temperature", .int 23)] :=
    hdata.read.symm.trans hwritten.read
  have hfunc : c.func = .user 0 := by
    obtain ⟨c', _, _, hcall', -, hid, -⟩ := handlerCall_spec thermometerProgram ⟨true, true⟩
      thermometerCtx ⟨[]⟩ thermometerRequest_parse thermometerRequest_name (by decide +kernel)
      thermometerCtx_dispatch 4
    rw [hcall] at hcall'
    cases hcall'
    exact hid
  cases heq
  exact ⟨out, hout, hret, hfunc ▸ hcalled, hline.mpr rfl⟩

/-- Without memory for the line there is no response, and the return value is 0. -/
theorem noMemory_noResponse :
    RoundTrips thermometerJson thermometerResponse ∧
      ∃ out, japiProcessMessage thermometerProgram ⟨true, false⟩ none thermometerCtx ⟨[]⟩
        thermometerText 4 = .ok out ∧ out.called = [.user 0] ∧ out.ret = 0 ∧
        out.response = none :=
  ⟨thermometerResponse_roundTrips, _, rfl, rfl, rfl, rfl⟩

end Libjapi
