/-
# `Libjapi.ProcessMessage` — `japi_process_message`

One request is parsed, answered by a handler and turned into one line.  The
definition follows the source in parts: `requestArgs` and `addSocket` (up to the
dispatch), `callHandler`, and `finish` (behind `else`).  An `Abort` is how the
process ends in between: `json_object_object_add` on something that is no object,
an `assert`, or a call through `NULL`.

`req_name` is a local variable without an initial value; what it holds on entry
is the parameter `stale`.  The handlers of the user are parameters, and so are
json-c's parser and serialiser.  `called` and `joined` record what was called and
are not read by the code.

    not an object with a string `japi_request`:   `japiProcessMessage_no_name`
    otherwise:                                     `japiProcessMessage_name`
-/
import Libjapi.Requests

namespace Libjapi

open CStr (lit)

/-! ## The code -/

/-- A handler of the user.  It can change the context and the JSON objects it
reaches, but json-c has no call that changes the type of an object. -/
structure UserHandler where
  run : JapiContext → JHeap → JPtr → JPtr → JapiContext × JHeap
  keepsTypes : ∀ ctx (h : JHeap) jreq jresp, h.KeepsTypes (run ctx h jreq jresp).2

/-- The code `japi_process_message` is linked with: json-c and the user's handlers. -/
structure Program where
  json : JsonC
  users : Nat → UserHandler

/-- Whether the two allocations a request can lead to succeed. -/
structure Mem where
  addClient : Bool
  ndstr : Bool

/-- `json_tokener_parse`: JSON `null` is the NULL pointer, as is a failure. -/
def jsonTokenerParse (J : JsonC) (h : JHeap) (text : CStr) : JPtr × JHeap :=
  match J.parse text with
  | none => (none, h)
  | some j => h.build j

/-- `japi_get_value_as_str`: the return value, and `*val` afterwards. -/
def japiGetValueAsStr (J : JsonC) (h : JHeap) (jobj : JPtr) (key : Option CStr)
    (val : Option CStr) : Int × Option CStr :=
  match jobj, key with
  | none, _ => (-1, val)
  | some _, none => (-2, val)
  | some r, some key =>
      match h.getEx (some r) key with
      | none => (-3, val)
      | some jval => if h.typeOf jval = .string then (0, h.getString J jval) else (-4, val)

/-- `japi_get_jobj_as_ndstr`. -/
def japiGetJobjAsNdstr (J : JsonC) (malloc : Bool) (h : JHeap) (jobj : JPtr) : Option CStr :=
  if malloc then
    some ⟨(J.toJsonString (h.read jobj)).bytes ++ [nl], by
      have := (J.toJsonString (h.read jobj)).noNul
      simp [this, nl]⟩
  else none

/-- The name is that of a request that needs the client's socket. -/
def needsSocket (reqName : CStr) : Prop :=
  strcasecmp reqName (lit "japi_pushsrv_subscribe") = 0 ∨
    strcasecmp reqName (lit "japi_pushsrv_unsubscribe") = 0

instance (reqName : CStr) : Decidable (needsSocket reqName) :=
  inferInstanceAs (Decidable (_ ∨ _))

/-- "Include japi_request_no in response, if included with request". -/
def addRequestNo (h : JHeap) (jreq jresp : JPtr) : Except Abort JHeap :=
  match h.getEx jreq (lit "japi_request_no") with
  | some jreqNo => (h.get jreqNo).objectAdd jresp (lit "japi_request_no") jreqNo
  | none => pure h

/-- "Prepare response", the request number and the arguments, which are added
as `NULL` if there are none and echoed if the context says so. -/
def requestArgs (ctx : JapiContext) (h : JHeap) (jreq jresp : JPtr) (reqName : CStr) :
    Except Abort (JPtr × JHeap) := do
  let h ← h.objectAddNew jresp (lit "japi_response") (.string reqName.bytes)
  let h ← addRequestNo h jreq jresp
  match h.getEx jreq (lit "args") with
  | none => do
      let h ← h.objectAdd jreq (lit "args") none
      pure ((h.getEx jreq (lit "args")).join, h)
  | some jargs =>
      if ctx.includeArgsInResponse then do
        let h ← (h.get jargs).objectAdd jresp (lit "args") jargs
        pure (jargs, h)
      else pure (jargs, h)

/-- "Subscribe/unsubscribe service needs client socket". -/
def addSocket (h : JHeap) (jargs : JPtr) (reqName : CStr) (socket : Int) : Except Abort JHeap :=
  if needsSocket reqName then h.objectAddNew jargs (lit "socket") (.int socket) else pure h

/-- The call through `req_handler`. -/
def callHandler (P : Program) (malloc : Bool) (ctx : JapiContext) (h : JHeap)
    (jargs jrespData : JPtr) : Handler → Except Abort Served
  | .japiRequestNotFoundHandler => japiRequestNotFoundHandler ctx h jrespData
  | .japiPushsrvSubscribe => japiPushsrvSubscribe P.json malloc ctx h jargs jrespData
  | .japiPushsrvUnsubscribe => japiPushsrvUnsubscribe P.json ctx h jargs jrespData
  | .japiPushsrvList => japiPushsrvList ctx h jrespData
  | .japiCmdList => japiCmdList ctx h jrespData
  | .user id =>
      .ok ⟨((P.users id).run ctx h jargs jrespData).1, ((P.users id).run ctx h jargs jrespData).2,
        none⟩

/-- What a call leaves behind. -/
structure Outcome where
  ctx : JapiContext
  heap : JHeap
  ret : Int
  response : Option CStr
  called : List Handler
  joined : Option Addr

/-- From "Add response arguments" to the end. -/
def finish (P : Program) (malloc : Bool) (served : Served) (jreq jresp jrespData : JPtr)
    (called : List Handler) : Except Abort Outcome := do
  let h ← served.heap.objectAdd jresp (lit "data") jrespData
  pure ⟨served.ctx, (h.put jresp).put jreq, 0, japiGetJobjAsNdstr P.json malloc h jresp, called,
    served.joined⟩

/-- `japi_process_message`. -/
def japiProcessMessage (P : Program) (mem : Mem) (stale : Option CStr) (ctx : JapiContext)
    (h : JHeap) (request : CStr) (socket : Int) : Except Abort Outcome :=
  if socket < 0 then .error .assertion
  else
    let jreq := (jsonTokenerParse P.json h request).1
    let h := (jsonTokenerParse P.json h request).2
    if jreq = none then .ok ⟨ctx, h, -1, none, [], none⟩
    else
      let jresp := (h.alloc (.object [])).1
      let h := (h.alloc (.object [])).2
      let jrespData := (h.alloc (.object [])).1
      let h := (h.alloc (.object [])).2
      let name := japiGetValueAsStr P.json h jreq (some (lit "japi_request")) stale
      if name.1 = 0 then do
        let reqName := name.2.getD (lit "")
        let args ← requestArgs ctx h jreq jresp reqName
        let h ← addSocket args.2 args.1 reqName socket
        match dispatch ctx reqName with
        | none => throw .nullHandler
        | some reqHandler => do
            let served ← callHandler P mem.addClient ctx h args.1 jrespData reqHandler
            finish P mem.ndstr served jreq jresp jrespData [reqHandler]
      else if name.2 = none then .ok ⟨ctx, h.put jreq, -1, none, [], none⟩ -- "No keyword found!"
      else finish P mem.ndstr ⟨ctx, h, none⟩ jreq jresp jrespData []

/-! ## The handlers succeed -/

/-- What a handler of subscriptions answers under `success`. -/
def Answers (h : JHeap) (jresp : JPtr) (success : Bool) : Prop :=
  ∃ r, h.getEx jresp (lit "success") = some (some r) ∧ h.node? r = some (.boolean success)

theorem refusal_ok {h : JHeap} {jresp : JPtr} (hresp : h.typeOf jresp = .object) (message : CStr) :
    ∃ h', refusal h jresp message = .ok h' ∧ JHeap.ChangesOnly jresp h h' ∧
      Answers h' jresp false := by
  obtain ⟨h₁, hadd₁, hch₁, r, hget, hn⟩ := JHeap.objectAddNew_ok hresp (lit "success")
    (.boolean false)
  have hresp₁ := hch₁.types.object hresp
  obtain ⟨h₂, hadd₂, hch₂, -⟩ := JHeap.objectAddNew_ok hresp₁ (lit "message")
    (.string message.bytes)
  refine ⟨h₂, ?_, hch₁.trans hch₂, r, ?_, ?_⟩
  · simp only [refusal, hadd₁, hadd₂, bind, Except.bind]
  · rw [JHeap.getEx_objectAddNew_ne hresp₁ hadd₂ (by decide)]
    exact hget
  · refine hch₂.others r _ ?_ hn
    -- the response is an object, the answer is not
    rintro rfl
    simp only [JHeap.typeOf, hn, Option.map_some, Option.getD_some] at hresp₁
    cases hresp₁

theorem japiRequestNotFoundHandler_ok (ctx : JapiContext) {h : JHeap} {response : JPtr}
    (hresp : h.typeOf response = .object) :
    ∃ h', japiRequestNotFoundHandler ctx h response = .ok ⟨ctx, h', none⟩ ∧
      JHeap.ChangesOnly response h h' := by
  obtain ⟨h₁, hadd, hch, -⟩ := JHeap.objectAddNew_ok hresp (lit "error")
    (.string (lit "no request handler found").bytes)
  refine ⟨h₁, ?_, hch⟩
  simp only [japiRequestNotFoundHandler, hadd, bind, Except.bind, pure, Except.pure]

theorem keepsTypes_arrayAdd (h : JHeap) (jarray val : JPtr) :
    h.KeepsTypes (h.arrayAdd jarray val) := by
  unfold JHeap.arrayAdd
  cases jarray with
  | none => exact JHeap.KeepsTypes.refl h
  | some r =>
      dsimp only
      split
      · rename_i ps hr
        intro r' t ht
        by_cases hne : r' = r
        · subst hne
          rw [JHeap.node?_setNode_self _ hr]
          rw [hr] at ht
          exact ht
        · rw [JHeap.node?_setNode_ne _ hne]
          exact ht
      · exact JHeap.KeepsTypes.refl h

theorem keepsTypes_addNames (jarray : JPtr) :
    ∀ (names : List CStr) (h : JHeap), h.KeepsTypes (addNames jarray names h)
  | [], h => JHeap.KeepsTypes.refl h
  | name :: names, h =>
      ((JHeap.extends_alloc h (.string name.bytes)).keepsTypes.trans
        (keepsTypes_arrayAdd _ jarray _)).trans (keepsTypes_addNames jarray names _)

theorem addNames_ok {h : JHeap} {response : JPtr} (hresp : h.typeOf response = .object)
    (names : List CStr) (key : CStr) :
    ∃ h', (addNames (h.alloc (.array [])).1 names (h.alloc (.array [])).2).objectAdd response key
        (h.alloc (.array [])).1 = .ok h' ∧ h.KeepsTypes h' := by
  have hk := (JHeap.extends_alloc h (.array [])).keepsTypes.trans
    (keepsTypes_addNames (h.alloc (.array [])).1 names (h.alloc (.array [])).2)
  obtain ⟨h', hadd, hch, -⟩ := JHeap.objectAdd_ok (hk.object hresp) key (h.alloc (.array [])).1
  exact ⟨h', hadd, hk.trans hch.types⟩

theorem refused_ok (ctx : JapiContext) {h : JHeap} {jresp : JPtr}
    (hresp : h.typeOf jresp = .object) (message : CStr) :
    ∃ h', (do let h ← refusal h jresp message; return (⟨ctx, h, none⟩ : Served))
        = .ok ⟨ctx, h', none⟩ ∧ JHeap.ChangesOnly jresp h h' ∧ Answers h' jresp false := by
  obtain ⟨h', hadd, hch, hfalse⟩ := refusal_ok hresp message
  refine ⟨h', ?_, hch, hfalse⟩
  simp only [hadd, bind, Except.bind, pure, Except.pure]

theorem granted_ok (ctx : JapiContext) {h : JHeap} {jresp : JPtr}
    (hresp : h.typeOf jresp = .object) (joined : Option Addr) :
    ∃ h', (do
        let h ← h.objectAddNew jresp (lit "success") (.boolean true)
        return (⟨ctx, h, joined⟩ : Served)) = .ok ⟨ctx, h', joined⟩ ∧
      JHeap.ChangesOnly jresp h h' ∧ Answers h' jresp true := by
  obtain ⟨h', hadd, hch, hget⟩ := JHeap.objectAddNew_ok hresp (lit "success") (.boolean true)
  refine ⟨h', ?_, hch, hget⟩
  simp only [hadd, bind, Except.bind, pure, Except.pure]

/-- **`japi_pushsrv_subscribe`** refuses and leaves the context alone, or adds the
socket in its arguments to the first service with the name in them. -/
theorem japiPushsrvSubscribe_cases (J : JsonC) (malloc : Bool) (ctx : JapiContext) {h : JHeap}
    (jreq : JPtr) {jresp : JPtr} (hresp : h.typeOf jresp = .object) :
    ∃ out, japiPushsrvSubscribe J malloc ctx h jreq jresp = .ok out ∧
      JHeap.ChangesOnly jresp h out.heap ∧
      ((out.ctx = ctx ∧ out.joined = none ∧ Answers out.heap jresp false) ∨
        ∃ service pushServices psc, h.getEx jreq (lit "service") = some (some service) ∧
          subscribeLoop malloc ((h.getString J (some service)).getD (lit ""))
            (h.getInt J (h.getEx jreq (lit "socket")).join) ctx.pushServices
            = (pushServices, psc) ∧
          out.joined = joinedOf psc ∧ out.joined ≠ none ∧ out.ctx = { ctx with pushServices } ∧
          Answers out.heap jresp true) := by
  unfold japiPushsrvSubscribe
  split
  · obtain ⟨h₁, heq, hch, hfalse⟩ := refused_ok ctx hresp (lit "Push service not found.")
    exact ⟨_, heq, hch, .inl ⟨rfl, rfl, hfalse⟩⟩
  · obtain ⟨h₁, heq, hch, hfalse⟩ := refused_ok ctx hresp (lit "Push service not found.")
    exact ⟨_, heq, hch, .inl ⟨rfl, rfl, hfalse⟩⟩
  · rename_i service hservice
    dsimp only
    split
    · obtain ⟨h₁, heq, hch, hfalse⟩ := refused_ok ctx hresp
        (lit "Subscribing push service to non-existing socket")
      exact ⟨_, heq, hch, .inl ⟨rfl, rfl, hfalse⟩⟩
    · obtain ⟨h₁, hadd, hch₁, -⟩ := JHeap.objectAddNew_ok hresp (lit "service")
        (.string ((h.getString J (some service)).getD (lit "")).bytes)
      have hresp₁ := hch₁.types.object hresp
      rw [hadd]
      dsimp only [bind, Except.bind]
      cases hloop : subscribeLoop malloc ((h.getString J (some service)).getD (lit ""))
        (h.getInt J (h.getEx jreq (lit "socket")).join) ctx.pushServices with
      | mk pushServices psc =>
          dsimp only
          split
          · rename_i addr hjoin
            obtain ⟨h₂, heq, hch₂, htrue⟩ := granted_ok { ctx with pushServices } hresp₁ (some addr)
            exact ⟨_, heq, hch₁.trans hch₂, .inr ⟨service, pushServices, psc, hservice, hloop,
              hjoin.symm, by simp, rfl, htrue⟩⟩
          · rename_i hjoin
            have hsame := subscribeLoop_failed (congrArg (joinedOf ·.2) hloop |>.trans hjoin)
            rw [hloop] at hsame
            obtain ⟨h₂, heq, hch₂, hfalse⟩ := refused_ok { ctx with pushServices } hresp₁
              (lit "Push service not found.")
            refine ⟨_, heq, hch₁.trans hch₂, .inl ⟨?_, rfl, hfalse⟩⟩
            show { ctx with pushServices } = ctx
            rw [show pushServices = ctx.pushServices from hsame]

theorem japiPushsrvUnsubscribe_cases (J : JsonC) (ctx : JapiContext) {h : JHeap} (jreq : JPtr)
    {jresp : JPtr} (hresp : h.typeOf jresp = .object) :
    ∃ out, japiPushsrvUnsubscribe J ctx h jreq jresp = .ok out ∧
      JHeap.ChangesOnly jresp h out.heap ∧ out.joined = none ∧
      ((out.ctx = ctx ∧ Answers out.heap jresp false ∧
          ∀ service, h.getEx jreq (lit "service") = some (some service) →
            h.getEx jreq (lit "socket") ≠ none →
            0 ≤ h.getInt J (h.getEx jreq (lit "socket")).join →
            (unsubscribeLoop ((h.getString J (some service)).getD (lit ""))
              (h.getInt J (h.getEx jreq (lit "socket")).join) ctx.pushServices).2.2 = false) ∨
        ∃ service pushServices, h.getEx jreq (lit "service") = some (some service) ∧
          unsubscribeLoop ((h.getString J (some service)).getD (lit ""))
            (h.getInt J (h.getEx jreq (lit "socket")).join) ctx.pushServices
            = (pushServices, true, true) ∧
          out.ctx = { ctx with pushServices } ∧ Answers out.heap jresp true) := by
  unfold japiPushsrvUnsubscribe
  split
  · rename_i hservice
    obtain ⟨h₁, heq, hch, hfalse⟩ := refused_ok ctx hresp (lit "Push service not found.")
    refine ⟨_, heq, hch, rfl, .inl ⟨rfl, hfalse, fun service hget => ?_⟩⟩
    rw [hservice] at hget
    cases hget
  · rename_i hservice
    obtain ⟨h₁, heq, hch, hfalse⟩ := refused_ok ctx hresp (lit "Push service not found.")
    refine ⟨_, heq, hch, rfl, .inl ⟨rfl, hfalse, fun service hget => ?_⟩⟩
    rw [hservice] at hget
    cases hget
  · rename_i service hservice
    dsimp only
    split
    · rename_i hsocket
      obtain ⟨h₁, heq, hch, hfalse⟩ := refused_ok ctx hresp
        (lit "Unsubscribing push service from non-existing socket")
      refine ⟨_, heq, hch, rfl, .inl ⟨rfl, hfalse, fun _ _ hsome hnonneg => ?_⟩⟩
      rcases hsocket with hnone | hneg
      · exact absurd hnone hsome
      · exact absurd hnonneg hneg.not_ge
    · obtain ⟨h₁, hadd, hch₁, -⟩ := JHeap.objectAddNew_ok hresp (lit "service")
        (.string ((h.getString J (some service)).getD (lit "")).bytes)
      have hresp₁ := hch₁.types.object hresp
      rw [hadd]
      dsimp only [bind, Except.bind]
      cases hloop : unsubscribeLoop ((h.getString J (some service)).getD (lit ""))
        (h.getInt J (h.getEx jreq (lit "socket")).join) ctx.pushServices with
      | mk pushServices flags =>
          obtain ⟨registered, unsubscribed⟩ := flags
          -- both answers that refuse leave the lists as they were
          have hfailed : unsubscribed = false → { ctx with pushServices } = ctx := by
            rintro rfl
            have hsame := unsubscribeLoop_failed (congrArg (·.2.2) hloop)
            rw [hloop] at hsame
            rw [show pushServices = ctx.pushServices from hsame]
          dsimp only
          split
          · rename_i hflags
            obtain ⟨rfl, rfl⟩ := hflags
            obtain ⟨h₂, heq, hch₂, htrue⟩ := granted_ok { ctx with pushServices } hresp₁ none
            exact ⟨_, heq, hch₁.trans hch₂, rfl, .inr ⟨service, pushServices, hservice, hloop,
              rfl, htrue⟩⟩
          · rename_i hflags
            have hun : unsubscribed = false := by
              refine Bool.eq_false_iff.mpr ?_
              rintro rfl
              have hreg := unsubscribeLoop_registered (congrArg (·.2.2) hloop)
              rw [hloop] at hreg
              exact hflags ⟨hreg, rfl⟩
            have hloop' : ∀ service', h.getEx jreq (lit "service") = some (some service') →
                h.getEx jreq (lit "socket") ≠ none →
                0 ≤ h.getInt J (h.getEx jreq (lit "socket")).join →
                (unsubscribeLoop ((h.getString J (some service')).getD (lit ""))
                  (h.getInt J (h.getEx jreq (lit "socket")).join) ctx.pushServices).2.2
                  = false := by
              intro service' hget _ _
              rw [hservice] at hget
              cases hget
              rw [hloop]
              exact hun
            split
            · obtain ⟨h₂, heq, hch₂, hfalse⟩ := refused_ok { ctx with pushServices } hresp₁
                (lit "Can't unsubscribe a service that wasn't subscribed before.")
              exact ⟨_, heq, hch₁.trans hch₂, rfl, .inl ⟨hfailed hun, hfalse, hloop'⟩⟩
            · obtain ⟨h₂, heq, hch₂, hfalse⟩ := refused_ok { ctx with pushServices } hresp₁
                (lit "Push service not found.")
              exact ⟨_, heq, hch₁.trans hch₂, rfl, .inl ⟨hfailed hun, hfalse, hloop'⟩⟩

/-- **`japi_pushsrv_subscribe` answers**, and what it changes is `ListsStep` for
the socket in its arguments. -/
theorem japiPushsrvSubscribe_ok (J : JsonC) (malloc : Bool) (ctx : JapiContext) {h : JHeap}
    (jreq : JPtr) {jresp : JPtr} (hresp : h.typeOf jresp = .object) :
    ∃ out, japiPushsrvSubscribe J malloc ctx h jreq jresp = .ok out ∧ h.KeepsTypes out.heap ∧
      ∃ pushServices, out.ctx = { ctx with pushServices } ∧
        ListsStep (h.getInt J (h.getEx jreq (lit "socket")).join) out.joined ctx.pushServices
          pushServices := by
  obtain ⟨out, heq, hch, ⟨hctx, -, -⟩ | ⟨service, pushServices, psc, -, hloop, hjoined, -, hctx, -⟩⟩ :=
    japiPushsrvSubscribe_cases J malloc ctx jreq hresp
  · exact ⟨out, heq, hch.types, ctx.pushServices, hctx, ListsStep.refl _ _ _⟩
  · have hlists := subscribeLoop_listsStep malloc ((h.getString J (some service)).getD (lit ""))
      (h.getInt J (h.getEx jreq (lit "socket")).join) ctx.pushServices
    rw [hloop, ← hjoined] at hlists
    exact ⟨out, heq, hch.types, pushServices, hctx, hlists⟩

theorem japiPushsrvUnsubscribe_ok (J : JsonC) (ctx : JapiContext) {h : JHeap} (jreq : JPtr)
    {jresp : JPtr} (hresp : h.typeOf jresp = .object) :
    ∃ out, japiPushsrvUnsubscribe J ctx h jreq jresp = .ok out ∧ h.KeepsTypes out.heap ∧
      out.joined = none ∧ ∃ pushServices, out.ctx = { ctx with pushServices } ∧
        ListsStep (h.getInt J (h.getEx jreq (lit "socket")).join) none ctx.pushServices
          pushServices := by
  obtain ⟨out, heq, hch, hjoined, ⟨hctx, -⟩ | ⟨service, pushServices, -, hloop, hctx, -⟩⟩ :=
    japiPushsrvUnsubscribe_cases J ctx jreq hresp
  · exact ⟨out, heq, hch.types, hjoined, ctx.pushServices, hctx, ListsStep.refl _ _ _⟩
  · have hlists := unsubscribeLoop_listsStep ((h.getString J (some service)).getD (lit ""))
      (h.getInt J (h.getEx jreq (lit "socket")).join) ctx.pushServices
    rw [hloop] at hlists
    exact ⟨out, heq, hch.types, hjoined, pushServices, hctx, hlists⟩

/-- **Every handler returns**, and leaves the types of all objects. -/
theorem callHandler_ok (P : Program) (malloc : Bool) (ctx : JapiContext) {h : JHeap}
    (jargs : JPtr) {jrespData : JPtr} (hresp : h.typeOf jrespData = .object) (func : Handler) :
    ∃ out, callHandler P malloc ctx h jargs jrespData func = .ok out ∧ h.KeepsTypes out.heap := by
  cases func with
  | japiRequestNotFoundHandler =>
      obtain ⟨h', heq, hch⟩ := japiRequestNotFoundHandler_ok ctx hresp
      exact ⟨_, heq, hch.types⟩
  | japiPushsrvSubscribe =>
      obtain ⟨out, heq, hk, -⟩ := japiPushsrvSubscribe_ok P.json malloc ctx jargs hresp
      exact ⟨out, heq, hk⟩
  | japiPushsrvUnsubscribe =>
      obtain ⟨out, heq, hk, -⟩ := japiPushsrvUnsubscribe_ok P.json ctx jargs hresp
      exact ⟨out, heq, hk⟩
  | japiPushsrvList =>
      obtain ⟨h', hadd, hk⟩ := addNames_ok hresp
        (ctx.pushServices.map JapiPushsrvContext.pushsrvName) (lit "services")
      refine ⟨⟨ctx, h', none⟩, ?_, hk⟩
      simp only [callHandler, japiPushsrvList, hadd, bind, Except.bind, pure, Except.pure]
  | japiCmdList =>
      obtain ⟨h', hadd, hk⟩ := addNames_ok hresp (ctx.requests.map JapiRequest.name)
        (lit "commands")
      refine ⟨⟨ctx, h', none⟩, ?_, hk⟩
      simp only [callHandler, japiCmdList, hadd, bind, Except.bind, pure, Except.pure]
  | user id => exact ⟨_, rfl, (P.users id).keepsTypes ctx h jargs jrespData⟩

theorem callHandler_sameCtx {P : Program} {malloc : Bool} {ctx : JapiContext} {h : JHeap}
    {jargs jrespData : JPtr} (hresp : h.typeOf jrespData = .object) {func : Handler}
    (hsub : func ≠ .japiPushsrvSubscribe) (hunsub : func ≠ .japiPushsrvUnsubscribe)
    (huser : ∀ id, func ≠ .user id) {served : Served}
    (hcall : callHandler P malloc ctx h jargs jrespData func = .ok served) :
    served.ctx = ctx ∧ served.joined = none := by
  cases func with
  | japiRequestNotFoundHandler =>
      obtain ⟨h', heq, -⟩ := japiRequestNotFoundHandler_ok ctx hresp
      rw [callHandler, heq] at hcall
      cases hcall
      exact ⟨rfl, rfl⟩
  | japiPushsrvList =>
      obtain ⟨h', hadd, -⟩ := addNames_ok hresp
        (ctx.pushServices.map JapiPushsrvContext.pushsrvName) (lit "services")
      simp only [callHandler, japiPushsrvList, hadd, bind, Except.bind, pure, Except.pure] at hcall
      cases hcall
      exact ⟨rfl, rfl⟩
  | japiCmdList =>
      obtain ⟨h', hadd, -⟩ := addNames_ok hresp (ctx.requests.map JapiRequest.name)
        (lit "commands")
      simp only [callHandler, japiCmdList, hadd, bind, Except.bind, pure, Except.pure] at hcall
      cases hcall
      exact ⟨rfl, rfl⟩
  | japiPushsrvSubscribe => exact absurd rfl hsub
  | japiPushsrvUnsubscribe => exact absurd rfl hunsub
  | user id => exact absurd rfl (huser id)

theorem finish_ok (P : Program) (malloc : Bool) (served : Served) (jreq : JPtr) {jresp : JPtr}
    (jrespData : JPtr) (hresp : served.heap.typeOf jresp = .object) (called : List Handler) :
    ∃ out, finish P malloc served jreq jresp jrespData called = .ok out ∧ out.ret = 0 ∧
      out.ctx = served.ctx ∧ out.called = called ∧ out.joined = served.joined := by
  obtain ⟨h', hadd, -, -⟩ := JHeap.objectAdd_ok hresp (lit "data") jrespData
  simp only [finish, hadd, bind, Except.bind, pure, Except.pure]
  exact ⟨_, rfl, rfl, rfl, rfl, rfl⟩

/-! ## Preparing the response -/

theorem needsSocket_iff {reqName : CStr} :
    needsSocket reqName ↔ SameName reqName (lit "japi_pushsrv_subscribe") ∨
      SameName reqName (lit "japi_pushsrv_unsubscribe") := by
  rw [needsSocket, strcasecmp_eq_zero, strcasecmp_eq_zero]

theorem addRequestNo_ok {h : JHeap} (jreq : JPtr) {jresp : JPtr}
    (hresp : h.typeOf jresp = .object) :
    ∃ h', addRequestNo h jreq jresp = .ok h' ∧ JHeap.ChangesOnly jresp h h' := by
  unfold addRequestNo
  cases h.getEx jreq (lit "japi_request_no") with
  | none => exact ⟨h, rfl, JHeap.ChangesOnly.refl jresp h⟩
  | some jreqNo =>
      have hch := (h.extends_get jreqNo).changesOnly jresp
      obtain ⟨h', hadd, hch', -⟩ := JHeap.objectAdd_ok (hch.types.object hresp)
        (lit "japi_request_no") jreqNo
      exact ⟨h', hadd, hch.trans hch'⟩

theorem requestArgs_spec (ctx : JapiContext) {h : JHeap} {jreq jresp : JPtr} {j : Json}
    (hd : h.Denotes jreq j) (hobj : j.type = .object) (hresp : h.typeOf jresp = .object)
    (hne : jresp ≠ jreq) (reqName : CStr) :
    ∃ p, requestArgs ctx h jreq jresp reqName = .ok p ∧ h.KeepsTypes p.2 ∧
      p.2.typeOf p.1 = ((j.member? (lit "args")).map Json.type).getD .null := by
  have hreq : h.typeOf jreq = .object := hd.typeOf.trans hobj
  obtain ⟨h₁, hadd₁, hch₁, -⟩ := JHeap.objectAddNew_ok hresp (lit "japi_response")
    (.string reqName.bytes)
  obtain ⟨h₂, hadd₂, hch₁₂⟩ := addRequestNo_ok jreq (hch₁.types.object hresp)
  have hch₂ := hch₁.trans hch₁₂
  have hargs := hch₂.getEx hne hreq (lit "args")
  have hget := hd.getEx (lit "args")
  simp only [requestArgs, hadd₁, bind, Except.bind]
  cases hmem : j.member? (lit "args") with
  | none =>
      rw [hmem] at hget
      rw [hget] at hargs
      obtain ⟨h₃, hadd₃, hch₃, hget₃⟩ := JHeap.objectAdd_ok (hch₂.types.object hreq) (lit "args")
        none
      refine ⟨(none, h₃), ?_, hch₂.types.trans hch₃.types, rfl⟩
      simp only [hadd₂, hargs, hadd₃, hget₃, pure, Except.pure, Option.join_some]
  | some v =>
      rw [hmem] at hget
      obtain ⟨q, hq, hdq⟩ := hget
      rw [hq] at hargs
      by_cases hinc : ctx.includeArgsInResponse = true
      · have hch := hch₂.trans ((h₂.extends_get q).changesOnly jresp)
        obtain ⟨h₃, hadd₃, hch₃, -⟩ := JHeap.objectAdd_ok (hch.types.object hresp) (lit "args") q
        refine ⟨(q, h₃), ?_, hch.types.trans hch₃.types, ?_⟩
        · simp only [hadd₂, hargs, hinc, if_true, hadd₃, pure, Except.pure]
        · exact hdq.typeOf_of_keepsTypes (hch.types.trans hch₃.types)
      · refine ⟨(q, h₂), ?_, hch₂.types, hdq.typeOf_of_keepsTypes hch₂.types⟩
        simp only [hadd₂, hargs, hinc, pure, Except.pure, Bool.false_eq_true, if_false]

theorem addSocket_spec {h : JHeap} (jargs : JPtr) (reqName : CStr) (socket : Int) :
    (needsSocket reqName → h.typeOf jargs ≠ .object →
        addSocket h jargs reqName socket = .error .notAnObject) ∧
      ((needsSocket reqName → h.typeOf jargs = .object) →
        ∃ h', addSocket h jargs reqName socket = .ok h' ∧ h.KeepsTypes h' ∧
          (needsSocket reqName → ∃ r, h'.getEx jargs (lit "socket") = some (some r) ∧
            h'.node? r = some (.int socket))) := by
  refine ⟨?_, ?_⟩
  · intro hneeds hno
    simp only [addSocket, if_pos hneeds, JHeap.objectAddNew]
    exact JHeap.objectAdd_eq_error (JHeap.typeOf_alloc_ne hno (by simp [JNode.type])) _ _
  · intro hobj
    by_cases hneeds : needsSocket reqName
    · obtain ⟨h', hadd, hch, hget⟩ := JHeap.objectAddNew_ok (hobj hneeds) (lit "socket")
        (.int socket)
      exact ⟨h', by simp only [addSocket, if_pos hneeds, hadd], hch.types, fun _ => hget⟩
    · exact ⟨h, by simp only [addSocket, if_neg hneeds, pure, Except.pure],
        JHeap.KeepsTypes.refl h, fun hn => absurd hn hneeds⟩

/-! ## The whole call -/

/-- The name a request carries: a string under `japi_request`. -/
def requestName (j : Json) : Option CStr :=
  match j.member? (lit "japi_request") with
  | some (.string s) => some (CStr.ofBytes s)
  | _ => none

theorem japiGetValueAsStr_spec (J : JsonC) {h : JHeap} {jobj : JPtr} {j : Json}
    (hd : h.Denotes jobj j) (hne : jobj ≠ none) (val : Option CStr) :
    match requestName j with
    | some name => japiGetValueAsStr J h jobj (some (lit "japi_request")) val = (0, some name)
    | none => (japiGetValueAsStr J h jobj (some (lit "japi_request")) val).1 ≠ 0 ∧
        (japiGetValueAsStr J h jobj (some (lit "japi_request")) val).2 = val := by
  have hget := hd.getEx (lit "japi_request")
  obtain ⟨r, rfl⟩ := Option.ne_none_iff_exists'.mp hne
  unfold requestName
  cases hmem : j.member? (lit "japi_request") with
  | none =>
      rw [hmem] at hget
      simp [japiGetValueAsStr, hget]
  | some v =>
      rw [hmem] at hget
      obtain ⟨q, hq, hdq⟩ := hget
      have htype := hdq.typeOf
      cases v with
      | string s =>
          obtain ⟨r', rfl⟩ : ∃ r', q = some r' := by
            cases q with
            | none => exact absurd hdq (by simp [JHeap.Denotes])
            | some r' => exact ⟨r', rfl⟩
          have hnode : h.node? r' = some (.string s) := hdq
          simp [japiGetValueAsStr, hq, htype, Json.type, JHeap.getString, hnode]
      | _ => simp [japiGetValueAsStr, hq, htype, Json.type]

/-- The type of what a request has under `args`, `NULL` if it has nothing there. -/
def argsType (j : Json) : JType := ((j.member? (lit "args")).map Json.type).getD .null

theorem type_of_requestName {j : Json} {name : CStr} (h : requestName j = some name) :
    j.type = .object := by
  cases j with
  | object ms => rfl
  | _ => cases h

theorem jsonTokenerParse_spec {J : JsonC} {request : CStr} {j : Json}
    (hparse : J.parse request = some j) (h : JHeap) :
    h.Extends (jsonTokenerParse J h request).2 ∧
      (jsonTokenerParse J h request).2.Denotes (jsonTokenerParse J h request).1 j := by
  simp only [jsonTokenerParse, hparse]
  exact JHeap.build_denotes h j

theorem responses_spec {h : JHeap} {jreq : JPtr} {j : Json} (hd : h.Denotes jreq j) :
    ∃ jresp jrespData h', (h.alloc (.object [])).1 = jresp ∧
      ((h.alloc (.object [])).2.alloc (.object [])).1 = jrespData ∧
      ((h.alloc (.object [])).2.alloc (.object [])).2 = h' ∧ h'.Denotes jreq j ∧
      h'.typeOf jresp = .object ∧ h'.typeOf jrespData = .object ∧
      (j.type = .object → jresp ≠ jreq) := by
  have hext₁ := JHeap.extends_alloc h (.object [])
  have hext₂ := JHeap.extends_alloc (h.alloc (.object [])).2 (.object [])
  refine ⟨_, _, _, rfl, rfl, rfl, (hd.mono hext₁).mono hext₂, ?_, ?_, ?_⟩
  · exact JHeap.typeOf_eq_object.mpr ⟨_, _, rfl, hext₂ _ _ (JHeap.node?_alloc h _)⟩
  · exact JHeap.typeOf_eq_object.mpr ⟨_, _, rfl, JHeap.node?_alloc _ _⟩
  · intro hobj heq
    obtain ⟨r, ms, rfl, hr⟩ := JHeap.typeOf_eq_object.mp (hd.typeOf.trans hobj)
    exact (JHeap.node?_lt hr).ne' (Option.some.inj heq)

/-- **A request with a name**: the process ends if the socket would be added to
something that is no object, or through a `NULL` handler; otherwise the handler
of the name is called, once, with the socket in its arguments if it needs it. -/
theorem japiProcessMessage_name (P : Program) (mem : Mem) (stale : Option CStr)
    (ctx : JapiContext) (h : JHeap) {request : CStr} {socket : Int} (hs : 0 ≤ socket) {j : Json}
    (hparse : P.json.parse request = some j) {name : CStr} (hname : requestName j = some name) :
    (needsSocket name → argsType j ≠ .object →
        japiProcessMessage P mem stale ctx h request socket = .error .notAnObject) ∧
      ((needsSocket name → argsType j = .object) → dispatch ctx name = none →
        japiProcessMessage P mem stale ctx h request socket = .error .nullHandler) ∧
      ((needsSocket name → argsType j = .object) → ∀ func, dispatch ctx name = some func →
        ∃ h' jargs jrespData served out, h'.typeOf jrespData = .object ∧
          (needsSocket name → ∃ r, h'.getEx jargs (lit "socket") = some (some r) ∧
            h'.node? r = some (.int socket)) ∧
          callHandler P mem.addClient ctx h' jargs jrespData func = .ok served ∧
          japiProcessMessage P mem stale ctx h request socket = .ok out ∧ out.ret = 0 ∧
          out.ctx = served.ctx ∧ out.called = [func] ∧ out.joined = served.joined) := by
  have hobj := type_of_requestName hname
  obtain ⟨-, hd⟩ := jsonTokenerParse_spec hparse h
  have hreq : (jsonTokenerParse P.json h request).1 ≠ none := by
    intro hnone
    have htype := hd.typeOf
    rw [hnone, hobj] at htype
    cases htype
  obtain ⟨jresp, jrespData, h₁, hjresp, hjdata, hh₁, hd₁, hresp, hdata, hne⟩ := responses_spec hd
  have hval := japiGetValueAsStr_spec P.json hd₁ hreq stale
  rw [hname] at hval
  obtain ⟨⟨jargs, h₂⟩, hargs, hk₂, htype⟩ := requestArgs_spec ctx hd₁ hobj hresp (hne hobj) name
  have hsock := addSocket_spec (h := h₂) jargs name socket
  have hcall : japiProcessMessage P mem stale ctx h request socket =
      (addSocket h₂ jargs name socket).bind fun h₃ =>
        match dispatch ctx name with
        | none => .error .nullHandler
        | some func => (callHandler P mem.addClient ctx h₃ jargs jrespData func).bind fun served =>
            finish P mem.ndstr served (jsonTokenerParse P.json h request).1 jresp jrespData
              [func] := by
    simp only [japiProcessMessage, hs.not_gt, if_false, hreq, hjresp, hjdata, hh₁, hval, if_true,
      Option.getD_some, hargs, bind, Except.bind]
    rfl
  refine ⟨?_, ?_, ?_⟩
  · intro hneeds hno
    rw [hcall, hsock.1 hneeds (htype ▸ hno)]
    rfl
  · intro hargsObj hnone
    obtain ⟨h₃, hadd, -⟩ := hsock.2 fun hneeds => htype.trans (hargsObj hneeds)
    rw [hcall, hadd]
    simp only [Except.bind, hnone]
  · intro hargsObj func hfunc
    obtain ⟨h₃, hadd, hk₃, hget⟩ := hsock.2 fun hneeds => htype.trans (hargsObj hneeds)
    have hk := hk₂.trans hk₃
    obtain ⟨served, hserved, hk₄⟩ :=
      callHandler_ok P mem.addClient ctx jargs (hk.object hdata) func
    obtain ⟨out, hout, hret, hctx, hcalled, hjoined⟩ := finish_ok P mem.ndstr served
      (jsonTokenerParse P.json h request).1 jrespData ((hk.trans hk₄).object hresp) [func]
    refine ⟨h₃, jargs, jrespData, served, out, hk.object hdata, hget, hserved, ?_, hret, hctx,
      hcalled, hjoined⟩
    rw [hcall, hadd]
    simp only [Except.bind, hfunc, hserved, hout]

theorem type_ne_null {J : JsonC} {h : JHeap} {text : CStr} {j : Json} (hparse : J.parse text = some j)
    (hreq : (jsonTokenerParse J h text).1 ≠ none) : j.type ≠ .null := by
  intro heq
  cases j with
  | null => exact hreq (by simp only [jsonTokenerParse, hparse, JHeap.build])
  | _ => cases heq

/-- **A request without a name**: it is refused if `json_tokener_parse` gave
`NULL` or what `req_name` held is `NULL`; otherwise it is answered as if a
handler had been called. -/
theorem japiProcessMessage_no_name (P : Program) (mem : Mem) (stale : Option CStr)
    (ctx : JapiContext) (h : JHeap) {request : CStr} {socket : Int} (hs : 0 ≤ socket) {j : Json}
    (hparse : P.json.parse request = some j) (hname : requestName j = none) :
    ∃ out, japiProcessMessage P mem stale ctx h request socket = .ok out ∧ out.ctx = ctx ∧
      out.called = [] ∧ out.joined = none ∧
      if j.type = .null ∨ stale = none then out.ret = -1 ∧ out.response = none
      else out.ret = 0 ∧ ∃ h' jresp,
        out.response = japiGetJobjAsNdstr P.json mem.ndstr h' jresp := by
  obtain ⟨-, hd⟩ := jsonTokenerParse_spec hparse h
  by_cases hreq : (jsonTokenerParse P.json h request).1 = none
  · have hnull : j.type = .null := by
      have htype := hd.typeOf
      rw [hreq] at htype
      exact htype.symm
    refine ⟨⟨ctx, (jsonTokenerParse P.json h request).2, -1, none, [], none⟩, ?_, rfl, rfl, rfl, ?_⟩
    · simp only [japiProcessMessage, hs.not_gt, if_false, hreq, if_true]
    · rw [if_pos (.inl hnull)]
      exact ⟨rfl, rfl⟩
  · have hnull := type_ne_null hparse hreq
    obtain ⟨jresp, jrespData, h₁, hjresp, hjdata, hh₁, hd₁, hresp, hdata, -⟩ := responses_spec hd
    have hval := japiGetValueAsStr_spec P.json hd₁ hreq stale
    rw [hname] at hval
    cases hstale : stale with
    | none =>
        subst hstale
        refine ⟨⟨ctx, h₁.put (jsonTokenerParse P.json h request).1, -1, none, [], none⟩, ?_, rfl,
          rfl, rfl, ?_⟩
        · simp only [japiProcessMessage, hs.not_gt, if_false, hreq, hjresp, hjdata, hh₁, hval.1,
            hval.2, if_true]
        · rw [if_pos (.inr rfl)]
          exact ⟨rfl, rfl⟩
    | some garbage =>
        subst hstale
        obtain ⟨h₂, hadd, -, -⟩ := JHeap.objectAdd_ok hresp (lit "data") jrespData
        refine ⟨⟨ctx, (h₂.put jresp).put (jsonTokenerParse P.json h request).1, 0,
          japiGetJobjAsNdstr P.json mem.ndstr h₂ jresp, [], none⟩, ?_, rfl, rfl, rfl, ?_⟩
        · simp only [japiProcessMessage, hs.not_gt, if_false, hreq, hjresp, hjdata, hh₁, hval.1,
            hval.2, reduceCtorEq, finish, hadd, bind, Except.bind, pure, Except.pure]
        · rw [if_neg (by simp [hnull])]
          exact ⟨rfl, h₂, jresp, rfl⟩

theorem japiProcessMessage_no_json (P : Program) (mem : Mem) (stale : Option CStr)
    (ctx : JapiContext) (h : JHeap) {request : CStr} {socket : Int} (hs : 0 ≤ socket)
    (hparse : P.json.parse request = none) :
    japiProcessMessage P mem stale ctx h request socket = .ok ⟨ctx, h, -1, none, [], none⟩ := by
  simp only [japiProcessMessage, hs.not_gt, if_false, jsonTokenerParse, hparse, if_true]

theorem japiProcessMessage_socket {P : Program} {mem : Mem} {stale : Option CStr}
    {ctx : JapiContext} {h : JHeap} {request : CStr} {socket : Int} {out : Outcome}
    (hout : japiProcessMessage P mem stale ctx h request socket = .ok out) : 0 ≤ socket := by
  by_contra hneg
  rw [japiProcessMessage, if_pos (by omega)] at hout
  cases hout

theorem japiProcessMessage_unnamed {P : Program} {mem : Mem} {stale : Option CStr}
    {ctx : JapiContext} {h : JHeap} {request : CStr} {socket : Int} {out : Outcome}
    (hout : japiProcessMessage P mem stale ctx h request socket = .ok out)
    (hnamed : (P.json.parse request).bind requestName = none) :
    out.ctx = ctx ∧ out.called = [] ∧ out.joined = none := by
  have hs := japiProcessMessage_socket hout
  cases hparse : P.json.parse request with
  | none =>
      rw [japiProcessMessage_no_json P mem stale ctx h hs hparse] at hout
      cases hout
      exact ⟨rfl, rfl, rfl⟩
  | some j =>
      rw [hparse] at hnamed
      obtain ⟨out', hout', hctx, hcalled, hjoined, -⟩ :=
        japiProcessMessage_no_name P mem stale ctx h hs hparse hnamed
      rw [hout] at hout'
      cases hout'
      exact ⟨hctx, hcalled, hjoined⟩

theorem japiProcessMessage_object {P : Program} {mem : Mem} {stale : Option CStr}
    {ctx : JapiContext} {h : JHeap} {request : CStr} {socket : Int} {out : Outcome}
    (hout : japiProcessMessage P mem stale ctx h request socket = .ok out) {j : Json}
    (hparse : P.json.parse request = some j) {name : CStr} (hname : requestName j = some name)
    (hneeds : needsSocket name) : argsType j = .object := by
  obtain ⟨habort, -, -⟩ := japiProcessMessage_name P mem stale ctx h
    (japiProcessMessage_socket hout) hparse hname
  by_contra hno
  rw [habort hneeds hno] at hout
  cases hout

theorem japiProcessMessage_dispatch {P : Program} {mem : Mem} {stale : Option CStr}
    {ctx : JapiContext} {h : JHeap} {request : CStr} {socket : Int} {out : Outcome}
    (hout : japiProcessMessage P mem stale ctx h request socket = .ok out) {j : Json}
    (hparse : P.json.parse request = some j) {name : CStr} (hname : requestName j = some name) :
    ∃ func, dispatch ctx name = some func := by
  obtain ⟨-, habort, -⟩ := japiProcessMessage_name P mem stale ctx h
    (japiProcessMessage_socket hout) hparse hname
  refine Option.ne_none_iff_exists'.mp fun hnone => ?_
  rw [habort (japiProcessMessage_object hout hparse hname) hnone] at hout
  cases hout

/-- **What a call that returns did**: it called nothing and left the context as
it was, or it called the handler of a name once. -/
theorem japiProcessMessage_ok {P : Program} {mem : Mem} {stale : Option CStr} {ctx : JapiContext}
    {h : JHeap} {request : CStr} {socket : Int} {out : Outcome}
    (hout : japiProcessMessage P mem stale ctx h request socket = .ok out) :
    (out.ctx = ctx ∧ out.called = [] ∧ out.joined = none) ∨
      ∃ name func h' jargs jrespData served, dispatch ctx name = some func ∧
        h'.typeOf jrespData = .object ∧
        (needsSocket name → ∃ r, h'.getEx jargs (lit "socket") = some (some r) ∧
          h'.node? r = some (.int socket)) ∧
        callHandler P mem.addClient ctx h' jargs jrespData func = .ok served ∧
        out.ctx = served.ctx ∧ out.called = [func] ∧ out.joined = served.joined := by
  have hs := japiProcessMessage_socket hout
  cases hnamed : (P.json.parse request).bind requestName with
  | none => exact .inl (japiProcessMessage_unnamed hout hnamed)
  | some name =>
      obtain ⟨j, hparse, hname⟩ := Option.bind_eq_some_iff.mp hnamed
      obtain ⟨func, hfunc⟩ := japiProcessMessage_dispatch hout hparse hname
      obtain ⟨h', jargs, jrespData, served, out', hresp, hsocket, hserved, hout', -, hctx, hcalled,
        hjoined⟩ := (japiProcessMessage_name P mem stale ctx h hs hparse hname).2.2
          (japiProcessMessage_object hout hparse hname) func hfunc
      rw [hout] at hout'
      cases hout'
      exact .inr ⟨name, func, h', jargs, jrespData, served, hfunc, hresp, hsocket, hserved, hctx,
        hcalled, hjoined⟩

end Libjapi
